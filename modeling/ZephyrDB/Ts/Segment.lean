import ZephyrDB.Ts.Record
import ZephyrDB.Ts.Path

/-!
One open stream: its ingest buffer, its segment window, and the operations
that move records from the buffer to the newest segment.

The programs here run on one slot of the core context together with the file
system. `(void)`-cast calls whose result the source drops, such as closing a
file that was read, are left out.
-/

set_option autoImplicit false

namespace ZephyrDB.Ts

open Lib

/-- `struct zdb_ts_stream_ctx`. The source counts `oldestSeg` and `curSeg` in `uint32_t`: a listing
reads four digits, so a scan leaves both below 10000, and every new segment adds one. The numbers here
are the source's as long as fewer than `2 ^ 32 - 10000` segments have been started since the scan. -/
structure StreamCtx where
  name : Bytes
  ingestBuf : Option Bytes
  ingestCapacity : Nat
  ingestUsed : Nat
  openCount : Nat
  inUse : Bool
  oldestSeg : Nat
  curSeg : Nat
  curSegBytes : Nat
  segsScanned : Bool
  segVersion : Nat
  segHdrSize : Nat
  segRecSize : Nat
  segBaseTsMs : UInt64

/-- A slot after `memset`. -/
def StreamCtx.zero : StreamCtx where
  name := []
  ingestBuf := none
  ingestCapacity := 0
  ingestUsed := 0
  openCount := 0
  inUse := false
  oldestSeg := 0
  curSeg := 0
  curSegBytes := 0
  segsScanned := false
  segVersion := 0
  segHdrSize := 0
  segRecSize := 0
  segBaseTsMs := 0

structure SlotSt where
  slot : StreamCtx
  env : Sys

abbrev SlotM (ε α : Type) := EStateM ε SlotSt α

def getSlot {ε : Type} : SlotM ε StreamCtx := do return (← get).slot

def updSlot {ε : Type} (f : StreamCtx → StreamCtx) : SlotM ε Unit :=
  modify fun s => { s with slot := f s.slot }

def onSys {ε α : Type} (m : EStateM ε Sys α) : SlotM ε α :=
  zoom SlotSt.env (fun s e => { s with env := e }) m

/-- The layout of one file, as `zdb_ts_cursor_learn_layout` reports it. -/
structure FileLayout where
  hdrSize : Nat
  recSize : Nat
  baseTsMs : UInt64

def FileLayout.v1 : FileLayout := ⟨hdrSizeV1, recSizeV1, 0⟩

/-- `zdb_ts_cursor_learn_layout`. A file too short for a header, and one whose read fails, count as
version 1. -/
def cursorLearnLayout (path : Path) : Zdb FileLayout := do
  toStatus (fsOpen path false false)
  match ← attempt (fsRead path 0 hdrSizeV2) with
  | .error _ => return FileLayout.v1
  | .ok raw =>
    if raw.length < hdrSizeV1 then return FileLayout.v1
    else if field raw 4 2 ≠ STREAM_VERSION_V2 then return FileLayout.v1
    else if raw.length < hdrSizeV2 then throw .ERR_CORRUPT
    else return ⟨hdrSizeV2, recSizeV2, UInt64.ofNat (field raw 12 8)⟩

/-- `zdb_ts_slot_rec_size`. -/
def slotRecSize (cfg : Cfg) (slot : StreamCtx) : Nat :=
  if cfg.segmented && slot.segRecSize != 0 then slot.segRecSize else recSizeV1

/-- `zdb_ts_slot_version`. -/
def slotVersion (cfg : Cfg) (slot : StreamCtx) : Nat :=
  if cfg.segmented && slot.segVersion != 0 then slot.segVersion else STREAM_VERSION

/-- `zdb_ts_slot_base_ts`. -/
def slotBaseTs (cfg : Cfg) (slot : StreamCtx) : UInt64 :=
  if cfg.segmented then slot.segBaseTsMs else 0

def newHeader (cfg : Cfg) (streamName : Bytes) (baseTsMs : UInt64) : Bytes × Nat × UInt64 :=
  if cfg.delta then (streamHeaderV2Encode streamName baseTsMs, STREAM_VERSION_V2, baseTsMs)
  else (streamHeaderEncode streamName, STREAM_VERSION, 0)

/-- `zdb_ts_ensure_header_ex`: writes a header into an empty file, or checks the one that is there;
reports version and base. -/
def ensureHeaderEx (cfg : Cfg) (streamName : Bytes) (path : Path) (newBaseTsMs : UInt64) :
    Zdb (Nat × UInt64) := do
  toStatus (fsOpen path true false)
  let raw ← toStatus (fsRead path 0 hdrSizeV2)
  if raw.length = 0 then
    let (hdr, version, baseTs) := newHeader cfg streamName newBaseTsMs
    toStatus call
    let wr ← toStatus (fsWrite path 0 hdr)
    if wr ≠ hdr.length then throw Status.ERR_IO
    return (version, baseTs)
  else if raw.length < hdrSizeV1 then throw .ERR_CORRUPT
  else if field raw 4 2 = STREAM_VERSION_V2 then
    if raw.length < hdrSizeV2 then throw .ERR_CORRUPT
    let baseTs ← streamHeaderV2Decode raw streamName
    return (STREAM_VERSION_V2, baseTs)
  else
    streamHeaderDecode raw streamName
    return (field raw 4 2, 0)

def StreamCtx.setFormat (slot : StreamCtx) (version : Nat) (baseTsMs : UInt64) : StreamCtx :=
  { slot with
    segVersion := version
    segHdrSize := hdrSizeFor version
    segRecSize := recSizeFor version
    segBaseTsMs := baseTsMs }

/-- The branch of `zdb_ts_scan_segments` for a stream without segments: a single-file stream is
renamed to be segment 0. -/
def adoptLegacy (cfg : Cfg) (name : Bytes) : Zdb Unit := do
  let legacyPath ← rethrow ((buildPath cfg name).mapError statusFromErrno)
  let segPath ← rethrow ((buildSegmentPath cfg name 0).mapError statusFromErrno)
  match ← attempt (fsStat legacyPath) with
  | .ok _ => toStatus (fsRename legacyPath segPath)
  | .error _ => return ()

/-- The rest of `zdb_ts_scan_segments`, once the window is known: the newest segment's header and
size. -/
def learnNewest (cfg : Cfg) (name : Bytes) (lowest highest : Nat) : SlotM Status Unit := do
  updSlot fun s => { s with oldestSeg := lowest, curSeg := highest }
  let segPath ← rethrow ((buildSegmentPath cfg name highest).mapError statusFromErrno)
  let (version, baseTs) ← onSys (ensureHeaderEx cfg name segPath 0)
  updSlot fun s => s.setFormat version baseTs
  let size ← onSys (attempt (fsStat segPath))
  updSlot fun s => { s with curSegBytes := size.toOption.getD 0 - s.segHdrSize, segsScanned := true }

def scanned (name : Bytes) (entries : List Bytes) : List Nat := entries.filterMap (segSeq name)

/-- `zdb_ts_scan_segments`: an unreadable directory counts as an empty one. -/
def scanSegments (cfg : Cfg) : SlotM Status Unit := do
  let slot ← getSlot
  if slot.segsScanned then return ()
  else
    if PATH_MAX ≤ (tsDir cfg).length then throw .ERR_INVAL
    let entries ← onSys (attempt (fsList (tsDir cfg)))
    let seqs := scanned slot.name (entries.toOption.getD [])
    if seqs.isEmpty then
      onSys (adoptLegacy cfg slot.name)
      learnNewest cfg slot.name 0 0
    else learnNewest cfg slot.name (seqs.foldl min (2 ^ 32 - 1)) (seqs.foldl max 0)

/-- `fs_unlink` of a file that may be gone already. -/
def unlinkIfPresent (path : Path) : Rc Unit := do
  match ← attempt (fsUnlink path) with
  | .ok _ => return ()
  | .error .ENOENT => return ()
  | .error err => throw err

/-- One segment of the loop of `zdb_ts_start_segment`; a build with events sizes it before it goes. -/
def discardSegment (cfg : Cfg) (segPath : Path) : Rc Unit := do
  if cfg.eventing then
    let _ ← attempt (ε := Errno) (fsStat segPath)
  unlinkIfPresent segPath

/-- That loop, at most `n` times round. -/
def discardSegments (cfg : Cfg) : Nat → SlotM Errno Unit
  | 0 => return ()
  | n + 1 => do
    let slot ← getSlot
    if slot.curSeg - slot.oldestSeg + 1 > cfg.maxSegments then
      let segPath ← rethrow (buildSegmentPath cfg slot.name slot.oldestSeg)
      onSys (discardSegment cfg segPath)
      updSlot fun s => { s with oldestSeg := s.oldestSeg + 1 }
      discardSegments cfg n

/-- The rest of `zdb_ts_start_segment`, once the number is taken. -/
def openSegment (cfg : Cfg) (baseTsMs : UInt64) : SlotM Errno Unit := do
  let slot ← getSlot
  let segPath ← rethrow (buildSegmentPath cfg slot.name slot.curSeg)
  let (version, baseTs) ← onSys (orFail Errno.EIO (ensureHeaderEx cfg slot.name segPath baseTsMs))
  updSlot fun s => s.setFormat version baseTs
  if cfg.rollover then discardSegments cfg (slot.curSeg - slot.oldestSeg + 1)

/-- `zdb_ts_start_segment`. -/
def startSegment (cfg : Cfg) (baseTsMs : UInt64) : SlotM Errno Unit := do
  updSlot fun s => { s with curSeg := s.curSeg + 1, curSegBytes := 0 }
  openSegment cfg baseTsMs

/-- `zdb_ts_roll_segment_if_full`: the base is carried forward. -/
def rollSegmentIfFull (cfg : Cfg) : SlotM Errno Unit := do
  let slot ← getSlot
  if cfg.segmentBytes ≤ slot.curSegBytes then startSegment cfg slot.segBaseTsMs

/-- `zdb_ts_active_path`. -/
def activePath (cfg : Cfg) : SlotM Errno Path := do
  if cfg.segmented then
    orFail Errno.EIO (scanSegments cfg)
    let slot ← getSlot
    rethrow (buildSegmentPath cfg slot.name slot.curSeg)
  else
    let slot ← getSlot
    rethrow (buildPath cfg slot.name)

/-- The write of `zdb_ts_flush_buffer_locked`: append the used part of the buffer to the active
file. -/
def writeBuffer (cfg : Cfg) (buf : Bytes) (used : Nat) : SlotM Errno Unit := do
  let path ← activePath cfg
  onSys (fsOpen path true false)
  let wr ← onSys (fsAppend path (buf.take used))
  if wr ≠ used then throw Errno.EIO
  onSys call
  updSlot fun s =>
    { s with
      curSegBytes := if cfg.segmented then s.curSegBytes + used else s.curSegBytes
      ingestUsed := 0 }

/-- `zdb_ts_flush_buffer_locked`: rolls after writing, so a flush never spans two segments. -/
def flushBufferLocked (cfg : Cfg) : SlotM Errno Unit := do
  let slot ← getSlot
  if !slot.inUse then throw .EINVAL
  match slot.ingestBuf with
  | none => throw .EINVAL
  | some buf =>
    if slot.ingestUsed ≠ 0 then
      writeBuffer cfg buf slot.ingestUsed
      if cfg.segmented then rollSegmentIfFull cfg

/-- Encode at the end of the buffer's used part and count `recSize` bytes as used. What would land
past the end of the block is not kept. -/
def StreamCtx.store (slot : StreamCtx) (raw : Bytes) (recSize : Nat) : StreamCtx :=
  { slot with
    ingestBuf := slot.ingestBuf.map fun b => (writeAt b slot.ingestUsed raw).take b.length
    ingestUsed := slot.ingestUsed + recSize }

def slotEncode (cfg : Cfg) (slot : StreamCtx) (sample : Sample) : Option Bytes :=
  recordEncodeAs (slotVersion cfg slot) (slotBaseTs cfg slot) sample

def rebaseRecord (cfg : Cfg) (sample : Sample) : SlotM Status Nat := do
  if !cfg.segmented then throw .ERR_INVAL
  toStatus (flushBufferLocked cfg)
  toStatus (startSegment cfg sample.tsMs)
  let slot ← getSlot
  match slotEncode cfg slot sample with
  | none => throw .ERR_INVAL
  | some raw =>
    updSlot fun s => s.store raw (slotRecSize cfg slot)
    return slotRecSize cfg slot

/-- Encode a sample at the end of the buffer, as a record of `recSize` bytes; one that the slot's
format cannot express takes the rebase. -/
def encodeRecord (cfg : Cfg) (sample : Sample) (recSize : Nat) : SlotM Status Nat := do
  let slot ← getSlot
  match slotEncode cfg slot sample with
  | some raw =>
    updSlot fun s => s.store raw recSize
    return recSize
  | none => rebaseRecord cfg sample

/-- What `zdb_ts_append_i64` and the loop of `zdb_ts_append_batch_i64` do with one sample. The record
size is read before the buffer is flushed to make room, and not again after it; it is reported
because the caller decides with it whether to queue a flush. -/
def appendRecord (cfg : Cfg) (sample : Sample) : SlotM Status Nat := do
  let slot ← getSlot
  let recSize := slotRecSize cfg slot
  if slot.ingestCapacity < recSize || slot.ingestBuf.isNone then throw .ERR_NOMEM
  if slot.ingestCapacity < slot.ingestUsed + recSize then toStatus (flushBufferLocked cfg)
  encodeRecord cfg sample recSize

end ZephyrDB.Ts
