import ZephyrDB.Lib.Noted
import ZephyrDB.Lib.Transition
import ZephyrDB.Ts.Aggregate

/-!
The calls with a trail of what they came to on the way: what they found wrong
with the stored data, where the source calls `zdb_health_check` and under the
instance lock or not, and where the count of a segment's bytes and its file may
part. The trail decides nothing: with it left out, the programs are those of
the model. A call that comes to nothing of the kind leaves no mark.
-/

set_option autoImplicit false

namespace ZephyrDB.Ts

open Lib

/-- What a program comes to. -/
inductive Mark where
  /-- `zdb_init` and `zdb_deinit`. -/
  | init | deinit
  /-- `zdb_lock_write` or `zdb_lock_read`, and the unlock. -/
  | locked | unlocked
  /-- `zdb_health_check`. -/
  | healthCheck
  /-- A stored header, or a record, that fails its magic, its checksum or its stream id. -/
  | badHeader | badRecord
  /-- A recovery run that fails. -/
  | recoveryFailed
  /-- A recovery run of `zdb_ts_open` that cut off more than the configured bound. -/
  | overCap
  /-- A flush that fails with bytes written. -/
  | uncounted
  /-- A scan that cannot size the newest segment, which holds more than its header. -/
  | unsized
  /-- A segment started whose file did not get, or does not have, a header that passes. -/
  | unstarted
  /-- A segment started in a file that holds more than its header. -/
  | occupied
  /-- A recovery run that cuts the file, and one that writes a header over what it held. -/
  | cut | rewritten
  /-- A scan that renames a file that another stream writes to. -/
  | robbed
  /-- A record counted at another size than the slot's records have, or one that ends past the block. -/
  | misfit
  /-- A format that takes effect while the buffer holds records of another. -/
  | mixed
  /-- A drain that an append asks for and does not get. -/
  | undrained
  deriving DecidableEq

/-- The marks left so far, latest first, and, inside a program on one stream, the files that the other
streams write to. -/
structure Trail where
  marks : List Mark
  others : List Path

/-- The file that a stream appends to once its segments are scanned. -/
def StreamCtx.activeFile (cfg : Cfg) (slot : StreamCtx) : Path := segmentPath cfg slot.name slot.curSeg

/-- The files that scanned streams in the slots other than `i` append to. -/
def App.others (cfg : Cfg) (a : App) (i : Nat) : List Path :=
  (((List.range ((a.tsCtx.map (·.streams.length)).getD 0)).filter (· != i)).map a.slotAt).filter (·.segsScanned)
    |>.map (StreamCtx.activeFile cfg)

namespace Trail

abbrev TrailM (σ ε α : Type) := EStateM ε (Noted σ Trail) α

def add (k : Mark) (t : Trail) : Trail := { t with marks := k :: t.marks }

def leave {σ ε : Type} (k : Mark) : TrailM σ ε Unit := note (add k)

def leaveWhen {σ ε : Type} (c : σ → Bool) (k : Mark) : TrailM σ ε Unit := noteWhen c (add k)

def orLeave {σ ε α : Type} (c : σ → Bool) (k : Mark) (m : TrailM σ ε α) : TrailM σ ε α := orNote c (add k) m

def underLock {σ ε α : Type} (m : TrailM σ ε α) : TrailM σ ε α := between (add .locked) (add .unlocked) m

def onSys {ε α : Type} (m : TrailM Sys ε α) : TrailM SlotSt ε α :=
  noting SlotSt.env (fun s e => { s with env := e }) m

def onEnv {ε α : Type} (m : TrailM Sys ε α) : TrailM App ε α := noting App.env (fun a e => { a with env := e }) m

def onSlot {ε α : Type} (cfg : Cfg) (i : Nat) (m : TrailM SlotSt ε α) : TrailM App ε α :=
  zoom (fun s => ⟨⟨s.st.slotAt i, s.st.env⟩, { s.notes with others := s.st.others cfg i }⟩)
    (fun s t => ⟨{ s.st.setSlot i t.st.slot with env := t.st.env }, { t.notes with others := s.notes.others }⟩) m

def onApp {ε α : Type} (m : TrailM App ε α) : TrailM CurSt ε α := noting CurSt.app (fun s a => { s with app := a }) m

def onCurEnv {ε α : Type} (m : TrailM Sys ε α) : TrailM CurSt ε α := onApp (onEnv m)

/-- The file is not what it was. -/
def changed (path : Path) (held : Bytes) (e : Sys) : Bool := e.contents path != held

def takesWhole (cfg : Cfg) (raw : Bytes) (recSize : Nat) (slot : StreamCtx) : Bool :=
  raw.length = recSize ∧ recSize = slotRecSize cfg slot ∧ slot.ingestUsed + recSize ≤ (slot.ingestBuf.getD []).length

def agreesWith (cfg : Cfg) (slot slot' : StreamCtx) : Bool :=
  slot.ingestUsed = 0 ∨ slotRecSize cfg slot' = slotRecSize cfg slot ∧ slotVersion cfg slot' = slotVersion cfg slot ∧
    slotBaseTs cfg slot' = slotBaseTs cfg slot

/-- `zdb_health_check`. -/
def healthCheck {ε : Type} : TrailM Sys ε Unit := do
  silent ZephyrDB.healthCheck
  leave .healthCheck

/-- `zdb_ts_record_decode`. -/
def recordDecode (raw : Bytes) : TrailM Sys Status Sample := do
  if field raw 0 4 ≠ REC_MAGIC then
    silent statCorruptRecord
    leave .badRecord
    healthCheck
    throw .ERR_CORRUPT
  if field raw 4 2 ≠ REC_VERSION then
    silent statUnsupportedVersion
    throw .ERR_UNSUPPORTED
  if !crcOk raw 24 then
    silent statCrcFailure
    silent statCorruptRecord
    leave .badRecord
    healthCheck
    throw .ERR_CORRUPT
  return ⟨UInt64.ofNat (field raw 8 8), (UInt64.ofNat (field raw 16 8)).toInt64⟩

/-- `zdb_ts_record_decode_as`. -/
def recordDecodeAs (version : Nat) (baseTsMs : UInt64) (raw : Bytes) : TrailM Sys Status Sample := do
  if version = STREAM_VERSION_V2 then
    if !crcOk raw 12 then
      silent statCrcFailure
      silent statCorruptRecord
      leave .badRecord
      healthCheck
      throw .ERR_CORRUPT
    return ⟨baseTsMs + UInt64.ofNat (field raw 0 4), (UInt64.ofNat (field raw 4 8)).toInt64⟩
  else recordDecode raw

/-- `zdb_ts_stream_header_decode`: no failure of it is followed by a health check. -/
def streamHeaderDecode (raw streamName : Bytes) : TrailM Sys Status Unit := do
  if field raw 0 4 ≠ STREAM_MAGIC then
    silent statCorruptRecord
    leave .badHeader
    throw .ERR_CORRUPT
  if field raw 4 2 ≠ STREAM_VERSION then
    silent statUnsupportedVersion
    throw .ERR_UNSUPPORTED
  if !crcOk raw 12 then
    silent statCrcFailure
    silent statCorruptRecord
    leave .badHeader
    throw .ERR_CORRUPT
  if field raw 8 4 ≠ (fnv1a32 streamName).toNat then
    silent statCorruptRecord
    leave .badHeader
    throw .ERR_CORRUPT

/-- The check of a version 2 header in `zdb_ts_ensure_header_ex`; nor is one of this. -/
def streamHeaderV2Decode (raw streamName : Bytes) : TrailM Sys Status UInt64 := do
  if field raw 0 4 ≠ STREAM_MAGIC then
    silent statCorruptRecord
    leave .badHeader
    throw .ERR_CORRUPT
  if !crcOk raw 20 then
    silent statCrcFailure
    silent statCorruptRecord
    leave .badHeader
    throw .ERR_CORRUPT
  if field raw 8 4 ≠ (fnv1a32 streamName).toNat then
    silent statCorruptRecord
    leave .badHeader
    throw .ERR_CORRUPT
  return UInt64.ofNat (field raw 12 8)

/-- `zdb_ts_ensure_header_ex`. -/
def ensureHeaderEx (cfg : Cfg) (streamName : Bytes) (path : Path) (newBaseTsMs : UInt64) :
    TrailM Sys Status (Nat × UInt64) := do
  silent (toStatus (fsOpen path true false))
  let raw ← silent (toStatus (fsRead path 0 hdrSizeV2))
  if raw.length = 0 then
    let (hdr, version, baseTs) := newHeader cfg streamName newBaseTsMs
    silent (toStatus call)
    let wr ← silent (toStatus (fsWrite path 0 hdr))
    if wr ≠ hdr.length then throw Status.ERR_IO
    return (version, baseTs)
  else if raw.length < hdrSizeV1 then throw .ERR_CORRUPT
  else if field raw 4 2 = STREAM_VERSION_V2 then
    if raw.length < hdrSizeV2 then throw .ERR_CORRUPT
    let baseTs ← streamHeaderV2Decode raw streamName
    return (STREAM_VERSION_V2, baseTs)
  else
    streamHeaderDecode raw streamName
    return (field raw 4 2, 0)

/-- `zdb_ts_ensure_stream_header`. -/
def ensureStreamHeader (cfg : Cfg) (name : Bytes) : TrailM Sys Status Unit := do
  let path ← rethrow ((buildPath cfg name).mapError statusFromErrno)
  let _ ← ensureHeaderEx cfg name path 0

/-- The branch of `zdb_ts_scan_segments` for a stream without segments. -/
def adoptLegacy (cfg : Cfg) (name : Bytes) : TrailM Sys Status Unit := do
  let legacyPath ← rethrow ((buildPath cfg name).mapError statusFromErrno)
  let segPath ← rethrow ((buildSegmentPath cfg name 0).mapError statusFromErrno)
  match ← silent (attempt (fsStat legacyPath)) with
  | .ok _ =>
    silent (toStatus (fsRename legacyPath segPath))
    note fun t => if legacyPath ∈ t.others then t.add .robbed else t
  | .error _ => return ()

def learnFormat {ε : Type} (cfg : Cfg) (version : Nat) (baseTsMs : UInt64) : TrailM SlotSt ε Unit := do
  leaveWhen (fun s => !agreesWith cfg s.slot (s.slot.setFormat version baseTsMs)) .mixed
  silent (updSlot fun s => s.setFormat version baseTsMs)

def storeRecord {ε : Type} (cfg : Cfg) (raw : Bytes) (recSize : Nat) : TrailM SlotSt ε Unit := do
  leaveWhen (fun s => !takesWhole cfg raw recSize s.slot) .misfit
  silent (updSlot fun s => s.store raw recSize)

/-- The rest of `zdb_ts_scan_segments`, once the window is known. -/
def learnNewest (cfg : Cfg) (name : Bytes) (lowest highest : Nat) : TrailM SlotSt Status Unit := do
  silent (updSlot fun s => { s with oldestSeg := lowest, curSeg := highest })
  let segPath ← rethrow ((buildSegmentPath cfg name highest).mapError statusFromErrno)
  let (version, baseTs) ← onSys (ensureHeaderEx cfg name segPath 0)
  learnFormat cfg version baseTs
  let size ← silent (Ts.onSys (attempt (fsStat segPath)))
  leaveWhen (fun s => !size.isOk && (s.env.contents segPath).length != hdrSizeFor version) .unsized
  silent (updSlot fun s => { s with curSegBytes := size.toOption.getD 0 - s.segHdrSize, segsScanned := true })

/-- `zdb_ts_scan_segments`. -/
def scanSegments (cfg : Cfg) : TrailM SlotSt Status Unit := do
  let slot ← silent getSlot
  if slot.segsScanned then return ()
  else
    if PATH_MAX ≤ (tsDir cfg).length then throw .ERR_INVAL
    let entries ← silent (Ts.onSys (attempt (fsList (tsDir cfg))))
    let seqs := scanned slot.name (entries.toOption.getD [])
    if seqs.isEmpty then
      onSys (adoptLegacy cfg slot.name)
      learnNewest cfg slot.name 0 0
    else learnNewest cfg slot.name (seqs.foldl min (2 ^ 32 - 1)) (seqs.foldl max 0)

/-- The rest of `zdb_ts_start_segment`, once the number is taken. -/
def openSegment (cfg : Cfg) (baseTsMs : UInt64) : TrailM SlotSt Errno Unit := do
  let slot ← silent getSlot
  let segPath ← orLeave (fun _ => true) .unstarted (rethrow (buildSegmentPath cfg slot.name slot.curSeg))
  let (version, baseTs) ←
    orLeave (fun _ => true) .unstarted (onSys (orFail Errno.EIO (ensureHeaderEx cfg slot.name segPath baseTsMs)))
  leaveWhen (fun s => (s.env.contents segPath).length != hdrSizeFor version) .occupied
  learnFormat cfg version baseTs
  if cfg.rollover then silent (discardSegments cfg (slot.curSeg - slot.oldestSeg + 1))

/-- `zdb_ts_start_segment`. -/
def startSegment (cfg : Cfg) (baseTsMs : UInt64) : TrailM SlotSt Errno Unit := do
  silent (updSlot fun s => { s with curSeg := s.curSeg + 1, curSegBytes := 0 })
  openSegment cfg baseTsMs

/-- `zdb_ts_roll_segment_if_full`. -/
def rollSegmentIfFull (cfg : Cfg) : TrailM SlotSt Errno Unit := do
  let slot ← silent getSlot
  if cfg.segmentBytes ≤ slot.curSegBytes then startSegment cfg slot.segBaseTsMs

/-- `zdb_ts_active_path`. -/
def activePath (cfg : Cfg) : TrailM SlotSt Errno Path := do
  if cfg.segmented then
    orFail Errno.EIO (scanSegments cfg)
    let slot ← silent getSlot
    rethrow (buildSegmentPath cfg slot.name slot.curSeg)
  else
    let slot ← silent getSlot
    rethrow (buildPath cfg slot.name)

/-- The write of `zdb_ts_flush_buffer_locked`. -/
def writeBuffer (cfg : Cfg) (buf : Bytes) (used : Nat) : TrailM SlotSt Errno Unit := do
  let path ← activePath cfg
  silent (Ts.onSys (fsOpen path true false))
  let held := (← get).st.env.contents path
  let wr ← orLeave (fun s => changed path held s.env) .uncounted (silent (Ts.onSys (fsAppend path (buf.take used))))
  if wr ≠ used then
    leaveWhen (fun s => changed path held s.env) .uncounted
    throw Errno.EIO
  orLeave (fun s => changed path held s.env) .uncounted (silent (Ts.onSys call))
  silent (updSlot fun s =>
    { s with
      curSegBytes := if cfg.segmented then s.curSegBytes + used else s.curSegBytes
      ingestUsed := 0 })

/-- `zdb_ts_flush_buffer_locked`. -/
def flushBufferLocked (cfg : Cfg) : TrailM SlotSt Errno Unit := do
  let slot ← silent getSlot
  if !slot.inUse then throw .EINVAL
  match slot.ingestBuf with
  | none => throw .EINVAL
  | some buf =>
    if slot.ingestUsed ≠ 0 then
      writeBuffer cfg buf slot.ingestUsed
      if cfg.segmented then rollSegmentIfFull cfg

def rebaseRecord (cfg : Cfg) (sample : Sample) : TrailM SlotSt Status Nat := do
  if !cfg.segmented then throw .ERR_INVAL
  toStatus (flushBufferLocked cfg)
  toStatus (startSegment cfg sample.tsMs)
  let slot ← silent getSlot
  match slotEncode cfg slot sample with
  | none => throw .ERR_INVAL
  | some raw =>
    storeRecord cfg raw (slotRecSize cfg slot)
    return slotRecSize cfg slot

def encodeRecord (cfg : Cfg) (sample : Sample) (recSize : Nat) : TrailM SlotSt Status Nat := do
  let slot ← silent getSlot
  match slotEncode cfg slot sample with
  | some raw =>
    storeRecord cfg raw recSize
    return recSize
  | none => rebaseRecord cfg sample

def appendRecord (cfg : Cfg) (sample : Sample) : TrailM SlotSt Status Nat := do
  let slot ← silent getSlot
  let recSize := slotRecSize cfg slot
  if slot.ingestCapacity < recSize || slot.ingestBuf.isNone then throw .ERR_NOMEM
  if slot.ingestCapacity < slot.ingestUsed + recSize then toStatus (flushBufferLocked cfg)
  encodeRecord cfg sample recSize

/-- The loop of `zdb_ts_append_batch_i64`. -/
def appendRecords (cfg : Cfg) : List Sample → TrailM SlotSt Status Unit
  | [] => return ()
  | sample :: samples => do
    let _ ← appendRecord cfg sample
    appendRecords cfg samples

/-- The loop of `zdb_ts_recover_stream`. -/
def recoverWalk (layout : FileLayout) (path : Path) : Nat → Nat → TrailM Sys Status (Nat × Nat)
  | 0, goodEnd => return (goodEnd, goodEnd)
  | fuel + 1, goodEnd => do
    let raw ← silent (toStatus (fsRead path goodEnd layout.recSize))
    if raw.length ≠ layout.recSize then return (goodEnd, goodEnd + raw.length)
    else
      match ← attempt (recordDecodeAs layout.version 0 raw) with
      | .ok _ => recoverWalk layout path fuel (goodEnd + layout.recSize)
      | .error _ => return (goodEnd, goodEnd + raw.length)

/-- `zdb_ts_recover_stream` once it has the path of the newest file. -/
def recoverFile (streamName : Bytes) (path : Path) : TrailM Sys Status Nat := do
  let layout ← silent (probeLayout path)
  silent (toStatus (fsOpen path true false))
  let hdr ← silent (toStatus (fsRead path 0 hdrSizeV1))
  if hdr.length = 0 then
    silent (toStatus call)
    let held := (← get).st.contents path
    let wr ← orLeave (changed path held) .rewritten (silent (toStatus (fsWrite path 0 (streamHeaderEncode streamName))))
    leaveWhen (changed path held) .rewritten
    if wr ≠ hdrSizeV1 then throw Status.ERR_IO
    return 0
  else
    if hdr.length ≠ hdrSizeV1 then throw .ERR_CORRUPT
    if layout.hdrSize = hdrSizeV1 then streamHeaderDecode hdr streamName
    silent (toStatus call)
    let fuel := ((← get).st.contents path).length + 1
    let (goodEnd, endPos) ← recoverWalk layout path fuel layout.hdrSize
    silent (toStatus call)
    if goodEnd < endPos then
      silent (toStatus (fsTruncate path goodEnd))
      leave .cut
      silent (statRecoverTruncated (endPos - goodEnd))
    return endPos - goodEnd

/-- The path `zdb_ts_recover_stream` works on. -/
def recoverPath (cfg : Cfg) (name : Bytes) : TrailM App Status Path := do
  if cfg.segmented then
    silent (tsCtxGetOrAlloc cfg .ERR_INVAL)
    match (← get).st.slotFind name with
    | none => throw .ERR_INVAL
    | some i => toStatus (onSlot cfg i (activePath cfg))
  else
    if !(← get).st.cfgSet then throw .ERR_INVAL
    rethrow ((buildPath cfg name).mapError statusFromErrno)

/-- `zdb_ts_recover_stream`. -/
def recoverStream (cfg : Cfg) (name : Bytes) : TrailM App Status Nat := do
  silent (Ts.onEnv statRecoverRun)
  let body : TrailM App Status Nat := do
    let path ← recoverPath cfg name
    onEnv (recoverFile name path)
  match ← attempt body with
  | .ok truncated => return truncated
  | .error status =>
    silent (Ts.onEnv statRecoverFailure)
    leave .recoveryFailed
    onEnv healthCheck
    throw status

/-- The recovery pass of `zdb_ts_open`: what it makes of the cap is followed by no health check. -/
def openRecover (cfg : Cfg) (name : Bytes) : TrailM App Status Unit := do
  match ← attempt (recoverStream cfg name) with
  | .error status =>
    silent (Ts.onEnv statRecoverFailure)
    throw status
  | .ok truncated =>
    if 0 < cfg.maxRecoveryTruncateBytes ∧ cfg.maxRecoveryTruncateBytes < truncated then
      silent (Ts.onEnv statRecoverFailure)
      leave .overCap
      throw .ERR_CORRUPT

/-- `zdb_ts_open`. -/
def tsOpen (cfg : Cfg) (h : Nat) (name : Bytes) : TrailM App Status Unit := do
  if !streamNameValid cfg name then throw .ERR_INVAL
  if !(← get).st.cfgSet then throw .ERR_INVAL
  silent (tsCtxGetOrAlloc cfg .ERR_NOMEM)
  silent (toStatus (ensureStreamDir cfg))
  if !cfg.segmented then onEnv (ensureStreamHeader cfg name)
  silent (slotClaim cfg name)
  silent (modify fun a => a.bind h (some name))
  if cfg.autoRecoverOnOpen then openRecover cfg name

/-- The first half of `zdb_ts_close`. -/
def closeFlush (cfg : Cfg) (name : Bytes) : TrailM App Status Unit := do
  let s ← get
  match s.st.slotFind name with
  | none => return ()
  | some i => if (s.st.slotAt i).openCount ≤ 1 then toStatus (onSlot cfg i (flushBufferLocked cfg))

/-- `zdb_ts_close`; the release, which the source makes under the lock too, comes to nothing. -/
def tsClose (cfg : Cfg) (h : Nat) : TrailM App Status Unit := do
  match (← get).st.handles h with
  | none => return ()
  | some name =>
    let status ← attempt (underLock (closeFlush cfg name))
    match (← get).st.slotFind name with
    | none => pure ()
    | some i => silent (slotRelease i)
    silent (modify fun a => a.bind h none)
    rethrow status

def appendFlush (cfg : Cfg) (h i recSize : Nat) : TrailM App Status Unit :=
  orLeave (fun _ => true) .undrained (silent (Ts.appendFlush cfg h i recSize))

/-- `zdb_ts_append_i64`. -/
def tsAppendI64 (cfg : Cfg) (h : Nat) (sample : Sample) : TrailM App Status Unit := do
  match (← get).st.handles h with
  | none => throw .ERR_INVAL
  | some name =>
    silent (tsCtxGetOrAlloc cfg .ERR_INVAL)
    match (← get).st.slotFind name with
    | none => throw .ERR_INVAL
    | some i =>
      let recSize ← underLock (onSlot cfg i (appendRecord cfg sample))
      appendFlush cfg h i recSize

/-- `zdb_ts_append_batch_i64`. -/
def tsAppendBatchI64 (cfg : Cfg) (h : Nat) (samples : List Sample) : TrailM App Status Unit := do
  match (← get).st.handles h with
  | none => throw .ERR_INVAL
  | some name =>
    if samples.isEmpty then throw .ERR_INVAL
    silent (tsCtxGetOrAlloc cfg .ERR_INVAL)
    match (← get).st.slotFind name with
    | none => throw .ERR_INVAL
    | some i =>
      underLock (onSlot cfg i (appendRecords cfg samples))
      let slot := (← get).st.slotAt i
      if slot.ingestCapacity < slot.ingestUsed + slotRecSize cfg slot then
        let _ ← silent (attempt (ε := Status) (tsFlushAsync cfg h))

/-- One round of `zdb_ts_flush_all_locked`. -/
def flushSlot (cfg : Cfg) (i : Nat) : TrailM App Status Unit := do
  let slot := (← get).st.slotAt i
  if slot.inUse && slot.ingestUsed != 0 then
    let _ ← attempt (ε := Errno) (onSlot cfg i (flushBufferLocked cfg))

def flushSlots (cfg : Cfg) : List Nat → TrailM App Status Unit
  | [] => return ()
  | i :: rest => do
    flushSlot cfg i
    flushSlots cfg rest

/-- `zdb_ts_flush_all_locked`. -/
def flushAllLocked (cfg : Cfg) : TrailM App Status Unit := do
  let s ← get
  flushSlots cfg (List.range ((s.st.tsCtx.map (·.streams.length)).getD 0))

/-- `zdb_ts_flush_work_handler`. -/
def flushWorkHandler (cfg : Cfg) : TrailM App Status Unit := do
  if (← get).st.pending then
    underLock (flushAllLocked cfg)
    silent (modify fun a => a.setPending false)

/-- `zdb_ts_flush_sync` without a timeout. -/
def tsFlushSync (cfg : Cfg) (h : Nat) : TrailM App Status Unit := do
  if ((← get).st.handles h).isNone then throw .ERR_INVAL
  silent (tsCtxGetOrAlloc cfg .ERR_INTERNAL)
  match ← silent (attempt (tsFlushAsync cfg h)) with
  | .ok _ => flushWorkHandler cfg
  | .error .ERR_BUSY => flushWorkHandler cfg
  | .error status => throw status

/-- `zdb_ts_recover_stream` on a handle. -/
def tsRecoverStream (cfg : Cfg) (h : Nat) : TrailM App Status Nat := do
  match (← get).st.handles h with
  | none => throw .ERR_INVAL
  | some name => recoverStream cfg name

/-- `zdb_init`, which starts the verdict anew. -/
def init : TrailM App Status Unit := do
  leave .init
  silent Ts.init

/-- `zdb_deinit`. -/
def deinit : TrailM App Status Unit := do
  leave .deinit
  silent Ts.deinit

/-- The file part of `zdb_cursor_next`, outside the lock. -/
def cursorNextFile (cfg : Cfg) : Nat → TrailM CurSt Status (Option (Bytes × Sample))
  | 0 => return none
  | n + 1 => do
    let c := (← get).st.cur
    if c.fileDone then return none
    else
      match ← silent (attempt (ε := Status) (cursorReadFileRecord cfg (c.segCount + 1))) with
      | .error .ERR_NOT_FOUND =>
        silent (updCur fun c => { c with fileDone := true })
        return none
      | .error rc => throw rc
      | .ok raw =>
        let layout := (← get).st.cur.layout
        match ← onCurEnv (attempt (ε := Status) (recordDecodeAs layout.version layout.baseTsMs raw)) with
        | .error .ERR_UNSUPPORTED => cursorNextFile cfg n
        | .error rc => throw rc
        | .ok sample =>
          if c.admits raw sample then
            silent (updCur fun c => { c with last := some sample })
            return some (raw, sample)
          else cursorNextFile cfg n

/-- The loop of `zdb_ts_cursor_next_ram`. -/
def cursorNextBuf (cfg : Cfg) (slot : StreamCtx) (buf : Bytes) : Nat → TrailM CurSt Status (Bytes × Sample)
  | 0 => throw .ERR_NOT_FOUND
  | n + 1 => do
    let c := (← get).st.cur
    let recSize := slotRecSize cfg slot
    if slot.ingestUsed < c.ramOffset + recSize then throw .ERR_NOT_FOUND
    let bufOff := if c.descending then slot.ingestUsed - c.ramOffset - recSize else c.ramOffset
    let raw := slice buf bufOff recSize
    match ← onCurEnv (attempt (ε := Status)
        (recordDecodeAs (slotVersion cfg slot) (slotBaseTs cfg slot) raw)) with
    | .error .ERR_UNSUPPORTED =>
      silent (updCur fun c => { c with ramOffset := c.ramOffset + recSize })
      cursorNextBuf cfg slot buf n
    | .error rc => throw rc
    | .ok sample =>
      silent (updCur fun c => { c with ramOffset := c.ramOffset + recSize })
      if c.admits raw sample then
        silent (updCur fun c => { c with last := some sample })
        return (raw, sample)
      else cursorNextBuf cfg slot buf n

/-- `zdb_ts_cursor_next_ram`: its loop runs under the lock. -/
def cursorNextRam (cfg : Cfg) : TrailM CurSt Status (Bytes × Sample) := do
  silent (Ts.onApp (tsCtxGetOrAlloc cfg .ERR_INVAL))
  let s ← get
  match s.st.app.slotFind s.st.cur.streamName with
  | none => throw .ERR_NOT_FOUND
  | some i =>
    let slot := s.st.app.slotAt i
    match slot.ingestBuf with
    | none => throw .ERR_NOT_FOUND
    | some buf => underLock (cursorNextBuf cfg slot buf (slot.ingestUsed + 1))

/-- `zdb_cursor_next`. -/
def cursorNext (cfg : Cfg) : TrailM CurSt Status (Bytes × Sample) := do
  let s ← get
  if s.st.cur.descending then
    match ← attempt (ε := Status) (cursorNextRam cfg) with
    | .ok found => return found
    | .error .ERR_NOT_FOUND =>
      match ← cursorNextFile cfg (cursorFuel cfg s.st + 1) with
      | some found => return found
      | none => throw .ERR_NOT_FOUND
    | .error rc => throw rc
  else
    match ← cursorNextFile cfg (cursorFuel cfg s.st + 1) with
    | some found => return found
    | none => cursorNextRam cfg

def withCursor {ε α : Type} (c : CursorCtx) (m : TrailM CurSt ε α) : TrailM App ε (α × CursorCtx) :=
  zoom (fun s => ⟨⟨c, s.st⟩, s.notes⟩) (fun _ t => ⟨t.st.app, t.notes⟩) do
    let x ← m
    return (x, (← get).st.cur)

def cursorWindow (cfg : Cfg) (name : Bytes) : TrailM App Status (Nat × Nat) := do
  silent (tsCtxGetOrAlloc cfg .ERR_INVAL)
  match (← get).st.slotFind name with
  | none => throw .ERR_INVAL
  | some i =>
    orFail .ERR_INVAL (onSlot cfg i (scanSegments cfg))
    let slot := (← get).st.slotAt i
    return (slot.oldestSeg, slot.curSeg)

/-- `zdb_ts_cursor_open_dir`. -/
def cursorOpenDir (cfg : Cfg) (h : Nat) (window : Window) (predicate : Option (Bytes → Bool))
    (descending : Bool) : TrailM App Status CursorCtx := do
  let s ← get
  match s.st.handles h with
  | none => throw .ERR_INVAL
  | some name =>
    if !s.st.cfgSet then throw .ERR_INVAL
    if !cfg.segmented then onEnv (ensureStreamHeader cfg name)
    silent (Ts.onEnv (orFail .ERR_NOMEM call))
    if cfg.segmented then
      let (segLo, segHi) ← cursorWindow cfg name
      let c := CursorCtx.start name window predicate descending segLo segHi
      let (_, c) ← silent (Ts.withCursor c do
        cursorOpenSegment cfg c.curSeg
        cursorReset)
      return c
    else
      let c := CursorCtx.start name window predicate descending 0 0
      let (_, c) ← silent (Ts.withCursor c do
        cursorOpenStream cfg name
        cursorReset)
      return c

/-- `n` calls of `zdb_cursor_next` in a row. -/
def cursorWalk (cfg : Cfg) : Nat → TrailM CurSt Status (List (Except Status (Bytes × Sample)))
  | 0 => return []
  | n + 1 => do
    let r ← attempt (cursorNext cfg)
    let rs ← cursorWalk cfg n
    return r :: rs

/-- Open a cursor, take `n` steps with it and close it. -/
def queryCursor (cfg : Cfg) (h : Nat) (window : Window) (predicate : Option (Bytes → Bool))
    (descending : Bool) (n : Nat) : TrailM App Status (List (Except Status (Bytes × Sample))) := do
  let c ← cursorOpenDir cfg h window predicate descending
  return (← withCursor c (cursorWalk cfg n)).1

/-- The scan of `zdb_ts_query_aggregate` for COUNT. -/
def countScan (cfg : Cfg) : Nat → Nat → TrailM CurSt Status Nat
  | 0, points => return points
  | n + 1, points => do
    match ← attempt (cursorNext cfg) with
    | .error .ERR_NOT_FOUND => return points
    | .error rc => throw rc
    | .ok _ => countScan cfg n ((points + 1) % 2 ^ 32)

/-- `zdb_ts_query_aggregate` for COUNT. -/
def tsQueryCount (cfg : Cfg) (h : Nat) (window : Window) : TrailM App Status Nat := do
  match (← get).st.handles h with
  | none => throw .ERR_INVAL
  | some name =>
    if windowIsUnbounded window then silent (tsCountAll cfg name)
    else
      let c ← cursorOpenDir cfg h window none false
      let a := (← get).st
      let used := ((a.slotFind name).map fun i => (a.slotAt i).ingestUsed).getD 0
      return (← withCursor c (countScan cfg (cursorFuel cfg ⟨c, a⟩ + used + 1) 0)).1

/-- The scan of `zdb_ts_query_aggregate`. -/
def aggScan (cfg : Cfg) (agg : Agg) : Nat → Nat × Float → TrailM CurSt Status (Nat × Float)
  | 0, acc => return acc
  | n + 1, acc => do
    match ← attempt (cursorNext cfg) with
    | .error .ERR_NOT_FOUND => return acc
    | .error rc => throw rc
    | .ok (_, sample) => aggScan cfg agg n (aggUpdate agg sample.value.toFloat acc)

def aggPeek (cfg : Cfg) (cap : Nat) (acc : Nat × Float) : TrailM CurSt Status ((Nat × Float) × Bool) := do
  if acc.1 = cap then
    match ← attempt (ε := Status) (cursorNext cfg) with
    | .ok _ => return (acc, true)
    | .error _ => return (acc, false)
  else return (acc, false)

/-- `zdb_ts_query_aggregate`. -/
def tsQueryAggregate (cfg : Cfg) (cap : AggCap) (h : Nat) (window : Window) (agg : Agg) : TrailM App Status AggResult := do
  if agg = .COUNT then
    let points ← tsQueryCount cfg h window
    return ⟨agg, Float.ofNat points, points, false⟩
  else
    let c ← cursorOpenDir cfg h window none false
    let (((points, acc), truncated), _) ← withCursor c do
      let acc ← aggScan cfg agg cap.val (0, 0)
      aggPeek cfg cap.val acc
    if points = 0 then throw .ERR_NOT_FOUND
    return ⟨agg, if agg = .AVG then acc / Float.ofNat points else acc, points, truncated⟩

def op (cfg : Cfg) : Op → TrailM App Status Unit
  | .init => init
  | .deinit => deinit
  | .open h name => tsOpen cfg h name
  | .close h => tsClose cfg h
  | .append h sample => tsAppendI64 cfg h sample
  | .batch h samples => tsAppendBatchI64 cfg h samples
  | .flushAsync h => silent (tsFlushAsync cfg h)
  | .flushSync h => tsFlushSync cfg h
  | .drain => flushWorkHandler cfg
  | .recover h => do let _ ← tsRecoverStream cfg h
  | .count h window => do let _ ← tsQueryCount cfg h window
  | .cursor h window predicate descending n => do let _ ← queryCursor cfg h window predicate descending n

def markOp (cfg : Cfg) : MarkOp → TrailM App Status Unit
  | .set h tsMs => silent (tsWatermarkSet cfg h tsMs)
  | .get h => do let _ ← silent (tsWatermarkGet cfg h)
  | .clear h => silent (tsWatermarkClear cfg h)

end Trail

/-- A call of a run; live cursors go by the order in which they were opened. -/
inductive HostCall where
  | op (op : Op)
  | mark (op : MarkOp)
  | aggregate (h : Nat) (window : Window) (agg : Agg)
  | openCursor (h : Nat) (window : Window) (predicate : Option (Bytes → Bool)) (descending : Bool)
  | next (k : Nat)
  | reset (k : Nat)
  | close (k : Nat)

/-- The application with the cursors it has opened; none where one has been closed. -/
structure Host where
  app : App
  cursors : List (Option CursorCtx)

/-- How a call ends: its status, what it came to, latest first, and the application afterwards. -/
structure Course where
  status : Status
  marks : List Mark
  host : Host

namespace Host

/-- A program of the application, as a call. -/
def call {α : Type} (m : Trail.TrailM App Status α) (w : Host) : Course :=
  let t := post m ⟨w.app, ⟨[], []⟩⟩
  ⟨statusOf (outcome m ⟨w.app, ⟨[], []⟩⟩), t.notes.marks, { w with app := t.st }⟩

/-- A program on the cursor numbered `k`, as a call. -/
def onCursor {α : Type} (m : Trail.TrailM CurSt Status α) (w : Host) (k : Nat) (c : CursorCtx) : Course :=
  let t := post m ⟨⟨c, w.app⟩, ⟨[], []⟩⟩
  ⟨statusOf (outcome m ⟨⟨c, w.app⟩, ⟨[], []⟩⟩), t.notes.marks, ⟨t.st.app, w.cursors.set k (some t.st.cur)⟩⟩

def step (cfg : Cfg) (cap : AggCap) (w : Host) : HostCall → Course
  | .op op => w.call (Trail.op cfg op)
  | .mark op => w.call (Trail.markOp cfg op)
  | .aggregate h window agg => w.call (Trail.tsQueryAggregate cfg cap h window agg)
  | .openCursor h window predicate descending =>
    let m := Trail.cursorOpenDir cfg h window predicate descending
    let r := w.call m
    match outcome m ⟨w.app, ⟨[], []⟩⟩ with
    | .ok c => { r with host := { r.host with cursors := r.host.cursors ++ [some c] } }
    | .error _ => r
  | .next k =>
    match w.cursors[k]? with
    | some (some c) => w.onCursor (Trail.cursorNext cfg) k c
    | _ => ⟨.ERR_UNSUPPORTED, [], w⟩
  | .reset k =>
    match w.cursors[k]? with
    | some (some c) => w.onCursor (silent cursorReset) k c
    | _ => ⟨.ERR_UNSUPPORTED, [], w⟩
  | .close k => ⟨.OK, [], { w with cursors := w.cursors.set k none }⟩

/-- An application that has called `zdb_init` and nothing else, on a file system in any state. -/
def boot (env : Sys) : Host := ⟨App.boot env, []⟩

end Host

end ZephyrDB.Ts
