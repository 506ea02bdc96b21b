import ZephyrDB.Ts.Stream

/-!
Cursors over a stream, in both directions, and the calls that read a stream
without one: the count, and the consumed watermark.

The loops of the source are bounded by what they walk over: the segment window,
the bytes of its files, the bytes of the buffer.
-/

set_option autoImplicit false

namespace ZephyrDB.Ts

open Lib

/-- `zdb_ts_window_t`. -/
structure Window where
  fromTsMs : UInt64
  toTsMs : UInt64
  deriving DecidableEq

/-- `zdb_ts_window_match`. -/
def windowMatch (window : Window) (tsMs : UInt64) : Bool :=
  if window.fromTsMs = 0 ∧ window.toTsMs = 0 then true
  else if tsMs < window.fromTsMs then false
  else if window.toTsMs ≠ 0 ∧ tsMs > window.toTsMs then false
  else true

/-- `zdb_ts_window_is_unbounded`. -/
def windowIsUnbounded (window : Window) : Bool :=
  window.fromTsMs = 0 ∧ (window.toTsMs = 0 ∨ window.toTsMs = UInt64.ofNat (2 ^ 64 - 1))

/-- `ZDB_TS_WINDOW_ALL`. -/
def Window.all : Window := ⟨0, UInt64.ofNat (2 ^ 64 - 1)⟩

theorem windowMatch_of_unbounded {w : Window} (hw : windowIsUnbounded w = true) (tsMs : UInt64) :
    windowMatch w tsMs = true := by
  obtain ⟨hfrom, hto⟩ := of_decide_eq_true hw
  unfold windowMatch
  rcases hto with hto | hto
  · simp [hfrom, hto]
  · have hle : tsMs ≤ UInt64.ofNat (2 ^ 64 - 1) := by
      have hlt := tsMs.toNat_lt
      rw [UInt64.le_iff_toNat_le]
      simp
      omega
    simpa [hfrom, hto] using hle

/-- An open file: its path, how long it was at open, and the read position. -/
structure FileHandle where
  path : Path
  size : Nat
  pos : Nat

/-- `struct zdb_ts_cursor_ctx`, with the predicate of its `zdb_cursor_t`. -/
structure CursorCtx where
  streamName : Bytes
  window : Window
  predicate : Option (Bytes → Bool)
  descending : Bool
  fileOffset : Nat
  ramOffset : Nat
  fileDone : Bool
  curSeg : Nat
  segLo : Nat
  segHi : Nat
  layout : FileLayout
  last : Option Sample
  fileSize : Nat
  file : Option FileHandle

/-- A cursor at work: its context and the application it reads from. -/
structure CurSt where
  cur : CursorCtx
  app : App

abbrev CurM (ε α : Type) := EStateM ε CurSt α

def updCur {ε : Type} (f : CursorCtx → CursorCtx) : CurM ε Unit :=
  modify fun s => { s with cur := f s.cur }

def onApp {ε α : Type} (m : AppM ε α) : CurM ε α := zoom CurSt.app (fun s a => { s with app := a }) m

def onCurEnv {ε α : Type} (m : EStateM ε Sys α) : CurM ε α := onApp (onEnv m)

/-- `zdb_ts_window_match` and `zdb_ts_predicate_match` on one record. -/
def CursorCtx.admits (c : CursorCtx) (raw : Bytes) (sample : Sample) : Bool :=
  windowMatch c.window sample.tsMs && (match c.predicate with | none => true | some p => p raw)

/-- Just past the last whole record of a file. A file shorter than its header makes the subtraction
wrap around. -/
def FileLayout.lastWhole (layout : FileLayout) (size : Nat) : Nat :=
  if layout.hdrSize ≤ size then layout.hdrSize + (size - layout.hdrSize) / layout.recSize * layout.recSize
  else
    (layout.hdrSize + (2 ^ 32 - (layout.hdrSize - size)) / layout.recSize * layout.recSize) % 2 ^ 32

/-- `fs_seek` of the cursor's file to an offset; one that is negative as `off_t` is refused. -/
def seekTo (off : Nat) : CurM Errno Unit := do
  if 2 ^ 31 ≤ off ∧ (← get).cur.fileSize < (← get).cur.layout.hdrSize then throw .EINVAL
  onCurEnv call
  updCur fun c => { c with file := c.file.map fun f => { f with pos := off } }

/-- Open the file at `path` for the cursor. -/
def cursorOpenFile (path : Path) : CurM Status Unit := do
  updCur fun c => { c with file := none }
  onCurEnv (toStatus (fsOpen path false false))
  let size := ((← get).app.env.contents path).length
  updCur fun c => { c with file := some ⟨path, size, 0⟩ }

/-- `zdb_ts_cursor_learn_layout` into the cursor, which falls back to version 1 first. -/
def cursorLearn (path : Path) : CurM Status Unit := do
  updCur fun c => { c with layout := FileLayout.v1 }
  let layout ← onCurEnv (cursorLearnLayout path)
  updCur fun c => { c with layout := layout }

/-- `fs_seek` to the end and `fs_tell`. -/
def cursorLearnSize : CurM Status Unit := do
  onCurEnv (toStatus call)
  updCur fun c => { c with fileSize := (c.file.map FileHandle.size).getD 0 }

/-- `zdb_ts_cursor_open_segment`. -/
def cursorOpenSegment (cfg : Cfg) (seq : Nat) : CurM Status Unit := do
  updCur fun c => { c with file := none }
  let name := (← get).cur.streamName
  let path ← rethrow ((buildSegmentPath cfg name seq).mapError statusFromErrno)
  cursorOpenFile path
  updCur fun c => { c with curSeg := seq }
  cursorLearn path
  if (← get).cur.descending then
    cursorLearnSize
    updCur fun c => { c with fileOffset := c.layout.lastWhole c.fileSize }
  else updCur fun c => { c with fileOffset := c.layout.hdrSize }
  toStatus (seekTo (← get).cur.fileOffset)

/-- `zdb_ts_cursor_next_segment`, at most `n` steps: a segment that cannot be opened is skipped. -/
def cursorNextSegment (cfg : Cfg) : Nat → CurM Status Unit
  | 0 => throw .ERR_NOT_FOUND
  | n + 1 => do
    let c := (← get).cur
    if (if c.descending then c.curSeg == c.segLo else c.segHi ≤ c.curSeg) then throw .ERR_NOT_FOUND
    let next := if c.descending then c.curSeg - 1 else c.curSeg + 1
    match ← attempt (ε := Status) (cursorOpenSegment cfg next) with
    | .ok _ => return ()
    | .error _ =>
      updCur fun c => { c with curSeg := next }
      cursorNextSegment cfg n

def CursorCtx.segCount (c : CursorCtx) : Nat := c.segHi - c.segLo + 1

/-- `fs_read` of one record at the file position. -/
def cursorRead : CurM Status Bytes := do
  let c := (← get).cur
  match c.file with
  | none => throw .ERR_NOT_FOUND
  | some f =>
    let raw ← onCurEnv (toStatus (fsReadHandle f.path f.size f.pos c.layout.recSize))
    updCur fun c => { c with file := some { f with pos := f.pos + raw.length } }
    return raw

/-- The read of `zdb_ts_cursor_read_file_record` in the open file; a descending cursor first steps back
one record, and has nothing left to read once the header is reached. -/
def cursorReadHere : CurM Status Bytes := do
  let c := (← get).cur
  if c.descending then
    if c.fileOffset < c.layout.hdrSize + c.layout.recSize then return []
    else
      updCur fun c => { c with fileOffset := c.fileOffset - c.layout.recSize }
      orFail Status.ERR_IO (seekTo (c.fileOffset - c.layout.recSize))
      cursorRead
  else cursorRead

/-- `zdb_ts_cursor_read_file_record`, across at most `n` files. -/
def cursorReadFileRecord (cfg : Cfg) : Nat → CurM Status Bytes
  | 0 => throw .ERR_NOT_FOUND
  | n + 1 => do
    let c := (← get).cur
    if c.file.isNone then throw .ERR_NOT_FOUND
    let raw ← cursorReadHere
    if raw.length = 0 then
      if !cfg.segmented then throw .ERR_NOT_FOUND
      orFail .ERR_NOT_FOUND (cursorNextSegment cfg c.segCount)
      cursorReadFileRecord cfg n
    else if raw.length ≠ c.layout.recSize then throw .ERR_CORRUPT
    else
      if c.descending then orFail Status.ERR_IO (seekTo (c.fileOffset - c.layout.recSize))
      else updCur fun c => { c with fileOffset := c.fileOffset + c.layout.recSize }
      return raw

/-- The file part of `zdb_cursor_next`, over at most `n` records: the next one that the window and
the predicate admit, or `none` once the files are done. -/
def cursorNextFile (cfg : Cfg) : Nat → CurM Status (Option (Bytes × Sample))
  | 0 => return none
  | n + 1 => do
    let c := (← get).cur
    if c.fileDone then return none
    else
      match ← attempt (ε := Status) (cursorReadFileRecord cfg (c.segCount + 1)) with
      | .error .ERR_NOT_FOUND =>
        updCur fun c => { c with fileDone := true }
        return none
      | .error rc => throw rc
      | .ok raw =>
        let layout := (← get).cur.layout
        match ← onCurEnv (attempt (ε := Status) (recordDecodeAs layout.version layout.baseTsMs raw)) with
        | .error .ERR_UNSUPPORTED => cursorNextFile cfg n
        | .error rc => throw rc
        | .ok sample =>
          if c.admits raw sample then
            updCur fun c => { c with last := some sample }
            return some (raw, sample)
          else cursorNextFile cfg n

/-- The loop of `zdb_ts_cursor_next_ram` over at most `n` records of the buffer. -/
def cursorNextBuf (cfg : Cfg) (slot : StreamCtx) (buf : Bytes) : Nat → CurM Status (Bytes × Sample)
  | 0 => throw .ERR_NOT_FOUND
  | n + 1 => do
    let c := (← get).cur
    let recSize := slotRecSize cfg slot
    if slot.ingestUsed < c.ramOffset + recSize then throw .ERR_NOT_FOUND
    let bufOff := if c.descending then slot.ingestUsed - c.ramOffset - recSize else c.ramOffset
    let raw := slice buf bufOff recSize
    match ← onCurEnv (attempt (ε := Status)
        (recordDecodeAs (slotVersion cfg slot) (slotBaseTs cfg slot) raw)) with
    | .error .ERR_UNSUPPORTED =>
      updCur fun c => { c with ramOffset := c.ramOffset + recSize }
      cursorNextBuf cfg slot buf n
    | .error rc => throw rc
    | .ok sample =>
      updCur fun c => { c with ramOffset := c.ramOffset + recSize }
      if c.admits raw sample then
        updCur fun c => { c with last := some sample }
        return (raw, sample)
      else cursorNextBuf cfg slot buf n

/-- `zdb_ts_cursor_next_ram`: a stream that has been closed has no buffered samples. -/
def cursorNextRam (cfg : Cfg) : CurM Status (Bytes × Sample) := do
  onApp (tsCtxGetOrAlloc cfg .ERR_INVAL)
  let s ← get
  match s.app.slotFind s.cur.streamName with
  | none => throw .ERR_NOT_FOUND
  | some i =>
    let slot := s.app.slotAt i
    match slot.ingestBuf with
    | none => throw .ERR_NOT_FOUND
    | some buf => cursorNextBuf cfg slot buf (slot.ingestUsed + 1)

def cursorFuel (cfg : Cfg) (s : CurSt) : Nat :=
  ((List.range s.cur.segCount).map fun k =>
    (s.app.env.contents (segFile cfg s.cur.streamName (s.cur.segLo + k))).length).sum

/-- `zdb_cursor_next`, with the sample `zdb_ts_cursor_next_sample` would report. -/
def cursorNext (cfg : Cfg) : CurM Status (Bytes × Sample) := do
  let s ← get
  if s.cur.descending then
    match ← attempt (ε := Status) (cursorNextRam cfg) with
    | .ok found => return found
    | .error .ERR_NOT_FOUND =>
      match ← cursorNextFile cfg (cursorFuel cfg s + 1) with
      | some found => return found
      | none => throw .ERR_NOT_FOUND
    | .error rc => throw rc
  else
    match ← cursorNextFile cfg (cursorFuel cfg s + 1) with
    | some found => return found
    | none => cursorNextRam cfg

/-- `zdb_cursor_reset`. -/
def cursorReset : CurM Status Unit := do
  updCur fun c =>
    { c with
      ramOffset := 0
      fileDone := false
      fileOffset :=
        if c.descending ∧ 0 < c.layout.recSize ∧ c.layout.hdrSize < c.fileSize
        then c.layout.lastWhole c.fileSize else c.layout.hdrSize }
  if (← get).cur.file.isSome then toStatus (seekTo (← get).cur.fileOffset)

/-- A cursor context as `zdb_ts_cursor_open_dir` fills it in before it opens a file. -/
def CursorCtx.start (name : Bytes) (window : Window) (predicate : Option (Bytes → Bool))
    (descending : Bool) (segLo segHi : Nat) : CursorCtx where
  streamName := name
  window := window
  predicate := predicate
  descending := descending
  fileOffset := hdrSizeV1
  ramOffset := 0
  fileDone := false
  curSeg := if descending then segHi else segLo
  segLo := segLo
  segHi := segHi
  layout := FileLayout.v1
  last := none
  fileSize := 0
  file := none

def withCursor {ε α : Type} (c : CursorCtx) (m : CurM ε α) : AppM ε (α × CursorCtx) := fun a =>
  match m.run ⟨c, a⟩ with
  | .ok x s => .ok (x, s.cur) s.app
  | .error r s => .error r s.app

theorem run_withCursor {ε α : Type} {m : CurM ε α} {c : CursorCtx} {a : App} {x : α} {s : CurSt}
    (h : m.run ⟨c, a⟩ = .ok x s) : (withCursor c m).run a = .ok (x, s.cur) s.app := by
  show withCursor c m a = _
  unfold withCursor
  rw [h]

theorem run_withCursor_error {ε α : Type} {m : CurM ε α} {c : CursorCtx} {a : App} {r : ε} {s : CurSt}
    (h : m.run ⟨c, a⟩ = .error r s) : (withCursor c m).run a = .error r s.app := by
  show withCursor c m a = _
  unfold withCursor
  rw [h]

/-- The part of `zdb_ts_cursor_open_dir` that opens the single file of an unsegmented stream. -/
def cursorOpenStream (cfg : Cfg) (name : Bytes) : CurM Status Unit := do
  let path ← rethrow ((buildPath cfg name).mapError statusFromErrno)
  cursorOpenFile path
  cursorLearn path
  cursorLearnSize
  updCur fun c =>
    { c with fileOffset := if c.descending then c.layout.lastWhole c.fileSize else c.layout.hdrSize }
  toStatus (seekTo (← get).cur.fileOffset)

def cursorWindow (cfg : Cfg) (name : Bytes) : AppM Status (Nat × Nat) := do
  tsCtxGetOrAlloc cfg .ERR_INVAL
  match (← get).slotFind name with
  | none => throw .ERR_INVAL
  | some i =>
    orFail .ERR_INVAL (onSlot i (scanSegments cfg))
    let slot := (← get).slotAt i
    return (slot.oldestSeg, slot.curSeg)

/-- `zdb_ts_cursor_open_dir`. -/
def cursorOpenDir (cfg : Cfg) (h : Nat) (window : Window) (predicate : Option (Bytes → Bool))
    (descending : Bool) : AppM Status CursorCtx := do
  let a ← get
  match a.handles h with
  | none => throw .ERR_INVAL
  | some name =>
    if !a.cfgSet then throw .ERR_INVAL
    if !cfg.segmented then onEnv (ensureStreamHeader cfg name)
    onEnv (orFail .ERR_NOMEM call)
    if cfg.segmented then
      let (segLo, segHi) ← cursorWindow cfg name
      let c := CursorCtx.start name window predicate descending segLo segHi
      let (_, c) ← withCursor c do
        cursorOpenSegment cfg c.curSeg
        cursorReset
      return c
    else
      let c := CursorCtx.start name window predicate descending 0 0
      let (_, c) ← withCursor c do
        cursorOpenStream cfg name
        cursorReset
      return c

/-- `n` calls of `zdb_cursor_next` in a row, with the status each one reports. -/
def cursorWalk (cfg : Cfg) : Nat → CurM Status (List (Except Status (Bytes × Sample)))
  | 0 => return []
  | n + 1 => do
    let r ← attempt (cursorNext cfg)
    let rs ← cursorWalk cfg n
    return r :: rs

/-- Open a cursor, take `n` steps with it and close it. -/
def queryCursor (cfg : Cfg) (h : Nat) (window : Window) (predicate : Option (Bytes → Bool))
    (descending : Bool) (n : Nat) : AppM Status (List (Except Status (Bytes × Sample))) := do
  let c ← cursorOpenDir cfg h window predicate descending
  return (← withCursor c (cursorWalk cfg n)).1

def countFile (path : Path) : Zdb Nat := do
  match ← attempt (fsStat path) with
  | .error _ => return 0
  | .ok size =>
    match ← attempt (ε := Status) (cursorLearnLayout path) with
    | .error _ => return 0
    | .ok layout => return (size - layout.hdrSize) / layout.recSize

/-- The segment loop of `zdb_ts_count_all`. -/
def countSegments (cfg : Cfg) (name : Bytes) : List Nat → Zdb Nat
  | [] => return 0
  | seq :: rest => do
    let path ← rethrow ((buildSegmentPath cfg name seq).mapError statusFromErrno)
    let n ← countFile path
    return n + (← countSegments cfg name rest)

/-- The single file of an unsegmented stream in `zdb_ts_count_all`; any failure but a missing file is
reported. -/
def countStream (cfg : Cfg) (name : Bytes) : Zdb Nat := do
  let path ← rethrow ((buildPath cfg name).mapError statusFromErrno)
  match ← attempt (fsStat path) with
  | .error .ENOENT => return 0
  | .error err => throw (statusFromErrno err)
  | .ok size =>
    match ← attempt (ε := Status) (cursorLearnLayout path) with
    | .error _ => return 0
    | .ok layout => return (size - layout.hdrSize) / layout.recSize

/-- `zdb_ts_count_all`. -/
def tsCountAll (cfg : Cfg) (name : Bytes) : AppM Status Nat := do
  let a ← get
  if !a.cfgSet then throw .ERR_INVAL
  let slot? := (a.slotFind name).map a.slotAt
  let flushed ←
    if cfg.segmented then
      match slot? with
      | none => throw .ERR_INVAL
      | some slot =>
        onEnv (countSegments cfg name (List.range' slot.oldestSeg (slot.curSeg + 1 - slot.oldestSeg)))
    else onEnv (countStream cfg name)
  let buffered := match slot? with
    | none => 0
    | some slot => slot.ingestUsed / slotRecSize cfg slot
  return (flushed + buffered) % 2 ^ 32

/-- The scan of `zdb_ts_query_aggregate` for COUNT, over at most `n` records. -/
def countScan (cfg : Cfg) : Nat → Nat → CurM Status Nat
  | 0, points => return points
  | n + 1, points => do
    match ← attempt (cursorNext cfg) with
    | .error .ERR_NOT_FOUND => return points
    | .error rc => throw rc
    | .ok _ => countScan cfg n ((points + 1) % 2 ^ 32)

/-- `zdb_ts_query_aggregate` for COUNT. -/
def tsQueryCount (cfg : Cfg) (h : Nat) (window : Window) : AppM Status Nat := do
  match (← get).handles h with
  | none => throw .ERR_INVAL
  | some name =>
    if windowIsUnbounded window then tsCountAll cfg name
    else
      let c ← cursorOpenDir cfg h window none false
      let a ← get
      let used := ((a.slotFind name).map fun i => (a.slotAt i).ingestUsed).getD 0
      return (← withCursor c (countScan cfg (cursorFuel cfg ⟨c, a⟩ + used + 1) 0)).1

def WMK_MAGIC : Nat := 0x5A444257
def WMK_VERSION : Nat := 1
/-- `sizeof(struct zdb_ts_watermark_rec)`. -/
def wmkSize : Nat := 20

def watermarkEncode (tsMs : UInt64) : Bytes :=
  sealed (leBytes 4 WMK_MAGIC ++ (leBytes 2 WMK_VERSION ++ (leBytes 2 0 ++ leBytes 8 tsMs.toNat)))

/-- `zdb_ts_watermark_set`. -/
def tsWatermarkSet (cfg : Cfg) (h : Nat) (consumedTsMs : UInt64) : AppM Status Unit := do
  let a ← get
  match a.handles h with
  | none => throw .ERR_INVAL
  | some name =>
    if !a.cfgSet then throw .ERR_INVAL
    tsCtxGetOrAlloc cfg .ERR_NOMEM
    toStatus (ensureStreamDir cfg)
    let path ← rethrow ((buildWatermarkPath cfg name).mapError statusFromErrno)
    onEnv (toStatus (fsOpen path true true))
    let wr ← onEnv (toStatus (fsWrite path 0 (watermarkEncode consumedTsMs)))
    if wr ≠ wmkSize then throw Status.ERR_IO

/-- `zdb_ts_watermark_get`: a short, stale or corrupt mark reads as unset. -/
def tsWatermarkGet (cfg : Cfg) (h : Nat) : AppM Status UInt64 := do
  let a ← get
  match a.handles h with
  | none => throw .ERR_INVAL
  | some name =>
    if !a.cfgSet then throw .ERR_INVAL
    let path ← rethrow ((buildWatermarkPath cfg name).mapError statusFromErrno)
    onEnv (toStatus (fsOpen path false false))
    let raw ← onEnv (toStatus (fsRead path 0 wmkSize))
    if raw.length ≠ wmkSize ∨ field raw 0 4 ≠ WMK_MAGIC ∨ field raw 4 2 ≠ WMK_VERSION then
      throw .ERR_NOT_FOUND
    if !crcOk raw 16 then throw .ERR_NOT_FOUND
    return UInt64.ofNat (field raw 8 8)

/-- `zdb_ts_watermark_clear`. -/
def tsWatermarkClear (cfg : Cfg) (h : Nat) : AppM Status Unit := do
  let a ← get
  match a.handles h with
  | none => throw .ERR_INVAL
  | some name =>
    if !a.cfgSet then throw .ERR_INVAL
    let path ← rethrow ((buildWatermarkPath cfg name).mapError statusFromErrno)
    onEnv (toStatus (unlinkIfPresent path))

end ZephyrDB.Ts
