import ZephyrDB.Lib.Noted
import ZephyrDB.Lib.Transition
import ZephyrDB.Ts.Aggregate
import Mathlib.Data.Multiset.Count
import Mathlib.Data.Multiset.Range

/-!
The blocks of the cursor slab and the files that are open, beside the programs
that take and release them. Every `fs_open` and `fs_close`, every allocation
and every free of the source is a note; with the notes left out, the programs
are those of the cursor model. An open that fails gives back what it took, but
for one exit: the rewind it ends with.
-/

set_option autoImplicit false

namespace ZephyrDB.Ts

open Lib

/-- Whose `struct fs_file_t` an open file is: that of a cursor's block, or one on the stack of a call. -/
inductive Owner where
  | block (n : Nat)
  | stack
  deriving DecidableEq

/-- The blocks of `cursor_slab` that are allocated, and the files that are open. -/
structure Pool where
  taken : Multiset Nat
  files : Multiset Owner

namespace Pool

abbrev PoolM (σ ε α : Type) := EStateM ε (Noted σ Pool) α

/-- An `fs_open` that has succeeded. -/
def opened (o : Owner) (p : Pool) : Pool := { p with files := o ::ₘ p.files }

/-- `fs_close`: the file is released whatever the call answers. -/
def closed (o : Owner) (p : Pool) : Pool := { p with files := p.files.erase o }

def freed (b : Nat) (p : Pool) : Pool := { p with taken := p.taken.erase b }

def undoStack {σ : Type} (s : Noted σ Pool) : Noted σ Pool := { s with notes := s.notes.closed .stack }

/-- `k_mem_slab_free`. -/
def release {σ : Type} (b : Nat) (s : Noted σ Pool) : Noted σ Pool := { s with notes := s.notes.freed b }

/-- `k_mem_slab_alloc` from a slab of `count` blocks, without waiting. -/
def slabAlloc (count : Nat) : PoolM App Status Nat := do
  silent (Ts.onEnv (orFail .ERR_NOMEM call))
  let taken := (← get).notes.taken
  match (List.range count).find? fun b => b ∉ taken with
  | none => throw .ERR_NOMEM
  | some b =>
    note fun p => { p with taken := b ::ₘ p.taken }
    return b

def onSys {ε α : Type} (m : PoolM Sys ε α) : PoolM SlotSt ε α :=
  noting SlotSt.env (fun s e => { s with env := e }) m

def onEnv {ε α : Type} (m : PoolM Sys ε α) : PoolM App ε α := noting App.env (fun a e => { a with env := e }) m

def onSlot {ε α : Type} (i : Nat) (m : PoolM SlotSt ε α) : PoolM App ε α :=
  noting (fun a => ⟨a.slotAt i, a.env⟩) (fun a s => { a.setSlot i s.slot with env := s.env }) m

def onApp {ε α : Type} (m : PoolM App ε α) : PoolM CurSt ε α := noting CurSt.app (fun s a => { s with app := a }) m

/-- `zdb_ts_cursor_learn_layout`. -/
def cursorLearnLayout (path : Path) : PoolM Sys Status FileLayout := do
  silent (toStatus (fsOpen path false false))
  note (opened .stack)
  let rd ← silent (attempt (fsRead path 0 hdrSizeV2))
  note (closed .stack)
  match rd with
  | .error _ => return FileLayout.v1
  | .ok raw =>
    if raw.length < hdrSizeV1 then return FileLayout.v1
    else if field raw 4 2 ≠ STREAM_VERSION_V2 then return FileLayout.v1
    else if raw.length < hdrSizeV2 then throw .ERR_CORRUPT
    else return ⟨hdrSizeV2, recSizeV2, UInt64.ofNat (field raw 12 8)⟩

/-- `zdb_ts_ensure_header_ex`: the file is closed before anything in it is judged. -/
def ensureHeaderEx (cfg : Cfg) (streamName : Bytes) (path : Path) (newBaseTsMs : UInt64) :
    PoolM Sys Status (Nat × UInt64) := do
  silent (toStatus (fsOpen path true false))
  note (opened .stack)
  let raw ← orUndo undoStack (silent (toStatus (fsRead path 0 hdrSizeV2)))
  if raw.length = 0 then
    let (hdr, version, baseTs) := newHeader cfg streamName newBaseTsMs
    orUndo undoStack (silent (toStatus call))
    let wr ← orUndo undoStack (silent (toStatus (fsWrite path 0 hdr)))
    note (closed .stack)
    if wr ≠ hdr.length then throw Status.ERR_IO
    return (version, baseTs)
  else
    note (closed .stack)
    if raw.length < hdrSizeV1 then throw .ERR_CORRUPT
    else if field raw 4 2 = STREAM_VERSION_V2 then
      if raw.length < hdrSizeV2 then throw .ERR_CORRUPT
      let baseTs ← silent (streamHeaderV2Decode raw streamName)
      return (STREAM_VERSION_V2, baseTs)
    else
      silent (streamHeaderDecode raw streamName)
      return (field raw 4 2, 0)

/-- `zdb_ts_ensure_stream_header`. -/
def ensureStreamHeader (cfg : Cfg) (name : Bytes) : PoolM Sys Status Unit := do
  let path ← rethrow ((buildPath cfg name).mapError statusFromErrno)
  let _ ← ensureHeaderEx cfg name path 0

/-- The rest of `zdb_ts_scan_segments`, once the window is known. -/
def learnNewest (cfg : Cfg) (name : Bytes) (lowest highest : Nat) : PoolM SlotSt Status Unit := do
  silent (updSlot fun s => { s with oldestSeg := lowest, curSeg := highest })
  let segPath ← rethrow ((buildSegmentPath cfg name highest).mapError statusFromErrno)
  let (version, baseTs) ← onSys (ensureHeaderEx cfg name segPath 0)
  silent (updSlot fun s => s.setFormat version baseTs)
  let size ← silent (Ts.onSys (attempt (fsStat segPath)))
  silent (updSlot fun s => { s with curSegBytes := size.toOption.getD 0 - s.segHdrSize, segsScanned := true })

/-- `zdb_ts_scan_segments`. -/
def scanSegments (cfg : Cfg) : PoolM SlotSt Status Unit := do
  let slot ← silent getSlot
  if slot.segsScanned then return ()
  else
    if PATH_MAX ≤ (tsDir cfg).length then throw .ERR_INVAL
    let entries ← silent (Ts.onSys (attempt (fsList (tsDir cfg))))
    let seqs := scanned slot.name (entries.toOption.getD [])
    if seqs.isEmpty then
      silent (Ts.onSys (adoptLegacy cfg slot.name))
      learnNewest cfg slot.name 0 0
    else learnNewest cfg slot.name (seqs.foldl min (2 ^ 32 - 1)) (seqs.foldl max 0)

def countFile (path : Path) : PoolM Sys Status Nat := do
  match ← silent (attempt (fsStat path)) with
  | .error _ => return 0
  | .ok size =>
    match ← attempt (ε := Status) (cursorLearnLayout path) with
    | .error _ => return 0
    | .ok layout => return (size - layout.hdrSize) / layout.recSize

/-- The segment loop of `zdb_ts_count_all`. -/
def countSegments (cfg : Cfg) (name : Bytes) : List Nat → PoolM Sys Status Nat
  | [] => return 0
  | seq :: rest => do
    let path ← rethrow ((buildSegmentPath cfg name seq).mapError statusFromErrno)
    let n ← countFile path
    return n + (← countSegments cfg name rest)

/-- The single file of an unsegmented stream in `zdb_ts_count_all`. -/
def countStream (cfg : Cfg) (name : Bytes) : PoolM Sys Status Nat := do
  let path ← rethrow ((buildPath cfg name).mapError statusFromErrno)
  match ← silent (attempt (fsStat path)) with
  | .error .ENOENT => return 0
  | .error err => throw (statusFromErrno err)
  | .ok size =>
    match ← attempt (ε := Status) (cursorLearnLayout path) with
    | .error _ => return 0
    | .ok layout => return (size - layout.hdrSize) / layout.recSize

/-- `zdb_ts_count_all`. -/
def tsCountAll (cfg : Cfg) (name : Bytes) : PoolM App Status Nat := do
  let a := (← get).st
  if !a.cfgSet then throw .ERR_INVAL
  let slot? := (a.slotFind name).map a.slotAt
  let flushed ←
    if cfg.segmented then
      match slot? with
      | none => throw .ERR_INVAL
      | some slot =>
        onEnv (countSegments cfg name (List.range' slot.oldestSeg (slot.curSeg + 1 - slot.oldestSeg)))
    else onEnv (countStream cfg name)
  let buffered := match slot? with
    | none => 0
    | some slot => slot.ingestUsed / slotRecSize cfg slot
  return (flushed + buffered) % 2 ^ 32

/-- `fs_close` of the cursor's file, where one is open. -/
def dropFile (b : Nat) (s : Noted CurSt Pool) : Noted CurSt Pool where
  st := { s.st with cur := { s.st.cur with file := none } }
  notes := if s.st.cur.file.isSome then s.notes.closed (.block b) else s.notes

/-- Open the file at `path` for the cursor in block `b`. -/
def cursorOpenFile (b : Nat) (path : Path) : PoolM CurSt Status Unit := do
  silent (updCur fun c => { c with file := none })
  silent (onCurEnv (toStatus (fsOpen path false false)))
  let size := ((← get).st.app.env.contents path).length
  modify fun s =>
    ⟨{ s.st with cur := { s.st.cur with file := some ⟨path, size, 0⟩ } }, s.notes.opened (.block b)⟩

/-- `zdb_ts_cursor_learn_layout` into the cursor. -/
def cursorLearn (path : Path) : PoolM CurSt Status Unit := do
  silent (updCur fun c => { c with layout := FileLayout.v1 })
  let layout ← onApp (onEnv (cursorLearnLayout path))
  silent (updCur fun c => { c with layout := layout })

/-- `zdb_ts_cursor_open_segment`: what goes wrong once the file is open leaves it open. -/
def cursorOpenSegment (cfg : Cfg) (b seq : Nat) : PoolM CurSt Status Unit := do
  modify (dropFile b)
  let name := (← get).st.cur.streamName
  let path ← rethrow ((buildSegmentPath cfg name seq).mapError statusFromErrno)
  cursorOpenFile b path
  silent (updCur fun c => { c with curSeg := seq })
  cursorLearn path
  if (← get).st.cur.descending then
    silent cursorLearnSize
    silent (updCur fun c => { c with fileOffset := c.layout.lastWhole c.fileSize })
  else silent (updCur fun c => { c with fileOffset := c.layout.hdrSize })
  silent (toStatus (seekTo (← get).st.cur.fileOffset))

/-- `zdb_ts_cursor_next_segment`, at most `n` steps. -/
def cursorNextSegment (cfg : Cfg) (b : Nat) : Nat → PoolM CurSt Status Unit
  | 0 => throw .ERR_NOT_FOUND
  | n + 1 => do
    let c := (← get).st.cur
    if (if c.descending then c.curSeg == c.segLo else c.segHi ≤ c.curSeg) then throw .ERR_NOT_FOUND
    let next := if c.descending then c.curSeg - 1 else c.curSeg + 1
    match ← attempt (ε := Status) (cursorOpenSegment cfg b next) with
    | .ok _ => return ()
    | .error _ =>
      silent (updCur fun c => { c with curSeg := next })
      cursorNextSegment cfg b n

/-- `zdb_ts_cursor_read_file_record`, across at most `n` files. -/
def cursorReadFileRecord (cfg : Cfg) (b : Nat) : Nat → PoolM CurSt Status Bytes
  | 0 => throw .ERR_NOT_FOUND
  | n + 1 => do
    let c := (← get).st.cur
    if c.file.isNone then throw .ERR_NOT_FOUND
    let raw ← silent cursorReadHere
    if raw.length = 0 then
      if !cfg.segmented then throw .ERR_NOT_FOUND
      orFail .ERR_NOT_FOUND (cursorNextSegment cfg b c.segCount)
      cursorReadFileRecord cfg b n
    else if raw.length ≠ c.layout.recSize then throw .ERR_CORRUPT
    else
      if c.descending then silent (orFail Status.ERR_IO (seekTo (c.fileOffset - c.layout.recSize)))
      else silent (updCur fun c => { c with fileOffset := c.fileOffset + c.layout.recSize })
      return raw

/-- The file part of `zdb_cursor_next`, over at most `n` records. -/
def cursorNextFile (cfg : Cfg) (b : Nat) : Nat → PoolM CurSt Status (Option (Bytes × Sample))
  | 0 => return none
  | n + 1 => do
    let c := (← get).st.cur
    if c.fileDone then return none
    else
      match ← attempt (ε := Status) (cursorReadFileRecord cfg b (c.segCount + 1)) with
      | .error .ERR_NOT_FOUND =>
        silent (updCur fun c => { c with fileDone := true })
        return none
      | .error rc => throw rc
      | .ok raw =>
        let layout := (← get).st.cur.layout
        match ← silent (onCurEnv (attempt (ε := Status) (recordDecodeAs layout.version layout.baseTsMs raw))) with
        | .error .ERR_UNSUPPORTED => cursorNextFile cfg b n
        | .error rc => throw rc
        | .ok sample =>
          if c.admits raw sample then
            silent (updCur fun c => { c with last := some sample })
            return some (raw, sample)
          else cursorNextFile cfg b n

/-- `zdb_cursor_next`. -/
def cursorNext (cfg : Cfg) (b : Nat) : PoolM CurSt Status (Bytes × Sample) := do
  let s := (← get).st
  if s.cur.descending then
    match ← silent (attempt (ε := Status) (cursorNextRam cfg)) with
    | .ok found => return found
    | .error .ERR_NOT_FOUND =>
      match ← cursorNextFile cfg b (cursorFuel cfg s + 1) with
      | some found => return found
      | none => throw .ERR_NOT_FOUND
    | .error rc => throw rc
  else
    match ← cursorNextFile cfg b (cursorFuel cfg s + 1) with
    | some found => return found
    | none => silent (cursorNextRam cfg)

/-- `zdb_cursor_close` of the cursor in block `b`. -/
def cursorClose (b : Nat) (c : CursorCtx) (p : Pool) : Pool :=
  (if c.file.isSome then p.closed (.block b) else p).freed b

def undoOpen (b : Nat) (s : Noted CurSt Pool) : Noted CurSt Pool :=
  { s with notes := cursorClose b s.st.cur s.notes }

def withCursor {ε α : Type} (c : CursorCtx) (m : PoolM CurSt ε α) : PoolM App ε (α × CursorCtx) := fun s =>
  match m.run ⟨⟨c, s.st⟩, s.notes⟩ with
  | .ok x t => .ok (x, t.st.cur) ⟨t.st.app, t.notes⟩
  | .error r t => .error r ⟨t.st.app, t.notes⟩

/-- The part of `zdb_ts_cursor_open_dir` that opens the single file of an unsegmented stream. -/
def cursorOpenStream (cfg : Cfg) (b : Nat) (name : Bytes) : PoolM CurSt Status Unit := do
  let path ← orUndo (release b) (rethrow ((buildPath cfg name).mapError statusFromErrno))
  orUndo (release b) (cursorOpenFile b path)
  orUndo (undoOpen b) (cursorLearn path)
  orUndo (undoOpen b) (silent cursorLearnSize)
  silent (updCur fun c =>
    { c with fileOffset := if c.descending then c.layout.lastWhole c.fileSize else c.layout.hdrSize })
  orUndo (undoOpen b) (silent (toStatus (seekTo (← get).st.cur.fileOffset)))

def cursorWindow (cfg : Cfg) (name : Bytes) : PoolM App Status (Nat × Nat) := do
  silent (tsCtxGetOrAlloc cfg .ERR_INVAL)
  match (← get).st.slotFind name with
  | none => throw .ERR_INVAL
  | some i =>
    orFail .ERR_INVAL (onSlot i (scanSegments cfg))
    let slot := (← get).st.slotAt i
    return (slot.oldestSeg, slot.curSeg)

/-- `zdb_ts_cursor_open_dir` from the allocation as far as its last line. -/
def cursorPlace (cfg : Cfg) (count : Nat) (name : Bytes) (window : Window) (predicate : Option (Bytes → Bool))
    (descending : Bool) : PoolM App Status (Nat × CursorCtx) := do
  let b ← slabAlloc count
  if cfg.segmented then
    let (segLo, segHi) ← orUndo (release b) (cursorWindow cfg name)
    let c := CursorCtx.start name window predicate descending segLo segHi
    let (_, c) ← withCursor c (orUndo (undoOpen b) (cursorOpenSegment cfg b c.curSeg))
    return (b, c)
  else
    let c := CursorCtx.start name window predicate descending 0 0
    let (_, c) ← withCursor c (cursorOpenStream cfg b name)
    return (b, c)

/-- `zdb_ts_cursor_open_dir` as far as its last line. -/
def cursorAcquire (cfg : Cfg) (count h : Nat) (window : Window) (predicate : Option (Bytes → Bool))
    (descending : Bool) : PoolM App Status (Nat × CursorCtx) := do
  let a := (← get).st
  match a.handles h with
  | none => throw .ERR_INVAL
  | some name =>
    if !a.cfgSet then throw .ERR_INVAL
    if !cfg.segmented then onEnv (ensureStreamHeader cfg name)
    cursorPlace cfg count name window predicate descending

/-- `zdb_ts_cursor_open_dir`: the rewind on its last line gives nothing back when it fails. -/
def cursorOpenDir (cfg : Cfg) (count h : Nat) (window : Window) (predicate : Option (Bytes → Bool))
    (descending : Bool) : PoolM App Status (Nat × CursorCtx) := do
  let (b, c) ← cursorAcquire cfg count h window predicate descending
  let (_, c) ← withCursor c (silent cursorReset)
  return (b, c)

/-- The scan of `zdb_ts_query_aggregate` for COUNT, over at most `n` records. -/
def countScan (cfg : Cfg) (b : Nat) : Nat → Nat → PoolM CurSt Status Nat
  | 0, points => return points
  | n + 1, points => do
    match ← attempt (cursorNext cfg b) with
    | .error .ERR_NOT_FOUND => return points
    | .error rc => throw rc
    | .ok _ => countScan cfg b n ((points + 1) % 2 ^ 32)

/-- The scan for the aggregates that bear a value, over at most `n` records. -/
def aggScan (cfg : Cfg) (b : Nat) (agg : Agg) : Nat → Nat × Float → PoolM CurSt Status (Nat × Float)
  | 0, acc => return acc
  | n + 1, acc => do
    match ← attempt (cursorNext cfg b) with
    | .error .ERR_NOT_FOUND => return acc
    | .error rc => throw rc
    | .ok (_, sample) => aggScan cfg b agg n (aggUpdate agg sample.value.toFloat acc)

def aggPeek (cfg : Cfg) (b cap : Nat) (acc : Nat × Float) : PoolM CurSt Status ((Nat × Float) × Bool) := do
  if acc.1 = cap then
    match ← attempt (ε := Status) (cursorNext cfg b) with
    | .ok _ => return (acc, true)
    | .error _ => return (acc, false)
  else return (acc, false)

/-- The scan and the close of `zdb_ts_query_aggregate`: every way out of the scan closes the cursor. -/
def scanClosing {α : Type} (b : Nat) (c : CursorCtx) (m : PoolM CurSt Status α) : PoolM App Status α := do
  let (r, c) ← withCursor c (attempt (ε := Status) m)
  note (cursorClose b c)
  rethrow r

/-- `zdb_ts_query_aggregate`, from the open of its cursor to the close: the scan is given the block and
the cursor it starts from. -/
def cursorScan {α : Type} (cfg : Cfg) (count h : Nat) (window : Window) (scan : Nat → CurSt → PoolM CurSt Status α) :
    PoolM App Status α := do
  let (b, c) ← cursorOpenDir cfg count h window none false
  let s ← get
  scanClosing b c (scan b ⟨c, s.st⟩)

def countPoints (cfg : Cfg) (name : Bytes) (b : Nat) (s : CurSt) : PoolM CurSt Status Nat :=
  let used := ((s.app.slotFind name).map fun i => (s.app.slotAt i).ingestUsed).getD 0
  countScan cfg b (cursorFuel cfg s + used + 1) 0

/-- `zdb_ts_query_aggregate`. -/
def tsQueryAggregate (cfg : Cfg) (cap : AggCap) (count h : Nat) (window : Window) (agg : Agg) :
    PoolM App Status AggResult := do
  let a := (← get).st
  match a.handles h with
  | none => throw .ERR_INVAL
  | some name =>
    if agg = .COUNT then
      let points ←
        if windowIsUnbounded window then tsCountAll cfg name
        else cursorScan cfg count h window (countPoints cfg name)
      return ⟨agg, Float.ofNat points, points, false⟩
    else
      let ((points, acc), truncated) ← cursorScan cfg count h window fun b _ => do
        let acc ← aggScan cfg b agg cap.val (0, 0)
        aggPeek cfg b cap.val acc
      if points = 0 then throw .ERR_NOT_FOUND
      return ⟨agg, if agg = .AVG then acc / Float.ofNat points else acc, points, truncated⟩

end Pool

/-- The calls that take or give back a cursor or read with one, by the number of the handle or of the
cursor. -/
inductive CursorOp where
  | open (h : Nat) (window : Window) (predicate : Option (Bytes → Bool)) (descending : Bool)
  | aggregate (h : Nat) (window : Window) (agg : Agg)
  | next (k : Nat)
  | close (k : Nat)

/-- The application with its pool, and the cursors that opens have handed out, each with its block;
none where a cursor has been closed. -/
structure Desk where
  sys : Noted App Pool
  cursors : List (Option (Nat × CursorCtx))

namespace Desk

/-- The cursors whose open returned `ZDB_OK` and that have not been closed. -/
def live (d : Desk) : List (Nat × CursorCtx) := d.cursors.filterMap id

def statusOf {α : Type} : Except Status α → Status
  | .ok _ => .OK
  | .error rc => rc

def step (cfg : Cfg) (cap : AggCap) (count : Nat) (d : Desk) : CursorOp → Status × Desk
  | .open h window predicate descending =>
    let m := Pool.cursorOpenDir cfg count h window predicate descending
    match outcome m d.sys with
    | .ok x => (.OK, ⟨post m d.sys, d.cursors ++ [some x]⟩)
    | .error rc => (rc, ⟨post m d.sys, d.cursors⟩)
  | .aggregate h window agg =>
    let m := Pool.tsQueryAggregate cfg cap count h window agg
    (statusOf (outcome m d.sys), ⟨post m d.sys, d.cursors⟩)
  | .next k =>
    match d.cursors[k]? with
    | some (some (b, c)) =>
      let s : Noted CurSt Pool := ⟨⟨c, d.sys.st⟩, d.sys.notes⟩
      let t := post (Pool.cursorNext cfg b) s
      (statusOf (outcome (Pool.cursorNext cfg b) s),
        ⟨⟨t.st.app, t.notes⟩, d.cursors.set k (some (b, t.st.cur))⟩)
    | _ => (.ERR_UNSUPPORTED, d)
  | .close k =>
    match d.cursors[k]? with
    | some (some (b, c)) => (.OK, ⟨{ d.sys with notes := Pool.cursorClose b c d.sys.notes }, d.cursors.set k none⟩)
    | _ => (.OK, d)

/-- Nothing is allocated and open but what the live cursors hold. -/
structure Settled (d : Desk) : Prop where
  blocks : d.sys.notes.taken.card = d.live.length
  owned : ∀ f ∈ d.sys.notes.files, ∃ x ∈ d.live, f = .block x.1
  single : ∀ x ∈ d.live, d.sys.notes.files.count (.block x.1) ≤ 1

def Rewinds (cfg : Cfg) (count : Nat) (s : Noted App Pool) (h : Nat) (window : Window)
    (predicate : Option (Bytes → Bool)) (descending : Bool) : Prop :=
  Yields (Pool.cursorAcquire cfg count h window predicate descending) s (fun _ t => ¬ t.st.env.fault.Fails)
    fun _ _ => True

/-- A call that opens a cursor can rewind it. -/
def Allows (cfg : Cfg) (count : Nat) (d : Desk) : CursorOp → Prop
  | .open h window predicate descending => Rewinds cfg count d.sys h window predicate descending
  | .aggregate h window agg =>
    agg = .COUNT ∧ windowIsUnbounded window = true ∨ Rewinds cfg count d.sys h window none false
  | .next _ | .close _ => True

instance (cfg : Cfg) (count : Nat) (s : Noted App Pool) (h : Nat) (window : Window) (predicate : Option (Bytes → Bool))
    (descending : Bool) : Decidable (Rewinds cfg count s h window predicate descending) :=
  inferInstanceAs (Decidable (Yields _ _ _ _))

instance (cfg : Cfg) (count : Nat) (d : Desk) : DecidablePred (Allows cfg count d)
  | .open .. => inferInstanceAs (Decidable (Rewinds ..))
  | .aggregate .. => inferInstanceAs (Decidable (_ ∧ _ ∨ _))
  | .next _ | .close _ => isTrue trivial

/-- One call of a run. -/
def Moves (cfg : Cfg) (cap : AggCap) (count : Nat) (d : Desk) (op : CursorOp) (d' : Desk) : Prop :=
  d' = (step cfg cap count d op).2

/-- A desk where nothing has been opened yet. -/
def start (a : App) : Desk := ⟨⟨a, ⟨0, 0⟩⟩, []⟩

end Desk

end ZephyrDB.Ts
