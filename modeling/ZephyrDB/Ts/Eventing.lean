import ZephyrDB.Lib.Noted
import ZephyrDB.Lib.Transition
import ZephyrDB.Ts.Run

/-!
What listeners are told of flushes and of rollover. A flush and a dropped
segment are put down in the slot while the instance lock is held, and the
unlock publishes what has been put down; the drain publishes its own total.

The other events, of appends, recoveries and the instance, are left out, and
so is the time of an event. The byte counts are `size_t`, and one locked
section moves far less than that holds; they are natural numbers here.
-/

set_option autoImplicit false

namespace ZephyrDB.Ts.Eventing

open Lib

/-- `zdb_ts_event_type_t`. -/
inductive TsEventType where
  | FLUSH
  | ROLLOVER
  deriving DecidableEq, Repr

/-- `zdb_ts_event_t`; an event that names no stream has the empty name. -/
structure TsEvent where
  type : TsEventType
  streamName : Bytes
  flushedBytes : Nat
  truncatedBytes : Nat
  status : Status
  deriving DecidableEq

/-- `pending_flush_bytes` and `pending_discarded_bytes` of a slot, and their likes for released slots. -/
structure Owed where
  flushBytes : Nat
  discardedBytes : Nat
  deriving DecidableEq

def Owed.zero : Owed := ⟨0, 0⟩

def Owed.add (o p : Owed) : Owed := ⟨o.flushBytes + p.flushBytes, o.discardedBytes + p.discardedBytes⟩

/-- A segment file that rollover went to drop: its size, whether storage told the size, and whether
storage removed the file. -/
structure Discard where
  size : Nat
  sized : Bool
  removed : Bool
  deriving DecidableEq

/-- What storage did since `zdb_init`: the sizes of the buffers that were written and closed, and the
segments that rollover went to drop, latest first. No program reads it. -/
structure Done where
  flushes : List Nat
  discards : List Discard

structure SlotNotes where
  owed : Owed
  done : Done

abbrev SlotM (ε α : Type) := EStateM ε (Noted SlotSt SlotNotes) α

def owe (o : Owed) (notes : SlotNotes) : SlotNotes := { notes with owed := notes.owed.add o }

def SlotNotes.flushed (n : Nat) (notes : SlotNotes) : SlotNotes :=
  { notes with done := { notes.done with flushes := n :: notes.done.flushes } }

def SlotNotes.dropped (d : Discard) (notes : SlotNotes) : SlotNotes :=
  { notes with done := { notes.done with discards := d :: notes.done.discards } }

/-- What the loop of `zdb_ts_start_segment` that drops the oldest segments makes of an `fs_unlink`: a
file that is gone already is no failure. -/
def unlinked : Except Errno Unit → Except Errno Unit
  | .error .ENOENT => .ok ()
  | rc => rc

/-- What an `fs_stat` adds to the bytes that a listener is owed. -/
def sizeOwed : Except Errno Nat → Owed
  | .ok size => ⟨0, size⟩
  | .error _ => .zero

def discardFile (segPath : Path) : SlotM Errno Unit := do
  let held := (← get).st.env.contents segPath
  let info ← silent (onSys (attempt (fsStat segPath)))
  note (owe (sizeOwed info))
  let rc ← silent (onSys (attempt (fsUnlink segPath)))
  note (·.dropped ⟨held.length, info.isOk, rc.isOk⟩)
  rethrow (unlinked rc)

/-- The `while` loop of `zdb_ts_start_segment`, at most `n` times round. -/
def discardSegments (cfg : Cfg) : Nat → SlotM Errno Unit
  | 0 => return ()
  | n + 1 => do
    let slot ← silent getSlot
    if slot.curSeg - slot.oldestSeg + 1 > cfg.maxSegments then
      let segPath ← rethrow (buildSegmentPath cfg slot.name slot.oldestSeg)
      discardFile segPath
      silent (updSlot fun s => { s with oldestSeg := s.oldestSeg + 1 })
      discardSegments cfg n

/-- The rest of `zdb_ts_start_segment`, once the number is taken. -/
def openSegment (cfg : Cfg) (baseTsMs : UInt64) : SlotM Errno Unit := do
  let slot ← silent getSlot
  let segPath ← rethrow (buildSegmentPath cfg slot.name slot.curSeg)
  let (version, baseTs) ← silent (onSys (orFail Errno.EIO (ensureHeaderEx cfg slot.name segPath baseTsMs)))
  silent (updSlot fun s => s.setFormat version baseTs)
  if cfg.rollover then discardSegments cfg (slot.curSeg - slot.oldestSeg + 1)

/-- `zdb_ts_start_segment`. -/
def startSegment (cfg : Cfg) (baseTsMs : UInt64) : SlotM Errno Unit := do
  silent (updSlot fun s => { s with curSeg := s.curSeg + 1, curSegBytes := 0 })
  openSegment cfg baseTsMs

/-- `zdb_ts_roll_segment_if_full`. -/
def rollSegmentIfFull (cfg : Cfg) : SlotM Errno Unit := do
  let slot ← silent getSlot
  if cfg.segmentBytes ≤ slot.curSegBytes then startSegment cfg slot.segBaseTsMs

/-- `zdb_ts_flush_buffer_locked`: the bytes count as flushed before the roll is tried. -/
def flushBufferLocked (cfg : Cfg) : SlotM Errno Unit := do
  let slot ← silent getSlot
  if !slot.inUse then throw .EINVAL
  match slot.ingestBuf with
  | none => throw .EINVAL
  | some buf =>
    if slot.ingestUsed ≠ 0 then
      silent (writeBuffer cfg buf slot.ingestUsed)
      note fun notes => owe ⟨slot.ingestUsed, 0⟩ (notes.flushed slot.ingestUsed)
      if cfg.segmented then rollSegmentIfFull cfg

def rebaseRecord (cfg : Cfg) (sample : Sample) : SlotM Status Nat := do
  if !cfg.segmented then throw .ERR_INVAL
  toStatus (flushBufferLocked cfg)
  toStatus (startSegment cfg sample.tsMs)
  let slot ← silent getSlot
  match slotEncode cfg slot sample with
  | none => throw .ERR_INVAL
  | some raw =>
    silent (updSlot fun s => s.store raw (slotRecSize cfg slot))
    return slotRecSize cfg slot

def encodeRecord (cfg : Cfg) (sample : Sample) (recSize : Nat) : SlotM Status Nat := do
  let slot ← silent getSlot
  match slotEncode cfg slot sample with
  | some raw =>
    silent (updSlot fun s => s.store raw recSize)
    return recSize
  | none => rebaseRecord cfg sample

def appendRecord (cfg : Cfg) (sample : Sample) : SlotM Status Nat := do
  let slot ← silent getSlot
  let recSize := slotRecSize cfg slot
  if slot.ingestCapacity < recSize || slot.ingestBuf.isNone then throw .ERR_NOMEM
  if slot.ingestCapacity < slot.ingestUsed + recSize then toStatus (flushBufferLocked cfg)
  encodeRecord cfg sample recSize

/-- The loop of `zdb_ts_append_batch_i64`. -/
def appendRecords (cfg : Cfg) : List Sample → SlotM Status Unit
  | [] => return ()
  | sample :: samples => do
    let _ ← appendRecord cfg sample
    appendRecords cfg samples

/-- What the slots and the context owe, the events published since `zdb_init`, latest first, and what
storage did. -/
structure Books where
  owed : Nat → Owed
  releasedOwed : Owed
  releasedStream : Bytes
  events : List TsEvent
  done : Done

namespace Books

def blank : Books := ⟨fun _ => .zero, .zero, [], [], ⟨[], []⟩⟩

def page (b : Books) (i : Nat) : SlotNotes := ⟨b.owed i, b.done⟩

def setPage (b : Books) (i : Nat) (p : SlotNotes) : Books :=
  { b with owed := Function.update b.owed i p.owed, done := p.done }

/-- `zdb_emit_ts_event`. -/
def emit (b : Books) (e : TsEvent) : Books := { b with events := e :: b.events }

def wipe (b : Books) : Books := { b with owed := fun _ => .zero, releasedOwed := .zero, releasedStream := [] }

def wipeSlot (i : Nat) (b : Books) : Books := { b with owed := Function.update b.owed i .zero }

/-- The rescue of `zdb_ts_slot_release`. -/
def rescue (i : Nat) (name : Bytes) (b : Books) : Books :=
  if b.owed i = .zero then b
  else { b with releasedOwed := b.releasedOwed.add (b.owed i), releasedStream := name }

def clearFlush (i : Nat) (b : Books) : Books :=
  { b with owed := Function.update b.owed i { b.owed i with flushBytes := 0 } }

end Books

abbrev AppM (ε α : Type) := EStateM ε (Noted App Books) α

def onSlot {ε α : Type} (i : Nat) (m : SlotM ε α) : AppM ε α :=
  zoom (fun s => ⟨⟨s.st.slotAt i, s.st.env⟩, s.notes.page i⟩)
    (fun s t => ⟨{ s.st.setSlot i t.st.slot with env := t.st.env }, s.notes.setPage i t.notes⟩) m

/-- The out-parameters of `zdb_ts_take_deferred_events`, with the streams counted so far. -/
structure Taken where
  owed : Owed
  namingStreams : Nat
  onlyStream : Bytes

def Taken.add (t : Taken) (o : Owed) (name : Bytes) : Taken :=
  if o = .zero then t else ⟨t.owed.add o, t.namingStreams + 1, name⟩

/-- The name of the stream when one is unambiguous. -/
def Taken.stream (t : Taken) : Bytes := if t.namingStreams = 1 then t.onlyStream else []

def streamsSize (a : App) : Option Nat := a.tsCtx.map (·.streams.length)

/-- `ARRAY_SIZE(ctx->streams)`. -/
def slots (a : App) : Nat := (streamsSize a).getD 0

/-- What `zdb_ts_take_deferred_events` finds in the slots. -/
def takeSlots (a : App) (b : Books) : Nat → Taken
  | 0 => ⟨.zero, 0, []⟩
  | n + 1 => (takeSlots a b n).add (b.owed n) (a.slotAt n).name

/-- `zdb_ts_take_deferred_events`. -/
def takeDeferredEvents (a : App) (b : Books) : Taken :=
  if a.tsCtx.isNone then ⟨.zero, 0, []⟩
  else (takeSlots a b (slots a)).add b.releasedOwed b.releasedStream

/-- The counters after `zdb_ts_take_deferred_events`. -/
def Books.taken (a : App) (b : Books) : Books :=
  if a.tsCtx.isNone then b
  else { b with owed := fun i => if i < slots a then .zero else b.owed i, releasedOwed := .zero }

/-- The events `zdb_unlock_common` publishes. -/
def Books.publish (b : Books) (t : Taken) : Books :=
  let b := if 0 < t.owed.flushBytes then b.emit ⟨.FLUSH, t.stream, t.owed.flushBytes, 0, .OK⟩ else b
  if 0 < t.owed.discardedBytes then b.emit ⟨.ROLLOVER, t.stream, 0, t.owed.discardedBytes, .OK⟩ else b

/-- `zdb_unlock_common`. -/
def unlockCommon {ε : Type} : AppM ε Unit :=
  modify fun s => { s with notes := (s.notes.taken s.st).publish (takeDeferredEvents s.st s.notes) }

def locked {ε α : Type} (m : AppM ε α) : AppM ε α := do
  let result ← attempt m
  unlockCommon
  rethrow result

/-- `zdb_ts_ctx_get_or_alloc`. -/
def tsCtxGetOrAlloc (cfg : Cfg) (onNull : Status) : AppM Status Unit := do
  let fresh := (← get).st.tsCtx.isNone
  silent (Ts.tsCtxGetOrAlloc cfg onNull)
  if fresh then note (·.wipe)

/-- `zdb_ts_slot_claim`. -/
def slotClaim (cfg : Cfg) (name : Bytes) : AppM Status Unit := do
  let a := (← get).st
  if (a.slotFind name).isNone then
    match a.tsCtx.bind fun ctx => ctx.streams.findIdx? fun slot => !slot.inUse with
    | none => pure ()
    | some i => note (Books.wipeSlot i)
  silent (Ts.slotClaim cfg name)

/-- `zdb_ts_slot_release`. -/
def slotRelease (i : Nat) : AppM Status Unit := do
  let slot := (← get).st.slotAt i
  if slot.openCount ≤ 1 then
    note (Books.rescue i slot.name)
    note (Books.wipeSlot i)
  silent (Ts.slotRelease i)

/-- `zdb_ts_open`. -/
def tsOpen (cfg : Cfg) (h : Nat) (name : Bytes) : AppM Status Unit := do
  if !streamNameValid cfg name then throw .ERR_INVAL
  if !(← get).st.cfgSet then throw .ERR_INVAL
  tsCtxGetOrAlloc cfg .ERR_NOMEM
  silent (toStatus (ensureStreamDir cfg))
  if !cfg.segmented then silent (onEnv (ensureStreamHeader cfg name))
  slotClaim cfg name
  silent (modify fun a => a.bind h (some name))
  if cfg.autoRecoverOnOpen then silent (openRecover cfg name)

/-- The first half of `zdb_ts_close`. -/
def closeFlush (cfg : Cfg) (name : Bytes) : AppM Status Unit := do
  let a := (← get).st
  match a.slotFind name with
  | none => return ()
  | some i => if (a.slotAt i).openCount ≤ 1 then toStatus (onSlot i (flushBufferLocked cfg))

/-- The locked section of `zdb_ts_close`. -/
def closeLocked (cfg : Cfg) (name : Bytes) : AppM Status Unit := do
  let status ← attempt (closeFlush cfg name)
  match (← get).st.slotFind name with
  | none => pure ()
  | some i => slotRelease i
  rethrow status

/-- `zdb_ts_close`. -/
def tsClose (cfg : Cfg) (h : Nat) : AppM Status Unit := do
  match (← get).st.handles h with
  | none => return ()
  | some name =>
    let status ← attempt (if (← get).st.tsCtx.isSome then locked (closeLocked cfg name) else pure ())
    silent (modify fun a => a.bind h none)
    rethrow status

/-- The locked section of `zdb_ts_flush_async`. -/
def submitFlush : Ts.AppM Status (Except Errno Unit) := do
  if (← get).pending then throw .ERR_BUSY
  modify fun a => a.setPending true
  Ts.onEnv (attempt call)

/-- `zdb_ts_flush_async`. -/
def tsFlushAsync (cfg : Cfg) (h : Nat) : AppM Status Unit := do
  let a := (← get).st
  if (a.handles h).isNone || !a.cfgSet then throw .ERR_INVAL
  tsCtxGetOrAlloc cfg .ERR_NOMEM
  match ← locked (silent submitFlush) with
  | .ok _ => return ()
  | .error err =>
    silent (modify fun a => a.setPending false)
    throw (statusFromErrno err)

def appendFlush (cfg : Cfg) (h i recSize : Nat) : AppM Status Unit := do
  let slot := (← get).st.slotAt i
  if slot.ingestCapacity < slot.ingestUsed + recSize then
    match ← attempt (tsFlushAsync cfg h) with
    | .ok _ => return ()
    | .error .ERR_BUSY => return ()
    | .error status => throw status

/-- `zdb_ts_append_i64`. -/
def tsAppendI64 (cfg : Cfg) (h : Nat) (sample : Sample) : AppM Status Unit := do
  match (← get).st.handles h with
  | none => throw .ERR_INVAL
  | some name =>
    tsCtxGetOrAlloc cfg .ERR_INVAL
    match (← get).st.slotFind name with
    | none => throw .ERR_INVAL
    | some i =>
      let recSize ← locked (onSlot i (appendRecord cfg sample))
      appendFlush cfg h i recSize

/-- The locked section of `zdb_ts_append_batch_i64`; reports the slot. -/
def batchLocked (cfg : Cfg) (name : Bytes) (samples : List Sample) : AppM Status Nat := do
  match (← get).st.slotFind name with
  | none => throw .ERR_INVAL
  | some i =>
    onSlot i (appendRecords cfg samples)
    return i

/-- `zdb_ts_append_batch_i64`. -/
def tsAppendBatchI64 (cfg : Cfg) (h : Nat) (samples : List Sample) : AppM Status Unit := do
  match (← get).st.handles h with
  | none => throw .ERR_INVAL
  | some name =>
    if samples.isEmpty then throw .ERR_INVAL
    tsCtxGetOrAlloc cfg .ERR_INVAL
    let i ← locked (batchLocked cfg name samples)
    let slot := (← get).st.slotAt i
    if slot.ingestCapacity < slot.ingestUsed + slotRecSize cfg slot then
      let _ ← attempt (ε := Status) (tsFlushAsync cfg h)

/-- `first_error`, `*out_flushed_bytes`, `flushed_streams` and `*out_only_stream`. -/
structure Drained where
  firstError : Option Errno
  flushedBytes : Nat
  flushedStreams : Nat
  onlyStream : Bytes

def Drained.none : Drained := ⟨Option.none, 0, 0, []⟩

def Drained.fail (d : Drained) (err : Errno) : Drained := { d with firstError := d.firstError.or (some err) }

def Drained.flush (d : Drained) (pending : Nat) (name : Bytes) : Drained where
  firstError := d.firstError
  flushedBytes := d.flushedBytes + pending
  flushedStreams := d.flushedStreams + 1
  onlyStream := if d.flushedStreams + 1 = 1 then name else []

/-- One round of `zdb_ts_flush_all_locked`. -/
def flushSlot (cfg : Cfg) (i : Nat) (d : Drained) : AppM Status Drained := do
  let slot := (← get).st.slotAt i
  if slot.inUse && slot.ingestUsed != 0 then
    match ← attempt (onSlot i (flushBufferLocked cfg)) with
    | .error err => return d.fail err
    | .ok _ =>
      note (Books.clearFlush i)
      return d.flush slot.ingestUsed slot.name
  else return d

def flushSlots (cfg : Cfg) : List Nat → Drained → AppM Status Drained
  | [], d => return d
  | i :: rest, d => do
    let d ← flushSlot cfg i d
    flushSlots cfg rest d

/-- `zdb_ts_flush_all_locked`. -/
def flushAllLocked (cfg : Cfg) : AppM Status Drained := do
  flushSlots cfg (List.range (slots (← get).st)) .none

/-- The status a drain reports. -/
def Drained.status (d : Drained) : Status :=
  match d.firstError with
  | Option.none => .OK
  | some err => statusFromErrno err

/-- The event that `zdb_ts_flush_work_handler` publishes itself. -/
def Books.report (d : Drained) (b : Books) : Books :=
  if 0 < d.flushedBytes ∨ d.status ≠ .OK then b.emit ⟨.FLUSH, d.onlyStream, d.flushedBytes, 0, d.status⟩ else b

/-- `zdb_ts_flush_work_handler`, when the work queue gets to it. -/
def flushWorkHandler (cfg : Cfg) : AppM Status Unit := do
  if (← get).st.pending then
    let d ← flushAllLocked cfg
    silent (modify fun a => a.setPending false)
    unlockCommon
    note (Books.report d)

/-- `zdb_ts_flush_sync` without a timeout. -/
def tsFlushSync (cfg : Cfg) (h : Nat) : AppM Status Unit := do
  if ((← get).st.handles h).isNone then throw .ERR_INVAL
  tsCtxGetOrAlloc cfg .ERR_INTERNAL
  match ← attempt (tsFlushAsync cfg h) with
  | .ok _ => flushWorkHandler cfg
  | .error .ERR_BUSY => flushWorkHandler cfg
  | .error status => throw status

/-- `zdb_deinit`: the context's counters go with it. -/
def deinit : AppM Status Unit := do
  silent Ts.deinit
  note (·.wipe)

/-- `zdb_init`: the events count from here. -/
def init : AppM Status Unit := do
  silent Ts.init
  note fun _ => .blank

def exec {α : Type} (f : α → Answer) (m : AppM Status α) (s : Noted App Books) : Reply × Noted App Books :=
  (reply f (outcome m s), post m s)

/-- The calls; those that read take the lock and record nothing. -/
def step (cfg : Cfg) (s : Noted App Books) : Op → Reply × Noted App Books
  | .init => exec (fun _ => .none) init s
  | .deinit => exec (fun _ => .none) deinit s
  | .open h name => exec (fun _ => .none) (tsOpen cfg h name) s
  | .close h => exec (fun _ => .none) (tsClose cfg h) s
  | .append h sample => exec (fun _ => .none) (tsAppendI64 cfg h sample) s
  | .batch h samples => exec (fun _ => .none) (tsAppendBatchI64 cfg h samples) s
  | .flushAsync h => exec (fun _ => .none) (tsFlushAsync cfg h) s
  | .flushSync h => exec (fun _ => .none) (tsFlushSync cfg h) s
  | .drain => exec (fun _ => .none) (flushWorkHandler cfg) s
  | .recover h => exec .points (silent (tsRecoverStream cfg h)) s
  | .count h window => exec .points (locked (silent (tsQueryCount cfg h window))) s
  | .cursor h window predicate descending n =>
    exec .walk (locked (silent (queryCursor cfg h window predicate descending n))) s

/-- The instance after a run of calls. -/
def run (cfg : Cfg) (s : Noted App Books) (ops : List Op) : Noted App Books :=
  ops.foldl (fun s op => (step cfg s op).2) s

end ZephyrDB.Ts.Eventing
