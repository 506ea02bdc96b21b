import ZephyrDB.Lib.RingLog
import ZephyrDB.Ts.Run

/-!
Streams on the flash circular buffer: every append writes its record through to
the one log of the instance, and a cursor walks that log forward.

What an entry holds is a parameter of the appends. The code stores the record
of the sample, and nothing else; `Prod.mk` stores the sample with the name of
the stream it was appended through, and tells where the entries of a run came
from.
-/

set_option autoImplicit false

namespace ZephyrDB.Ts

open Lib

/-- An instance on the circular buffer. The ingest buffers of its slots stay empty. -/
structure FcbApp (α : Type) where
  app : App
  fcbInitialized : Bool
  log : RingLog α

abbrev FcbM (α ε β : Type) := EStateM ε (FcbApp α) β

section Model
variable {α ε β : Type}

def FcbApp.map {γ : Type} (f : α → γ) (s : FcbApp α) : FcbApp γ := ⟨s.app, s.fcbInitialized, s.log.map f⟩

def fcbApp (m : AppM ε β) : FcbM α ε β := zoom FcbApp.app (fun s a => { s with app := a }) m

def fcbLog (m : RingM α β) : FcbM α Errno β := zoom FcbApp.log (fun s r => { s with log := r }) m

/-- `zdb_ts_fcb_ensure_init`: the log survives, whatever the context remembers of it. -/
def fcbEnsureInit : FcbM α Errno Unit := do
  if !(← get).fcbInitialized then
    fcbLog ringCall
    if (← get).log.sectors < 2 then throw .EINVAL
    fcbLog ringCall
    modify fun s => { s with fcbInitialized := true }

/-- `fcb_append`, once more behind a rotation where the log is full and the build rolls over. -/
def fcbReserve (cfg : Cfg) : FcbM α Errno Unit := do
  match ← attempt (fcbLog ringCall) with
  | .ok _ => return ()
  | .error .ENOSPC =>
    if cfg.segmented then
      fcbLog ringRotate
      fcbLog ringCall
    else throw .ENOSPC
  | .error err => throw err

/-- `zdb_ts_fcb_append_record`. -/
def fcbAppendRecord (cfg : Cfg) (rec : α) : FcbM α Errno Unit := do
  fcbEnsureInit
  fcbReserve cfg
  fcbLog ringCall
  fcbLog (ringFinish rec)

/-- `zdb_ts_slot_claim` without an ingest block. -/
def fcbSlotClaim (name : Bytes) : AppM Status Unit := do
  let a ← get
  match a.slotFind name with
  | some i =>
    let slot := a.slotAt i
    set (a.setSlot i { slot with openCount := if slot.openCount < 255 then slot.openCount + 1 else slot.openCount })
  | none =>
    match a.tsCtx.bind fun ctx => ctx.streams.findIdx? fun slot => !slot.inUse with
    | none => throw .ERR_BUSY
    | some i => set (a.setSlot i { StreamCtx.zero with name := name, openCount := 1, inUse := true })

/-- `zdb_ts_open`. -/
def fcbTsOpen (cfg : Cfg) (h : Nat) (name : Bytes) : FcbM α Status Unit := do
  if !streamNameValid cfg name then throw .ERR_INVAL
  if !(← get).app.cfgSet then throw .ERR_INVAL
  fcbApp (tsCtxGetOrAlloc cfg .ERR_NOMEM)
  toStatus fcbEnsureInit
  fcbApp (fcbSlotClaim name)
  modify fun s => { s with app := s.app.bind h (some name) }

/-- `zdb_ts_close`: nothing is buffered. -/
def fcbTsClose (h : Nat) : FcbM α Status Unit := do
  match (← get).app.handles h with
  | none => return ()
  | some name =>
    match (← get).app.slotFind name with
    | none => pure ()
    | some i => fcbApp (slotRelease i)
    modify fun s => { s with app := s.app.bind h none }

variable (enc : Bytes → Sample → α)

/-- `zdb_ts_append_i64`. -/
def fcbTsAppendI64 (cfg : Cfg) (h : Nat) (sample : Sample) : FcbM α Status Unit := do
  match (← get).app.handles h with
  | none => throw .ERR_INVAL
  | some name =>
    fcbApp (tsCtxGetOrAlloc cfg .ERR_INVAL)
    match (← get).app.slotFind name with
    | none => throw .ERR_INVAL
    | some _ => toStatus (fcbAppendRecord cfg (enc name sample))

/-- The loop of `zdb_ts_append_batch_i64`. -/
def fcbAppendRecords (cfg : Cfg) (name : Bytes) : List Sample → FcbM α Errno Unit
  | [] => return ()
  | sample :: samples => do
    fcbAppendRecord cfg (enc name sample)
    fcbAppendRecords cfg name samples

/-- `zdb_ts_append_batch_i64`. -/
def fcbTsAppendBatchI64 (cfg : Cfg) (h : Nat) (samples : List Sample) : FcbM α Status Unit := do
  match (← get).app.handles h with
  | none => throw .ERR_INVAL
  | some name =>
    if samples.isEmpty then throw .ERR_INVAL
    fcbApp (tsCtxGetOrAlloc cfg .ERR_INVAL)
    match (← get).app.slotFind name with
    | none => throw .ERR_INVAL
    | some _ => toStatus (fcbAppendRecords enc cfg name samples)

/-- `zdb_deinit`. -/
def fcbDeinit : FcbM α Status Unit := do
  fcbApp deinit
  modify fun s => { s with fcbInitialized := false }

/-- `zdb_init`. -/
def fcbInit : FcbM α Status Unit := do
  fcbApp init
  modify fun s => { s with fcbInitialized := false }

/-- One call, by the number of the handle it is made on. -/
inductive FcbOp where
  | init
  | deinit
  | open (h : Nat) (name : Bytes)
  | close (h : Nat)
  | append (h : Nat) (sample : Sample)
  | batch (h : Nat) (samples : List Sample)

def fcbCall (cfg : Cfg) : FcbOp → FcbM α Status Unit
  | .init => fcbInit
  | .deinit => fcbDeinit
  | .open h name => fcbTsOpen cfg h name
  | .close h => fcbTsClose h
  | .append h sample => fcbTsAppendI64 enc cfg h sample
  | .batch h samples => fcbTsAppendBatchI64 enc cfg h samples

def fcbRun (cfg : Cfg) (s : FcbApp α) (ops : List FcbOp) : FcbApp α :=
  ops.foldl (fun s op => post (fcbCall enc cfg op) s) s

end Model

def storedRecord (_streamName : Bytes) (sample : Sample) : Bytes := recordEncode sample

/-- `struct zdb_ts_cursor_ctx` on the circular buffer, with the predicate of its cursor: `fcbLoc` is the
number of entries the walk has come past. -/
structure FcbCursor where
  streamName : Bytes
  window : Window
  predicate : Option (Bytes → Bool)
  fcbLoc : Nat
  last : Option Sample

structure FcbCurSt where
  cur : FcbCursor
  sys : FcbApp Bytes

abbrev FcbCurM (ε β : Type) := EStateM ε FcbCurSt β

def fcbOn {ε β : Type} (m : FcbM Bytes ε β) : FcbCurM ε β := zoom FcbCurSt.sys (fun s t => { s with sys := t }) m

/-- `zdb_ts_window_match` and `zdb_ts_predicate_match` on one record. -/
def FcbCursor.admits (c : FcbCursor) (raw : Bytes) (sample : Sample) : Bool :=
  windowMatch c.window sample.tsMs && (match c.predicate with | none => true | some p => p raw)

/-- `zdb_ts_fcb_cursor_read_record`. -/
def fcbCursorReadRecord : FcbCurM Status Bytes := do
  let raw ← fcbOn (toStatus (fcbLog (ringGetnext (← get).cur.fcbLoc)))
  modify fun s => { s with cur := { s.cur with fcbLoc := s.cur.fcbLoc + 1 } }
  if raw.length ≠ recSizeV1 then throw .ERR_CORRUPT
  fcbOn (toStatus (fcbLog ringCall))
  return raw

/-- The loop of `zdb_cursor_next`, over at most `n` records; reports the record it stops at with the
sample in it. -/
def fcbCursorScan : Nat → FcbCurM Status (Bytes × Sample)
  | 0 => throw .ERR_NOT_FOUND
  | n + 1 => do
    let raw ← fcbCursorReadRecord
    match ← attempt (fcbOn (fcbApp (onEnv (recordDecode raw)))) with
    | .error .ERR_UNSUPPORTED => fcbCursorScan n
    | .error rc => throw rc
    | .ok sample =>
      if (← get).cur.admits raw sample then
        modify fun s => { s with cur := { s.cur with last := some sample } }
        return (raw, sample)
      else fcbCursorScan n

/-- `zdb_cursor_next`: the walk ends where the log does. -/
def fcbCursorNext (cfg : Cfg) : FcbCurM Status (Bytes × Sample) := do
  fcbOn (fcbApp (tsCtxGetOrAlloc cfg .ERR_INVAL))
  fcbCursorScan ((← get).sys.log.entries.length + 1)

/-- `zdb_cursor_reset`. -/
def fcbCursorReset : FcbCurM Status Unit := modify fun s => { s with cur := { s.cur with fcbLoc := 0 } }

/-- `n` calls of `zdb_cursor_next` in a row, with what each one reports. -/
def fcbCursorWalk (cfg : Cfg) : Nat → FcbCurM Status (List (Except Status (Bytes × Sample)))
  | 0 => return []
  | n + 1 => do
    let r ← attempt (fcbCursorNext cfg)
    let rs ← fcbCursorWalk cfg n
    return r :: rs

def fcbWithCursor {ε β : Type} (c : FcbCursor) (m : FcbCurM ε β) : FcbM Bytes ε (β × FcbCursor) := fun s =>
  match m.run ⟨c, s⟩ with
  | .ok x t => .ok (x, t.cur) t.sys
  | .error r t => .error r t.sys

/-- `zdb_ts_cursor_open_dir`. -/
def fcbCursorOpenDir (h : Nat) (window : Window) (predicate : Option (Bytes → Bool)) (descending : Bool) :
    FcbM Bytes Status FcbCursor := do
  match (← get).app.handles h with
  | none => throw .ERR_INVAL
  | some name =>
    if descending then throw .ERR_UNSUPPORTED
    fcbApp (onEnv (orFail .ERR_NOMEM call))
    return (← fcbWithCursor ⟨name, window, predicate, 0, none⟩ fcbCursorReset).2

/-- Open a cursor and take `n` steps with it. -/
def fcbQueryCursor (cfg : Cfg) (h : Nat) (window : Window) (predicate : Option (Bytes → Bool))
    (descending : Bool) (n : Nat) : FcbM Bytes Status (List (Except Status (Bytes × Sample))) := do
  let c ← fcbCursorOpenDir h window predicate descending
  return (← fcbWithCursor c (fcbCursorWalk cfg n)).1

/-- An instance that has called `zdb_init` and nothing else, on an empty log. -/
def FcbApp.boot {α : Type} (env : Sys) (sectors : Nat) (faults : Nat → Option Errno) (oldest : Nat → Nat) :
    FcbApp α :=
  ⟨App.boot env, false, ⟨[], sectors, faults, oldest, 0⟩⟩

end ZephyrDB.Ts
