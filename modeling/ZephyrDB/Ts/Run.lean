import ZephyrDB.Ts.Cursor

/-!
The calls of the time-series API as one step function, and what an application
has been told is stored.
-/

set_option autoImplicit false

namespace ZephyrDB.Ts

open Lib

/-- One call, by the number of the handle it is made on; `drain` is the work queue running the flush
handler. -/
inductive Op where
  | init
  | deinit
  | open (h : Nat) (name : Bytes)
  | close (h : Nat)
  | append (h : Nat) (sample : Sample)
  | batch (h : Nat) (samples : List Sample)
  | flushAsync (h : Nat)
  | flushSync (h : Nat)
  | drain
  | recover (h : Nat)
  | count (h : Nat) (window : Window)
  | cursor (h : Nat) (window : Window) (predicate : Option (Bytes → Bool)) (descending : Bool) (n : Nat)

/-- The calls on a stream's consumed watermark. -/
inductive MarkOp where
  | set (h : Nat) (tsMs : UInt64)
  | get (h : Nat)
  | clear (h : Nat)

inductive Answer where
  | none
  | points (n : Nat)
  | mark (tsMs : UInt64)
  | walk (results : List (Except Status (Bytes × Sample)))

structure Reply where
  status : Status
  answer : Answer

def reply {α : Type} (f : α → Answer) : Except Status α → Reply
  | .ok x => ⟨.OK, f x⟩
  | .error status => ⟨status, .none⟩

def exec {α : Type} (f : α → Answer) (m : AppM Status α) (a : App) : Reply × App :=
  (reply f (outcome m a), post m a)

/-- `zdb_ts_recover_stream` on a handle. -/
def tsRecoverStream (cfg : Cfg) (h : Nat) : AppM Status Nat := do
  match (← get).handles h with
  | none => throw .ERR_INVAL
  | some name => recoverStream cfg name

def step (cfg : Cfg) (a : App) : Op → Reply × App
  | .init => exec (fun _ => .none) init a
  | .deinit => exec (fun _ => .none) deinit a
  | .open h name => exec (fun _ => .none) (tsOpen cfg h name) a
  | .close h => exec (fun _ => .none) (tsClose cfg h) a
  | .append h sample => exec (fun _ => .none) (tsAppendI64 cfg h sample) a
  | .batch h samples => exec (fun _ => .none) (tsAppendBatchI64 cfg h samples) a
  | .flushAsync h => exec (fun _ => .none) (tsFlushAsync cfg h) a
  | .flushSync h => exec (fun _ => .none) (tsFlushSync cfg h) a
  | .drain => exec (fun _ => .none) (flushWorkHandler cfg) a
  | .recover h => exec .points (tsRecoverStream cfg h) a
  | .count h window => exec .points (tsQueryCount cfg h window) a
  | .cursor h window predicate descending n =>
    exec .walk (queryCursor cfg h window predicate descending n) a

def markStep (cfg : Cfg) (a : App) : MarkOp → Reply × App
  | .set h tsMs => exec (fun _ => .none) (tsWatermarkSet cfg h tsMs) a
  | .get h => exec .mark (tsWatermarkGet cfg h) a
  | .clear h => exec (fun _ => .none) (tsWatermarkClear cfg h) a

/-- The application after a run of calls. -/
def run (cfg : Cfg) (a : App) (ops : List Op) : App := ops.foldl (fun a op => (step cfg a op).2) a

/-- The stream and the samples that a call hands over. -/
def Op.handed (a : App) : Op → Option (Bytes × List Sample)
  | .append h sample => (a.handles h).map fun name => (name, [sample])
  | .batch h samples => (a.handles h).map fun name => (name, samples)
  | _ => none

/-- The samples of stream `name` that a call accepts by returning `ZDB_OK`. -/
def accepted (cfg : Cfg) (a : App) (op : Op) (name : Bytes) : List Sample :=
  match op.handed a with
  | some (n, samples) => if n = name ∧ (step cfg a op).1.status = .OK then samples else []
  | none => []

/-- The samples of a stream that a run of calls accepts, in order. -/
def acceptedBy (cfg : Cfg) (name : Bytes) : App → List Op → List Sample
  | _, [] => []
  | a, op :: ops => accepted cfg a op name ++ acceptedBy cfg name (step cfg a op).2 ops

/-- An application that has called `zdb_init` and nothing else. -/
def App.boot (env : Sys) : App where
  cfgSet := true
  tsCtx := none
  handles := fun _ => none
  env := env

/-- A small configuration within the options' ranges. -/
def Cfg.small (rollover delta autoRecover : Bool) (ingest : Nat) : Cfg where
  mountPoint := [47, 108, 102, 115]
  dirname := [116, 115]
  streamNameMaxLen := 31
  rollover := rollover
  delta := delta
  segmented := rollover || delta
  segmented_of_rollover := fun h => by rw [h]; rfl
  segmented_of_delta := fun h => by rw [h, Bool.or_true]
  segmentBytes := 256
  maxSegments := 2
  two_le_maxSegments := Nat.le_refl 2
  ingestBufferBytes := ingest
  ingestSlabBlockSize := ingest
  maxStreams := 2
  autoRecoverOnOpen := autoRecover
  maxRecoveryTruncateBytes := 0
  eventing := false

/-- An empty file system on which the calls numbered by `bad` fail. -/
def Sys.blank (bad : Nat → Bool) : Sys where
  files := ∅
  faults := fun n => if bad n then .fail Errno.EIO 0 else .none
  tick := 0
  shared := true
  written := []
  side := ⟨TsStats.zero, .OK⟩

end ZephyrDB.Ts
