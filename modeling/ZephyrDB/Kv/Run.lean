import ZephyrDB.Kv.Store

/-!
The calls of the key-value API as one step function, what a history of calls
says each key holds, and what the backend's records say.
-/

set_option autoImplicit false

namespace ZephyrDB.Kv

open Lib

/-- A namespace and a key in it. -/
abbrev NsKey := CString × CString

/-- One call, through a handle on its namespace where it needs one. -/
inductive KvOp where
  | set (ns key : CString) (value : Option Bytes)
  | get (ns key : CString) (capacity : Nat)
  | delete (ns key : CString)
  | iterOpen (ns : CString)
  | iterNext (ns : CString) (keyCapacity valueCapacity position : Nat)
  | reset (ns : CString)
  | defaults (filter : Option CString)

inductive KvAnswer where
  | none
  | value (copied : Bytes) (len : Nat)
  | item (position : Nat) (item : Except Status Item)

def KvOp.run (cfg : KvCfg) : KvOp → KvM Status KvAnswer
  | .set ns key value => do
    kvOpen cfg ns
    kvSet cfg ns key value
    return .none
  | .get ns key capacity => do
    kvOpen cfg ns
    let (copied, len) ← kvGet cfg ns key capacity
    return .value copied len
  | .delete ns key => do
    kvOpen cfg ns
    kvDelete cfg ns key
    return .none
  | .iterOpen ns => do
    kvOpen cfg ns
    kvIterOpen cfg
    return .none
  | .iterNext ns keyCapacity valueCapacity position => do
    kvOpen cfg ns
    let (position, item) ← kvIterNext cfg ns keyCapacity valueCapacity position
    return .item position item
  | .reset ns => do
    kvOpen cfg ns
    kvResetNamespace cfg ns
    return .none
  | .defaults filter => do
    kvDefaultsApplyNs cfg filter
    return .none

/-- A state in which no call has been made: no context, and a backend of these cells. -/
def KvSt.boot (flash : IdStore) (ioFree : Nat) (heapRoom : Bool) : KvSt := ⟨none, ioFree, heapRoom, flash⟩

/-- The state after a run, and each call with its outcome. -/
def kvRun (cfg : KvCfg) (s : KvSt) : List KvOp → KvSt × List (KvOp × Except Status KvAnswer)
  | [] => (s, [])
  | op :: ops =>
    let (t, history) := kvRun cfg (post (op.run cfg) s) ops
    (t, (op, outcome (op.run cfg) s) :: history)

/-- What a key holds after a call: a set that succeeds gives it a value, a delete that succeeds takes it. -/
def after (k : NsKey) (held : Option Bytes) : KvOp × Except Status KvAnswer → Option Bytes
  | (.set ns key value, .ok _) => if (ns, key) = k then value else held
  | (.delete ns key, .ok _) => if (ns, key) = k then none else held
  | _ => held

/-- What a history says a key holds: the value of its last successful set, unless a successful delete
followed. -/
def recollect (history : List (KvOp × Except Status KvAnswer)) (k : NsKey) : Option Bytes :=
  history.foldl (after k) none

/-- The record the backend holds for a key: what is under its id, where that names it. -/
def recordOf (cfg : KvCfg) (cells : Cells) (k : NsKey) : Option Bytes :=
  (cells (recordId cfg k.1 k.2)).filter fun record =>
    match recordCheck record k.1 k.2 with
    | .MATCH _ => true
    | _ => false

/-- The value the backend holds for a key: the rest of a record that names it. -/
def stored (cfg : KvCfg) (cells : Cells) (k : NsKey) : Option Bytes :=
  (cells (recordId cfg k.1 k.2)).bind fun record =>
    match recordCheck record k.1 k.2 with
    | .MATCH off => some (record.drop off)
    | _ => none

end ZephyrDB.Kv
