import ZephyrDB.Lib.FileSystem

/-!
A circular log in flash, as an ordered list of finished entries: an entry is
reserved, written and finished, and exists from then on; a rotation gives up the
oldest sector with the entries in it.

The type of the entries is free, so a run can be repeated on entries that say
more than the bytes do; `RingLog.map` carries one to the other.
-/

set_option autoImplicit false

namespace Lib

/-- The finished entries, oldest first, what each numbered call fails with, and how many entries the
oldest sector holds where that call gives it up. -/
structure RingLog (α : Type) where
  entries : List α
  sectors : Nat
  faults : Nat → Option Errno
  oldest : Nat → Nat
  tick : Nat

namespace RingLog

variable {α β : Type}

def next (r : RingLog α) : RingLog α := { r with tick := r.tick + 1 }

def map (f : α → β) (r : RingLog α) : RingLog β :=
  ⟨r.entries.map f, r.sectors, r.faults, r.oldest, r.tick⟩

/-- No call fails from here on. -/
def Quiet (r : RingLog α) : Prop := ∀ n, r.tick ≤ n → r.faults n = none

theorem Quiet.next {r : RingLog α} (h : r.Quiet) : r.next.Quiet := fun n hn => h n (Nat.le_of_succ_le hn)

end RingLog

abbrev RingM (α β : Type) := EStateM Errno (RingLog α) β

variable {α β : Type}

def ringCall : RingM α Unit := fun r =>
  match r.faults r.tick with
  | some err => .error err r.next
  | none => .ok () r.next

/-- `fcb_append_finish` on an entry that has been reserved and written. -/
def ringFinish (entry : α) : RingM α Unit := do
  ringCall
  modify fun r => { r with entries := r.entries ++ [entry] }

/-- `fcb_rotate`. -/
def ringRotate : RingM α Unit := do
  let n := (← get).oldest (← get).tick
  ringCall
  modify fun r => { r with entries := r.entries.drop n }

/-- `fcb_getnext` behind `n` entries. -/
def ringGetnext (n : Nat) : RingM α α := do
  ringCall
  match (← get).entries[n]? with
  | none => throw .ENOENT
  | some entry => return entry

theorem run_ringCall {r : RingLog α} (h : r.Quiet) : ringCall.run r = .ok () r.next := by
  simp only [ringCall, EStateM.run, h r.tick (Nat.le_refl _)]

theorem run_ringGetnext {r : RingLog α} (h : r.Quiet) {n : Nat} {entry : α} (hn : r.entries[n]? = some entry) :
    (ringGetnext n).run r = .ok entry r.next := by
  apply run_then (run_ringCall h)
  change (match r.entries[n]? with
    | none => throw .ENOENT
    | some entry => pure entry : RingM α α).run r.next = _
  rw [hn]
  rfl

theorem run_ringGetnext_end {r : RingLog α} (h : r.Quiet) {n : Nat} (hn : r.entries[n]? = none) :
    (ringGetnext n).run r = .error .ENOENT r.next := by
  apply run_then (run_ringCall h)
  change (match r.entries[n]? with
    | none => throw .ENOENT
    | some entry => pure entry : RingM α α).run r.next = _
  rw [hn]
  rfl

section Carries
variable (f : α → β)

theorem carries_ringCall : Carries (RingLog.map f) (ringCall : RingM α Unit) ringCall := by
  intro r
  cases hr : r.faults r.tick with
  | none => simp [outcome, post, ringCall, EStateM.run, RingLog.map, hr, RingLog.next]
  | some err => simp [outcome, post, ringCall, EStateM.run, RingLog.map, hr, RingLog.next]

theorem carries_ringFinish (entry : α) : Carries (RingLog.map f) (ringFinish entry) (ringFinish (f entry)) := by
  apply carries_bind (carries_ringCall f)
  intro _
  apply carries_modify
  intro r
  simp [RingLog.map]

theorem carries_ringRotate : Carries (RingLog.map f) (ringRotate : RingM α Unit) ringRotate := by
  apply carries_get_bind
  intro r
  apply carries_get_bind
  intro r'
  apply carries_bind (carries_ringCall f)
  intro _
  apply carries_modify
  intro t
  simp [RingLog.map, List.map_drop]

end Carries

theorem filter_owner_length {ι : Type} [DecidableEq ι] {l : List (ι × α)} {owner : ι} :
    (l.filter fun e => e.1 = owner).length = l.length ↔ ∀ e ∈ l, e.1 = owner := by
  rw [List.length_filter_eq_length_iff]
  simp only [decide_eq_true_eq]

end Lib
