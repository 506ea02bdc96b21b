import Mathlib.Algebra.BigOperators.Group.Finset.Basic
import Mathlib.Algebra.BigOperators.Intervals
import Mathlib.Tactic.Abel

/-!
Accounts that are settled late. Several parties owe a report of what they did;
a settlement reports what all of them owe and clears the accounts. What has
been reported and what is owed grow together by what is done.
-/

set_option autoImplicit false

namespace Lib

variable {σ M : Type}

section Balanced
variable [AddCancelCommMonoid M]

def Balanced (held done : σ → M) (s t : σ) : Prop := held t + done s = held s + done t

theorem balanced_refl (held done : σ → M) (s : σ) : Balanced held done s s := rfl

theorem Balanced.trans {held done : σ → M} {s t u : σ} (h : Balanced held done s t) (k : Balanced held done t u) :
    Balanced held done s u := by
  unfold Balanced at *
  refine add_left_cancel (a := held t + done t) ?_
  calc held t + done t + (held u + done s)
      = (held t + done s) + (held u + done t) := by abel
    _ = (held s + done t) + (held t + done u) := by rw [h, k]
    _ = held t + done t + (held s + done u) := by abel

theorem Balanced.of_same {held done : σ → M} {s t : σ} (hheld : held t = held s) (hdone : done t = done s) :
    Balanced held done s t := by
  unfold Balanced
  rw [hheld, hdone]

theorem Balanced.square {held done : σ → M} {s t : σ} (h : Balanced held done s t) (hs : held s = done s) :
    held t = done t := by
  unfold Balanced at h
  rw [hs, add_comm (done s)] at h
  exact add_right_cancel h

end Balanced

section Sum
variable [AddCommMonoid M]

/-- What the first `n` parties owe together. -/
def owing (owed : Nat → M) (n : Nat) : M := ∑ i ∈ Finset.range n, owed i

theorem owing_succ (owed : Nat → M) (n : Nat) : owing owed (n + 1) = owing owed n + owed n :=
  Finset.sum_range_succ owed n

theorem owing_zero {owed : Nat → M} {n : Nat} (h : ∀ i < n, owed i = 0) : owing owed n = 0 :=
  Finset.sum_eq_zero fun i hi => h i (Finset.mem_range.mp hi)

theorem owing_update {owed : Nat → M} {i n : Nat} (hi : i < n) (x : M) :
    owing (Function.update owed i x) n + owed i = owing owed n + x := by
  have hmem : i ∈ Finset.range n := Finset.mem_range.mpr hi
  have hrest : ∑ j ∈ (Finset.range n).erase i, Function.update owed i x j = ∑ j ∈ (Finset.range n).erase i, owed j :=
    Finset.sum_congr rfl fun j hj => Function.update_of_ne (Finset.ne_of_mem_erase hj) x owed
  have hbefore := Finset.add_sum_erase _ owed hmem
  have hafter := Finset.add_sum_erase _ (Function.update owed i x) hmem
  rw [Function.update_self, hrest] at hafter
  unfold owing
  rw [← hbefore, ← hafter]
  abel

end Sum

end Lib
