import Mathlib.Logic.Basic

/-!
Runs of a labelled step relation, and the invariants that hold along them. A
run whose every step meets a condition is a run of the guarded relation.
-/

set_option autoImplicit false

namespace Lib

variable {σ ℓ : Type}

/-- A run from one state to another, with the labels of its steps. -/
inductive Steps (step : σ → ℓ → σ → Prop) : σ → List ℓ → σ → Prop
  | nil (s : σ) : Steps step s [] s
  | cons {s t u : σ} {l : ℓ} {ls : List ℓ} (head : step s l t) (tail : Steps step t ls u) :
      Steps step s (l :: ls) u

/-- The steps taken where the condition holds. -/
def Guarded (ok : σ → ℓ → Prop) (step : σ → ℓ → σ → Prop) : σ → ℓ → σ → Prop :=
  fun s l t => ok s l ∧ step s l t

variable {step : σ → ℓ → σ → Prop}

theorem Steps.single {s t : σ} {l : ℓ} (h : step s l t) : Steps step s [l] t := .cons h (.nil t)

theorem Steps.uncons {s u : σ} {l : ℓ} {ls : List ℓ} (h : Steps step s (l :: ls) u) :
    ∃ t, step s l t ∧ Steps step t ls u := by
  cases h with
  | cons head tail => exact ⟨_, head, tail⟩

theorem Steps.keeps {I : σ → Prop} (hstep : ∀ s l t, I s → step s l t → I t) {s t : σ} {ls : List ℓ}
    (h : Steps step s ls t) (hs : I s) : I t := by
  induction h with
  | nil => exact hs
  | cons head _ ih => exact ih (hstep _ _ _ hs head)

theorem Steps.keeps_of {I : σ → Prop} {P : ℓ → Prop}
    (hstep : ∀ s l t, P l → I s → step s l t → I t) {s t : σ} {ls : List ℓ} (h : Steps step s ls t)
    (hl : ∀ l ∈ ls, P l) (hs : I s) : I t := by
  induction h with
  | nil => exact hs
  | cons head _ ih =>
    rw [List.forall_mem_cons] at hl
    exact ih hl.2 (hstep _ _ _ hl.1 hs head)

theorem Steps.unguarded {ok : σ → ℓ → Prop} {s t : σ} {ls : List ℓ} (h : Steps (Guarded ok step) s ls t) :
    Steps step s ls t := by
  induction h with
  | nil => exact .nil _
  | cons head _ ih => exact .cons head.2 ih

end Lib
