import Mathlib.Logic.Basic

/-!
Rules for programs that carry a state and may fail. `Keeps` speaks of one run
and holds of failed runs too; `Agrees` compares two runs of one program.
-/

set_option autoImplicit false

namespace Lib

variable {ε ε' σ τ α β : Type}

def post (m : EStateM ε σ α) (s : σ) : σ :=
  match m.run s with
  | .ok _ t => t
  | .error _ t => t

def outcome (m : EStateM ε σ α) (s : σ) : Except ε α :=
  match m.run s with
  | .ok a _ => .ok a
  | .error r _ => .error r

def attempt (m : EStateM ε σ α) : EStateM ε' σ (Except ε α) := fun s => .ok (outcome m s) (post m s)

def zoom (get : σ → τ) (put : σ → τ → σ) (m : EStateM ε τ α) : EStateM ε σ α := fun s =>
  match m.run (get s) with
  | .ok a t => .ok a (put s t)
  | .error r t => .error r (put s t)

def rethrow : Except ε α → EStateM ε σ α
  | .ok a => pure a
  | .error r => throw r

@[simp] theorem rethrow_ok (a : α) : (rethrow (.ok a) : EStateM ε σ α) = pure a := rfl

@[simp] theorem rethrow_error (r : ε) : (rethrow (.error r) : EStateM ε σ α) = throw r := rfl

theorem run_rethrow {x : Except ε α} {s t : σ} {a : α} :
    (rethrow x : EStateM ε σ α).run s = .ok a t ↔ x = .ok a ∧ s = t := by
  cases x with
  | ok b => simp
  | error r =>
    constructor
    · intro h
      have herror : (EStateM.Result.error r s : EStateM.Result ε σ α) = .ok a t := h
      cases herror
    · rintro ⟨h, _⟩
      cases h

@[simp] theorem run_fail (r : ε) (s : σ) : (throw r : EStateM ε σ α).run s = .error r s := rfl

@[simp] theorem post_modify (g : σ → σ) (s : σ) : post (modify g : EStateM ε σ PUnit) s = g s := rfl

theorem post_of_run {m : EStateM ε σ α} {s t : σ} {a : α} (h : m.run s = .ok a t) : post m s = t := by
  simp [post, h]

theorem outcome_of_run {m : EStateM ε σ α} {s t : σ} {a : α} (h : m.run s = .ok a t) :
    outcome m s = .ok a := by
  simp [outcome, h]

theorem post_of_error {m : EStateM ε σ α} {s t : σ} {r : ε} (h : m.run s = .error r t) : post m s = t := by
  simp [post, h]

theorem outcome_of_error {m : EStateM ε σ α} {s t : σ} {r : ε} (h : m.run s = .error r t) :
    outcome m s = .error r := by
  simp [outcome, h]

theorem ends_of_same {m n : EStateM ε σ α} {s : σ} (h : m.run s = n.run s) :
    outcome m s = outcome n s ∧ post m s = post n s := by
  unfold outcome post
  rw [h]
  exact ⟨rfl, rfl⟩

theorem passed_on {m : EStateM ε σ α} {x : Except ε α} {s t : σ} (h : m.run s = (rethrow x).run t) :
    outcome m s = x ∧ post m s = t := by
  cases x with
  | ok a => exact ⟨outcome_of_run h, post_of_run h⟩
  | error r => exact ⟨outcome_of_error h, post_of_error h⟩

theorem run_then {m : EStateM ε σ α} {f : α → EStateM ε σ β} {s t : σ} {a : α} {r : EStateM.Result ε σ β}
    (hm : m.run s = .ok a t) (hf : (f a).run t = r) : (m >>= f).run s = r := by
  rw [EStateM.run_bind, hm]
  exact hf

theorem of_run_bind {m : EStateM ε σ α} {f : α → EStateM ε σ β} {s t : σ} {b : β}
    (h : (m >>= f).run s = .ok b t) : ∃ a u, m.run s = .ok a u ∧ (f a).run u = .ok b t := by
  rw [EStateM.run_bind] at h
  cases hm : m.run s with
  | ok a u =>
    rw [hm] at h
    exact ⟨a, u, rfl, h⟩
  | error r u =>
    rw [hm] at h
    cases h

theorem of_run_adapt {f : ε → ε'} {m : EStateM ε σ α} {s t : σ} {a : α}
    (h : (EStateM.adaptExcept f m).run s = .ok a t) : m.run s = .ok a t := by
  rw [EStateM.run_adaptExcept] at h
  cases hm : m.run s with
  | ok b u =>
    rw [hm] at h
    cases h
    rfl
  | error r u =>
    rw [hm] at h
    cases h

theorem post_then {m : EStateM ε σ α} {f : α → EStateM ε σ β} {s t : σ} {a : α}
    (hm : m.run s = .ok a t) : post (m >>= f) s = post (f a) t := by
  unfold post
  rw [EStateM.run_bind, hm]

theorem outcome_then {m : EStateM ε σ α} {f : α → EStateM ε σ β} {s t : σ} {a : α}
    (h : m.run s = .ok a t) : outcome (m >>= f) s = outcome (f a) t := by
  unfold outcome
  rw [EStateM.run_bind, h]

theorem run_adapt {m : EStateM ε σ α} {s t : σ} {a : α} {f : ε → ε'} (h : m.run s = .ok a t) :
    (EStateM.adaptExcept f m).run s = .ok a t := by
  rw [EStateM.run_adaptExcept, h]

theorem post_get_bind (f : σ → EStateM ε σ β) (s : σ) : post (get >>= f) s = post (f s) s := rfl

theorem outcome_get_bind (f : σ → EStateM ε σ β) (s : σ) : outcome (get >>= f) s = outcome (f s) s := rfl

theorem post_bind_still {m : EStateM ε σ α} {f : α → EStateM ε σ β} {s : σ} (hf : ∀ a t, post (f a) t = t) :
    post (m >>= f) s = post m s := by
  unfold post at *
  rw [EStateM.run_bind]
  cases h : m.run s with
  | ok a t => exact hf a t
  | error r t => rfl

theorem post_map (m : EStateM ε σ α) (f : α → β) (s : σ) : post (m >>= fun a => pure (f a)) s = post m s := by
  unfold post
  rw [EStateM.run_bind]
  cases m.run s <;> rfl

theorem outcome_map (m : EStateM ε σ α) (f : α → β) (s : σ) :
    outcome (m >>= fun a => pure (f a)) s = (outcome m s).map f := by
  unfold outcome
  rw [EStateM.run_bind]
  cases m.run s <;> rfl

theorem run_adapt_error {m : EStateM ε σ α} {s t : σ} {r : ε} {f : ε → ε'} (h : m.run s = .error r t) :
    (EStateM.adaptExcept f m).run s = .error (f r) t := by
  rw [EStateM.run_adaptExcept, h]

theorem run_fails {m : EStateM ε σ α} {f : α → EStateM ε σ β} {s t : σ} {r : ε} (h : m.run s = .error r t) :
    (m >>= f).run s = .error r t := by
  rw [EStateM.run_bind, h]

theorem run_of_outcome {m : EStateM ε σ α} {s : σ} {a : α} (h : outcome m s = .ok a) :
    m.run s = .ok a (post m s) := by
  unfold outcome at h
  unfold post
  split at h <;> simp_all

theorem run_of_outcome_error {m : EStateM ε σ α} {s : σ} {r : ε} (h : outcome m s = .error r) :
    m.run s = .error r (post m s) := by
  unfold outcome at h
  unfold post
  split at h <;> simp_all

theorem outcome_bind_ok {m : EStateM ε σ α} {f : α → EStateM ε σ β} {s : σ} {a : α}
    (h : outcome m s = .ok a) : outcome (m >>= f) s = outcome (f a) (post m s) := by
  have hrun := run_of_outcome h
  unfold outcome
  rw [EStateM.run_bind, hrun]

theorem outcome_bind_error {m : EStateM ε σ α} {f : α → EStateM ε σ β} {s : σ} {r : ε}
    (h : outcome m s = .error r) : outcome (m >>= f) s = .error r := by
  have hrun := run_of_outcome_error h
  unfold outcome
  rw [EStateM.run_bind, hrun]

theorem post_bind_ok {m : EStateM ε σ α} {f : α → EStateM ε σ β} {s : σ} {a : α}
    (h : outcome m s = .ok a) : post (m >>= f) s = post (f a) (post m s) :=
  post_then (run_of_outcome h)

theorem post_bind_error {m : EStateM ε σ α} {f : α → EStateM ε σ β} {s : σ} {r : ε}
    (h : outcome m s = .error r) : post (m >>= f) s = post m s := by
  have hrun := run_of_outcome_error h
  unfold post at *
  rw [EStateM.run_bind, hrun]

@[simp] theorem run_attempt (m : EStateM ε σ α) (s : σ) :
    (attempt m : EStateM ε' σ (Except ε α)).run s = .ok (outcome m s) (post m s) := rfl

theorem run_attempt_ok {m : EStateM ε σ α} {s t : σ} {a : α} (h : m.run s = .ok a t) :
    (attempt m : EStateM ε' σ (Except ε α)).run s = .ok (.ok a) t := by
  rw [run_attempt, outcome_of_run h, post_of_run h]

theorem run_attempt_error {m : EStateM ε σ α} {s t : σ} {r : ε} (h : m.run s = .error r t) :
    (attempt m : EStateM ε' σ (Except ε α)).run s = .ok (.error r) t := by
  simp [outcome, post, h]

theorem run_zoom {get : σ → τ} {put : σ → τ → σ} {m : EStateM ε τ α} {s : σ} {t : τ} {a : α}
    (h : m.run (get s) = .ok a t) : (zoom get put m).run s = .ok a (put s t) := by
  show (zoom get put m) s = _
  simp [zoom, h]

theorem run_zoom_error {get : σ → τ} {put : σ → τ → σ} {m : EStateM ε τ α} {s : σ} {t : τ} {r : ε}
    (h : m.run (get s) = .error r t) : (zoom get put m).run s = .error r (put s t) := by
  show (zoom get put m) s = _
  simp [zoom, h]

theorem of_run_zoom {get : σ → τ} {put : σ → τ → σ} {m : EStateM ε τ α} {s t : σ} {a : α}
    (h : (zoom get put m).run s = .ok a t) : ∃ u, m.run (get s) = .ok a u ∧ t = put s u := by
  change zoom get put m s = _ at h
  unfold zoom at h
  cases hm : m.run (get s) with
  | ok b u =>
    rw [hm] at h
    cases h
    exact ⟨u, rfl, rfl⟩
  | error r u =>
    rw [hm] at h
    cases h

@[simp] theorem post_zoom (get : σ → τ) (put : σ → τ → σ) (m : EStateM ε τ α) (s : σ) :
    post (zoom get put m) s = put s (post m (get s)) := by
  unfold post
  show (match (zoom get put m) s with | .ok _ t => t | .error _ t => t) = _
  simp only [zoom]
  cases m.run (get s) <;> rfl

@[simp] theorem outcome_zoom (get : σ → τ) (put : σ → τ → σ) (m : EStateM ε τ α) (s : σ) :
    outcome (zoom get put m) s = outcome m (get s) := by
  unfold outcome
  show (match (zoom get put m) s with | .ok a _ => Except.ok a | .error r _ => .error r) = _
  simp only [zoom]
  cases m.run (get s) <;> rfl

@[simp] theorem post_adaptExcept (f : ε → ε') (m : EStateM ε σ α) (s : σ) :
    post (EStateM.adaptExcept f m) s = post m s := by
  simp only [post, EStateM.run_adaptExcept]
  cases m.run s <;> rfl

@[simp] theorem outcome_adaptExcept (f : ε → ε') (m : EStateM ε σ α) (s : σ) :
    outcome (EStateM.adaptExcept f m) s = (outcome m s).mapError f := by
  simp only [outcome, EStateM.run_adaptExcept]
  cases m.run s <;> rfl

def Keeps (R : σ → σ → Prop) (m : EStateM ε σ α) (s : σ) : Prop := R s (post m s)

structure Chains (R : σ → σ → Prop) : Prop where
  refl : ∀ s, R s s
  trans : ∀ {a b c}, R a b → R b c → R a c

def Preserves (P : σ → Prop) (s t : σ) : Prop := P s → P t

theorem preserves_chains (P : σ → Prop) : Chains (Preserves P) :=
  ⟨fun _ => id, fun h k hp => k (h hp)⟩

section Keeps
variable {R : σ → σ → Prop} (hR : Chains R)
include hR

theorem keeps_pure (a : α) (s : σ) : Keeps R (pure a : EStateM ε σ α) s := hR.refl s

theorem keeps_throw (r : ε) (s : σ) : Keeps R (throw r : EStateM ε σ α) s := hR.refl s

theorem keeps_bind {m : EStateM ε σ α} {f : α → EStateM ε σ β} {s : σ} (hm : Keeps R m s)
    (hf : ∀ a t, m.run s = .ok a t → Keeps R (f a) t) : Keeps R (m >>= f) s := by
  unfold Keeps post at *
  rw [EStateM.run_bind]
  cases h : m.run s with
  | ok a t =>
    rw [h] at hm
    exact hR.trans hm (hf a t h)
  | error r t =>
    rw [h] at hm
    exact hm

theorem keeps_rethrow (x : Except ε α) (s : σ) : Keeps R (rethrow x) s := by
  cases x with
  | ok a => exact keeps_pure hR a s
  | error r => exact keeps_throw hR r s

theorem keeps_seq {m : EStateM ε σ α} {f : α → EStateM ε σ β} {s : σ} (hm : Keeps R m s)
    (hf : ∀ a t, m.run s = .ok a t → R s t → Keeps R (f a) t) : Keeps R (m >>= f) s :=
  keeps_bind hR hm fun a t h => hf a t h (post_of_run h ▸ hm)

omit hR in
theorem keeps_get_bind {f : σ → EStateM ε σ β} {s : σ} (h : Keeps R (f s) s) : Keeps R (get >>= f) s := h

omit hR in
theorem keeps_attempt {m : EStateM ε σ α} {s : σ} (hm : Keeps R m s) :
    Keeps R (attempt m : EStateM ε' σ (Except ε α)) s := hm

omit hR in
theorem keeps_adaptExcept {m : EStateM ε σ α} {s : σ} (f : ε → ε') (hm : Keeps R m s) :
    Keeps R (EStateM.adaptExcept f m) s := by
  unfold Keeps at *
  rwa [post_adaptExcept]

end Keeps

/-- However the run goes, it leads to a state that `R` relates to the one before. -/
def Always (R : σ → σ → Prop) (m : EStateM ε σ α) : Prop := ∀ s, Keeps R m s

section Always
variable {R : σ → σ → Prop} (hR : Chains R)
include hR

theorem always_pure (a : α) : Always R (pure a : EStateM ε σ α) := fun s => hR.refl s

theorem always_throw (r : ε) : Always R (throw r : EStateM ε σ α) := fun s => hR.refl s

theorem always_get : Always R (get : EStateM ε σ σ) := fun s => hR.refl s

omit hR in
theorem always_modify {g : σ → σ} (h : ∀ s, R s (g s)) : Always R (modify g : EStateM ε σ PUnit) := h

theorem always_rethrow (x : Except ε α) : Always R (rethrow x : EStateM ε σ α) := fun s => keeps_rethrow hR x s

theorem always_bind {m : EStateM ε σ α} {g : α → EStateM ε σ β} (hm : Always R m) (hg : ∀ a, Always R (g a)) :
    Always R (m >>= g) := fun s => keeps_bind hR (hm s) fun a t _ => hg a t

omit hR in
theorem always_ite {c : Prop} [Decidable c] {m n : EStateM ε σ α} (hm : Always R m) (hn : Always R n) :
    Always R (if c then m else n) := by
  split
  · exact hm
  · exact hn

omit hR in
theorem always_cond {c : Prop} [Decidable c] {m n : EStateM ε σ α} (hm : c → Always R m) (hn : ¬ c → Always R n) :
    Always R (if c then m else n) := by
  split
  · exact hm ‹c›
  · exact hn ‹¬ c›

theorem always_guard {c : Prop} [Decidable c] {r : ε} {g : PUnit → EStateM ε σ α} (hg : Always R (g .unit)) :
    Always R (if c then throw r >>= g else g .unit) :=
  always_ite (fun s => hR.refl s) hg

theorem always_when {c : Prop} [Decidable c] {m : EStateM ε σ PUnit} {g : PUnit → EStateM ε σ α} (hm : c → Always R m)
    (hg : Always R (g .unit)) : Always R (if c then m >>= g else g .unit) :=
  always_cond (fun h => always_bind hR (hm h) fun _ => hg) fun _ => hg

omit hR in
theorem always_attempt {m : EStateM ε σ α} (hm : Always R m) :
    Always R (attempt m : EStateM ε' σ (Except ε α)) := hm

omit hR in
theorem always_adaptExcept {m : EStateM ε σ α} (g : ε → ε') (hm : Always R m) :
    Always R (EStateM.adaptExcept g m) := fun s => keeps_adaptExcept g (hm s)

omit hR in
theorem always_zoom {ρ : Type} {get : σ → ρ} {put : σ → ρ → σ} {Q : ρ → ρ → Prop} {m : EStateM ε ρ α}
    (hm : Always Q m) (h : ∀ s t, Q (get s) t → R s (put s t)) : Always R (zoom get put m) := fun s => by
  unfold Keeps
  rw [post_zoom]
  exact h s _ (hm (get s))

end Always

def Fixes (f : σ → τ) (m : EStateM ε σ α) : Prop := ∀ s, f (post m s) = f s

section Fixes
variable {f : σ → τ}

theorem fixes_chains (f : σ → τ) : Chains fun s t => f t = f s :=
  ⟨fun _ => rfl, fun h k => k.trans h⟩

theorem fixes_pure (a : α) : Fixes f (pure a : EStateM ε σ α) := fun _ => rfl

theorem fixes_throw (r : ε) : Fixes f (throw r : EStateM ε σ α) := fun _ => rfl

theorem fixes_get : Fixes f (get : EStateM ε σ σ) := fun _ => rfl

theorem fixes_modify {g : σ → σ} (h : ∀ s, f (g s) = f s) : Fixes f (modify g : EStateM ε σ PUnit) := h

theorem fixes_rethrow (x : Except ε α) : Fixes f (rethrow x : EStateM ε σ α) := always_rethrow (fixes_chains f) x

theorem fixes_bind {m : EStateM ε σ α} {g : α → EStateM ε σ β} (hm : Fixes f m) (hg : ∀ a, Fixes f (g a)) :
    Fixes f (m >>= g) := always_bind (fixes_chains f) hm hg

theorem fixes_ite {c : Prop} [Decidable c] {m n : EStateM ε σ α} (hm : Fixes f m) (hn : Fixes f n) :
    Fixes f (if c then m else n) := always_ite (R := fun s t => f t = f s) hm hn

theorem fixes_guard {c : Prop} [Decidable c] {r : ε} {g : PUnit → EStateM ε σ α} (hg : Fixes f (g .unit)) :
    Fixes f (if c then throw r >>= g else g .unit) := always_guard (fixes_chains f) hg

theorem fixes_attempt {m : EStateM ε σ α} (hm : Fixes f m) :
    Fixes f (attempt m : EStateM ε' σ (Except ε α)) := hm

theorem fixes_adaptExcept {m : EStateM ε σ α} (g : ε → ε') (hm : Fixes f m) :
    Fixes f (EStateM.adaptExcept g m) := always_adaptExcept (R := fun s t => f t = f s) g hm

theorem fixes_zoom {ρ ρ' : Type} {get : σ → ρ} {put : σ → ρ → σ} {g : ρ → ρ'} {m : EStateM ε ρ α} (hm : Fixes g m)
    (h : ∀ s t, g t = g (get s) → f (put s t) = f s) : Fixes f (zoom get put m) :=
  always_zoom (R := fun s t => f t = f s) (Q := fun s t => g t = g s) hm h

end Fixes

/-- The run succeeds with `Q`, or it leaves the states that are spoken about. -/
def Ends (bad : σ → Prop) (m : EStateM ε σ α) (s : σ) (Q : α → σ → Prop) : Prop :=
  (∃ a t, m.run s = .ok a t ∧ Q a t) ∨ bad (post m s)

section Ends
variable {bad : σ → Prop}

theorem ends_of_run {m : EStateM ε σ α} {s t : σ} {a : α} {Q : α → σ → Prop}
    (h : m.run s = .ok a t) (hq : Q a t) : Ends bad m s Q :=
  .inl ⟨a, t, h, hq⟩

theorem ends_pure {a : α} {s : σ} {Q : α → σ → Prop} (h : Q a s) :
    Ends bad (pure a : EStateM ε σ α) s Q :=
  ends_of_run rfl h

theorem Ends.imp {m : EStateM ε σ α} {s : σ} {P Q : α → σ → Prop} (h : Ends bad m s P)
    (hpq : ∀ a t, P a t → Q a t) : Ends bad m s Q := by
  rcases h with ⟨a, t, hr, hp⟩ | hb
  · exact .inl ⟨a, t, hr, hpq a t hp⟩
  · exact .inr hb

theorem ends_bind {m : EStateM ε σ α} {f : α → EStateM ε σ β} {s : σ} {P : α → σ → Prop}
    {Q : β → σ → Prop} (hm : Ends bad m s P) (hf : ∀ a t, P a t → Ends bad (f a) t Q)
    (hbad : ∀ a t, bad t → bad (post (f a) t)) : Ends bad (m >>= f) s Q := by
  rcases hm with ⟨a, t, hr, hp⟩ | hb
  · rcases hf a t hp with ⟨b, u, hr', hq⟩ | hb
    · refine .inl ⟨b, u, ?_, hq⟩
      rw [EStateM.run_bind, hr]
      exact hr'
    · refine .inr ?_
      unfold post at hb ⊢
      rw [EStateM.run_bind, hr]
      exact hb
  · refine .inr ?_
    unfold post at hb ⊢
    rw [EStateM.run_bind]
    cases hr : m.run s with
    | ok a t =>
      rw [hr] at hb
      exact hbad a t hb
    | error r t =>
      rw [hr] at hb
      exact hb

theorem ends_adaptExcept {m : EStateM ε σ α} {s : σ} {Q : α → σ → Prop} (f : ε → ε')
    (h : Ends bad m s Q) : Ends bad (EStateM.adaptExcept f m) s Q := by
  rcases h with ⟨a, t, hr, hq⟩ | hb
  · refine .inl ⟨a, t, ?_, hq⟩
    rw [EStateM.run_adaptExcept, hr]
  · refine .inr ?_
    rwa [post_adaptExcept]

end Ends

def Succeeds (m : EStateM ε σ α) (s : σ) : Prop := ∃ a t, m.run s = .ok a t

theorem succeeds_of_run {m : EStateM ε σ α} {s t : σ} {a : α} (h : m.run s = .ok a t) : Succeeds m s := ⟨a, t, h⟩

theorem succeeds_pure (a : α) (s : σ) : Succeeds (pure a : EStateM ε σ α) s := ⟨a, s, rfl⟩

theorem succeeds_then {m : EStateM ε σ α} {f : α → EStateM ε σ β} {s t : σ} {a : α}
    (hm : m.run s = .ok a t) (hf : Succeeds (f a) t) : Succeeds (m >>= f) s := by
  obtain ⟨b, u, hf⟩ := hf
  exact ⟨b, u, run_then hm hf⟩

theorem succeeds_bind {m : EStateM ε σ α} {f : α → EStateM ε σ β} {s : σ} (hm : Succeeds m s)
    (hf : ∀ a t, m.run s = .ok a t → Succeeds (f a) t) : Succeeds (m >>= f) s := by
  obtain ⟨a, t, hm⟩ := hm
  exact succeeds_then hm (hf a t hm)

/-- The run ends with this outcome, in a state that satisfies `Q`. -/
def Gives (m : EStateM ε σ α) (s : σ) (r : Except ε α) (Q : σ → Prop) : Prop :=
  outcome m s = r ∧ Q (post m s)

section Gives
variable {Q : σ → Prop}

theorem gives_ok {m : EStateM ε σ α} {s t : σ} {a : α} (h : m.run s = .ok a t) (hq : Q t) :
    Gives m s (.ok a) Q :=
  ⟨outcome_of_run h, (post_of_run h).symm ▸ hq⟩

theorem gives_error {m : EStateM ε σ α} {s t : σ} {r : ε} (h : m.run s = .error r t) (hq : Q t) :
    Gives m s (.error r) Q := by
  unfold Gives outcome post
  rw [h]
  exact ⟨rfl, hq⟩

theorem gives_throw {r : ε} {s : σ} (hq : Q s) : Gives (throw r : EStateM ε σ α) s (.error r) Q :=
  gives_error rfl hq

theorem gives_pure {a : α} {s : σ} (hq : Q s) : Gives (pure a : EStateM ε σ α) s (.ok a) Q :=
  gives_ok rfl hq

theorem gives_then {m : EStateM ε σ α} {f : α → EStateM ε σ β} {s t : σ} {a : α} {r : Except ε β}
    (hm : m.run s = .ok a t) (hf : Gives (f a) t r Q) : Gives (m >>= f) s r Q := by
  unfold Gives outcome post at *
  rw [EStateM.run_bind, hm]
  exact hf

theorem gives_fail {m : EStateM ε σ α} {f : α → EStateM ε σ β} {s t : σ} {r : ε}
    (hm : m.run s = .error r t) (hq : Q t) : Gives (m >>= f) s (.error r) Q := by
  refine gives_error (t := t) ?_ hq
  rw [EStateM.run_bind, hm]

theorem Gives.run_ok {m : EStateM ε σ α} {s : σ} {a : α} (h : Gives m s (.ok a) Q) :
    ∃ t, m.run s = .ok a t ∧ Q t :=
  ⟨post m s, run_of_outcome h.1, h.2⟩

theorem Gives.run_error {m : EStateM ε σ α} {s : σ} {r : ε} (h : Gives m s (.error r) Q) :
    ∃ t, m.run s = .error r t ∧ Q t :=
  ⟨post m s, run_of_outcome_error h.1, h.2⟩

end Gives

def Total (m : EStateM ε σ α) : Prop := ∀ s, ∃ a, m.run s = .ok a (post m s)

section Total

theorem total_of_run {m : EStateM ε σ α} (h : ∀ s, ∃ a t, m.run s = .ok a t) : Total m := fun s => by
  obtain ⟨a, t, hrun⟩ := h s
  exact ⟨a, post_of_run hrun ▸ hrun⟩

theorem total_pure (a : α) : Total (pure a : EStateM ε σ α) := fun _ => ⟨a, rfl⟩

theorem total_attempt (m : EStateM ε σ α) : Total (attempt m : EStateM ε' σ (Except ε α)) :=
  fun s => ⟨outcome m s, rfl⟩

theorem total_get : Total (get : EStateM ε σ σ) := fun s => ⟨s, rfl⟩

theorem total_set (t : σ) : Total (set t : EStateM ε σ PUnit) := fun _ => ⟨.unit, rfl⟩

theorem total_modify (f : σ → σ) : Total (modify f : EStateM ε σ PUnit) := fun _ => ⟨.unit, rfl⟩

theorem total_bind {m : EStateM ε σ α} {f : α → EStateM ε σ β} (hm : Total m) (hf : ∀ a, Total (f a)) :
    Total (m >>= f) := by
  apply total_of_run
  intro s
  obtain ⟨a, ha⟩ := hm s
  obtain ⟨b, hb⟩ := hf a (post m s)
  exact ⟨b, _, run_then ha hb⟩

end Total

def Agrees (R : σ → σ → Prop) (m : EStateM ε σ α) : Prop :=
  ∀ s t, R s t → outcome m s = outcome m t ∧ R (post m s) (post m t)

section Agrees
variable {R : σ → σ → Prop}

theorem agrees_pure (a : α) : Agrees R (pure a : EStateM ε σ α) := fun _ _ h => ⟨rfl, h⟩

theorem agrees_throw (r : ε) : Agrees R (throw r : EStateM ε σ α) := fun _ _ h => ⟨rfl, h⟩

theorem agrees_rethrow (x : Except ε α) : Agrees R (rethrow x : EStateM ε σ α) := by
  cases x with
  | ok a => exact agrees_pure a
  | error r => exact agrees_throw r

theorem agrees_bind {m : EStateM ε σ α} {f : α → EStateM ε σ β} (hm : Agrees R m)
    (hf : ∀ a, Agrees R (f a)) : Agrees R (m >>= f) := by
  intro s t h
  obtain ⟨ho, hp⟩ := hm s t h
  unfold outcome post at *
  rw [EStateM.run_bind, EStateM.run_bind]
  cases hs : m.run s <;> cases ht : m.run t <;> simp only [hs, ht] at ho hp ⊢
  case ok.ok a s' b t' =>
    cases ho
    exact hf a s' t' hp
  case error.error r s' q t' =>
    cases ho
    exact ⟨rfl, hp⟩
  all_goals cases ho

theorem agrees_attempt {m : EStateM ε σ α} (hm : Agrees R m) :
    Agrees R (attempt m : EStateM ε' σ (Except ε α)) := fun s t h => by
  obtain ⟨ho, hp⟩ := hm s t h
  exact ⟨congrArg Except.ok ho, hp⟩

theorem agrees_adaptExcept {m : EStateM ε σ α} (f : ε → ε') (hm : Agrees R m) :
    Agrees R (EStateM.adaptExcept f m) := fun s t h => by
  obtain ⟨ho, hp⟩ := hm s t h
  simp only [outcome_adaptExcept, post_adaptExcept]
  exact ⟨congrArg _ ho, hp⟩

theorem agrees_ite {c : Prop} [Decidable c] {m n : EStateM ε σ α} (hm : Agrees R m) (hn : Agrees R n) :
    Agrees R (if c then m else n) := by
  split
  · exact hm
  · exact hn

theorem agrees_guard {c : Prop} [Decidable c] {r : ε} {g : PUnit → EStateM ε σ α} (hg : Agrees R (g .unit)) :
    Agrees R (if c then throw r >>= g else g .unit) :=
  agrees_ite (fun _ _ h => ⟨rfl, h⟩) hg

theorem agrees_modify {g : σ → σ} (h : ∀ s t, R s t → R (g s) (g t)) :
    Agrees R (modify g : EStateM ε σ PUnit) := fun s t hst => ⟨rfl, h s t hst⟩

theorem agrees_get_bind {f : σ → EStateM ε σ α}
    (h : ∀ s t, R s t → ∃ m, f s = m ∧ f t = m ∧ Agrees R m) : Agrees R (get >>= f) := fun s t hst => by
  obtain ⟨m, hs, ht, hm⟩ := h s t hst
  rw [outcome_get_bind, outcome_get_bind, post_get_bind, post_get_bind, hs, ht]
  exact hm s t hst

theorem agrees_zoom {ρ : Type} {get : σ → ρ} {put : σ → ρ → σ} {Q : ρ → ρ → Prop} {m : EStateM ε ρ α}
    (hm : Agrees Q m) (hget : ∀ s t, R s t → Q (get s) (get t))
    (hput : ∀ s t u v, R s t → Q u v → R (put s u) (put t v)) : Agrees R (zoom get put m) := fun s t hst => by
  obtain ⟨ho, hp⟩ := hm _ _ (hget s t hst)
  rw [outcome_zoom, outcome_zoom, post_zoom, post_zoom]
  exact ⟨ho, hput s t _ _ hst hp⟩

end Agrees

/-- A run that succeeds ends with `P`, and one that fails ends with `E`. -/
def Yields (m : EStateM ε σ α) (s : σ) (P : α → σ → Prop) (E : ε → σ → Prop) : Prop :=
  match m.run s with
  | .ok a t => P a t
  | .error r t => E r t

section Yields
variable {P : α → σ → Prop} {E : ε → σ → Prop}

theorem yields_of_run {m : EStateM ε σ α} {s t : σ} {a : α} (h : m.run s = .ok a t) (hp : P a t) :
    Yields m s P E := by
  unfold Yields
  rw [h]
  exact hp

theorem yields_of_error {m : EStateM ε σ α} {s t : σ} {r : ε} (h : m.run s = .error r t) (he : E r t) :
    Yields m s P E := by
  unfold Yields
  rw [h]
  exact he

instance (m : EStateM ε σ α) (s : σ) [∀ a t, Decidable (P a t)] [∀ r t, Decidable (E r t)] : Decidable (Yields m s P E) :=
  match h : m.run s with
  | .ok a t => decidable_of_iff (P a t) (by unfold Yields; rw [h])
  | .error r t => decidable_of_iff (E r t) (by unfold Yields; rw [h])

theorem yields_any (m : EStateM ε σ α) (s : σ) : Yields m s (fun _ _ => True) fun _ _ => True := by
  unfold Yields
  split <;> trivial

theorem yields_pure {a : α} {s : σ} (h : P a s) : Yields (pure a : EStateM ε σ α) s P E := h

theorem yields_throw {r : ε} {s : σ} (h : E r s) : Yields (throw r : EStateM ε σ α) s P E := h

theorem Yields.imp {m : EStateM ε σ α} {s : σ} {P' : α → σ → Prop} {E' : ε → σ → Prop} (h : Yields m s P E)
    (hp : ∀ a t, P a t → P' a t) (he : ∀ r t, E r t → E' r t) : Yields m s P' E' := by
  unfold Yields at *
  cases hm : m.run s with
  | ok a t => exact hp a t (by simpa only [hm] using h)
  | error r t => exact he r t (by simpa only [hm] using h)

theorem Yields.and {m : EStateM ε σ α} {s : σ} {P' : α → σ → Prop} {E' : ε → σ → Prop} (h : Yields m s P E)
    (k : Yields m s P' E') : Yields m s (fun a t => P a t ∧ P' a t) fun r t => E r t ∧ E' r t := by
  unfold Yields at *
  cases hm : m.run s with
  | ok a t => exact ⟨by simpa only [hm] using h, by simpa only [hm] using k⟩
  | error r t => exact ⟨by simpa only [hm] using h, by simpa only [hm] using k⟩

theorem yields_bind {m : EStateM ε σ α} {f : α → EStateM ε σ β} {s : σ} {Q : β → σ → Prop}
    (hm : Yields m s P E) (hf : ∀ a t, P a t → Yields (f a) t Q E) : Yields (m >>= f) s Q E := by
  unfold Yields at *
  rw [EStateM.run_bind]
  cases hr : m.run s with
  | ok a t =>
    rw [hr] at hm
    exact hf a t hm
  | error r t =>
    rw [hr] at hm
    exact hm

theorem yields_then {m : EStateM ε σ α} {f : α → EStateM ε σ β} {s t : σ} {a : α} {Q : β → σ → Prop}
    (h : m.run s = .ok a t) (hf : Yields (f a) t Q E) : Yields (m >>= f) s Q E := by
  unfold Yields at *
  rwa [EStateM.run_bind, h]

theorem yields_fails {m : EStateM ε σ α} {f : α → EStateM ε σ β} {s t : σ} {r : ε} {Q : β → σ → Prop}
    (h : m.run s = .error r t) (he : E r t) : Yields (m >>= f) s Q E := by
  unfold Yields
  rw [run_fails h]
  exact he

theorem yields_guard {c : Prop} [Decidable c] {r : ε} {f : PUnit → EStateM ε σ α} {s : σ} (hr : c → E r s)
    (hf : ¬ c → Yields (f .unit) s P E) : Yields (if c then throw r >>= f else f .unit) s P E := by
  split
  · rename_i hc
    exact hr hc
  · rename_i hc
    exact hf hc

theorem yields_when {c : Prop} [Decidable c] {m : EStateM ε σ PUnit} {f : PUnit → EStateM ε σ α}
    (hr : ∀ r s, E r s) (hf : ∀ s, Yields (f .unit) s P E) (s : σ) : Yields (if c then m >>= f else f .unit) s P E := by
  split
  · apply yields_bind ((yields_any m s).imp (fun _ _ _ => trivial) fun r t _ => hr r t)
    intro _ t _
    exact hf t
  · exact hf s

theorem yields_get_bind {f : σ → EStateM ε σ α} {s : σ} (h : Yields (f s) s P E) : Yields (get >>= f) s P E := h

theorem yields_attempt {m : EStateM ε σ α} {s : σ} {E' : ε' → σ → Prop} (h : Yields m s P E) :
    Yields (attempt m : EStateM ε' σ (Except ε α)) s
      (fun x t => match x with | .ok a => P a t | .error r => E r t) E' := by
  unfold Yields at *
  rw [run_attempt]
  unfold outcome post
  cases hr : m.run s with
  | ok a t => simpa only [hr] using h
  | error r t => simpa only [hr] using h

theorem yields_adaptExcept {m : EStateM ε σ α} {s : σ} {E' : ε' → σ → Prop} (f : ε → ε')
    (h : Yields m s P fun r t => E' (f r) t) : Yields (EStateM.adaptExcept f m) s P E' := by
  unfold Yields at *
  rw [EStateM.run_adaptExcept]
  cases hr : m.run s with
  | ok a t => simpa only [hr] using h
  | error r t => simpa only [hr] using h

theorem yields_rethrow {x : Except ε α} {s : σ}
    (h : match x with | .ok a => P a s | .error r => E r s) : Yields (rethrow x) s P E := by
  cases x <;> exact h

theorem yields_zoom {get : σ → τ} {put : σ → τ → σ} {m : EStateM ε τ α} {s : σ}
    (h : Yields m (get s) (fun a t => P a (put s t)) fun r t => E r (put s t)) : Yields (zoom get put m) s P E := by
  unfold Yields at *
  cases hm : m.run (get s) with
  | ok a t =>
    rw [hm] at h
    rw [run_zoom hm]
    exact h
  | error r t =>
    rw [hm] at h
    rw [run_zoom_error hm]
    exact h

theorem Always.yields {R : σ → σ → Prop} {m : EStateM ε σ α} (h : Always R m) (s : σ) :
    Yields m s (fun _ t => R s t) fun _ t => R s t := by
  have hs := h s
  unfold Keeps post at hs
  unfold Yields
  cases hr : m.run s with
  | ok a t => simpa only [hr] using hs
  | error r t => simpa only [hr] using hs

theorem Fixes.yields {f : σ → τ} {m : EStateM ε σ α} (h : Fixes f m) (s : σ) :
    Yields m s (fun _ t => f t = f s) fun _ t => f t = f s :=
  Always.yields (R := fun s t => f t = f s) h s

theorem Yields.run_ok {m : EStateM ε σ α} {s t : σ} {a : α} (h : Yields m s P E) (hr : m.run s = .ok a t) :
    P a t := by
  unfold Yields at h
  rwa [hr] at h

theorem Yields.run_error {m : EStateM ε σ α} {s t : σ} {r : ε} (h : Yields m s P E)
    (hr : m.run s = .error r t) : E r t := by
  unfold Yields at h
  rwa [hr] at h

theorem Yields.post {m : EStateM ε σ α} {s : σ} {Q : σ → Prop} (h : Yields m s (fun _ => Q) fun _ => Q) :
    Q (post m s) := by
  unfold Yields at h
  unfold Lib.post
  cases hr : m.run s with
  | ok a t => simpa only [hr] using h
  | error r t => simpa only [hr] using h

end Yields

/-- Both programs give one answer, failing only as `E` allows, and end in related states; or the first
works on something torn and fails. -/
def Mirrors (torn : Prop) (R : σ → τ → Prop) (E : ε → Prop) (m : EStateM ε σ α) (s : σ) (m' : EStateM ε τ α)
    (t : τ) : Prop :=
  (outcome m s = outcome m' t ∧ (∀ r, outcome m s = .error r → E r) ∧ R (post m s) (post m' t)) ∨
    (torn ∧ ∃ r, outcome m s = .error r)

section Mirrors
variable {torn : Prop} {R : σ → τ → Prop} {E : ε → Prop} {s : σ} {t : τ}

theorem mirrors_pure (a : α) (h : R s t) :
    Mirrors torn R E (pure a : EStateM ε σ α) s (pure a : EStateM ε τ α) t :=
  .inl ⟨rfl, nofun, h⟩

theorem mirrors_throw {r : ε} (he : E r) (h : R s t) :
    Mirrors torn R E (throw r : EStateM ε σ α) s (throw r : EStateM ε τ α) t := by
  refine .inl ⟨rfl, fun r' hr => ?_, h⟩
  cases hr
  exact he

theorem mirrors_modify {f : σ → σ} {g : τ → τ} (h : R (f s) (g t)) :
    Mirrors torn R E (modify f : EStateM ε σ PUnit) s (modify g : EStateM ε τ PUnit) t :=
  .inl ⟨rfl, nofun, h⟩

theorem mirrors_get_bind {f : σ → EStateM ε σ β} {f' : τ → EStateM ε τ β} (h : Mirrors torn R E (f s) s (f' t) t) :
    Mirrors torn R E (get >>= f) s (get >>= f') t := h

theorem mirrors_bind {m : EStateM ε σ α} {m' : EStateM ε τ α} {f : α → EStateM ε σ β} {f' : α → EStateM ε τ β}
    (hm : Mirrors torn R E m s m' t) (hf : ∀ a u v, R u v → Mirrors torn R E (f a) u (f' a) v) :
    Mirrors torn R E (m >>= f) s (m' >>= f') t := by
  rcases hm with ⟨ho, he, hp⟩ | ⟨ht, r, hr⟩
  · cases hs : outcome m s with
    | ok a =>
      unfold Mirrors
      rw [outcome_bind_ok hs, outcome_bind_ok (ho ▸ hs), post_bind_ok hs, post_bind_ok (ho ▸ hs)]
      exact hf a _ _ hp
    | error r =>
      unfold Mirrors
      rw [outcome_bind_error hs, outcome_bind_error (ho ▸ hs), post_bind_error hs, post_bind_error (ho ▸ hs)]
      refine .inl ⟨rfl, fun r' hr => ?_, hp⟩
      cases hr
      exact he r hs
  · exact .inr ⟨ht, r, outcome_bind_error hr⟩

theorem mirrors_of_run {m : EStateM ε σ α} {m' : EStateM ε τ α} {s₁ : σ} {t₁ : τ} {a : α} (h : m.run s = .ok a s₁)
    (h' : m'.run t = .ok a t₁) (hr : R s₁ t₁) : Mirrors torn R E m s m' t := by
  unfold Mirrors
  rw [outcome_of_run h, outcome_of_run h', post_of_run h, post_of_run h']
  exact .inl ⟨rfl, nofun, hr⟩

theorem mirrors_then {m : EStateM ε σ α} {m' : EStateM ε τ α} {f : α → EStateM ε σ β} {f' : α → EStateM ε τ β}
    {s₁ : σ} {t₁ : τ} {a : α} (h : m.run s = .ok a s₁) (h' : m'.run t = .ok a t₁)
    (hf : Mirrors torn R E (f a) s₁ (f' a) t₁) : Mirrors torn R E (m >>= f) s (m' >>= f') t := by
  unfold Mirrors outcome post at *
  simpa only [EStateM.run_bind, h, h'] using hf

end Mirrors

/-- Where the second program succeeds, the first gives the same answer and ends in a related state, or it fails
with this error. -/
def Curtails (r₀ : ε) (R : σ → τ → Prop) (m : EStateM ε σ α) (s : σ) (m' : EStateM ε τ α) (t : τ) : Prop :=
  ∀ a v, m'.run t = .ok a v → (∃ u, m.run s = .ok a u ∧ R u v) ∨ ∃ u, m.run s = .error r₀ u

section Curtails
variable {r₀ : ε} {R : σ → τ → Prop} {s : σ} {t : τ}

theorem curtails_pure (a : α) (h : R s t) : Curtails r₀ R (pure a : EStateM ε σ α) s (pure a : EStateM ε τ α) t := by
  rintro b v ⟨⟩
  exact .inl ⟨s, rfl, h⟩

theorem curtails_throw (r : ε) (m : EStateM ε σ α) : Curtails r₀ R m s (throw r : EStateM ε τ α) t := by
  rintro b v ⟨⟩

theorem curtails_modify {f : σ → σ} {g : τ → τ} (h : R (f s) (g t)) :
    Curtails r₀ R (modify f : EStateM ε σ PUnit) s (modify g : EStateM ε τ PUnit) t := by
  rintro b v ⟨⟩
  exact .inl ⟨f s, rfl, h⟩

theorem curtails_get_bind {f : σ → EStateM ε σ β} {f' : τ → EStateM ε τ β} (h : Curtails r₀ R (f s) s (f' t) t) :
    Curtails r₀ R (get >>= f) s (get >>= f') t := h

theorem curtails_bind {m : EStateM ε σ α} {m' : EStateM ε τ α} {f : α → EStateM ε σ β} {f' : α → EStateM ε τ β}
    (hm : Curtails r₀ R m s m' t) (hf : ∀ a u v, R u v → Curtails r₀ R (f a) u (f' a) v) :
    Curtails r₀ R (m >>= f) s (m' >>= f') t := by
  intro b w hrun
  obtain ⟨a, v, hm', hf'⟩ := of_run_bind hrun
  rcases hm a v hm' with ⟨u, hu, huv⟩ | ⟨u, hu⟩
  · rcases hf a u v huv b w hf' with ⟨x, hx, hxw⟩ | ⟨x, hx⟩
    · exact .inl ⟨x, run_then hu hx, hxw⟩
    · exact .inr ⟨x, run_then hu hx⟩
  · exact .inr ⟨u, run_fails hu⟩

theorem Mirrors.curtails {E : ε → Prop} {m : EStateM ε σ α} {m' : EStateM ε τ α} (h : Mirrors False R E m s m' t) :
    Curtails r₀ R m s m' t := by
  intro a v hrun
  rcases h with ⟨ho, -, hp⟩ | ⟨hf, -⟩
  · rw [outcome_of_run hrun] at ho
    rw [post_of_run hrun] at hp
    exact .inl ⟨_, run_of_outcome ho, hp⟩
  · exact hf.elim

end Curtails

def Carries (f : σ → τ) (m : EStateM ε σ α) (m' : EStateM ε τ α) : Prop :=
  ∀ s, outcome m' (f s) = outcome m s ∧ post m' (f s) = f (post m s)

section Carries
variable {f : σ → τ}

theorem carries_pure (a : α) : Carries f (pure a : EStateM ε σ α) (pure a) := fun _ => ⟨rfl, rfl⟩

theorem carries_throw (r : ε) : Carries f (throw r : EStateM ε σ α) (throw r) := fun _ => ⟨rfl, rfl⟩

theorem carries_modify {g : σ → σ} {g' : τ → τ} (h : ∀ s, g' (f s) = f (g s)) :
    Carries f (modify g : EStateM ε σ PUnit) (modify g') := fun s => ⟨rfl, h s⟩

theorem carries_bind {m : EStateM ε σ α} {m' : EStateM ε τ α} {g : α → EStateM ε σ β} {g' : α → EStateM ε τ β}
    (hm : Carries f m m') (hg : ∀ a, Carries f (g a) (g' a)) : Carries f (m >>= g) (m' >>= g') := by
  intro s
  obtain ⟨ho, hp⟩ := hm s
  cases hs : outcome m s with
  | ok a =>
    rw [outcome_bind_ok hs, outcome_bind_ok (ho.trans hs), post_bind_ok hs, post_bind_ok (ho.trans hs), hp]
    exact hg a (post m s)
  | error r =>
    rw [outcome_bind_error hs, outcome_bind_error (ho.trans hs), post_bind_error hs,
      post_bind_error (ho.trans hs), hp]
    exact ⟨rfl, rfl⟩

theorem carries_get_bind {g : σ → EStateM ε σ β} {g' : τ → EStateM ε τ β}
    (hg : ∀ s, Carries f (g s) (g' (f s))) : Carries f (get >>= g) (get >>= g') := fun s => hg s s

theorem carries_attempt {m : EStateM ε σ α} {m' : EStateM ε τ α} (hm : Carries f m m') :
    Carries f (attempt m : EStateM ε' σ (Except ε α)) (attempt m') := fun s => by
  obtain ⟨ho, hp⟩ := hm s
  exact ⟨congrArg Except.ok ho, hp⟩

theorem carries_adaptExcept {m : EStateM ε σ α} {m' : EStateM ε τ α} (g : ε → ε') (hm : Carries f m m') :
    Carries f (EStateM.adaptExcept g m) (EStateM.adaptExcept g m') := by
  intro s
  obtain ⟨ho, hp⟩ := hm s
  cases hs : outcome m s with
  | ok a =>
    have hr := run_of_outcome hs
    have hr' := run_of_outcome (ho.trans hs)
    rw [outcome_of_run (run_adapt hr), outcome_of_run (run_adapt hr'), post_of_run (run_adapt hr),
      post_of_run (run_adapt hr')]
    exact ⟨rfl, hp⟩
  | error r =>
    have hr := run_adapt_error (f := g) (run_of_outcome_error hs)
    have hr' := run_adapt_error (f := g) (run_of_outcome_error (ho.trans hs))
    unfold outcome post
    rw [hr, hr']
    exact ⟨rfl, hp⟩

theorem carries_zoom {ρ ρ' : Type} {p : ρ → ρ'} {get : σ → ρ} {put : σ → ρ → σ} {get' : τ → ρ'}
    {put' : τ → ρ' → τ} {m : EStateM ε ρ α} {m' : EStateM ε ρ' α} (hget : ∀ s, get' (f s) = p (get s))
    (hput : ∀ s t, put' (f s) (p t) = f (put s t)) (hm : Carries p m m') :
    Carries f (zoom get put m) (zoom get' put' m') := by
  intro s
  obtain ⟨ho, hp⟩ := hm (get s)
  rw [← hget s] at ho hp
  cases hs : outcome m (get s) with
  | ok a =>
    have hr : (zoom get put m).run s = _ := run_zoom (run_of_outcome hs)
    have hr' : (zoom get' put' m').run (f s) = _ := run_zoom (run_of_outcome (ho.trans hs))
    rw [outcome_of_run hr, outcome_of_run hr', post_of_run hr, post_of_run hr', hp, hput]
    exact ⟨rfl, rfl⟩
  | error r =>
    have hr : (zoom get put m).run s = _ := run_zoom_error (run_of_outcome_error hs)
    have hr' : (zoom get' put' m').run (f s) = _ := run_zoom_error (run_of_outcome_error (ho.trans hs))
    unfold outcome post
    rw [hr, hr']
    exact ⟨rfl, hp ▸ hput s (post m (get s))⟩

theorem carries_id (m : EStateM ε σ α) : Carries id m m := fun _ => ⟨rfl, rfl⟩

theorem carries_rethrow (x : Except ε α) : Carries f (rethrow x) (rethrow x) := by
  cases x <;> exact fun _ => ⟨rfl, rfl⟩

theorem carries_ite {c : Prop} [Decidable c] {m n : EStateM ε σ α} {m' n' : EStateM ε τ α} (hm : Carries f m m')
    (hn : Carries f n n') : Carries f (if c then m else n) (if c then m' else n') := by
  split
  · exact hm
  · exact hn

theorem carries_guard {c : Prop} [Decidable c] {r : ε} {g : PUnit → EStateM ε σ α} {g' : PUnit → EStateM ε τ α}
    (hg : Carries f (g .unit) (g' .unit)) :
    Carries f (if c then throw r >>= g else g .unit) (if c then throw r >>= g' else g' .unit) :=
  carries_ite (fun _ => ⟨rfl, rfl⟩) hg

theorem carries_when {c : Prop} [Decidable c] {m : EStateM ε σ PUnit} {m' : EStateM ε τ PUnit}
    {g : PUnit → EStateM ε σ α} {g' : PUnit → EStateM ε τ α} (hm : Carries f m m') (hg : Carries f (g .unit) (g' .unit)) :
    Carries f (if c then m >>= g else g .unit) (if c then m' >>= g' else g' .unit) :=
  carries_ite (carries_bind hm fun _ => hg) hg

end Carries

end Lib
