import ZephyrDB.Lib.Effect

/-!
Programs that keep notes beside their state. The notes decide nothing: with
them left out, the program is the one that takes none.
-/

set_option autoImplicit false

namespace Lib

/-- A state with notes kept beside it. -/
structure Noted (σ ν : Type) where
  st : σ
  notes : ν

variable {ε ε' σ τ ν α β γ δ : Type}

def silent (m : EStateM ε σ α) : EStateM ε (Noted σ ν) α := zoom Noted.st (fun s t => { s with st := t }) m

def note (f : ν → ν) : EStateM ε (Noted σ ν) Unit := modify fun s => { s with notes := f s.notes }

def noting (get : σ → τ) (put : σ → τ → σ) (m : EStateM ε (Noted τ ν) α) : EStateM ε (Noted σ ν) α :=
  zoom (fun s => ⟨get s.st, s.notes⟩) (fun s t => ⟨put s.st t.st, t.notes⟩) m

def orUndo (undo : σ → σ) (m : EStateM ε σ α) : EStateM ε σ α := fun s =>
  match m.run s with
  | .ok a t => .ok a t
  | .error r t => .error r (undo t)

theorem run_orUndo {undo : σ → σ} {m : EStateM ε σ α} {s t : σ} {a : α} (h : m.run s = .ok a t) :
    (orUndo undo m).run s = .ok a t := by
  show orUndo undo m s = _
  simp only [orUndo, h]

theorem run_orUndo_error {undo : σ → σ} {m : EStateM ε σ α} {s t : σ} {r : ε} (h : m.run s = .error r t) :
    (orUndo undo m).run s = .error r (undo t) := by
  show orUndo undo m s = _
  simp only [orUndo, h]

theorem yields_orUndo {undo : σ → σ} {m : EStateM ε σ α} {s : σ} {P : α → σ → Prop} {E : ε → σ → Prop}
    (h : Yields m s P fun r t => E r (undo t)) : Yields (orUndo undo m) s P E := by
  unfold Yields at *
  cases hm : m.run s with
  | ok a t =>
    rw [hm] at h
    rw [run_orUndo hm]
    exact h
  | error r t =>
    rw [hm] at h
    rw [run_orUndo_error hm]
    exact h

def noteWhen (c : σ → Bool) (f : ν → ν) : EStateM ε (Noted σ ν) Unit :=
  modify fun s => if c s.st then { s with notes := f s.notes } else s

def orNote (c : σ → Bool) (f : ν → ν) (m : EStateM ε (Noted σ ν) α) : EStateM ε (Noted σ ν) α :=
  orUndo (fun s => if c s.st then { s with notes := f s.notes } else s) m

def between (f g : ν → ν) (m : EStateM ε (Noted σ ν) α) : EStateM ε (Noted σ ν) α := fun s =>
  match m.run { s with notes := f s.notes } with
  | .ok a t => .ok a { t with notes := g t.notes }
  | .error r t => .error r { t with notes := g t.notes }

theorem run_silent_attempt (m : EStateM ε σ α) (s : Noted σ ν) :
    (silent (attempt m) : EStateM ε' (Noted σ ν) (Except ε α)).run s = .ok (outcome m s.st) { s with st := post m s.st } :=
  run_zoom (run_attempt m s.st)

theorem fixes_silent (m : EStateM ε σ α) : Fixes Noted.notes (silent m : EStateM ε (Noted σ ν) α) := fun s => by
  unfold silent
  rw [post_zoom]

theorem fixes_silent_st {f : σ → τ} {m : EStateM ε σ α} (hm : Fixes f m) :
    Fixes (fun s => f s.st) (silent m : EStateM ε (Noted σ ν) α) := fixes_zoom hm fun _ _ h => h

theorem yields_silent {m : EStateM ε σ α} {s : Noted σ ν} {P : α → σ → Prop} {E : ε → σ → Prop} (h : Yields m s.st P E) :
    Yields (silent m) s (fun a t => P a t.st ∧ t.notes = s.notes) fun r t => E r t.st ∧ t.notes = s.notes :=
  yields_zoom (h.imp (fun _ _ h => ⟨h, rfl⟩) fun _ _ h => ⟨h, rfl⟩)

theorem fixes_noting {get : σ → τ} {put : σ → τ → σ} {m : EStateM ε (Noted τ ν) α} (hm : Fixes Noted.notes m) :
    Fixes Noted.notes (noting get put m) := fun s => by
  unfold noting
  rw [post_zoom]
  exact hm _

theorem carries_silent (m : EStateM ε σ α) : Carries Noted.st (silent m : EStateM ε (Noted σ ν) α) m := fun s => by
  unfold silent
  rw [outcome_zoom, post_zoom]
  exact ⟨rfl, rfl⟩

theorem yields_of_carries {m : EStateM ε (Noted σ ν) α} {m' : EStateM ε σ α} (h : Carries Noted.st m m')
    {s : Noted σ ν} {P : α → σ → Prop} {E : ε → σ → Prop} (hy : Yields m' s.st P E) :
    Yields m s (fun a t => P a t.st) fun r t => E r t.st := by
  obtain ⟨ho, hp⟩ := h s
  cases hr : m.run s with
  | ok a t =>
    rw [outcome_of_run hr] at ho
    rw [post_of_run hr] at hp
    exact yields_of_run hr (hp ▸ hy.run_ok (run_of_outcome ho))
  | error r t =>
    rw [outcome_of_error hr] at ho
    rw [post_of_error hr] at hp
    exact yields_of_error hr (hp ▸ hy.run_error (run_of_outcome_error ho))

theorem carries_note (f : ν → ν) {m : EStateM ε (Noted σ ν) α} {m' : EStateM ε σ α} (hm : Carries Noted.st m m') :
    Carries Noted.st (note f >>= fun _ => m) m' := fun s => hm { s with notes := f s.notes }

theorem carries_noting {get : σ → τ} {put : σ → τ → σ} {m : EStateM ε (Noted τ ν) α} {m' : EStateM ε τ α}
    (hm : Carries Noted.st m m') : Carries Noted.st (noting get put m) (zoom get put m') :=
  carries_zoom (fun _ => rfl) (fun _ _ => rfl) hm

theorem carries_orUndo {f : σ → τ} {undo : σ → σ} {m : EStateM ε σ α} {m' : EStateM ε τ α}
    (hundo : ∀ s, f (undo s) = f s) (hm : Carries f m m') : Carries f (orUndo undo m) m' := by
  intro s
  obtain ⟨ho, hp⟩ := hm s
  cases hr : m.run s with
  | ok a t =>
    rw [outcome_of_run (run_orUndo hr), post_of_run (run_orUndo hr), ← outcome_of_run hr, ← post_of_run hr]
    exact ⟨ho, hp⟩
  | error r t =>
    rw [outcome_of_error (run_orUndo_error hr), post_of_error (run_orUndo_error hr), hundo, ← outcome_of_error hr,
      ← post_of_error hr]
    exact ⟨ho, hp⟩

theorem carries_note_after (f : ν → ν) {m : EStateM ε (Noted σ ν) Unit} {m' : EStateM ε σ Unit}
    (hm : Carries Noted.st m m') : Carries Noted.st (m >>= fun _ => note f) m' := by
  have h : Carries Noted.st (m >>= fun _ => note f) (m' >>= pure) := carries_bind hm fun _ => fun _ => ⟨rfl, rfl⟩
  rwa [bind_pure] at h

theorem carries_noteWhen (c : σ → Bool) (f : ν → ν) {m : EStateM ε (Noted σ ν) α} {m' : EStateM ε σ α}
    (hm : Carries Noted.st m m') : Carries Noted.st (noteWhen c f >>= fun _ => m) m' := fun s => by
  have h := hm (if c s.st then { s with notes := f s.notes } else s)
  have hst : (if c s.st then { s with notes := f s.notes } else s).st = s.st := by split <;> rfl
  rw [hst] at h
  exact h

theorem carries_orNote (c : σ → Bool) (f : ν → ν) {m : EStateM ε (Noted σ ν) α} {m' : EStateM ε σ α}
    (hm : Carries Noted.st m m') : Carries Noted.st (orNote c f m) m' :=
  carries_orUndo (fun s => by split <;> rfl) hm

theorem post_between {f g : ν → ν} {m : EStateM ε (Noted σ ν) α} (s : Noted σ ν) :
    post (between f g m) s =
      { post m { s with notes := f s.notes } with notes := g (post m { s with notes := f s.notes }).notes } := by
  unfold post
  cases hr : m.run { s with notes := f s.notes } <;> simp only [between, EStateM.run] at hr ⊢ <;> rw [hr]

theorem outcome_between {f g : ν → ν} {m : EStateM ε (Noted σ ν) α} (s : Noted σ ν) :
    outcome (between f g m) s = outcome m { s with notes := f s.notes } := by
  unfold outcome
  cases hr : m.run { s with notes := f s.notes } <;> simp only [between, EStateM.run] at hr ⊢ <;> rw [hr]

theorem yields_between {f g : ν → ν} {m : EStateM ε (Noted σ ν) α} {s : Noted σ ν} {P : α → Noted σ ν → Prop}
    {E : ε → Noted σ ν → Prop} (h : Yields m { s with notes := f s.notes }
      (fun a t => P a { t with notes := g t.notes }) fun r t => E r { t with notes := g t.notes }) :
    Yields (between f g m) s P E := by
  unfold Yields at *
  cases hr : m.run { s with notes := f s.notes } <;> simp only [between, EStateM.run] at hr h ⊢ <;> rw [hr] at h ⊢ <;> exact h

theorem carries_between (f g : ν → ν) {m : EStateM ε (Noted σ ν) α} {m' : EStateM ε σ α} (hm : Carries Noted.st m m') :
    Carries Noted.st (between f g m) m' := fun s => by
  rw [outcome_between, post_between]
  exact hm { s with notes := f s.notes }

/-- From this state the program answers, up to `f`, as one that takes no notes, and ends where that ends. -/
def Shadows (f : α → β) (m : EStateM ε (Noted σ ν) α) (m' : EStateM ε σ β) (s : Noted σ ν) : Prop :=
  (outcome m s).map f = outcome m' s.st ∧ (post m s).st = post m' s.st

theorem shadows_of_carries {m : EStateM ε (Noted σ ν) α} {m' : EStateM ε σ α} (h : Carries Noted.st m m')
    (s : Noted σ ν) : Shadows id m m' s := by
  refine ⟨?_, (h s).2.symm⟩
  rw [(h s).1]
  cases outcome m s <;> rfl

theorem carries_of_shadows {m : EStateM ε (Noted σ ν) α} {m' : EStateM ε σ α} (h : ∀ s, Shadows id m m' s) :
    Carries Noted.st m m' := by
  intro s
  obtain ⟨ho, hp⟩ := h s
  refine ⟨?_, hp.symm⟩
  rw [← ho]
  cases outcome m s <;> rfl

theorem shadows_pure {f : α → β} {a : α} {b : β} (h : f a = b) (s : Noted σ ν) :
    Shadows f (pure a : EStateM ε (Noted σ ν) α) (pure b) s := ⟨congrArg Except.ok h, rfl⟩

theorem shadows_throw {f : α → β} (r : ε) (s : Noted σ ν) :
    Shadows f (throw r : EStateM ε (Noted σ ν) α) (throw r) s := ⟨rfl, rfl⟩

theorem shadows_get {f : α → β} {g : Noted σ ν → EStateM ε (Noted σ ν) α} {m' : EStateM ε σ β} {s : Noted σ ν}
    (h : Shadows f (g s) m' s) : Shadows f (get >>= g) m' s := h

theorem shadows_get_bind {f : α → β} {g : Noted σ ν → EStateM ε (Noted σ ν) α} {g' : σ → EStateM ε σ β}
    {s : Noted σ ν} (h : Shadows f (g s) (g' s.st) s) : Shadows f (get >>= g) (get >>= g') s := h

theorem shadows_of_same {f : α → β} {m : EStateM ε (Noted σ ν) α} {m' m'' : EStateM ε σ β} {s : Noted σ ν}
    (h : Shadows f m m'' s) (hsame : m'.run s.st = m''.run s.st) : Shadows f m m' s := by
  unfold Shadows outcome post at *
  rw [hsame]
  exact h

theorem shadows_ite {f : α → β} {c : Prop} [Decidable c] {m n : EStateM ε (Noted σ ν) α} {m' n' : EStateM ε σ β}
    {s : Noted σ ν} (hm : Shadows f m m' s) (hn : Shadows f n n' s) :
    Shadows f (if c then m else n) (if c then m' else n') s := by
  split
  · exact hm
  · exact hn

theorem shadows_bind {f : α → β} {f' : γ → δ} {m : EStateM ε (Noted σ ν) α} {m' : EStateM ε σ β}
    {g : α → EStateM ε (Noted σ ν) γ} {g' : β → EStateM ε σ δ} {s : Noted σ ν} (hm : Shadows f m m' s)
    (hg : ∀ a t, m.run s = .ok a t → Shadows f' (g a) (g' (f a)) t) : Shadows f' (m >>= g) (m' >>= g') s := by
  obtain ⟨ho, hp⟩ := hm
  cases hr : m.run s with
  | ok a t =>
    have hs := outcome_of_run hr
    rw [hs] at ho
    rw [post_of_run hr] at hp
    unfold Shadows
    rw [outcome_bind_ok hs, post_bind_ok hs, outcome_bind_ok ho.symm, post_bind_ok ho.symm, post_of_run hr, ← hp]
    exact hg a t hr
  | error r t =>
    have hs := outcome_of_error hr
    rw [hs] at ho
    unfold Shadows
    rw [outcome_bind_error hs, post_bind_error hs, outcome_bind_error ho.symm, post_bind_error ho.symm]
    exact ⟨rfl, hp⟩

end Lib
