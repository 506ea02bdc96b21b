import ZephyrDB.Lib.Effect

/-!
Runs that succeed, repeated from the image of their state. A program that only
succeeds where nothing went wrong goes the same way where nothing can.
-/

set_option autoImplicit false

namespace Lib

variable {ε ε' σ τ ρ α β : Type}

/-- If the first program succeeds from here, so does the second one from the image of the state, with the same
answer and to the image of where the first ends. -/
def Echoes (f : σ → τ) (m : EStateM ε σ α) (m' : EStateM ε' τ α) (s : σ) : Prop :=
  ∀ a t, m.run s = .ok a t → m'.run (f s) = .ok a (f t)

section Echoes
variable {f : σ → τ} {s : σ}

theorem echoes_pure (a : α) : Echoes f (pure a : EStateM ε σ α) (pure a : EStateM ε' τ α) s := by
  rintro b t ⟨⟩
  rfl

theorem echoes_throw (r : ε) (m : EStateM ε' τ α) : Echoes f (throw r : EStateM ε σ α) m s := by
  rintro b t ⟨⟩

theorem echoes_modify {g : σ → σ} {g' : τ → τ} (h : g' (f s) = f (g s)) :
    Echoes f (modify g : EStateM ε σ PUnit) (modify g' : EStateM ε' τ PUnit) s := by
  rintro b t ⟨⟩
  exact congrArg (EStateM.Result.ok PUnit.unit) h

theorem echoes_get_bind {k : σ → EStateM ε σ β} {k' : τ → EStateM ε' τ β} (h : Echoes f (k s) (k' (f s)) s) :
    Echoes f (get >>= k) (get >>= k') s := h

theorem echoes_bind {m : EStateM ε σ α} {m' : EStateM ε' τ α} {k : α → EStateM ε σ β} {k' : α → EStateM ε' τ β}
    (hm : Echoes f m m' s) (hk : ∀ a t, m.run s = .ok a t → Echoes f (k a) (k' a) t) :
    Echoes f (m >>= k) (m' >>= k') s := by
  intro b u hrun
  obtain ⟨a, t, ha, hb⟩ := of_run_bind hrun
  exact run_then (hm a t ha) (hk a t ha b u hb)

theorem echoes_ignore {ε'' : Type} {m : EStateM ε σ α} {m' : EStateM ε' τ α} {k : EStateM ε'' σ β} {k' : EStateM ε'' τ β}
    (hpost : post m' (f s) = f (post m s)) (hk : Echoes f k k' (post m s)) :
    Echoes f (attempt m >>= fun _ => k) (attempt m' >>= fun _ => k') s := by
  intro b u hrun
  apply run_then (run_attempt m' (f s))
  rw [hpost]
  exact hk b u hrun

theorem echoes_attempt {m : EStateM ε σ α} {m' : EStateM ε' τ α} {ε'' : Type} {k : Except ε α → EStateM ε'' σ β}
    {k' : Except ε' α → EStateM ε'' τ β} (hm : Echoes f m m' s)
    (hok : ∀ a t, m.run s = .ok a t → Echoes f (k (.ok a)) (k' (.ok a)) t)
    (herror : ∀ r t b u, (k (.error r)).run t ≠ .ok b u) : Echoes f (attempt m >>= k) (attempt m' >>= k') s := by
  intro b u hrun
  cases hs : m.run s with
  | ok a t =>
    have hk : (k (.ok a)).run t = .ok b u := (run_then (run_attempt_ok hs) rfl).symm.trans hrun
    exact run_then (run_attempt_ok (hm a t hs)) (hok a t hs b u hk)
  | error r t =>
    have hk : (k (.error r)).run t = .ok b u := (run_then (run_attempt_error hs) rfl).symm.trans hrun
    exact absurd hk (herror r t b u)

theorem echoes_rethrow {x : Except ε α} {x' : Except ε' α} (h : ∀ a, x = .ok a → x' = .ok a) :
    Echoes f (rethrow x : EStateM ε σ α) (rethrow x' : EStateM ε' τ α) s := by
  intro a t hrun
  obtain ⟨hx, rfl⟩ := run_rethrow.mp hrun
  exact run_rethrow.mpr ⟨h a hx, rfl⟩

theorem echoes_adaptExcept {ε'' : Type} {g : ε → ε''} {m : EStateM ε σ α} {m' : EStateM ε τ α}
    (h : Echoes f m m' s) : Echoes f (EStateM.adaptExcept g m) (EStateM.adaptExcept g m') s :=
  fun a t hrun => run_adapt (h a t (of_run_adapt hrun))

theorem echoes_zoom {π : Type} {get : σ → ρ} {put : σ → ρ → σ} {get' : τ → π} {put' : τ → π → τ} {g : ρ → π}
    {m : EStateM ε ρ α} {m' : EStateM ε' π α} (hget : get' (f s) = g (get s)) (hput : ∀ u, put' (f s) (g u) = f (put s u))
    (h : Echoes g m m' (get s)) : Echoes f (zoom get put m) (zoom get' put' m') s := by
  intro a t hrun
  obtain ⟨u, hu, rfl⟩ := of_run_zoom hrun
  rw [run_zoom (show m'.run (get' (f s)) = _ by rw [hget]; exact h a u hu), hput]

end Echoes

end Lib
