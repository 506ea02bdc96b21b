import ZephyrDB.Core
import ZephyrDB.Lib.Transition

/-!
Threads that find something wrong with the stored data, some under the instance
lock and some outside it, and what listeners are told of it.

One step is one statement of `zdb_health_check` or `zdb_unlock_common` that
reads or writes what threads share, one lock call, or one round of the
listeners. No locked section takes the lock again.
-/

set_option autoImplicit false

namespace ZephyrDB.Alarm

open Lib

/-- Where a thread stands; `locked` says that it is between a lock and an unlock. -/
inductive Pc where
  /-- in neither of the two functions -/
  | rest (locked : Bool)
  /-- in `zdb_health_check`, which has found the instance healthy -/
  | suspected (locked : Bool)
  /-- `health_prev` is written -/
  | saved (locked : Bool)
  /-- `health` is written; before the lock's owner is looked at -/
  | degraded (locked : Bool)
  /-- not the owner; before the two fields are read for the event -/
  | reading (locked : Bool)
  /-- before the listeners are called -/
  | announcing (locked : Bool) (prev now : Health)
  /-- in `zdb_unlock_common`, before `health_event_pending` is read -/
  | leaving
  /-- the flag is set -/
  | taking
  /-- `health_prev` and `health` are read; before the flag is cleared -/
  | taken (prev now : Health)
  /-- before `k_mutex_unlock`, with what there is to announce behind it -/
  | releasing (change : Option (Health × Health))
  deriving DecidableEq

variable {ι : Type}

/-- A health event, the thread that called the listeners with it, and the lock's owner at that moment. -/
structure Notice (ι : Type) where
  thread : ι
  prev : Health
  now : Health
  owner : Option ι

/-- What the threads share, where each of them stands, and the events so far, latest first. -/
structure Machine (ι : Type) where
  owner : Option ι
  health : Health
  healthPrev : Health
  healthEventPending : Bool
  told : List (Notice ι)
  pc : ι → Pc

/-- After `zdb_init`. -/
def Machine.fresh : Machine ι := ⟨none, .OK, .OK, false, [], fun _ => .rest false⟩

inductive Event (ι : Type) where
  | lock (t : ι)
  /-- a thread finds something wrong and calls `zdb_health_check` -/
  | detect (t : ι)
  | unlock (t : ι)
  /-- a thread takes the next step of the function it is in -/
  | move (t : ι)

section Step
variable [DecidableEq ι]

def Machine.goto (m : Machine ι) (t : ι) (pc : Pc) : Machine ι := { m with pc := Function.update m.pc t pc }

/-- The next step of the function a thread is in. -/
def Machine.advance (m : Machine ι) (t : ι) : Pc → Option (Machine ι)
  | .rest _ => none
  | .suspected locked => some ({ m with healthPrev := m.health }.goto t (.saved locked))
  | .saved locked => some ({ m with health := .DEGRADED }.goto t (.degraded locked))
  | .degraded locked =>
    if m.owner = some t then some ({ m with healthEventPending := true }.goto t (.rest locked))
    else some (m.goto t (.reading locked))
  | .reading locked => some (m.goto t (.announcing locked m.healthPrev m.health))
  | .announcing locked prev now => some ({ m with told := ⟨t, prev, now, m.owner⟩ :: m.told }.goto t (.rest locked))
  | .leaving => some (m.goto t (if m.healthEventPending then .taking else .releasing none))
  | .taking => some (m.goto t (.taken m.healthPrev m.health))
  | .taken prev now => some ({ m with healthEventPending := false }.goto t (.releasing (some (prev, now))))
  | .releasing none => some ({ m with owner := none }.goto t (.rest false))
  | .releasing (some (prev, now)) => some ({ m with owner := none }.goto t (.announcing false prev now))

def Machine.step (m : Machine ι) : Event ι → Option (Machine ι)
  | .lock t =>
    if m.pc t = .rest false ∧ m.owner = none then some ({ m with owner := some t }.goto t (.rest true)) else none
  | .detect t =>
    match m.pc t with
    | .rest locked => some (if m.health = .OK then m.goto t (.suspected locked) else m)
    | _ => none
  | .unlock t => if m.pc t = .rest true then some (m.goto t .leaving) else none
  | .move t => m.advance t (m.pc t)

/-- One step of any thread. -/
def Step (m : Machine ι) (e : Event ι) (m' : Machine ι) : Prop := m.step e = some m'

end Step

def Fits (m : Machine ι) (t : ι) : Pc → Prop
  | .rest locked => m.owner = some t ↔ locked = true
  | .suspected locked => m.owner = some t ↔ locked = true
  | .saved locked => m.owner = some t ↔ locked = true
  | .degraded locked => (m.owner = some t ↔ locked = true) ∧ m.health = .DEGRADED
  | .reading locked => locked = false ∧ m.owner ≠ some t ∧ m.health = .DEGRADED
  | .announcing locked _ now => locked = false ∧ m.owner ≠ some t ∧ now = .DEGRADED ∧ m.health = .DEGRADED
  | .leaving => m.owner = some t
  | .taking => m.owner = some t ∧ m.healthEventPending = true
  | .taken _ now => m.owner = some t ∧ m.healthEventPending = true ∧ now = .DEGRADED
  | .releasing change => m.owner = some t ∧ m.healthEventPending = false ∧
      ∀ c, change = some c → c.2 = .DEGRADED ∧ m.health = .DEGRADED

def Pc.owes : Pc → Bool
  | .degraded _ => true
  | .reading _ => true
  | .announcing _ _ _ => true
  | .releasing (some _) => true
  | _ => false

structure Sound (m : Machine ι) : Prop where
  fits : ∀ t, Fits m t (m.pc t)
  health : m.health = .OK ∨ m.health = .DEGRADED
  flagged : m.healthEventPending = true → m.health = .DEGRADED ∧ m.owner ≠ none
  told : ∀ n ∈ m.told, n.now = .DEGRADED ∧ n.owner ≠ some n.thread ∧ m.health = .DEGRADED
  due : m.health = .DEGRADED → m.told ≠ [] ∨ m.healthEventPending = true ∨ ∃ t, (m.pc t).owes = true

theorem Sound.fresh : Sound (Machine.fresh (ι := ι)) where
  fits t := by simp [Fits, Machine.fresh]
  health := .inl rfl
  flagged h := by cases h
  told n hn := by cases hn
  due h := by cases h

theorem Fits.stable {m m' : Machine ι} {t : ι} {pc : Pc} (h : Fits m t pc)
    (howner : m'.owner = some t ↔ m.owner = some t) (hhealth : m.health = .DEGRADED → m'.health = .DEGRADED)
    (hpending : m.owner = some t → m'.healthEventPending = m.healthEventPending) : Fits m' t pc := by
  cases pc with
  | rest locked => exact howner.trans h
  | suspected locked => exact howner.trans h
  | saved locked => exact howner.trans h
  | degraded locked => exact ⟨howner.trans h.1, hhealth h.2⟩
  | reading locked => exact ⟨h.1, mt howner.mp h.2.1, hhealth h.2.2⟩
  | announcing locked prev now => exact ⟨h.1, mt howner.mp h.2.1, h.2.2.1, hhealth h.2.2.2⟩
  | leaving => exact howner.mpr h
  | taking => exact ⟨howner.mpr h.1, (hpending h.1).trans h.2⟩
  | taken prev now => exact ⟨howner.mpr h.1, (hpending h.1).trans h.2.1, h.2.2⟩
  | releasing change =>
    exact ⟨howner.mpr h.1, (hpending h.1).trans h.2.1, fun c hc => ⟨(h.2.2 c hc).1, hhealth (h.2.2 c hc).2⟩⟩

section Step
variable [DecidableEq ι]

structure Moved (m : Machine ι) (t : ι) (pc : Pc) (m' : Machine ι) : Prop where
  places : m'.pc = m.pc
  owner : ∀ u, u ≠ t → (m'.owner = some u ↔ m.owner = some u)
  health : m'.health = m.health ∨ m'.health = .DEGRADED
  pending : m'.healthEventPending = m.healthEventPending ∨ m.owner = some t
  self : Fits m' t pc
  flagged : m'.healthEventPending = true → m'.health = .DEGRADED ∧ m'.owner ≠ none
  told : m'.told = m.told ∨ m'.health = .DEGRADED ∧ m'.owner ≠ some t ∧
    ∃ prev, m'.told = ⟨t, prev, .DEGRADED, m'.owner⟩ :: m.told
  due : m'.health = .DEGRADED → m'.told ≠ [] ∨ m'.healthEventPending = true ∨ pc.owes = true ∨
    m.health = .DEGRADED ∧ m'.healthEventPending = m.healthEventPending ∧ (m.pc t).owes = false ∧ m'.told = m.told

theorem Sound.moved {m m' : Machine ι} {t : ι} {pc : Pc} (h : Sound m) (k : Moved m t pc m') : Sound (m'.goto t pc) := by
  have hworse : m.health = .DEGRADED → m'.health = .DEGRADED := fun hd => k.health.elim (fun he => he.trans hd) id
  refine ⟨fun u => ?_, ?_, k.flagged, fun n hn => ?_, fun hd => ?_⟩
  · by_cases hu : u = t
    · subst hu
      show Fits m' u (Function.update m'.pc u pc u)
      rw [Function.update_self]
      exact k.self
    · show Fits m' u (Function.update m'.pc t pc u)
      rw [Function.update_of_ne hu, k.places]
      refine (h.fits u).stable (k.owner u hu) hworse fun hown => k.pending.resolve_right fun ht => hu ?_
      exact Option.some.inj (hown.symm.trans ht)
  · exact h.health.elim (fun hok => k.health.imp_left fun he => he.trans hok) fun hd => .inr (hworse hd)
  · rcases k.told with htold | ⟨hd, hown, prev, htold⟩
    · have hn : n ∈ m'.told := hn
      rw [htold] at hn
      exact ⟨(h.told n hn).1, (h.told n hn).2.1, hworse (h.told n hn).2.2⟩
    · have hn : n ∈ m'.told := hn
      rw [htold] at hn
      rcases List.mem_cons.mp hn with rfl | hn
      · exact ⟨rfl, hown, hd⟩
      · exact ⟨(h.told n hn).1, (h.told n hn).2.1, hd⟩
  · rcases k.due hd with htold | hp | howes | ⟨hd', hp, howes, htold⟩
    · exact .inl htold
    · exact .inr (.inl hp)
    · refine .inr (.inr ⟨t, ?_⟩)
      show (Function.update m'.pc t pc t).owes = true
      rw [Function.update_self]
      exact howes
    · rcases h.due hd' with hne | hp' | ⟨u, hu⟩
      · exact .inl (show m'.told ≠ [] from htold ▸ hne)
      · exact .inr (.inl (hp.trans hp'))
      · refine .inr (.inr ⟨u, ?_⟩)
        have hne : u ≠ t := fun heq => by
          rw [heq, howes] at hu
          cases hu
        show (Function.update m'.pc t pc u).owes = true
        rw [Function.update_of_ne hne, k.places]
        exact hu

theorem Sound.goes {m : Machine ι} (h : Sound m) {t : ι} {pc : Pc} (hself : Fits m t pc)
    (howes : m.health = .DEGRADED → pc.owes = true ∨ (m.pc t).owes = false) : Sound (m.goto t pc) := by
  refine h.moved ⟨rfl, fun _ _ => Iff.rfl, .inl rfl, .inl rfl, hself, h.flagged, .inl rfl, fun hd => ?_⟩
  rcases howes hd with hnew | hold
  · exact .inr (.inr (.inl hnew))
  · exact .inr (.inr (.inr ⟨hd, rfl, hold, rfl⟩))

theorem Sound.advance {m m' : Machine ι} {t : ι} (h : Sound m) (hs : m.advance t (m.pc t) = some m') : Sound m' := by
  have hfits := h.fits t
  cases hpc : m.pc t with
  | rest locked =>
    rw [hpc] at hs
    cases hs
  | suspected locked =>
    rw [hpc] at hs hfits
    cases hs
    refine h.moved ⟨rfl, fun _ _ => Iff.rfl, .inl rfl, .inl rfl, hfits, h.flagged, .inl rfl, fun hd => ?_⟩
    exact .inr (.inr (.inr ⟨hd, rfl, by rw [hpc]; rfl, rfl⟩))
  | saved locked =>
    rw [hpc] at hs hfits
    cases hs
    exact h.moved ⟨rfl, fun _ _ => Iff.rfl, .inr rfl, .inl rfl, ⟨hfits, rfl⟩, fun hp => ⟨rfl, (h.flagged hp).2⟩, .inl rfl,
      fun _ => .inr (.inr (.inl rfl))⟩
  | degraded locked =>
    rw [hpc] at hs hfits
    obtain ⟨hown, hd⟩ := hfits
    rw [Machine.advance] at hs
    split at hs
    · rename_i howner
      cases hs
      exact h.moved ⟨rfl, fun _ _ => Iff.rfl, .inl rfl, .inr howner, hown,
        fun _ => ⟨hd, by rw [show Machine.owner _ = m.owner from rfl, howner]; exact Option.some_ne_none t⟩, .inl rfl,
        fun _ => .inr (.inl rfl)⟩
    · rename_i howner
      cases hs
      exact h.goes ⟨Bool.eq_false_iff.mpr fun hl => howner (hown.mpr hl), howner, hd⟩ fun _ => .inl rfl
  | reading locked =>
    rw [hpc] at hs hfits
    cases hs
    exact h.goes ⟨hfits.1, hfits.2.1, hfits.2.2, hfits.2.2⟩ fun _ => .inl rfl
  | announcing locked prev now =>
    rw [hpc] at hs hfits
    cases hs
    obtain ⟨hl, hown, rfl, hd⟩ := hfits
    refine h.moved ⟨rfl, fun _ _ => Iff.rfl, .inl rfl, .inl rfl, ?_, h.flagged, .inr ⟨hd, hown, prev, rfl⟩,
      fun _ => .inl (List.cons_ne_nil _ _)⟩
    exact ⟨fun ho => absurd ho hown, fun hl' => by rw [hl] at hl'; cases hl'⟩
  | leaving =>
    rw [hpc] at hs hfits
    cases hs
    refine h.goes ?_ fun _ => .inr (by rw [hpc]; rfl)
    split
    · rename_i hp
      exact ⟨hfits, hp⟩
    · rename_i hp
      exact ⟨hfits, Bool.eq_false_iff.mpr hp, fun c hc => by cases hc⟩
  | taking =>
    rw [hpc] at hs hfits
    cases hs
    exact h.goes ⟨hfits.1, hfits.2, (h.flagged hfits.2).1⟩ fun _ => .inr (by rw [hpc]; rfl)
  | taken prev now =>
    rw [hpc] at hs hfits
    cases hs
    obtain ⟨hown, hp, rfl⟩ := hfits
    have hd := (h.flagged hp).1
    refine h.moved ⟨rfl, fun _ _ => Iff.rfl, .inl rfl, .inr hown, ⟨hown, rfl, fun c hc => ?_⟩, fun hp => (by cases hp), .inl rfl,
      fun _ => .inr (.inr (.inl rfl))⟩
    cases hc
    exact ⟨rfl, hd⟩
  | releasing change =>
    rw [hpc] at hs hfits
    obtain ⟨hown, hp, hchange⟩ := hfits
    have hothers : ∀ u, u ≠ t → ((none : Option ι) = some u ↔ m.owner = some u) := by
      intro u hu
      rw [hown]
      exact ⟨fun h => (by cases h), fun h => absurd (Option.some.inj h).symm hu⟩
    have hquiet : m.healthEventPending = true → m.health = .DEGRADED ∧ (none : Option ι) ≠ none := by
      intro hp'
      rw [hp] at hp'
      cases hp'
    cases change with
    | none =>
      cases hs
      refine h.moved ⟨rfl, hothers, .inl rfl, .inl rfl, ?_, hquiet, .inl rfl, fun hd => ?_⟩
      · exact ⟨fun h => (by cases h), fun h => by cases h⟩
      · exact .inr (.inr (.inr ⟨hd, rfl, by rw [hpc]; rfl, rfl⟩))
    | some c =>
      obtain ⟨prev, now⟩ := c
      cases hs
      obtain ⟨hnow, hd⟩ := hchange _ rfl
      exact h.moved ⟨rfl, hothers, .inl rfl, .inl rfl, ⟨rfl, fun h => (by cases h), hnow, hd⟩, hquiet, .inl rfl,
        fun _ => .inr (.inr (.inl rfl))⟩

theorem Sound.step {m m' : Machine ι} {e : Event ι} (h : Sound m) (hs : Step m e m') : Sound m' := by
  unfold Step at hs
  cases e with
  | lock t =>
    rw [Machine.step] at hs
    split at hs
    · rename_i hfree
      cases hs
      refine h.moved ⟨rfl, fun u hu => ?_, .inl rfl, .inl rfl, ⟨fun _ => rfl, fun _ => rfl⟩,
        fun hp => ⟨(h.flagged hp).1, Option.some_ne_none t⟩, .inl rfl, fun hd => ?_⟩
      · rw [hfree.2]
        exact ⟨fun h => absurd (Option.some.inj h).symm hu, fun h => by cases h⟩
      · exact .inr (.inr (.inr ⟨hd, rfl, by rw [hfree.1]; rfl, rfl⟩))
    · cases hs
  | detect t =>
    have hfits := h.fits t
    rw [Machine.step] at hs
    cases hpc : m.pc t with
    | rest locked =>
      rw [hpc] at hs hfits
      dsimp only at hs
      split at hs
      · rename_i hok
        cases hs
        exact h.goes hfits fun hd => by rw [hok] at hd; cases hd
      · cases hs
        exact h
    | _ =>
      rw [hpc] at hs
      cases hs
  | unlock t =>
    rw [Machine.step] at hs
    split at hs
    · rename_i hpc
      cases hs
      have hfits := h.fits t
      rw [hpc] at hfits
      exact h.goes (hfits.mpr rfl) fun _ => .inr (by rw [hpc]; rfl)
    · cases hs
  | move t => exact h.advance hs

omit [DecidableEq ι] in
theorem Sound.settled {m : Machine ι} (h : Sound m) (hrest : ∀ t, m.pc t = .rest false) :
    m.healthEventPending = false ∧ (m.health = .OK ↔ m.told = []) := by
  have hquiet : m.healthEventPending = false := by
    apply Bool.eq_false_iff.mpr
    intro hp
    obtain ⟨t, ht⟩ := Option.ne_none_iff_exists'.mp (h.flagged hp).2
    have hfits := h.fits t
    rw [hrest t] at hfits
    cases hfits.mp ht
  refine ⟨hquiet, fun hok => ?_, fun hnil => h.health.resolve_right fun hd => ?_⟩
  · apply List.eq_nil_iff_forall_not_mem.mpr
    intro n hn
    have hd := (h.told n hn).2.2
    rw [hok] at hd
    cases hd
  · rcases h.due hd with hne | hp | ⟨t, howes⟩
    · exact hne hnil
    · rw [hquiet] at hp
      cases hp
    · rw [hrest t] at howes
      cases howes

theorem Sound.run {m : Machine ι} {es : List (Event ι)} (hrun : Steps Step Machine.fresh es m) : Sound m :=
  hrun.keeps (fun _ _ _ h hs => h.step hs) Sound.fresh

/-- Whatever the threads do and however they are interleaved: no listener runs in a thread that owns the lock, every
event says that the instance is degraded, and once all threads are out of the two functions an instance that is
degraded has said so, with nothing left for an unlock to announce. -/
theorem degradation_is_told {m : Machine ι} {es : List (Event ι)} (hrun : Steps Step Machine.fresh es m) :
    (∀ n ∈ m.told, n.now = .DEGRADED ∧ n.owner ≠ some n.thread) ∧
      ((∀ t, m.pc t = .rest false) → m.healthEventPending = false ∧ (m.health = .OK ↔ m.told = [])) :=
  ⟨fun n hn => ⟨((Sound.run hrun).told n hn).1, ((Sound.run hrun).told n hn).2.1⟩, (Sound.run hrun).settled⟩

/-- The machine after these events, if each of them can happen. -/
def Machine.run : Machine ι → List (Event ι) → Option (Machine ι)
  | m, [] => some m
  | m, e :: es => (m.step e).bind fun m' => m'.run es

theorem steps_of_run (es : List (Event ι)) {m m' : Machine ι} (h : m.run es = some m') : Steps Step m es m' := by
  induction es generalizing m with
  | nil =>
    cases h
    exact .nil m'
  | cons e es ih =>
    obtain ⟨next, hstep, hrest⟩ := Option.bind_eq_some_iff.mp h
    exact .cons hstep (ih hrest)

/-- One thread goes through the check under the lock while another one goes through it outside. -/
def bothDetect : List (Event Bool) :=
  [.lock true, .detect true, .detect false, .move true, .move true, .move true, .move false, .move false, .unlock true,
    .move true, .move true, .move true, .move true, .move false, .move false, .move false, .move true]

theorem both_are_told : (∀ n ∈ ((Machine.fresh.run bothDetect).getD Machine.fresh).told,
      n.now = .DEGRADED ∧ n.owner ≠ some n.thread) ∧
    ((∀ t, ((Machine.fresh.run bothDetect).getD Machine.fresh).pc t = .rest false) →
      ((Machine.fresh.run bothDetect).getD Machine.fresh).healthEventPending = false ∧
        (((Machine.fresh.run bothDetect).getD Machine.fresh).health = .OK ↔
          ((Machine.fresh.run bothDetect).getD Machine.fresh).told = [])) :=
  degradation_is_told (steps_of_run bothDetect rfl)

/-- Nothing found, nothing to announce. -/
def Pc.Idle (pc : Pc) : Prop := (∃ locked, pc = .rest locked) ∨ pc = .leaving ∨ pc = .releasing none

/-- How far the one change of a machine has come whose threads call `zdb_health_check` under the lock only. -/
inductive Phase (m : Machine ι) : Prop
  | healthy (health : m.health = .OK) (told : m.told = [])
      (pcs : ∀ t, (m.pc t).Idle ∨ m.pc t = .suspected true ∨ m.pc t = .saved true ∧ m.healthPrev = .OK)
  | found (t : ι) (health : m.health = .DEGRADED) (prev : m.healthPrev = .OK) (told : m.told = [])
      (quiet : m.healthEventPending = false) (pc : m.pc t = .degraded true) (pcs : ∀ u, u ≠ t → (m.pc u).Idle)
  | flagged (health : m.health = .DEGRADED) (prev : m.healthPrev = .OK) (told : m.told = [])
      (pending : m.healthEventPending = true)
      (pcs : ∀ t, (m.pc t).Idle ∨ m.pc t = .taking ∨ m.pc t = .taken .OK .DEGRADED)
  | claimed (t : ι) (health : m.health = .DEGRADED) (told : m.told = []) (quiet : m.healthEventPending = false)
      (pc : m.pc t = .releasing (some (.OK, .DEGRADED)) ∨ m.pc t = .announcing false .OK .DEGRADED)
      (pcs : ∀ u, u ≠ t → (m.pc u).Idle)
  | told (n : Notice ι) (health : m.health = .DEGRADED) (told : m.told = [n]) (prev : n.prev = .OK)
      (quiet : m.healthEventPending = false) (pcs : ∀ t, (m.pc t).Idle)

theorem goto_pcs {P : ι → Pc → Prop} {m : Machine ι} {t : ι} {pc : Pc} (hself : P t pc)
    (hothers : ∀ u, u ≠ t → P u (m.pc u)) (u : ι) : P u ((m.goto t pc).pc u) := by
  show P u (Function.update m.pc t pc u)
  by_cases hu : u = t
  · subst hu
    rw [Function.update_self]
    exact hself
  · rw [Function.update_of_ne hu]
    exact hothers u hu

theorem Phase.idles {m : Machine ι} (hp : Phase m) {t : ι} {pc : Pc} (hold : (m.pc t).Idle) (hnew : pc.Idle)
    (owner : Option ι) : Phase ({ m with owner := owner }.goto t pc) := by
  have hne : ∀ {v : ι}, ¬ (m.pc v).Idle → v ≠ t := fun hv heq => hv (heq ▸ hold)
  have hpc : ∀ {v : ι}, v ≠ t → ({ m with owner := owner }.goto t pc).pc v = m.pc v := fun hv =>
    Function.update_of_ne hv _ _
  cases hp with
  | healthy health told pcs =>
    exact .healthy health told (goto_pcs (P := fun _ p => p.Idle ∨ p = .suspected true ∨ p = .saved true ∧ m.healthPrev = .OK)
      (.inl hnew) fun u _ => pcs u)
  | found v health prev told quiet here pcs =>
    have hv : v ≠ t := hne (by rw [here]; simp [Pc.Idle])
    refine .found v health prev told quiet ((hpc hv).trans here) fun u hu => ?_
    exact goto_pcs (P := fun u p => u ≠ v → p.Idle) (fun _ => hnew) (fun u _ => pcs u) u hu
  | flagged health prev told pending pcs =>
    exact .flagged health prev told pending (goto_pcs (P := fun _ p => p.Idle ∨ p = .taking ∨ p = .taken .OK .DEGRADED)
      (.inl hnew) fun u _ => pcs u)
  | claimed v health told quiet here pcs =>
    have hv : v ≠ t := hne (by rcases here with here | here <;> rw [here] <;> simp [Pc.Idle])
    refine .claimed v health told quiet (by rw [hpc hv]; exact here) fun u hu => ?_
    exact goto_pcs (P := fun u p => u ≠ v → p.Idle) (fun _ => hnew) (fun u _ => pcs u) u hu
  | told n health told prev quiet pcs =>
    exact .told n health told prev quiet (goto_pcs (P := fun _ p => p.Idle) hnew fun u _ => pcs u)

theorem Phase.idle_advance {m m' : Machine ι} {t : ι} (hp : Phase m) (hquiet : m.healthEventPending = false)
    (hidle : (m.pc t).Idle) (hs : m.advance t (m.pc t) = some m') : Phase m' := by
  have hnone : (Pc.releasing none).Idle := .inr (.inr rfl)
  rcases hidle with ⟨locked, hpc⟩ | hpc | hpc
  · rw [hpc] at hs
    cases hs
  · have hold : (m.pc t).Idle := .inr (.inl hpc)
    rw [hpc, Machine.advance, hquiet] at hs
    cases hs
    exact hp.idles hold hnone m.owner
  · have hold : (m.pc t).Idle := .inr (.inr hpc)
    rw [hpc] at hs
    cases hs
    exact hp.idles hold (.inl ⟨false, rfl⟩) none

theorem Phase.advance {m m' : Machine ι} {t : ι} (h : Sound m) (hp : Phase m) (hs : m.advance t (m.pc t) = some m') :
    Phase m' := by
  have hfits := h.fits
  -- two threads whose places say that they own the lock are one
  have hone : ∀ {u v : ι}, m.owner = some u → m.owner = some v → u = v := fun hu hv =>
    Option.some.inj (hu.symm.trans hv)
  cases hp with
  | healthy health told pcs =>
    have hquiet : m.healthEventPending = false := Bool.eq_false_iff.mpr fun hp => by
      have hd := (h.flagged hp).1
      rw [health] at hd
      cases hd
    rcases pcs t with hidle | hpc | ⟨hpc, hprev⟩
    · exact (Phase.healthy health told pcs).idle_advance hquiet hidle hs
    · rw [hpc] at hs
      cases hs
      refine .healthy health told (goto_pcs (P := fun _ p => p.Idle ∨ p = .suspected true ∨ p = .saved true ∧ m.health = .OK)
        (.inr (.inr ⟨rfl, health⟩)) fun u _ => ?_)
      exact (pcs u).imp id fun hu => hu.imp id fun hu => ⟨hu.1, health⟩
    · have hown : m.owner = some t := by
        have := hfits t
        rw [hpc] at this
        exact this.mpr rfl
      rw [hpc] at hs
      cases hs
      refine .found t rfl hprev told hquiet (Function.update_self ..) fun u hu => ?_
      show (Function.update m.pc t _ u).Idle
      rw [Function.update_of_ne hu]
      refine (pcs u).resolve_right fun hother => hu (hone ?_ hown)
      have := hfits u
      rcases hother with hpc' | ⟨hpc', -⟩ <;> rw [hpc'] at this <;> exact this.mpr rfl
  | found v health prev told quiet here pcs =>
    by_cases ht : t = v
    · subst ht
      have hown : m.owner = some t := by
        have := hfits t
        rw [here] at this
        exact this.1.mpr rfl
      rw [here, Machine.advance, if_pos hown] at hs
      cases hs
      exact .flagged health prev told rfl (goto_pcs (P := fun _ p => p.Idle ∨ p = .taking ∨ p = .taken .OK .DEGRADED)
        (.inl (.inl ⟨true, rfl⟩)) fun u hu => .inl (pcs u hu))
    · exact (Phase.found v health prev told quiet here pcs).idle_advance quiet (pcs t ht) hs
  | flagged health prev told pending pcs =>
    rcases pcs t with hidle | hpc | hpc
    · rcases hidle with ⟨locked, hpc⟩ | hpc | hpc
      · rw [hpc] at hs
        cases hs
      · rw [hpc, Machine.advance, pending] at hs
        cases hs
        exact .flagged health prev told pending (goto_pcs (P := fun _ p => p.Idle ∨ p = .taking ∨ p = .taken .OK .DEGRADED)
          (.inr (.inl rfl)) fun u _ => pcs u)
      · have := hfits t
        rw [hpc] at this
        rw [this.2.1] at pending
        cases pending
    · rw [hpc, Machine.advance, prev, health] at hs
      cases hs
      exact .flagged health prev told pending (goto_pcs (P := fun _ p => p.Idle ∨ p = .taking ∨ p = .taken .OK .DEGRADED)
        (.inr (.inr rfl)) fun u _ => pcs u)
    · have hown : m.owner = some t := by
        have := hfits t
        rw [hpc] at this
        exact this.1
      rw [hpc] at hs
      cases hs
      refine .claimed t health told rfl (.inl (Function.update_self ..)) fun u hu => ?_
      show (Function.update m.pc t _ u).Idle
      rw [Function.update_of_ne hu]
      refine (pcs u).resolve_right fun hother => hu (hone ?_ hown)
      have := hfits u
      rcases hother with hpc' | hpc' <;> rw [hpc'] at this <;> exact this.1
  | claimed v health told quiet here pcs =>
    by_cases ht : t = v
    · subst ht
      rcases here with hpc | hpc
      · rw [hpc] at hs
        cases hs
        refine .claimed t health told quiet (.inr (Function.update_self ..)) fun u hu => ?_
        exact goto_pcs (P := fun u p => u ≠ t → p.Idle) (fun hne => absurd rfl hne) (fun u _ => pcs u) u hu
      · rw [hpc] at hs
        cases hs
        refine .told ⟨t, .OK, .DEGRADED, m.owner⟩ health (congrArg (_ :: ·) told) rfl quiet ?_
        exact goto_pcs (P := fun _ p => p.Idle) (.inl ⟨false, rfl⟩) pcs
    · exact (Phase.claimed v health told quiet here pcs).idle_advance quiet (pcs t ht) hs
  | told n health told prev quiet pcs => exact (Phase.told n health told prev quiet pcs).idle_advance quiet (pcs t) hs

/-- The check is called by a thread that owns the lock. -/
def UnderLock (m : Machine ι) (e : Event ι) : Prop := ∀ t, e = .detect t → m.pc t = .rest true

theorem Phase.step {m m' : Machine ι} {e : Event ι} (h : Sound m) (hp : Phase m) (hu : UnderLock m e) (hs : Step m e m') :
    Phase m' := by
  unfold Step at hs
  cases e with
  | lock t =>
    rw [Machine.step] at hs
    split at hs
    · rename_i hfree
      cases hs
      exact hp.idles (.inl ⟨false, hfree.1⟩) (.inl ⟨true, rfl⟩) (some t)
    · cases hs
  | detect t =>
    have hpc := hu t rfl
    rw [Machine.step, hpc] at hs
    dsimp only at hs
    split at hs
    · rename_i hok
      cases hs
      cases hp with
      | healthy health told pcs =>
        exact .healthy health told (goto_pcs
          (P := fun _ p => p.Idle ∨ p = .suspected true ∨ p = .saved true ∧ m.healthPrev = .OK) (.inr (.inl rfl)) fun u _ => pcs u)
      | found v health => rw [hok] at health; cases health
      | flagged health => rw [hok] at health; cases health
      | claimed v health => rw [hok] at health; cases health
      | told n health => rw [hok] at health; cases health
    · cases hs
      exact hp
  | unlock t =>
    rw [Machine.step] at hs
    split at hs
    · rename_i hpc
      cases hs
      exact hp.idles (.inl ⟨true, hpc⟩) (.inr (.inl rfl)) m.owner
    · cases hs
  | move t => exact hp.advance h hs

/-- Where the check is made under the lock only, the one change from healthy to degraded is announced once at most,
and has been announced once all threads are out of the two functions. -/
theorem locked_degradation_told_once {m : Machine ι} {es : List (Event ι)}
    (hrun : Steps (Guarded UnderLock Step) Machine.fresh es m) :
    (m.told = [] ∨ ∃ n, m.told = [n] ∧ n.prev = .OK ∧ n.now = .DEGRADED ∧ n.owner ≠ some n.thread) ∧
      ((∀ t, m.pc t = .rest false) → m.health = .DEGRADED → m.told ≠ []) := by
  have hboth : Sound m ∧ Phase m := by
    refine hrun.keeps (I := fun m => Sound m ∧ Phase m) (fun s e s' hi hs => ?_) ⟨Sound.fresh, ?_⟩
    · exact ⟨hi.1.step hs.2, hi.2.step hi.1 hs.1 hs.2⟩
    · exact .healthy rfl rfl fun t => .inl (.inl ⟨false, rfl⟩)
  obtain ⟨h, hp⟩ := hboth
  refine ⟨?_, fun hrest hd hnil => ?_⟩
  · cases hp with
    | told n health told prev quiet pcs =>
      have hn := h.told n (told ▸ List.mem_singleton_self n)
      exact .inr ⟨n, told, prev, hn.1, hn.2.1⟩
    | healthy _ told => exact .inl told
    | found _ _ _ told => exact .inl told
    | flagged _ _ told => exact .inl told
    | claimed _ _ told => exact .inl told
  · have hok := (h.settled hrest).2.mpr hnil
    rw [hd] at hok
    cases hok

def Machine.runsLocked : Machine ι → List (Event ι) → Bool
  | _, [] => true
  | m, .detect t :: es => decide (m.pc t = .rest true) && (m.step (.detect t)).any fun m' => m'.runsLocked es
  | m, e :: es => (m.step e).any fun m' => m'.runsLocked es

theorem guarded_of_run (es : List (Event ι)) {m m' : Machine ι} (h : m.run es = some m') (hl : m.runsLocked es = true) :
    Steps (Guarded UnderLock Step) m es m' := by
  induction es generalizing m with
  | nil =>
    cases h
    exact .nil m'
  | cons e es ih =>
    obtain ⟨next, hstep, hrest⟩ := Option.bind_eq_some_iff.mp h
    cases e with
    | detect t =>
      rw [Machine.runsLocked, Bool.and_eq_true, decide_eq_true_eq, hstep] at hl
      refine .cons ⟨fun u hu => ?_, hstep⟩ (ih hrest hl.2)
      cases hu
      exact hl.1
    | lock t =>
      rw [Machine.runsLocked, hstep] at hl
      · exact .cons ⟨fun u hu => (by cases hu), hstep⟩ (ih hrest hl)
      · exact fun u hu => by cases hu
    | unlock t =>
      rw [Machine.runsLocked, hstep] at hl
      · exact .cons ⟨fun u hu => (by cases hu), hstep⟩ (ih hrest hl)
      · exact fun u hu => by cases hu
    | move t =>
      rw [Machine.runsLocked, hstep] at hl
      · exact .cons ⟨fun u hu => (by cases hu), hstep⟩ (ih hrest hl)
      · exact fun u hu => by cases hu

/-- Two threads take the lock one after the other, and both find something. -/
def takeTurns : List (Event Bool) :=
  [.lock true, .detect true, .move true, .move true, .move true, .unlock true, .move true, .move true, .move true,
    .move true, .lock false, .detect false, .move true, .unlock false, .move false, .move false]

theorem turns_tell_once : (((Machine.fresh.run takeTurns).getD Machine.fresh).told = [] ∨
      ∃ n, ((Machine.fresh.run takeTurns).getD Machine.fresh).told = [n] ∧ n.prev = .OK ∧ n.now = .DEGRADED ∧
        n.owner ≠ some n.thread) ∧
    ((∀ t, ((Machine.fresh.run takeTurns).getD Machine.fresh).pc t = .rest false) →
      ((Machine.fresh.run takeTurns).getD Machine.fresh).health = .DEGRADED →
        ((Machine.fresh.run takeTurns).getD Machine.fresh).told ≠ []) :=
  locked_degradation_told_once (guarded_of_run takeTurns rfl rfl)

end Step

end ZephyrDB.Alarm
