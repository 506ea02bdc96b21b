import ZephyrDB.Ts.TrailLaw

/-!
What an instance's health and its events come to, by the trail of the calls: the
trail only grows, the health is the one that it accounts for, no lock is left
held, and a record that is refused or a recovery that fails is told.
-/

set_option autoImplicit false

namespace ZephyrDB.Ts

open Lib

/-- The health fields of `zdb_t`, with the `ZDB_CORE_EVENT_HEALTH` events published since `zdb_init`, latest
first, and whether anything was found wrong since. -/
structure Watch where
  health : Health
  healthPrev : Health
  healthEventPending : Bool
  locked : Bool
  events : List (Health × Health)
  found : Bool
  deriving DecidableEq

namespace Watch

def fresh : Watch := ⟨.OK, .OK, false, false, [], false⟩

/-- `zdb_emit_core_event` with the health before and the health now. -/
def emit (w : Watch) : Watch := { w with events := (w.healthPrev, w.health) :: w.events }

/-- `zdb_health_check`. -/
def healthCheck (w : Watch) : Watch :=
  if w.health ≠ .OK then w
  else
    let w := { w with healthPrev := w.health, health := .DEGRADED }
    if w.locked then { w with healthEventPending := true } else w.emit

/-- `zdb_unlock_common`. -/
def unlock (w : Watch) : Watch :=
  let w := { w with locked := false }
  if w.healthEventPending then { w with healthEventPending := false }.emit else w

def on (w : Watch) : Mark → Watch
  | .init => fresh
  | .deinit => { w with healthEventPending := false }
  | .locked => { w with locked := true }
  | .unlocked => w.unlock
  | .healthCheck => w.healthCheck
  | .badHeader | .badRecord | .recoveryFailed | .overCap => { w with found := true }
  | _ => w

/-- The marks are latest first. -/
def run (w : Watch) (marks : List Mark) : Watch := marks.foldr (fun k w => w.on k) w

theorem healthCheck_health (w : Watch) :
    w.healthCheck.health = if w.health = .OK then .DEGRADED else w.health := by
  unfold healthCheck emit
  by_cases h : w.health = .OK <;> simp only [h, ne_eq, not_true_eq_false, not_false_eq_true, if_true, if_false]
  split <;> rfl

theorem healthCheck_locked (w : Watch) : w.healthCheck.locked = w.locked := by
  unfold healthCheck emit
  split
  · rfl
  · dsimp only
    split <;> rfl

theorem unlock_health (w : Watch) : w.unlock.health = w.health := by
  unfold unlock emit
  dsimp only
  split <;> rfl

theorem unlock_locked (w : Watch) : w.unlock.locked = false := by
  unfold unlock emit
  dsimp only
  split <;> rfl

end Watch

def Mark.find : Mark → Bool
  | .badHeader | .badRecord | .recoveryFailed | .overCap => true
  | _ => false

def Mark.turns : Mark → Bool
  | .init | .deinit | .locked | .unlocked | .healthCheck => true
  | _ => false

/-- A mark of `zdb_init` or `zdb_deinit`. -/
def Mark.lifecycle : Mark → Bool
  | .init | .deinit => true
  | _ => false

def Mark.checked : Mark → Bool
  | .badRecord | .recoveryFailed => true
  | _ => false

namespace Trail

structure Grows (t u : Trail) : Prop where
  others : u.others = t.others
  marks : t.marks <:+ u.marks

theorem Grows.refl (t : Trail) : Grows t t := ⟨rfl, List.suffix_rfl⟩

theorem Grows.trans {t u v : Trail} (h : Grows t u) (k : Grows u v) : Grows t v :=
  ⟨k.others.trans h.others, h.marks.trans k.marks⟩

theorem running_add {t u : Trail} {k : Mark} (hk : k.lifecycle = false)
    (h : ∀ j ∈ u.marks, j ∈ t.marks ∨ j.lifecycle = false) : ∀ j ∈ (u.add k).marks, j ∈ t.marks ∨ j.lifecycle = false := by
  intro j hj
  rcases List.mem_cons.mp hj with rfl | hj
  · exact .inr hk
  · exact h j hj

theorem grows_add (k : Mark) (t : Trail) : Grows t (t.add k) := ⟨rfl, List.suffix_cons _ _⟩

/-- Where something is found that a health check goes with, one is made. -/
def Reported (t : Trail) : Prop := (∃ k ∈ t.marks, k.checked = true) → Mark.healthCheck ∈ t.marks

theorem Reported.add {t : Trail} {k : Mark} (h : t.Reported) (hk : k.checked = false) : (t.add k).Reported := by
  rintro ⟨j, hj, hjk⟩
  rcases List.mem_cons.mp hj with rfl | hj
  · rw [hk] at hjk
    cases hjk
  · exact List.mem_cons_of_mem _ (h ⟨j, hj, hjk⟩)

structure Tells (x y : Health × Trail) : Prop where
  grows : Grows x.2 y.2
  health : ∀ w : Watch, (w.run x.2.marks).health = x.1 → (w.run y.2.marks).health = y.1
  locked : ∀ w : Watch, (w.run x.2.marks).locked = false → (w.run y.2.marks).locked = false
  running : ∀ k ∈ y.2.marks, k ∈ x.2.marks ∨ k.lifecycle = false
  reported : x.2.Reported → y.2.Reported

theorem Tells.refl (x : Health × Trail) : Tells x x := ⟨.refl _, fun _ h => h, fun _ h => h, fun _ => .inl, id⟩

theorem Tells.trans {x y z : Health × Trail} (h : Tells x y) (k : Tells y z) : Tells x z :=
  ⟨h.grows.trans k.grows, fun w hw => k.health w (h.health w hw), fun w hw => k.locked w (h.locked w hw),
    fun j hj => (k.running j hj).elim (h.running j) .inr, fun hx => k.reported (h.reported hx)⟩

theorem on_steady {k : Mark} (hk : k.turns = false) (w : Watch) :
    (w.on k).health = w.health ∧ (w.on k).locked = w.locked ∧ k.lifecycle = false := by
  cases k <;> first | exact ⟨rfl, rfl, rfl⟩ | cases hk

theorem tells_add {k : Mark} (hk : k.turns = false) (hc : k.checked = false) (x : Health × Trail) :
    Tells x (x.1, x.2.add k) where
  grows := grows_add k x.2
  health w h := (on_steady hk (w.run x.2.marks)).1.trans h
  locked w h := (on_steady hk (w.run x.2.marks)).2.1.trans h
  running := running_add (on_steady hk .fresh).2.2 fun _ => .inl
  reported hx := hx.add hc

def TellsOf {σ : Type} (health : σ → Health) (s t : Noted σ Trail) : Prop := Tells (health s.st, s.notes) (health t.st, t.notes)

abbrev EnvTells : Noted Sys Trail → Noted Sys Trail → Prop := TellsOf fun e => e.side.health

abbrev SlotTells : Noted SlotSt Trail → Noted SlotSt Trail → Prop := TellsOf fun s => s.env.side.health

abbrev AppTells : Noted App Trail → Noted App Trail → Prop := TellsOf fun a => a.env.side.health

section Rules
variable {σ ε α : Type} {health : σ → Health}

theorem tells_chains (health : σ → Health) : Chains (TellsOf health) := ⟨fun _ => .refl _, .trans⟩

theorem tells_silent {m : EStateM ε σ α} (hm : Fixes health m) : Always (TellsOf health) (silent m) :=
  always_zoom (Q := fun s t => health t = health s) hm fun s t h => by
    show Tells _ (health t, s.notes)
    rw [h]
    exact .refl _

theorem tells_leave {k : Mark} (hk : k.turns = false) (hc : k.checked = false) :
    Always (TellsOf health) (leave k : TrailM σ ε Unit) := fun s => tells_add hk hc (health s.st, s.notes)

theorem tells_leaveWhen {k : Mark} (hk : k.turns = false) (hc : k.checked = false) (c : σ → Bool) :
    Always (TellsOf health) (leaveWhen c k : TrailM σ ε Unit) :=
  always_modify fun s => by
    split
    · exact tells_add hk hc (health s.st, s.notes)
    · exact .refl _

theorem tells_orLeave {k : Mark} (hk : k.turns = false) (hc : k.checked = false) (c : σ → Bool) {m : TrailM σ ε α}
    (hm : Always (TellsOf health) m) : Always (TellsOf health) (orLeave c k m) := fun s => by
  have h := hm s
  unfold Keeps at h ⊢
  cases hr : m.run s with
  | ok a t =>
    rw [post_of_run hr] at h
    rw [orLeave, orNote, post_of_run (run_orUndo hr)]
    exact h
  | error r t =>
    rw [post_of_error hr] at h
    rw [orLeave, orNote, post_of_error (run_orUndo_error hr)]
    split
    · exact h.trans (tells_add hk hc (health t.st, t.notes))
    · exact h

end Rules

theorem fixes_updStats {ε : Type} (f : TsStats → TsStats) : Fixes (fun e => e.side.health) (updStats (ε := ε) f) := fun _ => rfl

theorem fixes_health {ε α : Type} {m : EStateM ε Sys α} (hm : Fixes Env.side m) : Fixes (fun e => e.side.health) m :=
  fun e => congrArg Diag.health (hm e)

theorem post_healthCheck {ε : Type} (e : Sys) :
    (post (ZephyrDB.healthCheck (ε := ε)) e).side.health = if e.side.health = .OK then .DEGRADED else e.side.health := by
  cases h : e.side.health <;> simp [ZephyrDB.healthCheck, h]

theorem tells_found {ε : Type} {k : Mark} (hk : k.turns = false) :
    Always EnvTells (leave k >>= fun _ => healthCheck (ε := ε)) := fun s => by
  show Tells (s.st.side.health, s.notes)
    ((post (ZephyrDB.healthCheck (ε := ε)) s.st).side.health, (s.notes.add k).add .healthCheck)
  refine ⟨(grows_add k _).trans (grows_add .healthCheck _), fun w h => ?_, fun w h => ?_, ?_, fun _ _ => .head _⟩
  · show ((w.run s.notes.marks).on k).healthCheck.health = _
    rw [Watch.healthCheck_health, (on_steady hk _).1, h, post_healthCheck]
  · show ((w.run s.notes.marks).on k).healthCheck.locked = _
    rw [Watch.healthCheck_locked, (on_steady hk _).2.1, h]
  · exact running_add rfl (running_add (on_steady hk .fresh).2.2 fun _ => .inl)

theorem tells_recordDecodeAs (version : Nat) (baseTsMs : UInt64) (raw : Bytes) :
    Always EnvTells (recordDecodeAs version baseTsMs raw) := by
  have hR := tells_chains fun e : Sys => e.side.health
  have hcorrupt : ∀ g : PUnit → TrailM Sys Status Sample, Always EnvTells (do
      silent statCorruptRecord
      leave .badRecord
      healthCheck
      throw .ERR_CORRUPT >>= g) := fun g => by
    have hstop : Always EnvTells (throw Status.ERR_CORRUPT >>= g) := fun s => hR.refl s
    have h := always_bind hR (tells_found (k := .badRecord) rfl) fun _ => hstop
    rw [bind_assoc] at h
    apply always_bind hR (tells_silent (fixes_updStats _))
    intro _
    exact h
  have hcrc : ∀ g : PUnit → TrailM Sys Status Sample, Always EnvTells (do
      silent statCrcFailure
      silent statCorruptRecord
      leave .badRecord
      healthCheck
      throw .ERR_CORRUPT >>= g) := fun g => always_bind hR (tells_silent (fixes_updStats _)) fun _ => hcorrupt g
  refine always_ite (always_ite (hcrc _) (always_pure hR _)) (always_ite (hcorrupt _) (always_ite ?_ ?_))
  · apply always_bind hR (tells_silent (fixes_updStats _))
    intro _
    exact fun s => hR.refl s
  · exact always_ite (hcrc _) (always_pure hR _)

theorem tells_badHeader {α : Type} (g : PUnit → TrailM Sys Status α) : Always EnvTells (do
      silent statCorruptRecord
      leave .badHeader
      throw .ERR_CORRUPT >>= g) := by
  have hR := tells_chains fun e : Sys => e.side.health
  apply always_bind hR (tells_silent (fixes_updStats _))
  intro _
  apply always_bind hR (tells_leave rfl rfl)
  intro _
  exact fun s => hR.refl s

theorem tells_streamHeaderDecode (raw name : Bytes) : Always EnvTells (streamHeaderDecode raw name) := by
  have hR := tells_chains fun e : Sys => e.side.health
  refine always_ite (tells_badHeader _) (always_ite ?_ (always_ite ?_ (always_ite ?_ (always_pure hR _))))
  · apply always_bind hR (tells_silent (fixes_updStats _))
    intro _
    exact fun s => hR.refl s
  · apply always_bind hR (tells_silent (fixes_updStats _))
    intro _
    exact tells_badHeader _
  · apply always_bind hR (tells_silent (fixes_updStats _))
    intro _
    apply always_bind hR (tells_leave rfl rfl)
    intro _
    exact always_throw hR _

theorem tells_streamHeaderV2Decode (raw name : Bytes) : Always EnvTells (streamHeaderV2Decode raw name) := by
  have hR := tells_chains fun e : Sys => e.side.health
  refine always_ite (tells_badHeader _) (always_ite ?_ (always_ite (tells_badHeader _) (always_pure hR _)))
  apply always_bind hR (tells_silent (fixes_updStats _))
  intro _
  exact tells_badHeader _

variable {cfg : Cfg}

theorem tells_io {α : Type} {m : Rc α} (hm : Fixes Env.side m) : Always EnvTells (silent (toStatus m)) :=
  tells_silent (fixes_health (fixes_adaptExcept _ hm))

theorem tells_ensureHeaderEx (name path : Bytes) (baseTsMs : UInt64) :
    Always EnvTells (ensureHeaderEx cfg name path baseTsMs) := by
  have hR := tells_chains fun e : Sys => e.side.health
  apply always_bind hR (tells_io (fixes_fsOpen _ _ _))
  intro _
  apply always_bind hR (tells_io (fixes_fsRead _ _ _))
  intro raw
  refine always_ite ?_ (always_ite (always_throw hR _) (always_ite (always_guard hR ?_) ?_))
  · apply always_bind hR (tells_io fixes_call)
    intro _
    apply always_bind hR (tells_io (fixes_fsWrite _ _ _))
    intro wr
    exact always_guard hR (always_pure hR _)
  · apply always_bind hR (tells_streamHeaderV2Decode _ _)
    intro _
    exact always_pure hR _
  · apply always_bind hR (tells_streamHeaderDecode _ _)
    intro _
    exact always_pure hR _

theorem tells_ensureStreamHeader (name : Bytes) : Always EnvTells (ensureStreamHeader cfg name) := by
  have hR := tells_chains fun e : Sys => e.side.health
  apply always_bind hR (always_rethrow hR _)
  intro path
  apply always_bind hR (tells_ensureHeaderEx _ _ _)
  intro _
  exact always_pure hR _

theorem tells_adoptLegacy (name : Bytes) : Always EnvTells (adoptLegacy cfg name) := by
  have hR := tells_chains fun e : Sys => e.side.health
  apply always_bind hR (always_rethrow hR _)
  intro legacy
  apply always_bind hR (always_rethrow hR _)
  intro seg
  apply always_bind hR (tells_silent (fixes_health (fixes_attempt (fixes_fsStat _))))
  intro info
  cases info with
  | error err => exact always_pure hR _
  | ok size =>
    apply always_bind hR (tells_io (fixes_fsRename _ _))
    intro _
    apply always_modify
    intro s
    dsimp only
    split
    · exact tells_add rfl rfl (s.st.side.health, s.notes)
    · exact .refl _

theorem tells_recoverWalk (layout : FileLayout) (path : Path) (fuel goodEnd : Nat) :
    Always EnvTells (recoverWalk layout path fuel goodEnd) := by
  have hR := tells_chains fun e : Sys => e.side.health
  induction fuel generalizing goodEnd with
  | zero => exact always_pure hR _
  | succ fuel ih =>
    apply always_bind hR (tells_io (fixes_fsRead _ _ _))
    intro raw
    apply always_ite (always_pure hR _)
    apply always_bind hR (always_attempt (tells_recordDecodeAs _ _ _))
    intro r
    cases r with
    | ok _ => exact ih _
    | error _ => exact always_pure hR _

theorem tells_recoverFile (cfg : Cfg) (name path : Bytes) : Always EnvTells (recoverFile name path) := by
  have hR := tells_chains fun e : Sys => e.side.health
  have hcalm : Always (Calm cfg) (probeLayout path) := calm_probeLayout path
  have hprobe : Fixes (fun e => e.side.health) (probeLayout path) := fun e => congrArg Diag.health (hcalm e).side
  apply always_bind hR (tells_silent hprobe)
  intro layout
  apply always_bind hR (tells_io (fixes_fsOpen _ _ _))
  intro _
  refine always_bind hR (tells_io (fixes_fsRead _ _ _)) fun hdr => always_ite ?_ (always_guard hR ?_)
  · apply always_bind hR (tells_io fixes_call)
    intro _
    apply always_bind hR (always_get hR)
    intro s
    apply always_bind hR (tells_orLeave rfl rfl _ (tells_io (fixes_fsWrite _ _ _)))
    intro wr
    apply always_bind hR (tells_leaveWhen rfl rfl _)
    intro _
    exact always_guard hR (always_pure hR _)
  apply always_when hR (fun _ => tells_streamHeaderDecode _ _)
  apply always_bind hR (tells_io fixes_call)
  intro _
  apply always_bind hR (always_get hR)
  intro s
  apply always_bind hR (tells_recoverWalk _ _ _ _)
  intro ends
  apply always_bind hR (tells_io fixes_call)
  intro _
  refine always_ite (always_bind hR (tells_io (fixes_fsTruncate _ _)) fun _ => ?_) (always_pure hR _)
  apply always_bind hR (tells_leave rfl rfl)
  intro _
  apply always_bind hR (tells_silent (fixes_updStats _))
  intro _
  exact always_pure hR _

theorem tells_onSys {ε α : Type} {m : TrailM Sys ε α} (hm : Always EnvTells m) : Always SlotTells (onSys m) :=
  always_zoom hm fun _ _ h => h

theorem tells_quietSys {ε α : Type} {m : EStateM ε Sys α} (hm : Fixes Env.side m) : Always SlotTells (silent (Ts.onSys m)) :=
  tells_silent (fixes_zoom (fixes_health hm) fun _ _ h => h)

theorem tells_updSlot {ε : Type} (f : StreamCtx → StreamCtx) : Always SlotTells (silent (updSlot (ε := ε) f)) :=
  tells_silent fun _ => rfl

theorem tells_marked {ε : Type} {k : Mark} (hk : k.turns = false) (hc : k.checked = false) (c : SlotSt → Bool)
    (f : StreamCtx → StreamCtx) : Always SlotTells (do
      leaveWhen c k
      silent (updSlot f) : TrailM SlotSt ε Unit) :=
  always_bind (tells_chains _) (tells_leaveWhen hk hc c) fun _ => tells_updSlot f

theorem tells_learnFormat {ε : Type} (version : Nat) (baseTsMs : UInt64) :
    Always SlotTells (learnFormat (ε := ε) cfg version baseTsMs) := tells_marked rfl rfl _ _

theorem tells_getSlot {ε : Type} : Always SlotTells (silent (getSlot (ε := ε))) := tells_silent fun _ => rfl

theorem tells_learnNewest (name : Bytes) (lowest highest : Nat) : Always SlotTells (learnNewest cfg name lowest highest) := by
  have hR := tells_chains fun s : SlotSt => s.env.side.health
  apply always_bind hR (tells_updSlot _)
  intro _
  apply always_bind hR (always_rethrow hR _)
  intro path
  apply always_bind hR (tells_onSys (tells_ensureHeaderEx _ _ _))
  intro vb
  apply always_bind hR (tells_learnFormat _ _)
  intro _
  apply always_bind hR (tells_quietSys (fixes_attempt (fixes_fsStat _)))
  intro size
  apply always_bind hR (tells_leaveWhen rfl rfl _)
  intro _
  exact tells_updSlot _

theorem tells_scanSegments : Always SlotTells (scanSegments cfg) := by
  have hR := tells_chains fun s : SlotSt => s.env.side.health
  apply always_bind hR tells_getSlot
  intro slot
  apply always_ite (always_pure hR _)
  apply always_guard hR
  apply always_bind hR (tells_quietSys (fixes_attempt (fixes_fsList _)))
  intro entries
  refine always_ite ?_ (tells_learnNewest _ _ _)
  apply always_bind hR (tells_onSys (tells_adoptLegacy _))
  intro _
  exact tells_learnNewest _ _ _

theorem fixes_unlinkIfPresent (path : Path) : Fixes Env.side (unlinkIfPresent path) := by
  apply fixes_bind (fixes_attempt (fixes_fsUnlink _))
  intro r
  split
  · exact fixes_pure _
  · exact fixes_pure _
  · exact fixes_throw _

theorem fixes_discardSegment (path : Path) : Fixes Env.side (discardSegment cfg path) := by
  unfold discardSegment
  split
  · apply fixes_bind (fixes_attempt (fixes_fsStat _))
    intro _
    exact fixes_unlinkIfPresent path
  · exact fixes_unlinkIfPresent path

theorem fixes_discardSegments (n : Nat) : Fixes (fun s => s.env.side) (discardSegments cfg n) := by
  have hsys : ∀ {ε α : Type} {m : EStateM ε Sys α}, Fixes Env.side m → Fixes (fun s : SlotSt => s.env.side) (Ts.onSys m) :=
    fun hm => fixes_zoom hm fun _ _ h => h
  induction n with
  | zero => exact fixes_pure _
  | succ n ih =>
    apply fixes_bind (fun _ => rfl)
    intro slot
    refine fixes_ite ?_ (fixes_pure _)
    apply fixes_bind (fixes_rethrow _)
    intro path
    apply fixes_bind (hsys (fixes_discardSegment path))
    intro _
    apply fixes_bind (fun _ => rfl)
    intro _
    exact ih

theorem tells_startSegment (baseTsMs : UInt64) : Always SlotTells (startSegment cfg baseTsMs) := by
  have hR := tells_chains fun s : SlotSt => s.env.side.health
  apply always_bind hR (tells_updSlot _)
  intro _
  apply always_bind hR tells_getSlot
  intro slot
  apply always_bind hR (tells_orLeave rfl rfl _ (always_rethrow hR _))
  intro path
  have hheader : Always EnvTells (ensureHeaderEx cfg slot.name path baseTsMs) := tells_ensureHeaderEx _ _ _
  have hopened := tells_onSys (always_adaptExcept (fun _ => Errno.EIO) hheader)
  apply always_bind hR (tells_orLeave rfl rfl _ hopened)
  intro vb
  apply always_bind hR (tells_leaveWhen rfl rfl _)
  intro _
  apply always_bind hR (tells_learnFormat _ _)
  intro _
  refine always_ite (tells_silent fun s => ?_) (always_pure hR _)
  exact congrArg Diag.health (fixes_discardSegments _ s)

theorem tells_activePath : Always SlotTells (activePath cfg) :=
  always_activePath (tells_chains _) tells_getSlot tells_scanSegments

theorem tells_writeBuffer (buf : Bytes) (used : Nat) : Always SlotTells (writeBuffer cfg buf used) := by
  have hR := tells_chains fun s : SlotSt => s.env.side.health
  apply always_bind hR tells_activePath
  intro path
  apply always_bind hR (tells_quietSys (fixes_fsOpen _ _ _))
  intro _
  apply always_bind hR (always_get hR)
  intro s
  refine always_bind hR (tells_orLeave rfl rfl _ (tells_quietSys (fixes_fsAppend _ _))) fun wr => always_ite ?_ ?_
  · apply always_bind hR (tells_leaveWhen rfl rfl _)
    intro _
    exact fun s => hR.refl s
  · refine always_bind hR (tells_orLeave rfl rfl _ (tells_quietSys fixes_call)) fun _ => tells_updSlot _

theorem tells_slotLaw : SlotLaw cfg SlotTells where
  chains := tells_chains _
  getSlot := tells_getSlot
  store _ _ := tells_marked rfl rfl _ _
  start := tells_startSegment
  write := tells_writeBuffer

def standing (a : App) : Diag × Bool := (a.env.side, a.cfgSet)

theorem fixes_slotClaim (name : Bytes) : Fixes standing (slotClaim cfg name) := fun a => by
  have hR := fixes_chains standing
  have h : Keeps (fun a b => standing b = standing a) (slotClaim cfg name) a := by
    apply keeps_get_bind
    dsimp only
    split
    · exact hR.refl a
    · split
      · exact hR.refl a
      · rename_i i _
        refine keeps_bind hR (hR.refl a) fun _ b _ => ?_
        have hcall : Fixes standing (Ts.onEnv (orFail .ERR_BUSY call) : AppM Status Unit) :=
          fixes_zoom (fixes_adaptExcept _ fixes_call) fun a _ h => congrArg (·, a.cfgSet) h
        have hfresh : Always (fun a b => standing b = standing a)
            (modify fun a => a.setSlot i (StreamCtx.fresh cfg name) : AppM Status Unit) := always_modify fun _ => rfl
        exact always_bind hR hcall (fun _ => hfresh) b
  exact h

theorem fixes_slotRelease (i : Nat) : Fixes standing (slotRelease i) :=
  fixes_modify fun a => by
    dsimp only
    split <;> rfl

theorem tells_lock {x y : Health × Trail} (h : Tells (x.1, x.2.add .locked) y) : Tells x (y.1, y.2.add .unlocked) where
  grows := ((grows_add .locked x.2).trans h.grows).trans (grows_add .unlocked y.2)
  health w hw := (Watch.unlock_health _).trans (h.health w hw)
  locked _ _ := Watch.unlock_locked _
  running := running_add rfl fun j hj => (h.running j hj).elim
    (fun hin => (List.mem_cons.mp hin).elim (fun heq => .inr (heq ▸ rfl)) .inl) .inr
  reported hx := (hx.add rfl |> h.reported).add rfl

theorem tells_law : Law cfg EnvTells SlotTells AppTells where
  chains := tells_chains _
  onEnv h := h
  onSlot := fun {ε α m i s} _ hm => by
    have h := hm ⟨⟨s.st.slotAt i, s.st.env⟩, { s.notes with others := s.st.others cfg i }⟩
    unfold Keeps onSlot
    rw [post_zoom]
    exact ⟨⟨rfl, h.grows.marks⟩, h.health, h.locked, h.running, h.reported⟩
  calm := fun {s a} h => by
    show Tells _ (a.env.side.health, s.notes)
    rw [h.env.side]
    exact .refl _
  stats f := tells_silent (fixes_zoom (fixes_updStats f) fun _ _ h => h)
  lock := fun {s t} h => tells_lock (x := (s.st.env.side.health, s.notes)) h
  overCap := tells_leave rfl rfl
  undrained := tells_leave rfl rfl
  failed s := tells_found (ε := Status) (k := .recoveryFailed) rfl ⟨s.st.env, s.notes⟩
  record := tells_recordDecodeAs
  header _ := tells_ensureStreamHeader
  recover := tells_recoverFile cfg
  activePath := tells_activePath
  scan := tells_scanSegments
  flush := tells_slotLaw.flush
  append := tells_slotLaw.append
  batch := tells_slotLaw.batch
  claim name := tells_silent fun a => congrArg (·.1.health) (fixes_slotClaim name a)
  release i := tells_silent fun a => congrArg (·.1.health) (fixes_slotRelease i a)

theorem running_law : Law cfg (fun _ _ => True) (fun _ _ => True) (fun s t => t.st.cfgSet = s.st.cfgSet) where
  chains := ⟨fun _ => rfl, fun h k => k.trans h⟩
  onEnv _ := rfl
  onSlot _ _ := by
    unfold Keeps onSlot
    rw [post_zoom]
    rfl
  calm h := h.cfgSet
  stats _ _ := rfl
  lock h := h
  overCap _ := rfl
  undrained _ := rfl
  failed _ := rfl
  record _ _ _ _ := trivial
  header _ _ _ := trivial
  recover _ _ _ := trivial
  activePath _ := trivial
  scan _ := trivial
  flush _ := trivial
  append _ _ := trivial
  batch _ _ := trivial
  claim name s := congrArg Prod.snd (fixes_silent_st (fixes_slotClaim name) s)
  release i s := congrArg Prod.snd (fixes_silent_st (fixes_slotRelease i) s)

end Trail

end ZephyrDB.Ts
