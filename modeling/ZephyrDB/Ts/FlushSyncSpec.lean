import ZephyrDB.Ts.FlushSync
import ZephyrDB.Ts.Ingest

/-!
What a caller of `zdb_ts_flush_sync` can rely on: when its wake-up cannot get
lost, and when `ZDB_OK` means that its stream's samples are in a file.
-/

set_option autoImplicit false

namespace ZephyrDB.Ts

open Lib

variable {cfg : Cfg} {a : App}

structure Abides (cfg : Cfg) (a b : App) : Prop where
  written : a.env.written <:+ b.env.written
  name : ∀ i, (b.slotAt i).name = (a.slotAt i).name
  landed : ∀ i, (a.slotAt i).pendingBytes <+: (b.slotAt i).pendingBytes ∨
    Landed cfg (a.slotAt i).name (a.slotAt i).pendingBytes a.env b.env

structure Rests (cfg : Cfg) (a b : App) : Prop extends Abides cfg a b where
  pending : b.pending = a.pending

theorem abides_chains (cfg : Cfg) : Chains (Abides cfg) where
  refl _ := ⟨List.suffix_rfl, fun _ => rfl, fun _ => .inl List.prefix_rfl⟩
  trans {a b c} h k := by
    refine ⟨h.written.trans k.written, fun i => (k.name i).trans (h.name i), fun i => ?_⟩
    rcases h.landed i with hb | hl
    · rcases k.landed i with kb | kl
      · exact .inl (hb.trans kb)
      · rw [h.name i] at kl
        exact .inr (kl.earlier hb h.written)
    · exact .inr (hl.later k.written)

theorem rests_chains (cfg : Cfg) : Chains (Rests cfg) where
  refl a := ⟨(abides_chains cfg).refl a, rfl⟩
  trans h k := ⟨(abides_chains cfg).trans h.toAbides k.toAbides, k.pending.trans h.pending⟩

theorem abides_of_slotsKept {b : App} (hslots : SlotsKept a b) (hw : a.env.written <:+ b.env.written) :
    Abides cfg a b :=
  ⟨hw, fun i => by rw [hslots i], fun i => .inl (hslots i ▸ List.prefix_rfl)⟩

theorem rests_onSlot {ε α : Type} {m : SlotM ε α} {i : Nat}
    (h : Keeps (Moves cfg) m ⟨a.slotAt i, a.env⟩) : Keeps (Rests cfg) (onSlot i m) a := by
  unfold Keeps onSlot
  rw [post_zoom]
  by_cases hi : HasSlot a i
  · refine ⟨⟨h.within.written, fun j => ?_, fun j => ?_⟩, pending_setSlot hi⟩
    · show ((a.setSlot i _).slotAt j).name = _
      rw [slotAt_setSlot hi]
      split
      · rename_i hj
        rw [hj]
        exact h.name
      · rfl
    · show _ <+: ((a.setSlot i _).slotAt j).pendingBytes ∨ _
      rw [slotAt_setSlot hi]
      split
      · rename_i hj
        rw [hj]
        exact h.pending
      · exact .inl List.prefix_rfl
  · rw [setSlot_beyond hi]
    exact ⟨⟨h.within.written, fun _ => rfl, fun _ => .inl List.prefix_rfl⟩, rfl⟩

theorem rests_onEnv {ε α : Type} {m : EStateM ε Sys α} (h : Keeps (Within fun _ => False) m a.env) :
    Keeps (Rests cfg) (onEnv m) a := by
  unfold Keeps onEnv
  rw [post_zoom]
  exact ⟨abides_of_slotsKept (fun _ => rfl) h.written, rfl⟩

theorem rests_tsCtxGetOrAlloc (onNull : Status) (a : App) :
    Keeps (Rests cfg) (tsCtxGetOrAlloc cfg onNull) a := by
  have hR := rests_chains cfg
  apply keeps_get_bind
  dsimp only
  split
  · apply keeps_bind hR (keeps_throw hR _ a)
    intro _ _ h
    exact by cases h
  · split
    · exact keeps_pure hR _ a
    · rename_i hctx
      apply keeps_bind hR (rests_onEnv (keeps_orFail _ (keeps_call _)))
      intro _ b hb
      have hnone : b.tsCtx = none := by
        have hsame : (post (onEnv (orFail onNull call)) a).tsCtx = a.tsCtx := by rw [onEnv, post_zoom]
        rwa [post_of_run hb, hctx] at hsame
      refine ⟨abides_of_slotsKept (fun i => ?_) List.suffix_rfl, ?_⟩
      · rw [slotAt_zero hnone]
        show App.slotAt { b with tsCtx := _ } i = _
        by_cases hi : i < cfg.maxStreams <;> simp [App.slotAt, List.getD, hi]
      · show App.pending { b with tsCtx := _ } = _
        simp [App.pending, hnone]

theorem tsCtxGetOrAlloc_cases (cfg : Cfg) (onNull : Status) (a : App) :
    (∃ b, (tsCtxGetOrAlloc cfg onNull).run a = .ok () b ∧ b.tsCtx.isSome) ∨
      ∃ b, (tsCtxGetOrAlloc cfg onNull).run a = .error onNull b := by
  obtain ⟨cfgSet, tsCtx, handles, env⟩ := a
  cases cfgSet with
  | false => exact .inr ⟨_, run_tsCtxGetOrAlloc_down rfl onNull⟩
  | true =>
    cases tsCtx with
    | some ctx => exact .inl ⟨⟨true, some ctx, handles, env⟩, rfl, rfl⟩
    | none =>
      cases hcall : (call : Rc Unit).run env with
      | ok u e =>
        refine .inl ⟨⟨true, some ⟨List.replicate cfg.maxStreams StreamCtx.zero, false, false⟩, handles, e⟩, ?_, rfl⟩
        apply run_then (run_get _)
        exact run_then (run_onEnv (a := ⟨true, none, handles, env⟩) (run_orFail hcall)) rfl
      | error r e =>
        refine .inr ⟨⟨true, none, handles, e⟩, run_then (run_get _) ?_⟩
        have horfail : (orFail onNull call : Zdb Unit).run env = .error onNull e := by
          rw [orFail, EStateM.run_adaptExcept, hcall]
        show EStateM.run (onEnv (orFail onNull call) >>= _) _ = _
        rw [EStateM.run_bind, onEnv, run_zoom_error horfail]

theorem abides_setPending (b : Bool) (a : App) : Abides cfg a (a.setPending b) :=
  abides_of_slotsKept (slotsKept_setPending b a) List.suffix_rfl

theorem abides_requestFlush (h : Nat) (a : App) : Keeps (Abides cfg) (requestFlush cfg h) a := by
  have hR := abides_chains cfg
  apply keeps_get_bind
  dsimp only
  split
  · apply keeps_bind hR (keeps_throw hR _ a)
    intro _ _ h
    exact by cases h
  · apply keeps_bind hR (rests_tsCtxGetOrAlloc _ a).toAbides
    intro _ b _
    apply keeps_get_bind
    split
    · apply keeps_bind hR (keeps_throw hR _ b)
      intro _ _ h
      exact by cases h
    · refine keeps_bind hR (abides_setPending true b) fun _ c _ => ?_
      exact (rests_onEnv (keeps_attempt (keeps_call _))).toAbides

theorem rests_appendLocked (h : Nat) (sample : Sample) (a : App) :
    Keeps (Rests cfg) (appendLocked cfg h sample) a := by
  have hR := rests_chains cfg
  apply keeps_get_bind
  split
  · exact keeps_throw hR _ a
  · apply keeps_bind hR (rests_tsCtxGetOrAlloc _ a)
    intro _ b _
    apply keeps_get_bind
    split
    · exact keeps_throw hR _ b
    · apply keeps_bind hR (rests_onSlot (keeps_appendRecord cfg sample _))
      intro recSize c _
      exact keeps_get_bind (keeps_pure hR _ c)

theorem rests_batchLocked (h : Nat) (samples : List Sample) (a : App) :
    Keeps (Rests cfg) (batchLocked cfg h samples) a := by
  have hR := rests_chains cfg
  apply keeps_get_bind
  split
  · exact keeps_throw hR _ a
  · dsimp only
    split
    · apply keeps_bind hR (keeps_throw hR _ a)
      intro _ _ h
      exact by cases h
    apply keeps_bind hR (rests_tsCtxGetOrAlloc _ a)
    intro _ b _
    apply keeps_get_bind
    split
    · exact keeps_throw hR _ b
    · apply keeps_bind hR (rests_onSlot (keeps_appendRecords cfg samples _))
      intro _ c _
      exact keeps_pure hR _ c

theorem rests_flushSlots (is : List Nat) (a : App) : Keeps (Rests cfg) (flushSlots cfg is) a := by
  have hR := rests_chains cfg
  induction is generalizing a with
  | nil => exact keeps_pure hR _ a
  | cons i is ih =>
    refine keeps_bind hR ?_ fun _ b _ => ih b
    apply keeps_get_bind
    dsimp only
    split
    · apply keeps_bind hR (keeps_attempt (rests_onSlot (keeps_flushBufferLocked cfg _)))
      intro _ c _
      exact keeps_pure hR _ c
    · exact keeps_pure hR _ a

theorem rests_flushAllLocked (a : App) : Keeps (Rests cfg) (flushAllLocked cfg) a :=
  keeps_get_bind (rests_flushSlots _ a)

theorem pending_setPending {b : Bool} (h : a.tsCtx.isSome) : (a.setPending b).pending = b := by
  obtain ⟨ctx, hctx⟩ := Option.isSome_iff_exists.mp h
  simp [App.pending, App.setPending, hctx]

theorem pending_cleared (a : App) : (a.setPending false).pending = false := by
  cases h : a.tsCtx <;> simp [App.pending, App.setPending, h]

/-- What `zdb_ts_flush_async` comes to under the lock: a refusal that leaves the flag as it was, `BUSY`
only where the flag is set, or a submission with the flag set. -/
theorem requestFlush_cases (cfg : Cfg) (h : Nat) (a : App) :
    (∃ status, outcome (requestFlush cfg h) a = .error status ∧ status ≠ .OK ∧
      (post (requestFlush cfg h) a).pending = a.pending ∧ (status = .ERR_BUSY → a.pending = true)) ∨
    ∃ r, outcome (requestFlush cfg h) a = .ok r ∧ (post (requestFlush cfg h) a).pending = true := by
  by_cases hdown : ((a.handles h).isNone || !a.cfgSet) = true
  · have hrun : (requestFlush cfg h).run a = .error .ERR_INVAL a := by
      apply run_then (run_get a)
      dsimp only
      rw [if_pos hdown]
      rfl
    have hg := gives_error hrun trivial (Q := fun _ => True)
    refine .inl ⟨_, hg.1, by decide, ?_, fun h => by cases h⟩
    unfold post
    rw [hrun]
  · rcases tsCtxGetOrAlloc_cases cfg .ERR_NOMEM a with ⟨b, hb, hsome⟩ | ⟨b, hb⟩
    · have hpend : b.pending = a.pending := by
        rw [← post_of_run hb]
        exact (rests_tsCtxGetOrAlloc _ a).pending
      by_cases hbusy : b.pending = true
      · have hrun : (requestFlush cfg h).run a = .error .ERR_BUSY b := by
          apply run_then (run_get a)
          dsimp only
          rw [if_neg hdown]
          apply run_then hb
          apply run_then (run_get b)
          rw [if_pos hbusy]
          rfl
        have hg := gives_error (Q := fun c => c = b) hrun rfl
        exact .inl ⟨_, hg.1, by decide, by rw [hg.2, hpend], fun _ => hpend ▸ hbusy⟩
      · have hrun : (requestFlush cfg h).run a =
            .ok (outcome call b.env) { b.setPending true with env := post call b.env } := by
          apply run_then (run_get a)
          dsimp only
          rw [if_neg hdown]
          apply run_then hb
          apply run_then (run_get b)
          rw [if_neg hbusy]
          rfl
        refine .inr ⟨_, outcome_of_run hrun, ?_⟩
        rw [post_of_run hrun]
        exact pending_setPending (a := b) hsome
    · have hrun : (requestFlush cfg h).run a = .error .ERR_NOMEM b := by
        apply run_then (run_get a)
        dsimp only
        rw [if_neg hdown, EStateM.run_bind, hb]
      have hg := gives_error (Q := fun c => c = b) hrun rfl
      refine .inl ⟨_, hg.1, by decide, ?_, fun h => by cases h⟩
      rw [hg.2]
      have hpend := (@rests_tsCtxGetOrAlloc cfg .ERR_NOMEM a).pending
      unfold post at hpend
      rwa [hb] at hpend

section Wake
variable {ι : Type} [DecidableEq ι]

def Machine.Awaits (m : Machine ι) (u : ι) : Prop := m.pc u = .taking .forever ∨ m.pc u = .blocked .forever

/-- A `k_sem_give` is still to come. -/
def Machine.Coming (m : Machine ι) : Prop :=
  m.queued = true ∨ m.handler = .called ∨ m.handler = .drained ∨ m.handler = .cleared

def Pc.Takes : Pc → Prop
  | .draining _ _ => True
  | .taking _ => True
  | _ => False

/-- A failed submission has not been taken back yet. -/
def Machine.Failed (m : Machine ι) : Prop := ∃ u err flusher, m.pc u = .retracting err flusher

/-- The steps that no caller loses its wake-up by: no token goes to one caller while another awaits it
and no further one is coming, and the flag is not relied on while it is about to be taken back. -/
def Machine.Undisturbed (m : Machine ι) : Event ι → Prop
  | .move t =>
    ((m.pc t).Takes → m.token = true → ∀ u, u ≠ t → m.Awaits u → m.Coming) ∧
      ((∃ timeout, m.pc t = .checking timeout) → m.app.pending = true → m.token = true ∨ ¬ m.Failed)
  | .give (some t) => ∀ u, u ≠ t → m.Awaits u → m.queued = true
  | _ => True

structure Machine.Heard (m : Machine ι) : Prop where
  awaited : ∀ u, m.Awaits u → m.Coming ∨ m.token = true
  flagged : m.app.pending = true →
    m.queued = true ∨ m.handler = .called ∨ m.handler = .drained ∨ m.Failed

omit [DecidableEq ι] in
theorem Machine.heard_quiet (h : a.pending = false) (token : Bool) : (Machine.quiet ι a token).Heard := by
  refine ⟨fun u hu => ?_, fun hp => ?_⟩
  · rcases hu with hu | hu <;> cases hu
  · rw [show (Machine.quiet ι a token).app.pending = a.pending from rfl, h] at hp
    cases hp

theorem Machine.awaits_goto {m : Machine ι} {t u : ι} {pc : Pc} (h : (m.goto t pc).Awaits u) :
    (u = t ∧ (pc = .taking .forever ∨ pc = .blocked .forever)) ∨ (u ≠ t ∧ m.Awaits u) := by
  unfold Machine.Awaits Machine.goto at h
  dsimp only at h
  by_cases hu : u = t
  · subst hu
    exact .inl ⟨rfl, by simpa using h⟩
  · rw [Function.update_of_ne hu] at h
    exact .inr ⟨hu, h⟩

theorem Machine.failed_goto {m : Machine ι} {t : ι} {pc : Pc} (h : m.Failed)
    (ht : ∀ err flusher, m.pc t ≠ .retracting err flusher) : (m.goto t pc).Failed := by
  obtain ⟨u, err, flusher, hu⟩ := h
  refine ⟨u, err, flusher, ?_⟩
  have hne : u ≠ t := fun heq => ht err flusher (heq ▸ hu)
  show Function.update m.pc t pc u = _
  rw [Function.update_of_ne hne, hu]

theorem Machine.heard_goto {m : Machine ι} {t : ι} {pc : Pc}
    (hothers : ∀ u, u ≠ t → m.Awaits u → m.Coming ∨ m.token = true)
    (hself : pc = .taking .forever ∨ pc = .blocked .forever → m.Coming ∨ m.token = true)
    (hflag : m.app.pending = true →
      m.queued = true ∨ m.handler = .called ∨ m.handler = .drained ∨ (m.goto t pc).Failed) :
    (m.goto t pc).Heard := by
  refine ⟨fun u hu => ?_, hflag⟩
  rcases Machine.awaits_goto hu with ⟨_, hpc⟩ | ⟨hne, hm⟩
  · exact hself hpc
  · exact hothers u hne hm

theorem Flusher.not_awaiting {flusher : Flusher} {status : Status} :
    ¬ (flusher.resume status = .taking .forever ∨ flusher.resume status = .blocked .forever) := by
  cases flusher <;> simp only [Flusher.resume]
  · split <;> simp
  all_goals simp

/-- The locked section of `zdb_ts_flush_async`. -/
theorem Machine.Heard.request {m : Machine ι} (hm : m.Heard) {t : ι} {h : Nat} {flusher : Flusher}
    (ht : m.pc t = .requesting h flusher) : (m.request cfg t h flusher).Heard := by
  have hflag : ∀ pc, m.app.pending = true → m.queued = true ∨ m.handler = .called ∨ m.handler = .drained ∨
      (m.goto t pc).Failed := by
    intro pc hp
    rcases hm.flagged hp with hq | hc | hd | hf
    · exact .inl hq
    · exact .inr (.inl hc)
    · exact .inr (.inr (.inl hd))
    · exact .inr (.inr (.inr (Machine.failed_goto hf fun err f h => by rw [ht] at h; cases h)))
  unfold Machine.request
  rcases requestFlush_cases cfg h m.app with ⟨status, ho, _, hpend, _⟩ | ⟨r, ho, _⟩
  · simp only [ho]
    refine Machine.heard_goto (fun u _ hu => hm.awaited u hu) (fun h => absurd h Flusher.not_awaiting) ?_
    intro hp
    exact hflag _ (hpend ▸ hp)
  · cases r with
    | ok _ =>
      simp only [ho]
      exact Machine.heard_goto (fun u _ _ => .inl (.inl rfl)) (fun h => absurd h Flusher.not_awaiting)
        fun _ => .inl rfl
    | error err =>
      simp only [ho]
      refine Machine.heard_goto (fun u _ hu => hm.awaited u hu) (fun h => by rcases h with h | h <;> cases h) ?_
      exact fun _ => .inr (.inr (.inr ⟨t, err, flusher, Function.update_self _ _ _⟩))

theorem Machine.Heard.goto {m : Machine ι} (hm : m.Heard) {t : ι} {pc : Pc}
    (ht : ∀ err flusher, m.pc t ≠ .retracting err flusher)
    (hself : pc = .taking .forever ∨ pc = .blocked .forever → m.Coming ∨ m.token = true) :
    (m.goto t pc).Heard := by
  apply Machine.heard_goto (fun u _ hu => hm.awaited u hu) hself
  intro hp
  rcases hm.flagged hp with hq | hc | hd | hf
  · exact .inl hq
  · exact .inr (.inl hc)
  · exact .inr (.inr (.inl hd))
  · exact .inr (.inr (.inr (Machine.failed_goto hf ht)))

theorem Machine.Heard.took {m : Machine ι} (hm : m.Heard) {t : ι} {pc : Pc}
    (ht : (m.pc t).Takes) (hpc : ¬ (pc = .taking .forever ∨ pc = .blocked .forever))
    (hd : m.Undisturbed (.move t)) : ({ m with token := false }.goto t pc).Heard := by
  have hfailed : ∀ err flusher, m.pc t ≠ .retracting err flusher := by
    intro err flusher h
    rw [h] at ht
    exact ht
  refine Machine.heard_goto (fun u hne hu => .inl ?_) (fun h => absurd h hpc) fun hp => ?_
  · show m.Coming
    by_cases htok : m.token = true
    · exact hd.1 ht htok u hne hu
    · exact (hm.awaited u hu).resolve_right htok
  · rcases hm.flagged hp with hq | hc | hd | hf
    · exact .inl hq
    · exact .inr (.inl hc)
    · exact .inr (.inr (.inl hd))
    · exact .inr (.inr (.inr (Machine.failed_goto (m := { m with token := false }) hf hfailed)))

theorem Machine.Heard.move {m m' : Machine ι} (hm : m.Heard) {t : ι} (hd : m.Undisturbed (.move t))
    (h : m.move cfg t = some m') : m'.Heard := by
  unfold Machine.move at h
  split at h
  case h_1 ht =>
    cases h
    exact hm.took (by rw [ht]; trivial) (by rintro (h | h) <;> cases h) hd
  case h_2 ht =>
    split at h
    · cases h
    · cases h
      exact hm.request ht
  case h_3 flusher ht =>
    cases h
    refine Machine.heard_goto (fun u _ hu => hm.awaited u hu) (fun h => absurd h Flusher.not_awaiting) ?_
    intro hp
    rw [show App.pending _ = _ from pending_cleared m.app] at hp
    cases hp
  case h_4 ht =>
    cases h
    refine hm.goto (fun err f h => by rw [ht] at h; cases h) ?_
    split <;> rintro (h | h) <;> cases h
  case h_5 timeout ht =>
    cases h
    refine hm.goto (fun err f h => by rw [ht] at h; cases h) fun hpc => ?_
    by_cases hp : m.app.pending = true
    · rcases hd.2 ⟨timeout, ht⟩ hp with htok | hnf
      · exact .inr htok
      · rcases hm.flagged hp with hq | hc | hd | hf
        · exact .inl (.inl hq)
        · exact .inl (.inr (.inl hc))
        · exact .inl (.inr (.inr (.inl hd)))
        · exact absurd hf hnf
    · rw [if_neg hp] at hpc
      rcases hpc with h | h <;> cases h
  case h_6 timeout ht =>
    cases h
    unfold Machine.take
    split
    · exact hm.took (by rw [ht]; trivial) (by rintro (h | h) <;> cases h) hd
    · rename_i htok
      split
      · exact hm.goto (fun err f h => by rw [ht] at h; cases h) (by rintro (h | h) <;> cases h)
      · refine Machine.Heard.goto (m := { m with waiters := m.waiters ++ [t] }) ⟨hm.awaited, hm.flagged⟩
          (fun err f h => by rw [ht] at h; cases h) fun hpc => ?_
        have htime : timeout = .forever := by rcases hpc with h | h <;> cases h; rfl
        exact hm.awaited t (.inl (htime ▸ ht))
  case h_7 ht =>
    cases h
    refine hm.goto (fun err f h => by rw [ht] at h; cases h) ?_
    rintro (h | h) <;> cases h
  all_goals cases h

theorem Machine.Heard.start {m m' : Machine ι} (hm : m.Heard) {t : ι} {c : Call} {status : Status}
    (ht : m.pc t = .idle status) (h : m.start cfg t c = some m') : m'.Heard := by
  have hgo : ∀ (b : App) (pc : Pc), b.pending = m.app.pending →
      ¬ (pc = .taking .forever ∨ pc = .blocked .forever) → ({ m with app := b }.goto t pc).Heard := by
    intro b pc hb hpc
    refine Machine.Heard.goto (m := { m with app := b }) ⟨hm.awaited, fun hp => hm.flagged (hb ▸ hp)⟩
      (fun err f h => by rw [ht] at h; cases h) fun h => absurd h hpc
  unfold Machine.start at h
  cases c with
  | sync h' timeout =>
    dsimp only at h
    split at h
    · cases h
      exact hgo m.app _ rfl (by rintro (h | h) <;> cases h)
    · split at h <;> cases h
      all_goals exact hgo _ _ (rests_tsCtxGetOrAlloc _ _).pending (by rintro (h | h) <;> cases h)
  | async h' =>
    cases h
    exact hgo m.app _ rfl (by rintro (h | h) <;> cases h)
  | append h' sample =>
    dsimp only at h
    split at h
    · cases h
    · split at h <;> cases h
      · exact hgo _ _ (rests_appendLocked _ _ _).pending (by rintro (h | h) <;> cases h)
      · apply hgo _ _ (rests_appendLocked _ _ _).pending
        split <;> rintro (h | h) <;> cases h
  | batch h' samples =>
    dsimp only at h
    split at h
    · cases h
    · split at h <;> cases h
      all_goals exact hgo _ _ (rests_batchLocked _ _ _).pending (by rintro (h | h) <;> cases h)

theorem Machine.Heard.give {m m' : Machine ι} (hm : m.Heard) {woken : Option ι}
    (hd : m.Undisturbed (.give woken)) (hh : m.handler = .cleared) (h : m.give woken = some m') :
    { m' with handler := .given }.Heard := by
  have hflag : m.app.pending = true → m.queued = true ∨ m.Failed := by
    intro hp
    rcases hm.flagged hp with hq | hc | hd | hf
    · exact .inl hq
    · rw [hh] at hc
      cases hc
    · rw [hh] at hd
      cases hd
    · exact .inr hf
  cases woken with
  | none =>
    simp only [Machine.give] at h
    split at h
    · obtain rfl := Option.some.inj h
      exact ⟨fun u _ => .inr rfl, fun hp => (hflag hp).imp_right fun hf => .inr (.inr hf)⟩
    · cases h
  | some t =>
    simp only [Machine.give] at h
    split at h
    · rename_i timeout ht
      split at h
      · obtain rfl := Option.some.inj h
        have hnf : ∀ err f, m.pc t ≠ .retracting err f := fun err f h => by rw [ht] at h; cases h
        refine Machine.heard_goto (m := { m with waiters := m.waiters.erase t, handler := .given })
          (fun u hne hu => .inl (.inl (hd u hne hu))) (by rintro (h | h) <;> cases h) fun hp => ?_
        exact (hflag hp).imp_right fun hf => .inr (.inr
          (Machine.failed_goto (m := { m with waiters := m.waiters.erase t, handler := .given }) hf hnf))
      · cases h
    · cases h

theorem Machine.Heard.step {m m' : Machine ι} (hm : m.Heard) {e : Event ι} (hd : m.Undisturbed e)
    (h : m.step cfg e = some m') : m'.Heard := by
  unfold Machine.step at h
  cases e with
  | call t c =>
    dsimp only at h
    split at h
    · rename_i status ht
      exact hm.start ht h
    · cases h
  | move t => exact hm.move hd h
  | expire t =>
    dsimp only at h
    split at h
    · rename_i timeout ht
      split at h
      · cases h
      · obtain rfl := Option.some.inj h
        exact Machine.Heard.goto (m := { m with waiters := m.waiters.erase t }) ⟨hm.awaited, hm.flagged⟩
          (fun err f h => by rw [ht] at h; cases h) (by rintro (h | h) <;> cases h)
    · cases h
  | begin =>
    dsimp only at h
    split at h
    · obtain rfl := Option.some.inj h
      exact ⟨fun u _ => .inl (.inr (.inl rfl)), fun _ => .inr (.inl rfl)⟩
    · cases h
  | flush =>
    dsimp only at h
    split at h
    · obtain rfl := Option.some.inj h
      exact ⟨fun u _ => .inl (.inr (.inr (.inl rfl))), fun _ => .inr (.inr (.inl rfl))⟩
    · cases h
  | clear =>
    dsimp only at h
    split at h
    · obtain rfl := Option.some.inj h
      refine ⟨fun u _ => .inl (.inr (.inr (.inr rfl))), fun hp => ?_⟩
      rw [show App.pending _ = _ from pending_cleared m.app] at hp
      cases hp
    · cases h
  | give woken =>
    dsimp only at h
    split at h
    · rename_i hh
      obtain ⟨m₁, hg, rfl⟩ := Option.map_eq_some_iff.mp h
      exact hm.give hd hh hg
    · cases h
  | finish =>
    dsimp only at h
    split at h
    · rename_i hh
      obtain rfl := Option.some.inj h
      have hcoming : m.Coming → m.queued = true := by
        rintro (hq | hc | hc | hc)
        · exact hq
        all_goals rw [hh] at hc; cases hc
      refine ⟨fun u hu => (hm.awaited u hu).imp_left fun hc => .inl (hcoming hc), fun hp => ?_⟩
      rcases hm.flagged hp with hq | hc | hd | hf
      · exact .inl hq
      · rw [hh] at hc
        cases hc
      · rw [hh] at hd
        cases hd
      · exact .inr (.inr (.inr hf))
    · cases h

/-- Where every step leaves a wake-up to each caller that awaits one, no caller is blocked for good. -/
theorem blocked_is_woken {cfg : Cfg} {a : App} (ha : a.pending = false) (token : Bool) {es : List (Event ι)}
    {m : Machine ι} (hrun : Steps (Guarded Machine.Undisturbed (Machine.Goes cfg)) (Machine.quiet ι a token) es m)
    {t : ι} (ht : m.pc t = .blocked .forever) :
    (m.queued = true ∨ m.handler ≠ .off) ∨ m.token = true := by
  have hm : m.Heard := hrun.keeps (fun m e m' hm hs => hm.step hs.1 hs.2) (Machine.heard_quiet ha token)
  refine (hm.awaited t (.inr ht)).imp_left ?_
  rintro (hq | hc | hc | hc)
  · exact .inl hq
  all_goals exact .inr (by rw [hc]; decide)

/-- A stream opened and one sample appended to it, on a file system where the calls numbered by `bad`
fail. -/
def oneBuffered (bad : Nat → Bool) : App :=
  run (Cfg.small false false true 64) (App.boot (Sys.blank bad)) [.open 0 [65], .append 0 ⟨5, 7⟩]

instance : DecidablePred Pc.Takes
  | .draining _ _ => isTrue trivial
  | .taking _ => isTrue trivial
  | .idle _ => isFalse id
  | .requesting _ _ => isFalse id
  | .retracting _ _ => isFalse id
  | .sizing _ _ => isFalse id
  | .checking _ => isFalse id
  | .blocked _ => isFalse id
  | .rechecking => isFalse id

def Pc.checks : Pc → Bool
  | .checking _ => true
  | _ => false

def Pc.retracts : Pc → Bool
  | .retracting _ _ => true
  | _ => false

theorem Pc.checks_iff {pc : Pc} : pc.checks = true ↔ ∃ timeout, pc = .checking timeout := by
  cases pc <;> simp [Pc.checks]

theorem Pc.retracts_iff {pc : Pc} : pc.retracts = true ↔ ∃ err flusher, pc = .retracting err flusher := by
  cases pc <;> simp [Pc.retracts]

instance (m : Machine Bool) : DecidablePred m.Undisturbed
  | .move t =>
    decidable_of_iff (((m.pc t).Takes → m.token = true → ∀ u, u ≠ t → (m.pc u = .taking .forever ∨ m.pc u = .blocked .forever) →
        (m.queued = true ∨ m.handler = .called ∨ m.handler = .drained ∨ m.handler = .cleared)) ∧
      ((m.pc t).checks = true → m.app.pending = true → m.token = true ∨ ¬ ∃ u, (m.pc u).retracts = true))
      (by simp only [Pc.checks_iff, Pc.retracts_iff]; rfl)
  | .give (some t) =>
    inferInstanceAs (Decidable (∀ u, u ≠ t → (m.pc u = .taking .forever ∨ m.pc u = .blocked .forever) → m.queued = true))
  | .give none => isTrue trivial
  | .call _ _ => isTrue trivial
  | .expire _ => isTrue trivial
  | .begin => isTrue trivial
  | .flush => isTrue trivial
  | .clear => isTrue trivial
  | .finish => isTrue trivial

/-- Two callers: one waits for a flush while the other asks for one too and is told that it is under way; then
the other waits for one of its own. -/
def takingTurns : List (Event Bool) :=
  [.call false (.sync 0 .forever), .move false, .move false, .move false, .move false, .call true (.async 0), .move true,
    .begin, .flush, .clear, .give (some false), .finish, .move false, .call true (.sync 0 .forever), .move true,
    .move true, .move true, .move true]

theorem second_caller_woken :
    ∃ m : Machine Bool, m.pc false = .idle .OK ∧ m.pc true = .blocked .forever ∧
      ((m.queued = true ∨ m.handler ≠ .off) ∨ m.token = true) := by
  obtain ⟨m, hrun, hpc⟩ := @Machine.exists_of_plays Bool _ (Cfg.small false false true 64) (fun m e => decide (m.Undisturbed e))
    (Machine.quiet Bool (oneBuffered fun _ => false) false) takingTurns _ (fun m => (m.pc false, m.pc true))
    (.idle .OK, .blocked .forever) (by decide +kernel)
  simp only [Prod.mk.injEq] at hpc
  simp only [decide_eq_true_eq] at hrun
  exact ⟨m, hpc.1, hpc.2, blocked_is_woken (by decide +kernel) false hrun hpc.2⟩

/-- Two callers share one flush. -/
def sharedFlush : List (Event Bool) :=
  [.call false (.sync 0 .forever), .call true (.sync 0 .forever), .move false, .move false, .move true, .move true,
    .move false, .move true, .move false, .move true, .begin, .flush, .clear, .give (some false), .finish]

/-- It gives one token, and the second caller stays blocked with nothing queued, nothing running and no
token. -/
theorem wakeup_lost :
    (oneBuffered fun _ => false).pending = false ∧ ∃ m : Machine Bool,
      Steps (Machine.Goes (Cfg.small false false true 64)) (Machine.quiet Bool (oneBuffered fun _ => false) false)
        sharedFlush m ∧
      m.pc true = .blocked .forever ∧ ¬ ((m.queued = true ∨ m.handler ≠ .off) ∨ m.token = true) := by
  obtain ⟨m, hrun, hm⟩ := @Machine.exists_of_plays Bool _ (Cfg.small false false true 64) (fun _ _ => true)
    (Machine.quiet Bool (oneBuffered fun _ => false) false) sharedFlush _
    (fun m => (m.pc true, m.queued, m.handler, m.token)) (.blocked .forever, false, .off, false) (by decide +kernel)
  simp only [Prod.mk.injEq] at hm
  refine ⟨by decide +kernel, m, hrun.unguarded, hm.1, ?_⟩
  simp [hm.2.1, hm.2.2.1, hm.2.2.2]

/-- These bytes are in a file of the stream, or there are none. -/
def Paid (cfg : Cfg) (name bs : Bytes) (e₀ e : Sys) : Prop := bs = [] ∨ Landed cfg name bs e₀ e

def Owed (cfg : Cfg) (name bs : Bytes) (e₀ : Sys) (i : Nat) (a : App) : Prop :=
  Paid cfg name bs e₀ a.env ∨ (bs <+: (a.slotAt i).pendingBytes ∧ e₀.written <:+ a.env.written)

/-- The steps at which nothing fails for the stream in slot `i`: each drain empties its buffer, and each
submission is accepted. -/
def Machine.delivers (cfg : Cfg) (i : Nat) (m : Machine ι) : Event ι → Bool
  | .flush => ((post (flushAllLocked cfg) m.app).slotAt i).ingestUsed = 0
  | .move u =>
    match m.pc u with
    | .requesting h _ =>
      match outcome (requestFlush cfg h) m.app with
      | .ok (.error _) => false
      | _ => true
    | _ => true
  | _ => true

omit [DecidableEq ι] in
theorem Machine.submitted {cfg : Cfg} {i : Nat} {m : Machine ι} {u : ι} (hd : m.delivers cfg i (.move u) = true)
    {h : Nat} {flusher : Flusher} (hu : m.pc u = .requesting h flusher) {err : Errno} :
    outcome (requestFlush cfg h) m.app ≠ .ok (.error err) := by
  intro ho
  simp [Machine.delivers, hu, ho] at hd

section Pledge
variable {name bs : Bytes} {e₀ : Sys} {i : Nat}

theorem Paid.later {e e' : Sys} (h : Paid cfg name bs e₀ e) (k : e.written <:+ e'.written) :
    Paid cfg name bs e₀ e' :=
  h.imp_right fun hl => hl.later k

theorem Owed.abides {a b : App} (h : Owed cfg name bs e₀ i a) (hn : (a.slotAt i).name = name)
    (k : Abides cfg a b) : Owed cfg name bs e₀ i b := by
  rcases h with hp | ⟨hb, hw⟩
  · exact .inl (hp.later k.written)
  · rcases k.landed i with kb | kl
    · exact .inr ⟨hb.trans kb, hw.trans k.written⟩
    · rw [hn] at kl
      exact .inl (.inr (kl.earlier hb hw))

theorem Owed.paid {a : App} (h : Owed cfg name bs e₀ i a) (hused : (a.slotAt i).ingestUsed = 0) :
    Paid cfg name bs e₀ a.env := by
  rcases h with hp | ⟨hb, _⟩
  · exact hp
  · rw [StreamCtx.pendingBytes, hused, List.take_zero, List.prefix_nil] at hb
    exact .inl hb

def Machine.Due (cfg : Cfg) (name bs : Bytes) (e₀ : Sys) (i : Nat) (m : Machine ι) : Prop :=
  Paid cfg name bs e₀ m.app.env ∨
    (Owed cfg name bs e₀ i m.app ∧ m.app.pending = true ∧ (m.handler = .off ∨ m.handler = .called))

def Machine.Stage (cfg : Cfg) (name bs : Bytes) (e₀ : Sys) (i : Nat) (m : Machine ι) : Pc → Prop
  | .draining _ _ => Owed cfg name bs e₀ i m.app
  | .requesting _ (.sync _) => Owed cfg name bs e₀ i m.app
  | .checking _ => m.Due cfg name bs e₀ i
  | .taking _ => m.Due cfg name bs e₀ i
  | .blocked _ => m.Due cfg name bs e₀ i
  | .rechecking => m.Due cfg name bs e₀ i
  | .idle status => status = .OK → Paid cfg name bs e₀ m.app.env
  | _ => False

structure Machine.Pledge (cfg : Cfg) (name bs : Bytes) (e₀ : Sys) (i : Nat) (t : ι) (m : Machine ι) : Prop where
  named : (m.app.slotAt i).name = name
  accepted : ¬ m.Failed
  stage : m.Stage cfg name bs e₀ i (m.pc t)

omit [DecidableEq ι] in
theorem Machine.Stage.imp {m m' : Machine ι} {pc : Pc} (h : m.Stage cfg name bs e₀ i pc)
    (howed : Owed cfg name bs e₀ i m.app → Owed cfg name bs e₀ i m'.app)
    (hpaid : Paid cfg name bs e₀ m.app.env → Paid cfg name bs e₀ m'.app.env)
    (hdue : m.Due cfg name bs e₀ i → m'.Due cfg name bs e₀ i) : m'.Stage cfg name bs e₀ i pc := by
  cases pc with
  | idle status => exact fun hs => hpaid (h hs)
  | draining h' timeout => exact howed h
  | requesting h' flusher =>
    cases flusher with
    | sync timeout => exact howed h
    | _ => exact h
  | checking timeout => exact hdue h
  | taking timeout => exact hdue h
  | blocked timeout => exact hdue h
  | rechecking => exact hdue h
  | _ => exact h

omit [DecidableEq ι] in
theorem Machine.Stage.abides {m m' : Machine ι} {pc : Pc} (h : m.Stage cfg name bs e₀ i pc)
    (hn : (m.app.slotAt i).name = name) (k : Abides cfg m.app m'.app)
    (hp : m.app.pending = true → m'.app.pending = true) (hh : m'.handler = m.handler) :
    m'.Stage cfg name bs e₀ i pc := by
  apply h.imp (fun ho => ho.abides hn k) (fun hp => hp.later k.written)
  rintro (hpaid | ⟨ho, hpend, hoff⟩)
  · exact .inl (hpaid.later k.written)
  · exact .inr ⟨ho.abides hn k, hp hpend, by rwa [hh]⟩

variable {t : ι}

theorem Machine.Pledge.goto {m m' : Machine ι} (hm : m.Pledge cfg name bs e₀ i t) {u : ι} {pc : Pc}
    (hpc : m'.pc = m.pc) (hn : (m'.app.slotAt i).name = name) (hnr : ∀ err f, pc ≠ .retracting err f)
    (hself : u = t → m'.Stage cfg name bs e₀ i pc) (hother : m'.Stage cfg name bs e₀ i (m.pc t)) :
    (m'.goto u pc).Pledge cfg name bs e₀ i t := by
  refine ⟨hn, ?_, ?_⟩
  · rintro ⟨v, err, f, hv⟩
    change Function.update m'.pc u pc v = _ at hv
    by_cases hvu : v = u
    · rw [hvu, Function.update_self] at hv
      exact hnr err f hv
    · rw [Function.update_of_ne hvu, hpc] at hv
      exact hm.accepted ⟨v, err, f, hv⟩
  · show m'.Stage cfg name bs e₀ i (Function.update m'.pc u pc t)
    by_cases htu : t = u
    · rw [htu, Function.update_self]
      exact hself htu.symm
    · rw [Function.update_of_ne htu, hpc]
      exact hother

theorem Machine.Pledge.section {m : Machine ι} (hm : m.Pledge cfg name bs e₀ i t) {u : ι} {pc : Pc} {b : App}
    (hut : u ≠ t) (hb : Rests cfg m.app b) (hnr : ∀ err f, pc ≠ .retracting err f) :
    ({ m with app := b }.goto u pc).Pledge cfg name bs e₀ i t :=
  @Machine.Pledge.goto _ _ _ _ _ _ _ _ _ { m with app := b } hm _ _ rfl ((hb.name i).trans hm.named) hnr (fun h => absurd h hut)
    (hm.stage.abides hm.named hb.toAbides (fun hp => hb.pending.trans hp) rfl)

theorem Machine.Pledge.start {m m' : Machine ι} (hm : m.Pledge cfg name bs e₀ i t) {u : ι} (hut : u ≠ t)
    {c : Call} (h : m.start cfg u c = some m') : m'.Pledge cfg name bs e₀ i t := by
  have hrefl := (rests_chains cfg).refl m.app
  unfold Machine.start at h
  cases c with
  | sync h' timeout =>
    dsimp only at h
    split at h
    · cases h
      exact hm.section hut hrefl (by rintro _ _ ⟨⟩)
    · split at h <;> cases h
      all_goals exact hm.section hut (rests_tsCtxGetOrAlloc _ _) (by rintro _ _ ⟨⟩)
  | async h' =>
    cases h
    exact hm.section hut hrefl (by rintro _ _ ⟨⟩)
  | append h' sample =>
    dsimp only at h
    split at h
    · cases h
    · split at h <;> cases h
      · exact hm.section hut (rests_appendLocked _ _ _) (by rintro _ _ ⟨⟩)
      · apply hm.section hut (rests_appendLocked _ _ _)
        split <;> rintro _ _ ⟨⟩
  | batch h' samples =>
    dsimp only at h
    split at h
    · cases h
    · split at h <;> cases h
      all_goals exact hm.section hut (rests_batchLocked _ _ _) (by rintro _ _ ⟨⟩)

theorem Flusher.resume_ne {flusher : Flusher} {status : Status} {err : Errno} {f : Flusher} :
    flusher.resume status ≠ .retracting err f := by
  cases flusher <;> simp only [Flusher.resume]
  · split <;> simp
  all_goals simp

omit [DecidableEq ι] in
theorem Machine.handler_unlocked {m : Machine ι} (h : m.locked = false) : m.handler = .off ∨ m.handler = .called := by
  unfold Machine.locked at h
  cases hh : m.handler <;> simp_all

/-- The locked section of `zdb_ts_flush_async`, whoever runs it. -/
theorem Machine.Pledge.request {m : Machine ι} (hm : m.Pledge cfg name bs e₀ i t) {u : ι} {h : Nat}
    {flusher : Flusher} (hu : m.pc u = .requesting h flusher) (hlock : m.locked = false)
    (hd : m.delivers cfg i (.move u) = true) : (m.request cfg u h flusher).Pledge cfg name bs e₀ i t := by
  have hab : Abides cfg m.app (post (requestFlush cfg h) m.app) := abides_requestFlush h m.app
  have hn := (hab.name i).trans hm.named
  unfold Machine.request
  rcases requestFlush_cases cfg h m.app with ⟨status, ho, hne, hpend, hbusy⟩ | ⟨r, ho, hpend⟩
  · simp only [ho]
    refine @Machine.Pledge.goto _ _ _ _ _ _ _ _ _ { m with app := post (requestFlush cfg h) m.app } hm _ _ rfl hn
      (fun _ _ => Flusher.resume_ne) ?_ (hm.stage.abides hm.named hab (fun hp => hpend.trans hp) rfl)
    rintro rfl
    have hst := hm.stage
    rw [hu] at hst
    cases flusher with
    | sync timeout =>
      simp only [Flusher.resume]
      split
      · rename_i hs
        have hp := hbusy (hs.resolve_left hne)
        exact .inr ⟨Owed.abides hst hm.named hab, hpend.trans hp, Machine.handler_unlocked hlock⟩
      · exact fun hs => absurd hs hne
    | _ => exact absurd hst id
  · cases r with
    | error err => exact absurd ho (Machine.submitted hd hu)
    | ok _ =>
      simp only [ho]
      refine @Machine.Pledge.goto _ _ _ _ _ _ _ _ _ { m with app := post (requestFlush cfg h) m.app, queued := true }
        hm _ _ rfl hn (fun _ _ => Flusher.resume_ne) ?_
        (@Machine.Stage.abides _ _ _ _ _ _ _ { m with app := post (requestFlush cfg h) m.app, queued := true } _
          hm.stage hm.named hab (fun _ => hpend) rfl)
      rintro rfl
      have hst := hm.stage
      rw [hu] at hst
      cases flusher with
      | sync timeout =>
        exact .inr ⟨Owed.abides hst hm.named hab, hpend, Machine.handler_unlocked hlock⟩
      | _ => exact absurd hst id

theorem Machine.Pledge.semaphore {m m' : Machine ι} (hm : m.Pledge cfg name bs e₀ i t) {u : ι} {pc : Pc}
    (hpc : m'.pc = m.pc) (happ : m'.app = m.app) (hh : m'.handler = m.handler)
    (hnr : ∀ err f, pc ≠ .retracting err f) (hself : u = t → m.Stage cfg name bs e₀ i pc) :
    (m'.goto u pc).Pledge cfg name bs e₀ i t := by
  have hkeep : ∀ {q : Pc}, m.Stage cfg name bs e₀ i q → m'.Stage cfg name bs e₀ i q := fun h =>
    h.abides hm.named (happ ▸ (abides_chains cfg).refl m.app) (fun hp => happ ▸ hp) hh
  exact hm.goto hpc (happ ▸ hm.named) hnr (fun h => hkeep (hself h)) (hkeep hm.stage)

omit [DecidableEq ι] in
theorem Machine.Due.paid {m : Machine ι} (h : m.Due cfg name bs e₀ i)
    (hc : ¬ (m.app.pending = true ∧ (m.handler = .off ∨ m.handler = .called))) :
    Paid cfg name bs e₀ m.app.env := by
  rcases h with hp | ⟨_, hflag, hoff⟩
  · exact hp
  · exact absurd ⟨hflag, hoff⟩ hc

theorem Machine.Pledge.move {m m' : Machine ι} (hm : m.Pledge cfg name bs e₀ i t) {u : ι}
    (hd : m.delivers cfg i (.move u) = true) (h : m.move cfg u = some m') : m'.Pledge cfg name bs e₀ i t := by
  have hstage : ∀ {pc : Pc}, m.pc u = pc → u = t → m.Stage cfg name bs e₀ i pc := by
    rintro pc hpc rfl
    exact hpc ▸ hm.stage
  unfold Machine.move at h
  split at h
  case h_1 h' timeout hu =>
    cases h
    refine hm.semaphore rfl rfl rfl (by rintro _ _ ⟨⟩) fun ht => ?_
    have howed : Owed cfg name bs e₀ i m.app := hstage hu ht
    exact howed
  case h_2 hu =>
    split at h
    · cases h
    · rename_i hlock
      cases h
      exact hm.request hu (by simpa using hlock) hd
  case h_3 err flusher hu => exact absurd ⟨u, err, flusher, hu⟩ hm.accepted
  case h_4 h' j hu =>
    cases h
    refine hm.semaphore rfl rfl rfl ?_ fun ht => absurd (hstage hu ht) id
    split <;> rintro _ _ ⟨⟩
  case h_5 timeout hu =>
    cases h
    refine hm.semaphore rfl rfl rfl (by split <;> rintro _ _ ⟨⟩) fun ht => ?_
    have hdue : m.Due cfg name bs e₀ i := hstage hu ht
    split
    · exact hdue
    · rename_i hp
      exact fun _ => hdue.paid fun hc => hp hc.1
  case h_6 timeout hu =>
    cases h
    unfold Machine.take
    have hdue : u = t → m.Due cfg name bs e₀ i := fun ht => hstage hu ht
    split
    · exact hm.semaphore rfl rfl rfl (by rintro _ _ ⟨⟩) hdue
    · split
      · rename_i htime
        apply hm.semaphore rfl rfl rfl (by rintro _ _ ⟨⟩)
        intro _ hs
        rw [htime] at hs
        cases hs
      · exact hm.semaphore rfl rfl rfl (by rintro _ _ ⟨⟩) hdue
  case h_7 hu =>
    cases h
    apply hm.semaphore rfl rfl rfl (by rintro _ _ ⟨⟩)
    intro ht hs
    have hdue : m.Due cfg name bs e₀ i := hstage hu ht
    apply hdue.paid
    intro hc
    rw [if_pos hc.1] at hs
    cases hs
  all_goals cases h

omit [DecidableEq ι] in
theorem Machine.Pledge.imp {m m' : Machine ι} (hm : m.Pledge cfg name bs e₀ i t) (hpc : m'.pc = m.pc)
    (hn : (m'.app.slotAt i).name = name) (howed : Owed cfg name bs e₀ i m.app → Owed cfg name bs e₀ i m'.app)
    (hpaid : Paid cfg name bs e₀ m.app.env → Paid cfg name bs e₀ m'.app.env)
    (hdue : m.Due cfg name bs e₀ i → m'.Due cfg name bs e₀ i) : m'.Pledge cfg name bs e₀ i t := by
  refine ⟨hn, fun ⟨u, err, f, hu⟩ => hm.accepted ⟨u, err, f, hpc ▸ hu⟩, ?_⟩
  rw [hpc]
  exact hm.stage.imp howed hpaid hdue

theorem Machine.Pledge.give {m m' : Machine ι} (hm : m.Pledge cfg name bs e₀ i t) {woken : Option ι}
    (hh : m.handler = .cleared) (h : m.give woken = some m') :
    { m' with handler := .given }.Pledge cfg name bs e₀ i t := by
  have hpaid : m.Due cfg name bs e₀ i → Paid cfg name bs e₀ m.app.env := by
    intro hdue
    apply hdue.paid
    rintro ⟨_, hoff | hoff⟩ <;> rw [hh] at hoff <;> cases hoff
  cases woken with
  | none =>
    simp only [Machine.give] at h
    split at h
    · obtain rfl := Option.some.inj h
      exact hm.imp rfl hm.named id id fun hdue => .inl (hpaid hdue)
    · cases h
  | some u =>
    simp only [Machine.give] at h
    split at h
    · rename_i timeout hu
      split at h
      · obtain rfl := Option.some.inj h
        refine @Machine.Pledge.goto _ _ _ _ _ _ _ _ _ { m with waiters := m.waiters.erase u, handler := .given } hm _ _
          rfl hm.named (by rintro _ _ ⟨⟩) ?_ (hm.stage.imp id id fun hdue => .inl (hpaid hdue))
        rintro rfl
        have hdue : m.Due cfg name bs e₀ i := by
          have hst := hm.stage
          rwa [hu] at hst
        exact .inl (hpaid hdue)
      · cases h
    · cases h

theorem Machine.Pledge.step {m m' : Machine ι} (hm : m.Pledge cfg name bs e₀ i t) {e : Event ι}
    (hd : m.delivers cfg i e = true) (he : ∀ c, e ≠ .call t c) (h : m.step cfg e = some m') :
    m'.Pledge cfg name bs e₀ i t := by
  unfold Machine.step at h
  cases e with
  | call u c =>
    dsimp only at h
    split at h
    · exact hm.start (fun hut => he c (hut ▸ rfl)) h
    · cases h
  | move u => exact hm.move hd h
  | expire u =>
    dsimp only at h
    split at h
    · rename_i timeout hu
      split at h
      · cases h
      · obtain rfl := Option.some.inj h
        refine hm.semaphore rfl rfl rfl (by rintro _ _ ⟨⟩) fun _ hs => ?_
        cases timeout <;> cases hs
    · cases h
  | begin =>
    dsimp only at h
    split at h
    · obtain rfl := Option.some.inj h
      refine hm.imp rfl hm.named id id ?_
      rintro (hp | ⟨ho, hflag, _⟩)
      · exact .inl hp
      · exact .inr ⟨ho, hflag, .inr rfl⟩
    · cases h
  | flush =>
    dsimp only at h
    split at h
    · obtain rfl := Option.some.inj h
      have hab := (@rests_flushAllLocked cfg m.app).toAbides
      have howed : Owed cfg name bs e₀ i m.app → Owed cfg name bs e₀ i (post (flushAllLocked cfg) m.app) :=
        fun ho => ho.abides hm.named hab
      refine hm.imp rfl ((hab.name i).trans hm.named) howed (fun hp => hp.later hab.written) ?_
      rintro (hp | ⟨ho, _, _⟩)
      · exact .inl (hp.later hab.written)
      · exact .inl ((howed ho).paid (of_decide_eq_true hd))
    · cases h
  | clear =>
    dsimp only at h
    split at h
    · rename_i hh
      obtain rfl := Option.some.inj h
      have hab : Abides cfg m.app (m.app.setPending false) := abides_setPending false m.app
      refine hm.imp rfl ((hab.name i).trans hm.named) (fun ho => ho.abides hm.named hab) id fun hdue => ?_
      refine .inl (hdue.paid ?_)
      rintro ⟨_, hoff | hoff⟩ <;> rw [hh] at hoff <;> cases hoff
    · cases h
  | give woken =>
    dsimp only at h
    split at h
    · rename_i hh
      obtain ⟨m₁, hg, rfl⟩ := Option.map_eq_some_iff.mp h
      exact hm.give hh hg
    · cases h
  | finish =>
    dsimp only at h
    split at h
    · rename_i hh
      obtain rfl := Option.some.inj h
      refine hm.imp rfl hm.named id id fun hdue => .inl (hdue.paid ?_)
      rintro ⟨_, hoff | hoff⟩ <;> rw [hh] at hoff <;> cases hoff
    · cases h

/-- A call of `zdb_ts_flush_sync` begins. -/
theorem Machine.pledge_called {m m' : Machine ι} {h : Nat} {timeout : Timeout}
    (hopen : m.app.handles h = some name) (hn : (m.app.slotAt i).name = name) (hfailed : ¬ m.Failed)
    (hcall : m.step cfg (.call t (.sync h timeout)) = some m') :
    m'.Pledge cfg name (m.app.slotAt i).pendingBytes m.app.env i t := by
  have hgo : ∀ (b : App) (pc : Pc), Rests cfg m.app b → (∀ err f, pc ≠ .retracting err f) →
      Machine.Stage cfg name (m.app.slotAt i).pendingBytes m.app.env i { m with app := b } pc →
      ({ m with app := b }.goto t pc).Pledge cfg name (m.app.slotAt i).pendingBytes m.app.env i t := by
    intro b pc hb hnr hst
    refine ⟨(hb.name i).trans hn, ?_, ?_⟩
    · rintro ⟨v, err, f, hv⟩
      change Function.update m.pc t pc v = _ at hv
      by_cases hvt : v = t
      · rw [hvt, Function.update_self] at hv
        exact hnr err f hv
      · rw [Function.update_of_ne hvt] at hv
        exact hfailed ⟨v, err, f, hv⟩
    · show Machine.Stage cfg name _ _ i _ (Function.update m.pc t pc t)
      rw [Function.update_self]
      exact hst
  unfold Machine.step at hcall
  dsimp only at hcall
  split at hcall
  · simp only [Machine.start, hopen, Option.isNone_some, Bool.false_eq_true, if_false] at hcall
    have hrests : Rests cfg m.app (post (tsCtxGetOrAlloc cfg .ERR_INTERNAL) m.app) := rests_tsCtxGetOrAlloc _ _
    rcases tsCtxGetOrAlloc_cases cfg .ERR_INTERNAL m.app with ⟨b, hb, _⟩ | ⟨b, hb⟩
    · rw [outcome_of_run hb] at hcall
      obtain rfl := Option.some.inj hcall
      refine hgo _ _ hrests (by rintro _ _ ⟨⟩) (Owed.abides (a := m.app) ?_ hn hrests.toAbides)
      exact .inr ⟨List.prefix_rfl, List.suffix_rfl⟩
    · rw [(gives_error (Q := fun _ => True) hb trivial).1] at hcall
      obtain rfl := Option.some.inj hcall
      exact hgo _ _ hrests (by rintro _ _ ⟨⟩) (by rintro ⟨⟩)
  · cases hcall

end Pledge

/-- A call that returns `ZDB_OK`, in which no drain failed to write the stream and no submission was
refused, has the bytes written that were buffered when it was made. -/
theorem flushSync_written {cfg : Cfg} {m₀ m₁ m₂ : Machine ι} {t : ι} {h : Nat} {timeout : Timeout}
    {name : Bytes} {i : Nat} {es : List (Event ι)} (hopen : m₀.app.handles h = some name)
    (hslot : m₀.app.slotFind name = some i) (hfailed : ¬ m₀.Failed)
    (hcall : m₀.step cfg (.call t (.sync h timeout)) = some m₁)
    (hrun : Steps (Guarded (fun m e => m.delivers cfg i e = true) (Machine.Goes cfg)) m₁ es m₂)
    (hes : ∀ e ∈ es, ∀ c, e ≠ .call t c) (hret : m₂.pc t = .idle .OK) :
    Paid cfg name (m₀.app.slotAt i).pendingBytes m₀.app.env m₂.app.env := by
  have hm₁ : m₁.Pledge cfg name (m₀.app.slotAt i).pendingBytes m₀.app.env i t :=
    Machine.pledge_called hopen (slotFind_some hslot).2 hfailed hcall
  have hm₂ := hrun.keeps_of (P := fun e => ∀ c, e ≠ .call t c) (fun m e m' he hm hs => hm.step hs.1 he hs.2)
    hes hm₁
  have hst := hm₂.stage
  rw [hret] at hst
  exact hst rfl

/-- The steps of a call of `zdb_ts_flush_sync` that waits for its own flush. -/
def oneSync : List (Event Unit) :=
  [.move (), .move (), .move (), .move (), .begin, .flush, .clear, .give (some ()), .finish, .move ()]

theorem oneSync_no_call : ∀ e ∈ oneSync, ∀ c, e ≠ .call () c := by
  intro e he c
  simp only [oneSync, List.mem_cons, List.not_mem_nil, or_false] at he
  rcases he with rfl | rfl | rfl | rfl | rfl | rfl | rfl | rfl | rfl | rfl <;> rintro ⟨⟩

/-- One thread, on the application with one record buffered. -/
def oneCaller (bad : Nat → Bool) : Machine Unit := Machine.quiet Unit (oneBuffered bad) false

/-- The one buffered record is written when the call returns. -/
theorem one_record_written :
    ∃ m : Machine Unit, m.pc () = .idle .OK ∧
      Paid (Cfg.small false false true 64) [65] ((oneCaller fun _ => false).app.slotAt 0).pendingBytes
        (oneCaller fun _ => false).app.env m.app.env := by
  obtain ⟨m, hrun, hpc⟩ := @Machine.exists_of_plays Unit _ (Cfg.small false false true 64)
    (Machine.delivers (Cfg.small false false true 64) 0) (oneCaller fun _ => false)
    (.call () (.sync 0 .forever) :: oneSync) _ (fun m => m.pc ()) (.idle .OK)
    (by decide +kernel)
  obtain ⟨m₁, hcall, hrest⟩ := hrun.uncons
  have hfailed : ¬ (oneCaller fun _ => false).Failed := by rintro ⟨u, err, f, ⟨⟩⟩
  exact ⟨m, hpc, flushSync_written (by decide +kernel) (by decide +kernel) hfailed hcall.2 hrest
    oneSync_no_call hpc⟩

/-- The drain cannot open the file, `zdb_ts_flush_sync` returns `ZDB_OK`, and the record is in RAM only. -/
theorem unwritten_reported_ok :
    ∃ m m' : Machine Unit,
      (oneCaller fun n => 16 ≤ n).step (Cfg.small false false true 64) (.call () (.sync 0 .forever)) = some m ∧
      Steps (Machine.Goes (Cfg.small false false true 64)) m oneSync m' ∧ m'.pc () = .idle .OK ∧
      ¬ Paid (Cfg.small false false true 64) [65] ((oneCaller fun n => 16 ≤ n).app.slotAt 0).pendingBytes
        (oneCaller fun n => 16 ≤ n).app.env m'.app.env := by
  obtain ⟨m', hrun, hm⟩ := @Machine.exists_of_plays Unit _ (Cfg.small false false true 64) (fun _ _ => true)
    (oneCaller fun n => 16 ≤ n) (.call () (.sync 0 .forever) :: oneSync) _
    (fun m => (m.pc (), m.app.env.written)) (.idle .OK, (oneCaller fun n => 16 ≤ n).app.env.written)
    (by decide +kernel)
  simp only [Prod.mk.injEq] at hm
  obtain ⟨m₁, hcall, hrest⟩ := hrun.uncons
  refine ⟨m₁, m', hcall.2, hrest.unguarded, hm.1, ?_⟩
  rintro (hnil | ⟨new, p, more, hw, _, hmem⟩)
  · exact absurd hnil (by decide +kernel)
  · rw [hm.2, List.self_eq_append_left] at hw
    rw [hw] at hmem
    cases hmem

end Wake

end ZephyrDB.Ts
