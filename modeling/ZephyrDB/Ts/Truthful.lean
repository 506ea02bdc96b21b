import ZephyrDB.Ts.Batch
import ZephyrDB.Ts.Taking

/-!
What the status of an append and of a batch says about the samples of their
stream, before the call and after it, and in which runs it says the truth.
-/

set_option autoImplicit false

namespace ZephyrDB.Ts

open Lib

/-- The stream in slot `i`, with the files. -/
def App.stream (a : App) (i : Nat) : SlotSt := ⟨a.slotAt i, a.env⟩

section Calls
variable {cfg : Cfg} {h i : Nat} {s : Noted App Trail} {sample : Sample} {xs : List Sample}

theorem fixes_look_call {ε : Type} : Fixes (fun a => a.env.look) (onEnv (attempt call) : AppM ε (Except Errno Unit)) := by
  apply fixes_zoom (fixes_attempt fun e => (leads_of_within (keeps_call e)).look)
  intro _ _ h
  exact h

theorem fixes_look_tsCtxGetOrAlloc (onNull : Status) : Fixes (fun a => a.env.look) (tsCtxGetOrAlloc cfg onNull) := by
  have hcall : Fixes (fun a => a.env.look) (onEnv (orFail onNull call)) := by
    apply fixes_zoom (fixes_adaptExcept _ fun e => (leads_of_within (keeps_call e)).look)
    intro _ _ h
    exact h
  apply fixes_bind fixes_get
  intro a
  apply fixes_guard
  cases a.tsCtx with
  | some ctx => exact fixes_pure _
  | none => exact fixes_bind hcall fun _ => fixes_modify fun _ => rfl

theorem fixes_look_tsFlushAsync (h : Nat) : Fixes (fun a => a.env.look) (tsFlushAsync cfg h) := by
  apply fixes_bind fixes_get
  intro a
  apply fixes_guard
  apply fixes_bind (fixes_look_tsCtxGetOrAlloc _)
  intro _
  apply fixes_bind fixes_get
  intro b
  apply fixes_guard
  have hpending : ∀ b, Fixes (fun a => a.env.look) (modify fun a => a.setPending b : AppM Status Unit) := by
    intro b
    apply fixes_modify
    intro _
    exact rfl
  apply fixes_bind (hpending true)
  intro _
  apply fixes_bind fixes_look_call
  intro r
  cases r with
  | ok _ => exact fixes_pure _
  | error _ => exact fixes_bind (hpending false) fun _ => fixes_throw _

theorem fixes_look_appendFlush (h i recSize : Nat) : Fixes (fun a => a.env.look) (appendFlush cfg h i recSize) := by
  apply fixes_bind fixes_get
  intro a
  apply fixes_ite ?_ (fixes_pure _)
  apply fixes_bind (fixes_attempt (fixes_look_tsFlushAsync h))
  intro r
  split
  · exact fixes_pure _
  · exact fixes_pure _
  · exact fixes_throw _

theorem Takes.still {t u : SlotSt} {r : SlotSt} (h : Takes cfg xs r t) (hslot : u.slot = t.slot)
    (hlook : u.env.look = t.env.look) : Takes cfg xs r u := by
  have htakes := h.trans (Takes.of_still hslot hlook)
  rwa [List.append_nil] at htakes

theorem Gains.still {t u : SlotSt} {r : SlotSt} (h : Gains cfg xs r t) (hslot : u.slot = t.slot)
    (hlook : u.env.look = t.env.look) : Gains cfg xs r u := by
  refine ⟨?_, h.takes.still hslot hlook, ?_⟩
  · rw [hslot]
    exact h.packed
  · rw [hslot]
    exact h.last

theorem yields_underLock {ε α : Type} {m : Trail.TrailM SlotSt ε α} (ho : OnStream s.st h i)
    {P : α → SlotSt → List Mark → Prop} {E : ε → SlotSt → List Mark → Prop}
    (hm : ∀ notes, Yields m ⟨s.st.stream i, notes⟩ (fun x t => P x t.st t.notes.marks) fun r t => E r t.st t.notes.marks) :
    Yields (Trail.underLock (Trail.onSlot cfg i m)) s
      (fun x t => ∃ marks, t.notes.marks = .unlocked :: marks ∧ P x (t.st.stream i) marks)
      fun r t => ∃ marks, t.notes.marks = .unlocked :: marks ∧ E r (t.st.stream i) marks := by
  have hstream : ∀ t : SlotSt, (s.st.withSlot i t).stream i = t := by
    intro t
    rw [App.stream, slotAt_withSlot ho.hasSlot]
    rfl
  apply yields_between
  apply yields_zoom
  apply (hm _).imp
  · intro x t ht
    exact ⟨t.notes.marks, rfl, (hstream t.st).symm ▸ ht⟩
  · intro r t ht
    exact ⟨t.notes.marks, rfl, (hstream t.st).symm ▸ ht⟩

theorem unlocked_none {k : Mark} {marks : List Mark} (h : k ∉ Mark.unlocked :: marks) : k ∉ marks := fun hmem =>
  h (List.mem_cons_of_mem _ hmem)

theorem Trail.Tight.unlocked {t : Trail} (h : t.Tight) {marks : List Mark} (hmarks : t.marks = .unlocked :: marks) :
    ∀ k ∈ marks, k.loosens = false := by
  intro k hk
  apply h
  rw [hmarks]
  exact List.mem_cons_of_mem _ hk

theorem OnStream.finds {α : Type} (ho : OnStream s.st h i) {f : Nat → Trail.TrailM App Status α}
    {P : α → Noted App Trail → Prop} {E : Status → Noted App Trail → Prop} (hf : Yields (f i) s P E) {name : Bytes}
    (hh : s.st.handles h = some name) : Yields (do
      silent (tsCtxGetOrAlloc cfg .ERR_INVAL)
      match (← get).st.slotFind name with
      | none => throw .ERR_INVAL
      | some i => f i : Trail.TrailM App Status α) s P E := by
  obtain ⟨name', hh', hfind⟩ := ho.slot
  obtain rfl : name = name' := Option.some.inj (hh.symm.trans hh')
  have hctx : (silent (tsCtxGetOrAlloc cfg .ERR_INVAL) : Trail.TrailM App Status Unit).run s = .ok () s :=
    run_zoom (run_tsCtxGetOrAlloc_up ho.running ho.ctx _)
  apply yields_then hctx
  apply yields_get_bind
  rw [hfind]
  exact hf

theorem tsAppendI64_takes (ho : OnStream s.st h i) (hp : (s.st.slotAt i).Packed cfg)
    (hprep : Prepared cfg [sample] (s.st.stream i)) : Yields (Trail.tsAppendI64 cfg h sample) s
      (fun _ t => t.notes.Tight → Gains cfg [sample] (s.st.stream i) (t.st.stream i))
      fun _ t => t.notes.Tight → .uncounted ∉ t.notes.marks → .undrained ∉ t.notes.marks →
        Takes cfg [] (s.st.stream i) (t.st.stream i) := by
  obtain ⟨name, hh, _⟩ := ho.slot
  unfold Trail.tsAppendI64
  apply yields_get_bind
  rw [hh]
  apply ho.finds ?_ hh
  have hlocked := @yields_underLock cfg h i s Status Nat (Trail.appendRecord cfg sample) ho
    (fun _ t marks => (∀ k ∈ marks, k.loosens = false) → Gains cfg [sample] (s.st.stream i) t)
    (fun _ t marks => (∀ k ∈ marks, k.loosens = false) → Mark.uncounted ∉ marks → Takes cfg [] (s.st.stream i) t)
    fun notes => (append_takes hprep hp).imp (fun _ _ h htight => (h htight).2) fun _ _ h => h
  refine yields_bind (hlocked.imp (fun _ _ h => h) ?_) ?_
  · intro _ t ⟨marks, hmarks, ht⟩ htight hcounted _
    rw [hmarks] at hcounted
    exact ht (htight.unlocked hmarks) (unlocked_none hcounted)
  intro recSize t ⟨marks, hmarks, ht⟩
  have hstill := ((@calm_appendFlush cfg h i recSize).yields t.st).and ((@fixes_look_appendFlush cfg h i recSize).yields t.st)
  apply (Trail.yields_orLeave (yields_silent hstill)).imp
  · intro _ u ⟨⟨hcalm, hlook⟩, hnotes⟩ htight
    rw [hnotes] at htight
    exact (ht (htight.unlocked hmarks)).still (hcalm.slots i) hlook
  · intro _ u ⟨_, _, _, _, hmark⟩ _ _ hdrained
    exact absurd (hmark hdrained) Bool.noConfusion

theorem tsAppendBatchI64_takes (ho : OnStream s.st h i) (hp : (s.st.slotAt i).Packed cfg) (hne : xs ≠ [])
    (hprep : Prepared cfg xs (s.st.stream i)) : Yields (Trail.tsAppendBatchI64 cfg h xs) s
      (fun _ t => t.notes.Tight → Gains cfg xs (s.st.stream i) (t.st.stream i))
      fun _ t => t.notes.Tight → .uncounted ∉ t.notes.marks →
        ∃ k < xs.length, Takes cfg (xs.take k) (s.st.stream i) (t.st.stream i) := by
  obtain ⟨name, hh, _⟩ := ho.slot
  have hemp : ¬ xs.isEmpty = true := by simpa using hne
  unfold Trail.tsAppendBatchI64
  apply yields_get_bind
  rw [hh]
  dsimp only
  rw [if_neg hemp]
  apply ho.finds ?_ hh
  have hlocked := @yields_underLock cfg h i s Status Unit (Trail.appendRecords cfg xs) ho
    (fun _ t marks => (∀ k ∈ marks, k.loosens = false) → Gains cfg xs (s.st.stream i) t)
    (fun _ t marks => (∀ k ∈ marks, k.loosens = false) → Mark.uncounted ∉ marks →
      ∃ k < xs.length, Takes cfg (xs.take k) (s.st.stream i) t)
    fun notes => batch_takes xs hprep hp
  refine yields_bind (hlocked.imp (fun _ _ h => h) ?_) ?_
  · intro _ t ⟨marks, hmarks, ht⟩ htight hcounted
    rw [hmarks] at hcounted
    exact ht (htight.unlocked hmarks) (unlocked_none hcounted)
  intro _ t ⟨marks, hmarks, ht⟩
  have hgains : t.notes.Tight → Gains cfg xs (s.st.stream i) (t.st.stream i) := by
    intro htight
    exact ht (htight.unlocked hmarks)
  apply yields_get_bind
  split
  · have hcalm : App.Calm cfg t.st (post (tsFlushAsync cfg h) t.st) := calm_tsFlushAsync h t.st
    have hlook := @fixes_look_tsFlushAsync cfg h t.st
    apply yields_then (run_silent_attempt _ t)
    apply yields_pure
    intro htight
    exact (hgains htight).still (hcalm.slots i) hlook
  · exact yields_pure hgains

end Calls

def Denies {σ α : Type} (m : EStateM Status σ α) : Prop := ∀ s, Yields m s (fun _ _ => True) fun r _ => r ≠ .OK

section Answers
variable {cfg : Cfg} {h : Nat} {a : App} {σ α β : Type}

theorem denies_bind {m : EStateM Status σ α} {f : α → EStateM Status σ β} (hm : Denies m) (hf : ∀ x, Denies (f x)) :
    Denies (m >>= f) := by
  intro s
  apply yields_bind (hm s)
  intro x t _
  exact hf x t

theorem denies_throw {r : Status} (hr : r ≠ .OK) : Denies (throw r : EStateM Status σ α) := fun _ => hr

theorem denies_guard {c : Prop} [Decidable c] {r : Status} (hr : r ≠ .OK) {g : PUnit → EStateM Status σ α}
    (hg : Denies (g .unit)) : Denies (if c then throw r >>= g else g .unit) := by
  intro s
  exact yields_guard (fun _ => hr) fun _ => hg s

theorem denies_toStatus (m : EStateM Errno σ α) : Denies (toStatus m) := by
  intro s
  apply yields_adaptExcept
  exact (yields_any m s).imp (fun _ _ _ => trivial) fun err _ _ => statusFromErrno_ne_ok err

theorem denies_total {m : EStateM Status σ α} (hm : Total m) : Denies m := by
  intro s
  obtain ⟨x, hrun⟩ := hm s
  exact yields_of_run hrun trivial

theorem denies_onSlot {m : SlotM Status α} (hm : Denies m) (i : Nat) : Denies (onSlot i m) := fun _ => yields_zoom (hm _)

theorem denies_tsCtxGetOrAlloc {onNull : Status} (hr : onNull ≠ .OK) : Denies (tsCtxGetOrAlloc cfg onNull) := by
  apply denies_bind (denies_total total_get)
  intro a
  apply denies_guard hr
  cases a.tsCtx with
  | some ctx => exact denies_total (total_pure _)
  | none =>
    apply denies_bind
    · intro a
      apply yields_zoom
      apply yields_adaptExcept
      exact (yields_any call a.env).imp (fun _ _ _ => trivial) fun _ _ _ => hr
    · intro _
      exact denies_total (total_modify _)

theorem denies_tsFlushAsync (h : Nat) : Denies (tsFlushAsync cfg h) := by
  apply denies_bind (denies_total total_get)
  intro a
  apply denies_guard (by decide)
  apply denies_bind (denies_tsCtxGetOrAlloc (by decide))
  intro _
  apply denies_bind (denies_total total_get)
  intro b
  apply denies_guard (by decide)
  apply denies_bind (denies_total (total_modify _))
  intro _
  apply denies_bind
  · intro a
    exact yields_zoom (denies_total (total_attempt call) a.env)
  intro r
  cases r with
  | ok _ => exact denies_total (total_pure _)
  | error err => exact denies_bind (denies_total (total_modify _)) fun _ => denies_throw (statusFromErrno_ne_ok err)

theorem denies_appendFlush (h i recSize : Nat) : Denies (appendFlush cfg h i recSize) := by
  apply denies_bind (denies_total total_get)
  intro a
  dsimp only
  split
  · intro b
    apply yields_bind (yields_attempt (denies_tsFlushAsync h b))
    intro r t hr
    split
    · exact trivial
    · exact trivial
    · exact hr
  · exact denies_total (total_pure _)

theorem denies_rebaseRecord (sample : Sample) : Denies (rebaseRecord cfg sample) := by
  unfold rebaseRecord
  apply denies_guard (by decide)
  apply denies_bind (denies_toStatus _)
  intro _
  apply denies_bind (denies_toStatus _)
  intro _
  apply denies_bind (denies_total total_get)
  intro s
  cases slotEncode cfg s.slot sample with
  | none => exact denies_throw nofun
  | some raw => exact denies_bind (denies_total (total_modify _)) fun _ => denies_total (total_pure _)

theorem denies_appendRecord (sample : Sample) : Denies (appendRecord cfg sample) := by
  have hencode : ∀ recSize, Denies (encodeRecord cfg sample recSize) := by
    intro recSize
    apply denies_bind (denies_total total_get)
    intro s
    cases slotEncode cfg s.slot sample with
    | none => exact denies_rebaseRecord sample
    | some raw => exact denies_bind (denies_total (total_modify _)) fun _ => denies_total (total_pure _)
  apply denies_bind (denies_total total_get)
  intro s
  apply denies_guard (by decide)
  dsimp only
  split
  · apply denies_bind (denies_toStatus _)
    intro _
    exact hencode _
  · exact hencode _

theorem denies_appendRecords (samples : List Sample) : Denies (appendRecords cfg samples) := by
  induction samples with
  | nil => exact denies_total (total_pure _)
  | cons sample rest ih => exact denies_bind (denies_appendRecord sample) fun _ => ih

theorem atStream_answers {m : Nat → AppM Status Unit} (hm : ∀ i, Denies (m i)) :
    Yields (atStream cfg h m) a (fun _ _ => ∃ i, OnStream a h i) fun r _ => r ≠ .OK := by
  apply yields_get_bind
  cases hh : a.handles h with
  | none => exact yields_throw nofun
  | some name =>
    dsimp only
    cases hset : a.cfgSet with
    | false => exact yields_fails (run_tsCtxGetOrAlloc_down hset _) (by decide)
    | true =>
      have hctx := (denies_tsCtxGetOrAlloc (by decide) a).and ((@settles_tsCtxGetOrAlloc cfg .ERR_INVAL).yields a)
      apply yields_bind (hctx.imp (fun _ _ h => h) fun _ _ h => h.1)
      intro _ b ⟨_, hb⟩
      apply yields_get_bind
      cases hfind : b.slotFind name with
      | none => exact yields_throw (by decide)
      | some i =>
        apply (hm i b).imp
        · intro _ _ _
          rw [slotFind_of_claims (claims_of_held hb.held)] at hfind
          exact ⟨i, hset, name, hh, hfind⟩
        · intro _ _ hr
          exact hr

theorem append_answers (sample : Sample) :
    Yields (tsAppendI64 cfg h sample) a (fun _ _ => ∃ i, OnStream a h i) fun r _ => r ≠ .OK := by
  rw [tsAppendI64_atStream]
  apply atStream_answers
  intro i
  apply denies_bind (denies_onSlot (denies_appendRecord sample) i)
  intro recSize
  exact denies_appendFlush h i recSize

theorem batch_answers (samples : List Sample) :
    Yields (tsAppendBatchI64 cfg h samples) a (fun _ _ => samples ≠ [] ∧ ∃ i, OnStream a h i)
      fun r b => r ≠ .OK ∧ (samples = [] → b = a) := by
  by_cases hne : samples = []
  · subst hne
    apply yields_get_bind
    cases a.handles h with
    | none => exact yields_throw ⟨by decide, fun _ => rfl⟩
    | some name => exact yields_fails rfl ⟨by decide, fun _ => rfl⟩
  · rw [tsAppendBatchI64_atStream cfg h hne]
    have hflush : ∀ i, Denies (batchFlush cfg h i) := by
      intro i
      apply denies_bind (denies_total total_get)
      intro a
      dsimp only
      split
      · apply denies_bind (denies_total (total_attempt _))
        intro _
        exact denies_total (total_pure _)
      · exact denies_total (total_pure _)
    apply (atStream_answers (a := a) fun i => denies_bind (denies_onSlot (denies_appendRecords samples) i) fun _ => hflush i).imp
    · intro _ _ ho
      exact ⟨hne, ho⟩
    · intro _ _ hr
      exact ⟨hr, fun hnil => absurd hnil hne⟩

end Answers

namespace Host

/-- An append is told as a success where the sample has gone in, once and behind the others, and as a failure
where nothing has. -/
structure AppendTruthful (cfg : Cfg) (h : Nat) (sample : Sample) (a : App) (r : Course) : Prop where
  accepted : r.status = .OK → ∃ i, OnStream a h i ∧ Takes cfg [sample] (a.stream i) (r.host.app.stream i) ∧
    ((r.host.app.slotAt i).buffered cfg).getLast? = some sample
  refused : r.status ≠ .OK → ∀ i, OnStream a h i → Takes cfg [] (a.stream i) (r.host.app.stream i)

/-- A batch is told as a success where all of it has gone in, and as a failure where some of its first samples
have, once each, and no others. -/
structure BatchTruthful (cfg : Cfg) (h : Nat) (samples : List Sample) (a : App) (r : Course) : Prop where
  accepted : r.status = .OK → ∃ i, OnStream a h i ∧ Takes cfg samples (a.stream i) (r.host.app.stream i) ∧
    ((r.host.app.slotAt i).buffered cfg).getLast? = samples.getLast?
  refused : r.status ≠ .OK → ∀ i, OnStream a h i →
    ∃ k, (samples ≠ [] → k < samples.length) ∧ Takes cfg (samples.take k) (a.stream i) (r.host.app.stream i)

def Truthful (cfg : Cfg) (cap : AggCap) (w : Host) (call : HostCall) : Prop :=
  match call with
  | .op (.append h sample) => AppendTruthful cfg h sample w.app (w.step cfg cap call)
  | .op (.batch h samples) => BatchTruthful cfg h samples w.app (w.step cfg cap call)
  | _ => True

/-- The stream of an append is prepared for it; then no record is counted at another size, no format takes
effect over records of another, no flush fails with bytes written, and the drain that an append may ask for is
not refused. -/
def Sure (cfg : Cfg) (cap : AggCap) (w : Host) (call : HostCall) : Prop :=
  match call with
  | .op (.append h sample) => (∀ i, OnStream w.app h i → Prepared cfg [sample] (w.app.stream i)) ∧
      w.Neat cfg cap call ∧ .uncounted ∉ (w.step cfg cap call).marks ∧ .undrained ∉ (w.step cfg cap call).marks
  | .op (.batch h samples) => (∀ i, OnStream w.app h i → Prepared cfg samples (w.app.stream i)) ∧
      w.Neat cfg cap call ∧ .uncounted ∉ (w.step cfg cap call).marks
  | _ => True

section Status
variable {cfg : Cfg} {cap : AggCap} {w : Host} {α : Type}

theorem call_told {m : Trail.TrailM App Status α} {P : α → Noted App Trail → Prop} {E : Status → Noted App Trail → Prop}
    (h : Yields m ⟨w.app, ⟨[], []⟩⟩ P fun r t => r ≠ .OK ∧ E r t) :
    ((w.call m).status = .OK → ∃ x, P x (post m ⟨w.app, ⟨[], []⟩⟩)) ∧
      ((w.call m).status ≠ .OK → ∃ r, E r (post m ⟨w.app, ⟨[], []⟩⟩)) := by
  unfold Host.call
  cases hr : m.run ⟨w.app, ⟨[], []⟩⟩ with
  | ok x t =>
    have hp := h.run_ok hr
    rw [post_of_run hr, outcome_of_run hr]
    exact ⟨fun _ => ⟨x, hp⟩, fun hno => absurd rfl hno⟩
  | error r t =>
    obtain ⟨hne, he⟩ := h.run_error hr
    rw [post_of_error hr, outcome_of_error hr]
    exact ⟨fun hok => absurd hok hne, fun _ => ⟨r, he⟩⟩

theorem append_truthful (hw : w.app.Packed cfg) {h : Nat} {sample : Sample}
    (hsure : w.Sure cfg cap (.op (.append h sample))) :
    AppendTruthful cfg h sample w.app (w.step cfg cap (.op (.append h sample))) := by
  obtain ⟨hprep, hneat, hcounted, hdrained⟩ := hsure
  have hanswers := yields_of_carries (s := ⟨w.app, ⟨[], []⟩⟩) (@Trail.plain_tsAppendI64 cfg h sample) (append_answers sample)
  constructor
  · intro hok
    obtain ⟨_, i, ho⟩ := (call_told (hanswers.imp (fun _ _ h => h) fun _ _ h => ⟨h, trivial⟩)).1 hok
    obtain ⟨_, _, hgains⟩ := (call_told (hanswers.and (tsAppendI64_takes ho (hw i) (hprep i ho)))).1 hok
    have hadded := hgains hneat
    exact ⟨i, ho, hadded.takes, hadded.last sample rfl⟩
  · intro hno i ho
    obtain ⟨_, htakes⟩ := (call_told (hanswers.and (tsAppendI64_takes ho (hw i) (hprep i ho)))).2 hno
    exact htakes hneat hcounted hdrained

theorem batch_truthful (hw : w.app.Packed cfg) {h : Nat} {samples : List Sample}
    (hsure : w.Sure cfg cap (.op (.batch h samples))) :
    BatchTruthful cfg h samples w.app (w.step cfg cap (.op (.batch h samples))) := by
  obtain ⟨hprep, hneat, hcounted⟩ := hsure
  have hanswers := yields_of_carries (s := ⟨w.app, ⟨[], []⟩⟩) (@Trail.plain_tsAppendBatchI64 cfg h samples)
    (batch_answers samples)
  constructor
  · intro hok
    obtain ⟨_, hne, i, ho⟩ := (call_told hanswers).1 hok
    have htakes := hanswers.and (tsAppendBatchI64_takes ho (hw i) hne (hprep i ho))
    obtain ⟨_, _, hgains⟩ := (call_told (htakes.imp (fun _ _ h => h) fun _ _ h => ⟨h.1.1, trivial⟩)).1 hok
    have hadded := hgains hneat
    refine ⟨i, ho, hadded.takes, ?_⟩
    rw [List.getLast?_eq_some_getLast hne]
    exact hadded.last _ (List.getLast?_eq_some_getLast hne)
  · intro hno i ho
    by_cases hne : samples = []
    · obtain ⟨_, hsame⟩ := (call_told hanswers).2 hno
      have hstill : (w.step cfg cap (.op (.batch h samples))).host.app = w.app := hsame hne
      refine ⟨0, fun h => absurd hne h, ?_⟩
      rw [hstill]
      exact Takes.refl _
    · have htakes := hanswers.and (tsAppendBatchI64_takes ho (hw i) hne (hprep i ho))
      obtain ⟨_, hfront⟩ := (call_told (htakes.imp (fun _ _ h => h) fun _ _ h => ⟨h.1.1, h.2⟩)).2 hno
      obtain ⟨k, hk, htaken⟩ := hfront hneat hcounted
      exact ⟨k, fun _ => hk, htaken⟩

/-- In a run that leaves the buffers packed, an append and a batch are told for what they come to. -/
theorem status_truthful {env : Sys} {calls : List HostCall} {call : HostCall}
    (h : Steps (Guarded (Neat cfg cap) (Moves cfg cap)) (boot env) calls w) (hsure : w.Sure cfg cap call) :
    w.Truthful cfg cap call := by
  have hw := buffers_packed h
  cases call with
  | op op =>
    cases op with
    | append h sample => exact append_truthful hw hsure
    | batch h samples => exact batch_truthful hw hsure
    | _ => trivial
  | _ => trivial

end Status

/-- Five times two samples fill the buffer of stream `A`. -/
def filledRun : List HostCall :=
  [.op (.open 0 [65]), .op (.batch 0 ((List.range 10).map fun n => ⟨UInt64.ofNat n, 7⟩))]

theorem aligned_of_only {cfg : Cfg} {s : SlotSt} (hs : cfg.segmented = true) (hscan : s.slot.segsScanned = true)
    (hkeys : s.env.files.keys = [segmentPath cfg s.slot.name s.slot.curSeg]) {n : Nat}
    (hversion : field (s.env.contents (segmentPath cfg s.slot.name s.slot.curSeg)) 4 2 ≠ STREAM_VERSION_V2)
    (hlen : (s.env.contents (segmentPath cfg s.slot.name s.slot.curSeg)).length = hdrSizeV1 + n * recSizeV1)
    (hspeaks : slotRecSize cfg s.slot = recSizeV1 ∧ slotVersion cfg s.slot = STREAM_VERSION ∧ slotBaseTs cfg s.slot = 0) :
    Aligned cfg s := by
  obtain ⟨bs, hlook⟩ : ∃ bs, s.env.look (segmentPath cfg s.slot.name s.slot.curSeg) = some bs := by
    apply Option.ne_none_iff_exists'.mp
    rw [← Env.lookup_eq, ne_eq, AList.lookup_eq_none, AList.mem_keys, hkeys]
    exact not_not.mpr (List.mem_singleton.mpr rfl)
  rw [Env.contents_eq, hlook, Option.getD_some] at hversion hlen
  have hl : layoutOf bs = .ok FileLayout.v1 := by
    have hlong : hdrSizeV1 ≤ bs.length := by omega
    have hfront := layoutOf_front [] hlong
    rwa [List.append_nil, if_pos hversion] at hfront
  refine ⟨fun _ => hscan, ?_, ⟨bs, ?_, .v1, n, ⟨hspeaks.1, hspeaks.2.1, hspeaks.2.2⟩, hl, hlen⟩, ?_⟩
  · intro hs'
    rw [hs] at hs'
    cases hs'
  · rw [segFile, if_pos hs, hlook]
  · intro _ k hk
    have hno : segmentPath cfg s.slot.name k ∉ s.env.files := by
      rw [AList.mem_keys, hkeys, List.mem_singleton]
      intro heq
      have hsame := segmentPath_injective heq
      omega
    rw [← Env.lookup_eq, segFile, if_pos hs, AList.lookup_eq_none]
    exact hno

/-- The eleventh sends them out, which makes the segment full, and is the only one in the buffer behind it. -/
theorem rolled_append_truthful : ∃ w, Steps (Guarded (Neat (Cfg.small true false true 64) ⟨1, by decide⟩)
    (Moves (Cfg.small true false true 64) ⟨1, by decide⟩)) (boot (Sys.blank fun _ => false)) filledRun w ∧
      (w.app.slotAt 0).curSeg = 0 ∧
      ((w.step (Cfg.small true false true 64) ⟨1, by decide⟩ (.op (.append 0 ⟨10, 7⟩))).host.app.slotAt 0).curSeg = 1 ∧
      w.Truthful (Cfg.small true false true 64) ⟨1, by decide⟩ (.op (.append 0 ⟨10, 7⟩)) := by
  have hrun : ∃ w, Steps (Guarded (Neat (Cfg.small true false true 64) ⟨1, by decide⟩)
      (Moves (Cfg.small true false true 64) ⟨1, by decide⟩)) (boot (Sys.blank fun _ => false)) filledRun w ∧
        (w.app.slotAt 0).curSeg = 0 ∧
        ((w.step (Cfg.small true false true 64) ⟨1, by decide⟩ (.op (.append 0 ⟨10, 7⟩))).host.app.slotAt 0).curSeg = 1 ∧
        (w.app.handles 0).bind w.app.slotFind = some 0 ∧ (w.app.slotAt 0).segsScanned = true ∧
        w.app.env.files.keys = [segmentPath (Cfg.small true false true 64) (w.app.slotAt 0).name (w.app.slotAt 0).curSeg] ∧
        field (w.app.env.contents (segmentPath (Cfg.small true false true 64) (w.app.slotAt 0).name
          (w.app.slotAt 0).curSeg)) 4 2 ≠ STREAM_VERSION_V2 ∧
        (w.app.env.contents (segmentPath (Cfg.small true false true 64) (w.app.slotAt 0).name
          (w.app.slotAt 0).curSeg)).length = hdrSizeV1 + 8 * recSizeV1 ∧
        (slotRecSize (Cfg.small true false true 64) (w.app.slotAt 0) = recSizeV1 ∧
          slotVersion (Cfg.small true false true 64) (w.app.slotAt 0) = STREAM_VERSION ∧
          slotBaseTs (Cfg.small true false true 64) (w.app.slotAt 0) = 0) ∧
        w.Neat (Cfg.small true false true 64) ⟨1, by decide⟩ (.op (.append 0 ⟨10, 7⟩)) ∧
        Mark.uncounted ∉ (w.step (Cfg.small true false true 64) ⟨1, by decide⟩ (.op (.append 0 ⟨10, 7⟩))).marks ∧
        Mark.undrained ∉ (w.step (Cfg.small true false true 64) ⟨1, by decide⟩ (.op (.append 0 ⟨10, 7⟩))).marks := by
    refine ⟨_, .cons ⟨?_, rfl⟩ (.single ⟨?_, rfl⟩), ?_, ?_, ?_, ?_, ?_, ?_, ?_, ?_, ?_, ?_, ?_⟩
    all_goals decide +kernel
  obtain ⟨w, h, hold, hnew, hhandle, hscan, hkeys, hversion, hlen, hspeaks, hmarks⟩ := hrun
  refine ⟨w, h, hold, hnew, status_truthful h ⟨?_, hmarks⟩⟩
  intro i ho
  obtain ⟨name, hname, hfind⟩ := ho.slot
  obtain rfl : i = 0 := by
    rw [hname] at hhandle
    exact Option.some.inj (hfind.symm.trans hhandle)
  exact .inl (.inl (aligned_of_only rfl hscan hkeys hversion hlen hspeaks))

/-- The second sample fills the buffer, and the work queue refuses the drain. -/
theorem filled_append_refused : ∃ w, Steps (Moves (Cfg.small false false true 64) ⟨1, by decide⟩)
    (boot (Sys.blank fun n => 15 ≤ n)) [.op (.open 0 [65]), .op (.append 0 ⟨1, 2⟩)] w ∧
      (w.step (Cfg.small false false true 64) ⟨1, by decide⟩ (.op (.append 0 ⟨3, 4⟩))).status = Status.ERR_IO ∧
      (w.app.stream 0).samples (Cfg.small false false true 64) 0 = [⟨1, 2⟩] ∧
      ((w.step (Cfg.small false false true 64) ⟨1, by decide⟩ (.op (.append 0 ⟨3, 4⟩))).host.app.stream 0).samples
        (Cfg.small false false true 64) 0 = [⟨1, 2⟩, ⟨3, 4⟩] ∧
      ¬ w.Truthful (Cfg.small false false true 64) ⟨1, by decide⟩ (.op (.append 0 ⟨3, 4⟩)) := by
  have hrun : ∃ w, Steps (Moves (Cfg.small false false true 64) ⟨1, by decide⟩)
      (boot (Sys.blank fun n => 15 ≤ n)) [.op (.open 0 [65]), .op (.append 0 ⟨1, 2⟩)] w ∧
        (w.step (Cfg.small false false true 64) ⟨1, by decide⟩ (.op (.append 0 ⟨3, 4⟩))).status = Status.ERR_IO ∧
        (w.app.stream 0).samples (Cfg.small false false true 64) 0 = [⟨1, 2⟩] ∧
        ((w.step (Cfg.small false false true 64) ⟨1, by decide⟩ (.op (.append 0 ⟨3, 4⟩))).host.app.stream 0).samples
          (Cfg.small false false true 64) 0 = [⟨1, 2⟩, ⟨3, 4⟩] ∧
        w.app.cfgSet = true ∧ w.app.handles 0 = some [65] ∧ w.app.slotFind [65] = some 0 ∧
        ((w.step (Cfg.small false false true 64) ⟨1, by decide⟩ (.op (.append 0 ⟨3, 4⟩))).host.app.slotAt 0).oldestSeg = 0 := by
    refine ⟨_, .cons rfl (.single rfl), ?_, ?_, ?_, ?_, ?_, ?_, ?_⟩
    all_goals decide +kernel
  obtain ⟨w, h, hstatus, hbefore, hafter, hset, hname, hfind, hoff⟩ := hrun
  refine ⟨w, h, hstatus, hbefore, hafter, ?_⟩
  intro htruth
  have htakes := htruth.refused (by rw [hstatus]; decide) 0 ⟨hset, [65], hname, hfind⟩
  have hkept := htakes.kept 0 hoff.le (Nat.zero_le _)
  rw [hbefore, hafter] at hkept
  exact absurd hkept (by decide)

end Host

end ZephyrDB.Ts
