import ZephyrDB.Ts.Opening

/-!
Appending samples and writing buffers out, against the store.
-/

set_option autoImplicit false

namespace ZephyrDB.Ts

open Lib

section Ingest
variable {cfg : Cfg} {N U : Bytes → Prop} {a : App} {A : Store}

def SlotsKept (a b : App) : Prop := ∀ i, b.slotAt i = a.slotAt i

theorem slotsKept_chains : Chains SlotsKept where
  refl _ _ := rfl
  trans h k i := (k i).trans (h i)

theorem slotsKept_tsCtxGetOrAlloc (onNull : Status) (a : App) :
    Keeps SlotsKept (tsCtxGetOrAlloc cfg onNull) a := by
  have hR := slotsKept_chains
  apply keeps_get_bind
  dsimp only
  split
  · apply keeps_bind hR (keeps_throw hR _ a)
    intro _ _ h
    exact by cases h
  · split
    · exact keeps_pure hR _ a
    · rename_i hctx
      have hcall : Keeps (fun a b => SlotsKept a b ∧ b.tsCtx = a.tsCtx) (onEnv (orFail onNull call)) a := by
        unfold Keeps onEnv
        rw [post_zoom]
        exact ⟨fun _ => rfl, rfl⟩
      apply keeps_bind hR hcall.1
      intro _ t ht
      have hnone : t.tsCtx = none := by
        have := hcall.2
        rwa [post_of_run ht, hctx] at this
      intro i
      rw [slotAt_zero hnone]
      show App.slotAt { t with tsCtx := _ } i = _
      by_cases hi : i < cfg.maxStreams <;> simp [App.slotAt, List.getD, hi]

theorem slotsKept_setPending (b : Bool) (a : App) : SlotsKept a (a.setPending b) := by
  intro i
  cases h : a.tsCtx <;> simp [App.slotAt, App.setPending, h]

theorem slotsKept_tsFlushAsync (h : Nat) (a : App) : Keeps SlotsKept (tsFlushAsync cfg h) a := by
  have hR := slotsKept_chains
  apply keeps_get_bind
  dsimp only
  split
  · apply keeps_bind hR (keeps_throw hR _ a)
    intro _ _ h
    exact by cases h
  · apply keeps_bind hR (slotsKept_tsCtxGetOrAlloc _ a)
    intro _ t _
    apply keeps_get_bind
    split
    · apply keeps_bind hR (keeps_throw hR _ t)
      intro _ _ h
      exact by cases h
    · refine keeps_bind hR (slotsKept_setPending true t) fun _ u _ => ?_
      refine keeps_bind hR (m := onEnv (attempt call)) ?_ fun r v _ => ?_
      · unfold Keeps onEnv
        rw [post_zoom]
        exact fun _ => rfl
      · split
        · exact keeps_pure hR _ v
        · exact keeps_bind hR (slotsKept_setPending false v) fun _ w _ => keeps_throw hR _ w

theorem slotsKept_appendFlush (h i recSize : Nat) (a : App) :
    Keeps SlotsKept (appendFlush cfg h i recSize) a := by
  have hR := slotsKept_chains
  apply keeps_get_bind
  dsimp only
  split
  · apply keeps_bind hR (keeps_attempt (slotsKept_tsFlushAsync h a))
    intro r t _
    split
    · exact keeps_pure hR _ t
    · exact keeps_pure hR _ t
    · exact keeps_throw hR _ t
  · exact keeps_pure hR _ a

/-- A slot program that is followed by one that leaves the slots alone, and ends below the bound,
has succeeded. -/
theorem ends_below {ε α β : Type} {m : SlotM ε α} {f : α → AppM ε β} {i : Nat}
    {Q : α → SlotSt → Prop} (hin : (a.slotAt i).inUse = true) (hends : Ends Over m ⟨a.slotAt i, a.env⟩ Q)
    (hf : ∀ x t, Keeps SlotsKept (f x) t) (hbelow : Below (post (onSlot i m >>= f) a)) :
    ∃ x t, m.run ⟨a.slotAt i, a.env⟩ = .ok x t ∧ Q x t := by
  rcases hends with h | hover
  · exact h
  · exfalso
    have hslot : ((post (onSlot i m >>= f) a).slotAt i) = (post m ⟨a.slotAt i, a.env⟩).slot := by
      have hpost : (post (onSlot i m) a).slotAt i = (post m ⟨a.slotAt i, a.env⟩).slot := by
        rw [onSlot, post_zoom]
        show App.slotAt (a.setSlot i _) i = _
        rw [slotAt_setSlot (hasSlot_of_inUse hin), if_pos rfl]
      rw [← hpost]
      unfold post
      rw [EStateM.run_bind]
      cases hm : (onSlot i m).run a with
      | ok x t => exact hf x t i
      | error r t => rfl
    apply hbelow i
    rw [hslot]
    exact hover

theorem World.setPending (hW : World cfg N U a A) (hctx : a.tsCtx.isSome) (b : Bool) :
    World cfg N U (a.setPending b) (A.setPending b) := by
  obtain ⟨ctx, hc⟩ := Option.isSome_iff_exists.mp hctx
  have hslots := slotsKept_setPending b a
  have htable : (a.setPending b).table cfg = a.table cfg := by simp [App.table, App.setPending, hc]
  have hfind : ∀ n, (a.setPending b).slotFind n = a.slotFind n := by
    intro n
    rw [slotFind_table cfg, slotFind_table cfg, htable]
  exact {
    clean := hW.clean
    running := hW.running
    table := htable.trans hW.table
    pending := by simp [App.pending, App.setPending, Store.setPending, hc]
    handles := hW.handles
    bound := hW.bound
    mine := fun i hi => by rw [hslots] at hi ⊢; exact hW.mine i hi
    rep := fun i hi => by rw [hslots] at hi ⊢; exact hW.rep i hi
    unique := fun i j hi hj hn => by
      rw [hslots] at hi hj hn
      rw [hslots] at hn
      exact hW.unique i j hi hj hn
    stored := fun n hn hf => by rw [hfind] at hf; exact hW.stored n hn hf
    informed := fun hs i hi => by rw [hslots] at hi ⊢; exact hW.informed hs i hi }

theorem setPending_self {A : Store} (h : A.pending = true) : A.setPending true = A := by
  cases A
  cases h
  rfl

theorem flushAsync_bound (hW : World cfg N U a A) {h : Nat} {name : Bytes} (hh : a.handles h = some name)
    (hrun : a.cfgSet = true) :
    Gives (tsFlushAsync cfg h) a (if A.pending then .error .ERR_BUSY else .ok ())
      fun a' => World cfg N U a' (A.setPending true) ∧ a'.tsCtx.isSome := by
  apply gives_then (run_get a)
  dsimp only
  rw [if_neg (by simp [hh, hrun])]
  obtain ⟨a₁, h₁, l₁, hctx⟩ := @tsCtxGetOrAlloc_spec cfg _ hW.clean hrun .ERR_NOMEM
  have hW₁ := hW.alike l₁
  apply gives_then h₁
  apply gives_then (run_get a₁)
  by_cases hp : A.pending = true
  · rw [if_pos (hW₁.pending.trans hp), if_pos hp, setPending_self hp]
    exact gives_fail rfl ⟨hW₁, hctx⟩
  · rw [if_neg (by rw [hW₁.pending]; exact hp), if_neg hp]
    have hW₂ := hW₁.setPending hctx true
    obtain ⟨e, h₂, l₂⟩ := call_ok hW₂.clean
    apply gives_then (run_modify _ a₁)
    apply gives_then (run_onEnv (run_attempt_ok h₂))
    apply gives_pure
    refine ⟨hW₂.alike (alike_env _ l₂), ?_⟩
    show ((a₁.setPending true).tsCtx).isSome = true
    simpa [App.setPending] using hctx

theorem flushAsync_spec (hW : World cfg N U a A) (h : Nat) :
    (step cfg a (.flushAsync h)).1 = (A.step cfg (.flushAsync h)).1 ∧
      World cfg N U (step cfg a (.flushAsync h)).2 (A.step cfg (.flushAsync h)).2 := by
  suffices hg : Gives (tsFlushAsync cfg h) a
      (if (A.flushAsync h).1 = .OK then .ok () else .error (A.flushAsync h).1)
      fun a' => World cfg N U a' (A.flushAsync h).2 by
    obtain ⟨hr, hw⟩ := exec_gives (f := fun _ => Answer.none) hg
    refine ⟨hr.trans ?_, hw⟩
    simp only [Store.step]
    cases (A.flushAsync h).1 <;> rfl
  unfold Store.flushAsync
  rw [← hW.handles, ← hW.running]
  cases hh : a.handles h with
  | none =>
    simp only [Option.isNone_none, Bool.true_or, if_true]
    apply gives_then (run_get a)
    dsimp only
    rw [if_pos (by simp [hh])]
    exact gives_fail rfl hW
  | some name =>
    by_cases hrun : a.cfgSet = true
    · have hg := flushAsync_bound hW hh hrun
      by_cases hp : A.pending = true
      · simp only [hrun, hp, Option.isNone_some, Bool.not_true, Bool.or_false, if_true, if_false,
          Bool.false_eq_true, setPending_self hp] at hg ⊢
        exact ⟨hg.1, hg.2.1⟩
      · simp only [hrun, hp, Option.isNone_some, Bool.not_true, Bool.or_false, if_false,
          Bool.false_eq_true] at hg ⊢
        exact ⟨hg.1, hg.2.1⟩
    · simp only [hrun, Option.isNone_some, Bool.false_or, Bool.not_false, if_true]
      apply gives_then (run_get a)
      dsimp only
      rw [if_pos (by simp [hrun])]
      exact gives_fail rfl hW

/-- What an append needs of the state before it: a slot that was never scanned has to be of a version
1 stream; a record of the build fits the buffer if one of the stream does; and the record size does
not change while the samples are taken in. -/
def Ingests (cfg : Cfg) (a : App) (A : Store) (h : Nat) (samples : List Sample) : Prop :=
  ∀ name i, a.handles h = some name → a.slotFind name = some i →
    (cfg.segmented = true → (a.slotAt i).segsScanned = false → (A.logs name).cur.format = .v1) ∧
    ((A.logs name).recSize ≤ cfg.ingestCapacity → Log.BuildFits cfg cfg.ingestCapacity) ∧
    Log.SteadyAll cfg (A.logs name) samples

theorem SlotRep.fluent {name : Bytes} {L : Log} {s : SlotSt} (h : SlotRep cfg name L s)
    (hv : cfg.segmented = true → s.slot.segsScanned = false → L.cur.format = .v1) :
    Fluent cfg name L s := by
  refine ⟨h, ?_⟩
  cases h.known with
  | learned hl hf => exact (Ready.mk h.clean h.named h.bound h.buffered hl hf).speaks
  | unlearned hs hu _ _ =>
    rw [hv hs hu.scanned]
    exact hu.speaks

theorem appendFlush_spec (hW : World cfg N U a A) {h i : Nat} {name : Bytes} (hh : a.handles h = some name)
    (hrun : a.cfgSet = true) (hfl : Fluent cfg name (A.logs name) ⟨a.slotAt i, a.env⟩) :
    Gives (appendFlush cfg h i (A.logs name).recSize) a (.ok ())
      fun a' => World cfg N U a' (A.nudge cfg name) := by
  have hroom : (a.slotAt i).ingestCapacity < (a.slotAt i).ingestUsed + (A.logs name).recSize ↔
      Log.noRoom cfg (A.logs name) := by
    have hb := hfl.rep.buffered
    rw [hb.capacity, hb.used, Log.noRoom, Nat.succ_mul]
  apply gives_then (run_get a)
  dsimp only
  unfold Store.nudge
  by_cases hno : Log.noRoom cfg (A.logs name)
  · rw [if_pos (hroom.mpr hno), if_pos hno]
    have hg := flushAsync_bound hW hh hrun
    refine gives_then (t := post (tsFlushAsync cfg h) a) (run_attempt _ a) ?_
    rw [hg.1]
    by_cases hp : A.pending = true
    · simp only [hp, if_true]
      exact gives_pure hg.2.1
    · simp only [hp, if_false, Bool.false_eq_true]
      exact gives_pure hg.2.1
  · rw [if_neg (fun hlt => hno (hroom.mp hlt)), if_neg hno]
    exact gives_pure hW

theorem onSlot_refused {ε α : Type} (hW : World cfg N U a A) {i : Nat} {name : Bytes}
    (hi : a.slotFind name = some i) {m : SlotM ε α} {r : ε}
    (hrun : m.run ⟨a.slotAt i, a.env⟩ = .error r ⟨a.slotAt i, a.env⟩) :
    ∃ a', (onSlot i m).run a = .error r a' ∧ World cfg N U a' A := by
  obtain ⟨hin, _⟩ := slotFind_some hi
  refine ⟨_, run_zoom_error hrun, hW.alike ⟨rfl, ?_, ?_, rfl, fun j => ?_, Leads.refl _⟩⟩
  · exact set_table_self hin rfl rfl rfl
  · exact pending_setSlot (hasSlot_of_inUse hin)
  · show App.slotAt (a.setSlot i _) j = _
    rw [slotAt_setSlot (hasSlot_of_inUse hin)]
    split
    · rw [‹j = i›]
    · rfl

/-- The calls that append, from the slot program `m` that takes the samples in and what follows it:
both refuse alike, and both report once the log has the samples. -/
theorem append_core (hF : Family cfg N) (hW : World cfg N U a A) {h : Nat} {samples : List Sample}
    (hne : samples ≠ []) (hin : Ingests cfg a A h samples) {α : Type} {m : SlotM Status α}
    {f : Nat → α → AppM Status Unit}
    (hkeep : ∀ s, Keeps (Moves cfg) m s) (hf : ∀ i x t, Keeps SlotsKept (f i x) t)
    (hends : ∀ {name : Bytes} {L : Log} {s : SlotSt}, Admissible cfg name → Fluent cfg name L s →
      L.recSize ≤ cfg.ingestCapacity → Log.BuildFits cfg cfg.ingestCapacity → Log.SteadyAll cfg L samples →
      Ends Over m s fun x t => Fluent cfg name (samples.foldl (Log.append cfg) L) t ∧
        ∀ {b : App} {B : Store} {i : Nat}, World cfg N U b B → B.logs name = samples.foldl (Log.append cfg) L →
          b.handles h = some name → b.cfgSet = true → ⟨b.slotAt i, b.env⟩ = t →
          Gives (f i x) b (.ok ()) fun b' => World cfg N U b' (B.nudge cfg name))
    (hnomem : ∀ {name : Bytes} {L : Log} {s : SlotSt}, Fluent cfg name L s →
      cfg.ingestCapacity < L.recSize → m.run s = .error .ERR_NOMEM s)
    {prog : AppM Status Unit}
    (hprog : prog = (do
      match (← get).handles h with
      | none => throw .ERR_INVAL
      | some name =>
        tsCtxGetOrAlloc cfg .ERR_INVAL
        match (← get).slotFind name with
        | none => throw .ERR_INVAL
        | some i => onSlot i m >>= f i))
    (hbelow : Below (post prog a)) :
    Gives prog a (match (A.append cfg h samples).1 with | .OK => .ok () | status => .error status)
      fun a' => World cfg N U a' (A.append cfg h samples).2 := by
  have hnil : samples.isEmpty = false := by simpa using hne
  unfold Store.append
  rw [← hW.handles, hnil, ← hW.running]
  cases hh : a.handles h with
  | none =>
    subst hprog
    apply gives_then (run_get a)
    rw [hh]
    exact gives_throw hW
  | some name =>
    have hN := hW.bound h name hh
    have hstart : ∀ {r : Except Status Unit} {Q : App → Prop}, Gives (do
        tsCtxGetOrAlloc cfg .ERR_INVAL
        match (← get).slotFind name with
        | none => throw .ERR_INVAL
        | some i => onSlot i m >>= f i : AppM Status Unit) a r Q → Gives prog a r Q := by
      intro r Q hg
      subst hprog
      apply gives_then (run_get a)
      rw [hh]
      exact hg
    apply hstart
    by_cases hrun : a.cfgSet = true
    · obtain ⟨a₁, h₁, l₁, hctx⟩ := @tsCtxGetOrAlloc_spec cfg _ hW.clean hrun .ERR_INVAL
      have hW₁ := hW.alike l₁
      have hfind := hW₁.find_eq name
      apply gives_then h₁
      apply gives_then (run_get a₁)
      cases hf' : a₁.slotFind name with
      | none =>
        rw [hf'] at hfind
        simp only [hrun, hfind, Option.isNone_none, Bool.or_true, if_true]
        exact gives_throw hW₁
      | some i =>
        rw [hf'] at hfind
        obtain ⟨hu, _⟩ := slotFind_some hf'
        obtain ⟨hv1, hfits, hsteady⟩ := hin name i hh ((l₁.slotFind name).symm.trans hf')
        have hfl : Fluent cfg name (A.logs name) ⟨a₁.slotAt i, a₁.env⟩ :=
          (hW₁.rep_find hf').fluent (by rw [l₁.slots]; exact hv1)
        simp only [hrun, hfind, Option.isNone_some, Bool.not_true, Bool.or_false, if_false,
          Bool.false_eq_true]
        by_cases hcap : cfg.ingestCapacity < (A.logs name).recSize
        · rw [if_pos hcap]
          obtain ⟨a₂, h₂, hW₂⟩ := onSlot_refused hW₁ hf' (hnomem hfl hcap)
          exact gives_fail h₂ hW₂
        · rw [if_neg hcap]
          have hcap := Nat.not_lt.mp hcap
          have hpost : post prog a = post (onSlot i m >>= f i) a₁ := by
            subst hprog
            rw [post_then (run_get a), hh]
            dsimp only
            rw [post_then h₁, post_then (run_get a₁), hf']
          obtain ⟨x, t, ht, hfl', hrest⟩ := ends_below hu
            (hends (hF.admissible name hN) hfl hcap (hfits hcap) hsteady) (hf i) (hpost ▸ hbelow)
          obtain ⟨a₂, h₂, hW₂, hslot, henv, _⟩ := hW₁.onSlot hF hf' (hkeep _) ht hfl'.rep
          refine gives_then h₂ (hrest hW₂ (by simp [Store.setLog]) ?_ ?_ (by rw [hslot, henv]))
          · rw [hW₂.handles]
            show A.handles h = _
            rw [← hW.handles, hh]
          · rw [hW₂.running]
            show A.running = true
            rw [← hW.running, hrun]
    · simp only [hrun, Bool.not_false, Bool.or_true, Bool.true_or, if_true]
      refine gives_fail (run_tsCtxGetOrAlloc_down (by simpa using hrun) _) hW

theorem append_spec (hF : Family cfg N) (hW : World cfg N U a A) {h : Nat} {sample : Sample}
    (hin : Ingests cfg a A h [sample]) (hbelow : Below (step cfg a (.append h sample)).2) :
    (step cfg a (.append h sample)).1 = (A.step cfg (.append h sample)).1 ∧
      World cfg N U (step cfg a (.append h sample)).2 (A.step cfg (.append h sample)).2 := by
  have hg := @append_core _ _ _ _ _ hF hW _ [sample] (by simp) hin _ (appendRecord cfg sample)
    (fun i recSize => appendFlush cfg h i recSize) (keeps_appendRecord cfg sample)
    (fun i x t => slotsKept_appendFlush h i x t)
    (fun hadm hfl hcap hbuild hsteady =>
      (appendRecord_spec hadm hfl hcap hbuild hsteady.1).imp fun n t ⟨hn, ht⟩ =>
        ⟨ht, fun {b B i} hW' hlog hh hrun ht' => by
          subst ht'
          rw [hn, List.foldl_cons, List.foldl_nil] at *
          rw [← hlog] at ht ⊢
          exact appendFlush_spec hW' hh hrun ht⟩)
    (fun hfl hcap => run_appendRecord_nomem hfl sample hcap) (tsAppendI64 cfg h sample) rfl hbelow
  obtain ⟨hr, hw⟩ := exec_gives (f := fun _ => Answer.none) hg
  refine ⟨hr.trans ?_, hw⟩
  simp only [Store.step]
  cases (A.append cfg h [sample]).1 <;> rfl

theorem batchFlush_spec (hW : World cfg N U a A) {h i : Nat} {name : Bytes} (hh : a.handles h = some name)
    (hrun : a.cfgSet = true) (hfl : Fluent cfg name (A.logs name) ⟨a.slotAt i, a.env⟩) :
    Gives (do
        let slot := (← get).slotAt i
        if slot.ingestCapacity < slot.ingestUsed + slotRecSize cfg slot then
          let _ ← attempt (ε := Status) (tsFlushAsync cfg h) : AppM Status Unit) a (.ok ())
      fun a' => World cfg N U a' (A.nudge cfg name) := by
  have hroom : (a.slotAt i).ingestCapacity < (a.slotAt i).ingestUsed + slotRecSize cfg (a.slotAt i) ↔
      Log.noRoom cfg (A.logs name) := by
    have hb := hfl.rep.buffered
    rw [hb.capacity, hb.used, hfl.speaks.recSize, Log.noRoom, Nat.succ_mul]
    rfl
  apply gives_then (run_get a)
  dsimp only
  unfold Store.nudge
  by_cases hno : Log.noRoom cfg (A.logs name)
  · rw [if_pos (hroom.mpr hno), if_pos hno]
    have hg := flushAsync_bound hW hh hrun
    exact gives_then (t := post (tsFlushAsync cfg h) a) (run_attempt _ a) (gives_pure hg.2.1)
  · rw [if_neg (fun hlt => hno (hroom.mp hlt)), if_neg hno]
    exact gives_pure hW

theorem slotsKept_batchFlush (h i : Nat) (a : App) :
    Keeps SlotsKept (do
        let slot := (← get).slotAt i
        if slot.ingestCapacity < slot.ingestUsed + slotRecSize cfg slot then
          let _ ← attempt (ε := Status) (tsFlushAsync cfg h) : AppM Status Unit) a := by
  apply keeps_get_bind
  dsimp only
  split
  · apply keeps_bind slotsKept_chains (keeps_attempt (slotsKept_tsFlushAsync h a))
    intro _ t _
    exact keeps_pure slotsKept_chains _ t
  · exact keeps_pure slotsKept_chains _ a

theorem run_appendRecords_nomem {name : Bytes} {L : Log} {s : SlotSt} (h : Fluent cfg name L s)
    {samples : List Sample} (hne : samples ≠ []) (hcap : cfg.ingestCapacity < L.recSize) :
    (appendRecords cfg samples).run s = .error .ERR_NOMEM s := by
  obtain ⟨sample, rest, rfl⟩ := List.exists_cons_of_ne_nil hne
  rw [appendRecords, EStateM.run_bind, run_appendRecord_nomem h sample hcap]

theorem batch_spec (hF : Family cfg N) (hW : World cfg N U a A) {h : Nat} {samples : List Sample}
    (hin : Ingests cfg a A h samples) (hbelow : Below (step cfg a (.batch h samples)).2) :
    (step cfg a (.batch h samples)).1 = (A.step cfg (.batch h samples)).1 ∧
      World cfg N U (step cfg a (.batch h samples)).2 (A.step cfg (.batch h samples)).2 := by
  suffices hg : Gives (tsAppendBatchI64 cfg h samples) a
      (match (A.append cfg h samples).1 with | .OK => .ok () | status => .error status)
      fun a' => World cfg N U a' (A.append cfg h samples).2 by
    obtain ⟨hr, hw⟩ := exec_gives (f := fun _ => Answer.none) hg
    refine ⟨hr.trans ?_, hw⟩
    simp only [Store.step]
    cases (A.append cfg h samples).1 <;> rfl
  by_cases hne : samples = []
  · subst hne
    have hrefused : A.append cfg h [] = (.ERR_INVAL, A) := by
      unfold Store.append
      cases A.handles h <;> simp
    rw [hrefused]
    apply gives_then (run_get a)
    cases a.handles h with
    | none => exact gives_throw hW
    | some name => exact gives_fail rfl hW
  · refine append_core hF hW hne hin (m := appendRecords cfg samples)
      (f := fun i _ => do
        let slot := (← get).slotAt i
        if slot.ingestCapacity < slot.ingestUsed + slotRecSize cfg slot then
          let _ ← attempt (ε := Status) (tsFlushAsync cfg h))
      (keeps_appendRecords cfg samples) (fun i _ t => slotsKept_batchFlush h i t)
      (fun hadm hfl hcap hbuild hsteady =>
        (appendRecords_spec hadm hbuild samples _ _ hfl hcap hsteady).imp fun _ t ht =>
          ⟨ht, fun {b B i} hW' hlog hh hrun ht' => by
            subst ht'
            rw [← hlog] at ht
            exact batchFlush_spec hW' hh hrun ht⟩)
      (fun hfl hcap => run_appendRecords_nomem hfl hne hcap) ?_ hbelow
    have hnil : samples.isEmpty = false := by simpa using hne
    unfold tsAppendBatchI64
    rw [hnil]
    rfl

theorem over_onSlot {ε α : Type} {m : SlotM ε α} {i j : Nat} (hi : (a.slotAt i).inUse = true)
    (hkeep : Keeps (Moves cfg) m ⟨a.slotAt i, a.env⟩) (ho : Over ⟨a.slotAt j, a.env⟩) :
    Over ⟨(post (onSlot i m) a).slotAt j, (post (onSlot i m) a).env⟩ := by
  rw [onSlot, post_zoom]
  show Over ⟨App.slotAt (a.setSlot i _) j, _⟩
  rw [slotAt_setSlot (hasSlot_of_inUse hi)]
  split
  · rename_i hj
    subst hj
    exact over_of_keeps hkeep ho
  · exact ho

theorem over_flushSlot {i j : Nat} (ho : Over ⟨a.slotAt j, a.env⟩) :
    Over ⟨(post (flushSlot cfg i) a).slotAt j, (post (flushSlot cfg i) a).env⟩ := by
  rw [flushSlot, post_then (run_get a)]
  dsimp only
  split
  · rename_i h
    simp only [Bool.and_eq_true] at h
    rw [post_then (run_attempt _ a)]
    exact over_onSlot h.1 (keeps_flushBufferLocked cfg _) ho
  · exact ho

theorem run_flushSlot (cfg : Cfg) (i : Nat) (a : App) :
    (flushSlot cfg i).run a = .ok () (post (flushSlot cfg i) a) := by
  have hok : ∃ t, (flushSlot cfg i).run a = .ok () t := by
    by_cases h : ((a.slotAt i).inUse && (a.slotAt i).ingestUsed != 0) = true
    · refine ⟨post (onSlot i (flushBufferLocked cfg)) a, run_then (run_get a) ?_⟩
      dsimp only
      rw [if_pos h]
      exact run_then (run_attempt _ a) rfl
    · refine ⟨a, run_then (run_get a) ?_⟩
      dsimp only
      rw [if_neg h]
      rfl
  obtain ⟨t, ht⟩ := hok
  rw [ht, post_of_run ht]

theorem run_flushSlots (cfg : Cfg) (is : List Nat) (a : App) :
    (flushSlots cfg is).run a = .ok () (post (flushSlots cfg is) a) := by
  induction is generalizing a with
  | nil => rfl
  | cons i is ih =>
    rw [flushSlots, post_then (run_flushSlot cfg i a)]
    exact run_then (run_flushSlot cfg i a) (ih _)

theorem run_flushAllLocked (cfg : Cfg) (a : App) :
    (flushAllLocked cfg).run a = .ok () (post (flushAllLocked cfg) a) := by
  rw [flushAllLocked, post_then (run_get a)]
  exact run_then (run_get a) (run_flushSlots cfg _ a)

theorem over_flushSlots {j : Nat} (is : List Nat) (ho : Over ⟨a.slotAt j, a.env⟩) :
    Over ⟨(post (flushSlots cfg is) a).slotAt j, (post (flushSlots cfg is) a).env⟩ := by
  induction is generalizing a with
  | nil => exact ho
  | cons i is ih =>
    rw [flushSlots, post_then (run_flushSlot cfg i a)]
    exact ih (over_flushSlot ho)

theorem flushSlot_spec (hF : Family cfg N) (hW : World cfg N U a A) (i : Nat)
    (hbelow : ¬ Over ⟨(post (flushSlot cfg i) a).slotAt i, (post (flushSlot cfg i) a).env⟩) :
    World cfg N U (post (flushSlot cfg i) a) (A.drainSlot cfg i) := by
  have hkey : A.table.getD i none = slotKey (a.slotAt i) := by rw [← hW.table, table_getD]
  unfold Store.drainSlot
  rw [hkey]
  unfold slotKey
  rw [flushSlot, post_then (run_get a)] at hbelow ⊢
  dsimp only at hbelow ⊢
  by_cases hin : (a.slotAt i).inUse = true
  · have hi := hW.slotFind_eq hin
    have hN := hW.mine i hin
    have hrep := hW.rep i hin
    rw [if_pos hin]
    dsimp only
    by_cases hused : (a.slotAt i).ingestUsed = 0
    · rw [if_neg (by simp [hused])]
      have hnil : (A.logs (a.slotAt i).name).buf = [] := by
        have hzero := hrep.buffered.used
        rw [hused] at hzero
        have hpos := Format.recSize_pos (A.logs (a.slotAt i).name).cur.format
        have hlen : (A.logs (a.slotAt i).name).buf.length = 0 := by
          rcases Nat.mul_eq_zero.mp hzero.symm with h | h
          · exact h
          · exact absurd h (Nat.pos_iff_ne_zero.mp hpos)
        exact List.length_eq_zero_iff.mp hlen
      rw [Store.drainLog, Log.drain_of_nil cfg hnil, setLog_self]
      exact hW
    · rw [if_pos (by simp [hin, hused])] at hbelow ⊢
      rw [post_then (run_attempt _ a)] at hbelow ⊢
      rcases flushBufferLocked_spec (hF.admissible _ hN) hrep with ⟨_, t, hrun, ht⟩ | hover
      · obtain ⟨a', h₁, hW', _⟩ := hW.onSlot hF hi (keeps_flushBufferLocked cfg _) hrun ht
        rw [post_of_run h₁]
        exact hW'
      · refine absurd ?_ hbelow
        show Over ⟨(post (onSlot i (flushBufferLocked cfg)) a).slotAt i, _⟩
        rw [onSlot, post_zoom]
        show Over ⟨App.slotAt (a.setSlot i _) i, _⟩
        rw [slotAt_setSlot (hasSlot_of_inUse hin), if_pos rfl]
        exact hover
  · rw [if_neg hin, if_neg (by simp [hin])]
    exact hW

theorem flushSlots_spec (hF : Family cfg N) (is : List Nat) (a : App) (A : Store) (hW : World cfg N U a A)
    (hbelow : Below (post (flushSlots cfg is) a)) :
    ∃ a', (flushSlots cfg is).run a = .ok () a' ∧ World cfg N U a' (A.drainSlots cfg is) := by
  induction is generalizing a A with
  | nil => exact ⟨a, rfl, hW⟩
  | cons i is ih =>
    rw [flushSlots, post_then (run_flushSlot cfg i a)] at hbelow
    have hW₁ := flushSlot_spec hF hW i fun ho => hbelow i (over_flushSlots is ho)
    obtain ⟨a', h₁, hW'⟩ := ih _ _ hW₁ hbelow
    exact ⟨a', run_then (run_flushSlot cfg i a) h₁, hW'⟩

theorem drainSlots_empty {n : Nat} {A : Store} (h : A.table = List.replicate n none) (is : List Nat) :
    A.drainSlots cfg is = A := by
  induction is with
  | nil => rfl
  | cons i is ih =>
    have hnone : A.table.getD i none = none := by
      rw [h]
      by_cases hi : i < n <;> simp [List.getD, hi]
    rw [Store.drainSlots, List.foldl_cons, Store.drainSlot, hnone]
    exact ih

theorem flushAllLocked_spec (hF : Family cfg N) (hW : World cfg N U a A)
    (hbelow : Below (post (flushAllLocked cfg) a)) :
    ∃ a', (flushAllLocked cfg).run a = .ok () a' ∧ World cfg N U a' (A.drainAll cfg) := by
  rw [flushAllLocked, post_then (run_get a)] at hbelow
  unfold Store.drainAll
  cases hctx : a.tsCtx with
  | none =>
    have htable := hW.table
    rw [App.table, hctx] at htable
    refine ⟨a, run_then (run_get a) ?_, ?_⟩
    · rw [hctx]
      rfl
    · rw [drainSlots_empty htable.symm]
      exact hW
  | some ctx =>
    rw [hctx] at hbelow
    have hlen : A.table.length = ctx.streams.length := by simp [← hW.table, App.table, hctx]
    obtain ⟨a', h₁, hW'⟩ := flushSlots_spec hF _ a A hW hbelow
    refine ⟨a', run_then (run_get a) ?_, ?_⟩
    · rw [hctx]
      exact h₁
    · rw [hlen]
      exact hW'

theorem pending_flushSlots (is : List Nat) (a : App) (hctx : a.tsCtx.isSome) :
    (post (flushSlots cfg is) a).tsCtx.isSome := by
  induction is generalizing a with
  | nil => exact hctx
  | cons i is ih =>
    rw [flushSlots, post_then (run_flushSlot cfg i a)]
    apply ih _
    rw [flushSlot, post_then (run_get a)]
    dsimp only
    split
    · rw [post_then (run_attempt _ a)]
      show (post (onSlot i (flushBufferLocked cfg)) a).tsCtx.isSome = true
      rw [onSlot, post_zoom]
      simpa [App.setSlot] using hctx
    · exact hctx

theorem flushWorkHandler_spec (hF : Family cfg N) (hW : World cfg N U a A)
    (hbelow : Below (post (flushWorkHandler cfg) a)) :
    ∃ a', (flushWorkHandler cfg).run a = .ok () a' ∧
      World cfg N U a' (if A.pending then (A.drainAll cfg).setPending false else A) := by
  by_cases hp : A.pending = true
  · have hp' : a.pending = true := hW.pending.trans hp
    have hctx : a.tsCtx.isSome := by
      cases h : a.tsCtx with
      | none => simp [App.pending, h] at hp'
      | some ctx => rfl
    have hall : Below (post (flushAllLocked cfg) a) := by
      intro i ho
      rw [flushWorkHandler, post_then (run_get a), if_pos hp', post_then (run_flushAllLocked cfg a)] at hbelow
      apply hbelow i
      show Over ⟨App.slotAt (App.setPending _ false) i, _⟩
      rw [slotsKept_setPending false]
      exact ho
    obtain ⟨a₁, h₁, hW₁⟩ := flushAllLocked_spec hF hW hall
    have hctx₁ : a₁.tsCtx.isSome := by
      rw [← post_of_run h₁, flushAllLocked, post_then (run_get a)]
      exact pending_flushSlots _ a hctx
    refine ⟨_, run_then (run_get a) ?_, by rw [if_pos hp]; exact hW₁.setPending hctx₁ false⟩
    rw [if_pos hp']
    exact run_then h₁ (run_modify _ a₁)
  · refine ⟨a, run_then (run_get a) ?_, by rw [if_neg hp]; exact hW⟩
    rw [if_neg (by rw [hW.pending]; exact hp)]
    rfl

theorem drain_spec (hF : Family cfg N) (hW : World cfg N U a A) (hbelow : Below (step cfg a .drain).2) :
    (step cfg a .drain).1 = (A.step cfg .drain).1 ∧
      World cfg N U (step cfg a .drain).2 (A.step cfg .drain).2 := by
  obtain ⟨a', h₁, hW'⟩ := flushWorkHandler_spec hF hW hbelow
  exact exec_gives (f := fun _ => Answer.none) (Q := fun b => World cfg N U b (A.step cfg .drain).2)
    (gives_ok h₁ hW')

theorem drainSlots_setPending (A : Store) (b : Bool) (is : List Nat) :
    (A.setPending b).drainSlots cfg is = (A.drainSlots cfg is).setPending b := by
  induction is generalizing A with
  | nil => rfl
  | cons i is ih =>
    have hslot : (A.setPending b).drainSlot cfg i = (A.drainSlot cfg i).setPending b := by
      have htable : (A.setPending b).table = A.table := rfl
      unfold Store.drainSlot
      rw [htable]
      cases A.table.getD i none <;> rfl
    rw [Store.drainSlots, List.foldl_cons, hslot]
    exact ih _

theorem flushSync_spec (hF : Family cfg N) (hW : World cfg N U a A) (h : Nat)
    (hbelow : Below (step cfg a (.flushSync h)).2) :
    (step cfg a (.flushSync h)).1 = (A.step cfg (.flushSync h)).1 ∧
      World cfg N U (step cfg a (.flushSync h)).2 (A.step cfg (.flushSync h)).2 := by
  suffices hg : Gives (tsFlushSync cfg h) a
      (match (A.flushSync cfg h).1 with | .OK => .ok () | status => .error status)
      fun a' => World cfg N U a' (A.flushSync cfg h).2 by
    obtain ⟨hr, hw⟩ := exec_gives (f := fun _ => Answer.none) hg
    refine ⟨hr.trans ?_, hw⟩
    simp only [Store.step]
    cases (A.flushSync cfg h).1 <;> rfl
  have hpost : (step cfg a (.flushSync h)).2 = post (tsFlushSync cfg h) a := rfl
  rw [hpost] at hbelow
  unfold Store.flushSync
  rw [← hW.handles, ← hW.running]
  cases hh : a.handles h with
  | none =>
    apply gives_then (run_get a)
    dsimp only
    rw [if_pos (by simp [hh])]
    exact gives_fail rfl hW
  | some name =>
    by_cases hrun : a.cfgSet = true
    · obtain ⟨a₁, h₁, l₁, hctx⟩ := @tsCtxGetOrAlloc_spec cfg _ hW.clean hrun .ERR_INTERNAL
      have hW₁ := hW.alike l₁
      have hasync := flushAsync_bound hW₁ (l₁.handles ▸ hh) (l₁.running.trans hrun)
      have hW₂ := hasync.2.1
      have hhandler : ∀ {r : Except Status Unit} {Q : App → Prop},
          Gives (flushWorkHandler cfg) (post (tsFlushAsync cfg h) a₁) r Q →
          Gives (tsFlushSync cfg h) a r Q := by
        intro r Q hg
        apply gives_then (run_get a)
        dsimp only
        rw [if_neg (by simp [hh])]
        apply gives_then h₁
        apply gives_then (run_attempt _ a₁)
        rw [hasync.1]
        by_cases hp : A.pending = true <;> simp only [hp, if_true, if_false, Bool.false_eq_true] <;> exact hg
      have hbelow' : Below (post (flushWorkHandler cfg) (post (tsFlushAsync cfg h) a₁)) := by
        have hsame := (hhandler (r := outcome (flushWorkHandler cfg) (post (tsFlushAsync cfg h) a₁))
          (Q := fun b => b = post (flushWorkHandler cfg) (post (tsFlushAsync cfg h) a₁)) ⟨rfl, rfl⟩).2
        rw [← hsame]
        exact hbelow
      obtain ⟨a₃, h₃, hW₃⟩ := flushWorkHandler_spec hF hW₂ hbelow'
      simp only [hrun, Option.isNone_some, Bool.false_eq_true, Bool.not_true, if_false]
      apply hhandler
      apply gives_ok h₃
      rw [if_pos (show (A.setPending true).pending = true from rfl), Store.drainAll, drainSlots_setPending] at hW₃
      exact hW₃
    · simp only [hrun, Option.isNone_some, Bool.false_eq_true, if_false, Bool.not_false, if_true]
      apply gives_then (run_get a)
      dsimp only
      rw [if_neg (by simp [hh])]
      exact gives_fail (run_tsCtxGetOrAlloc_down (by simpa using hrun) _) hW

end Ingest

end ZephyrDB.Ts
