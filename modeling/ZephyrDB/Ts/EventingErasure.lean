import ZephyrDB.Ts.Accounts

/-!
With the counters and the events left out, the programs are those of a build
with events, and a call answers and ends as its call does.
-/

set_option autoImplicit false

namespace ZephyrDB.Ts.Eventing

open Lib

variable {cfg : Cfg}

theorem plain_discardFile (hev : cfg.eventing = true) (segPath : Path) :
    Carries Noted.st (discardFile segPath) (Ts.onSys (discardSegment cfg segPath)) := by
  intro s
  let e₁ := post (fsStat segPath) s.st.env
  let e₂ := post (fsUnlink segPath) e₁
  have hunlink : (unlinkIfPresent segPath).run e₁ = (rethrow (unlinked (outcome (fsUnlink segPath) e₁)) : Rc Unit).run e₂ := by
    apply run_then (run_attempt (fsUnlink segPath) e₁)
    cases outcome (fsUnlink segPath) e₁ with
    | ok _ => rfl
    | error err => cases err <;> rfl
  have hplain : (discardSegment cfg segPath).run s.st.env =
      (rethrow (unlinked (outcome (fsUnlink segPath) e₁)) : Rc Unit).run e₂ := by
    unfold discardSegment
    rw [if_pos hev]
    exact run_then (run_attempt (fsStat segPath) s.st.env) hunlink
  obtain ⟨hout, hpost⟩ := passed_on hplain
  unfold Ts.onSys
  rw [outcome_zoom, post_zoom, hout, hpost]
  unfold discardFile
  rw [outcome_get_bind, post_get_bind, outcome_then (run_onSys_attempt _ s), post_then (run_onSys_attempt _ s),
    outcome_then (run_note _ _), post_then (run_note _ _), outcome_then (run_onSys_attempt _ _),
    post_then (run_onSys_attempt _ _), outcome_then (run_note _ _), post_then (run_note _ _)]
  have hend : ∀ (x : Except Errno Unit) (u : Noted SlotSt SlotNotes),
      outcome (rethrow x : SlotM Errno Unit) u = x ∧ post (rethrow x : SlotM Errno Unit) u = u := by
    intro x u
    cases x <;> exact ⟨rfl, rfl⟩
  rw [(hend _ _).1, (hend _ _).2]
  exact ⟨rfl, rfl⟩

theorem plain_discardSegments (hev : cfg.eventing = true) (n : Nat) :
    Carries Noted.st (discardSegments cfg n) (Ts.discardSegments cfg n) := by
  induction n with
  | zero => exact carries_pure ()
  | succ n ih =>
    apply carries_bind (carries_silent _)
    intro slot
    apply carries_ite _ (carries_pure _)
    apply carries_bind (carries_rethrow _)
    intro segPath
    apply carries_bind (plain_discardFile hev segPath)
    intro _
    apply carries_bind (carries_silent _)
    intro _
    exact ih

theorem plain_startSegment (hev : cfg.eventing = true) (baseTsMs : UInt64) :
    Carries Noted.st (startSegment cfg baseTsMs) (Ts.startSegment cfg baseTsMs) := by
  apply carries_bind (carries_silent _)
  intro _
  apply carries_bind (carries_silent _)
  intro slot
  apply carries_bind (carries_rethrow _)
  intro segPath
  apply carries_bind (carries_silent _)
  intro format
  apply carries_bind (carries_silent _)
  intro _
  exact carries_ite (plain_discardSegments hev _) (carries_pure _)

theorem plain_rollSegmentIfFull (hev : cfg.eventing = true) :
    Carries Noted.st (rollSegmentIfFull cfg) (Ts.rollSegmentIfFull cfg) := by
  apply carries_bind (carries_silent _)
  intro slot
  exact carries_ite (plain_startSegment hev slot.segBaseTsMs) (carries_pure _)

theorem plain_flushBufferLocked (hev : cfg.eventing = true) :
    Carries Noted.st (flushBufferLocked cfg) (Ts.flushBufferLocked cfg) := by
  apply carries_bind (carries_silent _)
  intro slot
  apply carries_guard
  cases slot.ingestBuf with
  | none => exact carries_throw _
  | some buf =>
    apply carries_ite _ (carries_pure _)
    apply carries_bind (carries_silent _)
    intro _
    apply carries_note
    exact carries_ite (plain_rollSegmentIfFull hev) (carries_pure _)

theorem plain_rebaseRecord (hev : cfg.eventing = true) (sample : Sample) :
    Carries Noted.st (rebaseRecord cfg sample) (Ts.rebaseRecord cfg sample) := by
  unfold rebaseRecord Ts.rebaseRecord
  apply carries_guard
  apply carries_bind (carries_adaptExcept _ (plain_flushBufferLocked hev))
  intro _
  apply carries_bind (carries_adaptExcept _ (plain_startSegment hev sample.tsMs))
  intro _
  apply carries_bind (carries_silent _)
  intro slot
  cases slotEncode cfg slot sample with
  | none => exact carries_throw _
  | some raw => exact carries_bind (carries_silent _) fun _ => carries_pure _

theorem plain_encodeRecord (hev : cfg.eventing = true) (sample : Sample) (recSize : Nat) :
    Carries Noted.st (encodeRecord cfg sample recSize) (Ts.encodeRecord cfg sample recSize) := by
  apply carries_bind (carries_silent _)
  intro slot
  cases slotEncode cfg slot sample with
  | none => exact plain_rebaseRecord hev sample
  | some raw => exact carries_bind (carries_silent _) fun _ => carries_pure _

theorem plain_appendRecord (hev : cfg.eventing = true) (sample : Sample) :
    Carries Noted.st (appendRecord cfg sample) (Ts.appendRecord cfg sample) := by
  apply carries_bind (carries_silent _)
  intro slot
  apply carries_guard
  exact carries_when (carries_adaptExcept _ (plain_flushBufferLocked hev)) (plain_encodeRecord hev sample _)

theorem plain_appendRecords (hev : cfg.eventing = true) (samples : List Sample) :
    Carries Noted.st (appendRecords cfg samples) (Ts.appendRecords cfg samples) := by
  induction samples with
  | nil => exact carries_pure ()
  | cons sample samples ih => exact carries_bind (plain_appendRecord hev sample) fun _ => ih

theorem plain_onSlot {ε α : Type} (i : Nat) {m : SlotM ε α} {m' : Ts.SlotM ε α} (hm : Carries Noted.st m m') :
    Carries Noted.st (onSlot i m) (Ts.onSlot i m') :=
  carries_zoom (fun _ => rfl) (fun _ _ => rfl) hm

theorem plain_locked {ε α : Type} {m : AppM ε α} {m' : Ts.AppM ε α} (hm : Carries Noted.st m m') :
    Carries Noted.st (locked m) m' := by
  intro s
  obtain ⟨ho, hp⟩ := hm s
  have hrun : (locked m).run s = (rethrow (outcome m s) : AppM ε α).run (unlocked (post m s)) :=
    run_then (run_attempt m s) (run_then rfl rfl)
  obtain ⟨hout, hpost⟩ := passed_on hrun
  rw [hout, hpost]
  exact ⟨ho, hp⟩

theorem plain_tsCtxGetOrAlloc (onNull : Status) :
    Carries Noted.st (tsCtxGetOrAlloc cfg onNull) (Ts.tsCtxGetOrAlloc cfg onNull) := by
  intro s
  have hsilent : Carries Noted.st (silent (Ts.tsCtxGetOrAlloc cfg onNull) : AppM Status Unit)
      (Ts.tsCtxGetOrAlloc cfg onNull) := carries_silent _
  unfold tsCtxGetOrAlloc
  rw [outcome_get_bind, post_get_bind]
  dsimp only
  split
  · exact carries_note_after _ hsilent s
  · rw [bind_pure_unit]
    exact hsilent s

theorem plain_slotClaim (name : Bytes) : Carries Noted.st (slotClaim cfg name) (Ts.slotClaim cfg name) := by
  intro s
  unfold slotClaim
  rw [outcome_get_bind, post_get_bind]
  dsimp only
  split
  · split
    · exact carries_silent _ s
    · exact carries_note _ (carries_silent _) s
  · exact carries_silent _ s

theorem plain_slotRelease (i : Nat) : Carries Noted.st (slotRelease i) (Ts.slotRelease i) := by
  intro s
  unfold slotRelease
  rw [outcome_get_bind, post_get_bind]
  dsimp only
  split
  · exact carries_note _ (carries_note _ (carries_silent _)) s
  · exact carries_silent _ s

theorem plain_tsOpen (h : Nat) (name : Bytes) : Carries Noted.st (tsOpen cfg h name) (Ts.tsOpen cfg h name) := by
  unfold tsOpen Ts.tsOpen
  apply carries_guard
  apply carries_get_bind
  intro s
  apply carries_guard
  apply carries_bind (plain_tsCtxGetOrAlloc _)
  intro _
  apply carries_bind (carries_silent _)
  intro _
  have hclaim : Carries Noted.st (slotClaim cfg name >>= fun _ => do
      silent (modify fun a => a.bind h (some name))
      if cfg.autoRecoverOnOpen then silent (openRecover cfg name) : AppM Status Unit) (do
      Ts.slotClaim cfg name
      modify fun a => a.bind h (some name)
      if cfg.autoRecoverOnOpen then openRecover cfg name) := by
    apply carries_bind (plain_slotClaim name)
    intro _
    apply carries_bind (carries_silent _)
    intro _
    exact carries_ite (carries_silent _) (carries_pure _)
  exact carries_when (carries_silent _) hclaim

theorem plain_closeFlush (hev : cfg.eventing = true) (name : Bytes) :
    Carries Noted.st (closeFlush cfg name) (Ts.closeFlush cfg name) := by
  apply carries_get_bind
  intro s
  dsimp only
  cases s.st.slotFind name with
  | none => exact carries_pure ()
  | some i =>
    exact carries_ite (carries_adaptExcept _ (plain_onSlot i (plain_flushBufferLocked hev))) (carries_pure ())

/-- The part of `zdb_ts_close` under the lock, without the books. -/
def plainCloseLocked (cfg : Cfg) (name : Bytes) : Ts.AppM Status Unit := do
  let status ← attempt (Ts.closeFlush cfg name)
  match (← get).slotFind name with
  | none => pure ()
  | some i => Ts.slotRelease i
  rethrow status

theorem plain_closeLocked (hev : cfg.eventing = true) (name : Bytes) :
    Carries Noted.st (closeLocked cfg name) (plainCloseLocked cfg name) := by
  apply carries_bind (carries_attempt (plain_closeFlush hev name))
  intro status
  apply carries_get_bind
  intro s
  dsimp only
  cases s.st.slotFind name with
  | none => exact carries_rethrow status
  | some i => exact carries_bind (plain_slotRelease i) fun _ => carries_rethrow status

/-- The application once `zdb_ts_close` has let go of the slot. -/
def letGo (cfg : Cfg) (name : Bytes) (a : App) : App :=
  let b := post (Ts.closeFlush cfg name) a
  match b.slotFind name with
  | none => b
  | some i => post (Ts.slotRelease i) b

theorem run_tsClose {a : App} {h : Nat} {name : Bytes} (hname : a.handles h = some name) :
    (Ts.tsClose cfg h).run a = (rethrow (outcome (Ts.closeFlush cfg name) a) : Ts.AppM Status Unit).run
      ((letGo cfg name a).bind h none) := by
  have hflush : (attempt (Ts.closeFlush cfg name) : Ts.AppM Status (Except Status Unit)).run a =
      .ok (outcome (Ts.closeFlush cfg name) a) (post (Ts.closeFlush cfg name) a) := run_attempt _ a
  unfold Ts.tsClose letGo
  apply run_then (run_get a)
  rw [hname]
  apply run_then hflush
  apply run_then (run_get _)
  dsimp only
  cases (post (Ts.closeFlush cfg name) a).slotFind name with
  | none => exact run_then rfl rfl
  | some i => exact run_then rfl (run_then rfl rfl)

theorem run_plainCloseLocked (name : Bytes) (a : App) :
    (plainCloseLocked cfg name).run a =
      (rethrow (outcome (Ts.closeFlush cfg name) a) : Ts.AppM Status Unit).run (letGo cfg name a) := by
  have hflush : (attempt (Ts.closeFlush cfg name) : Ts.AppM Status (Except Status Unit)).run a =
      .ok (outcome (Ts.closeFlush cfg name) a) (post (Ts.closeFlush cfg name) a) := run_attempt _ a
  unfold plainCloseLocked letGo
  apply run_then hflush
  apply run_then (run_get _)
  dsimp only
  cases (post (Ts.closeFlush cfg name) a).slotFind name with
  | none => rfl
  | some i => exact run_then rfl rfl

theorem closeFlush_idle {a : App} (h : a.tsCtx = none) (name : Bytes) :
    (Ts.closeFlush cfg name).run a = .ok () a ∧ letGo cfg name a = a := by
  have hfind : a.slotFind name = none := by
    unfold App.slotFind
    rw [h]
    rfl
  have hflush : (Ts.closeFlush cfg name).run a = .ok () a := by
    apply run_then (run_get a)
    rw [hfind]
    rfl
  refine ⟨hflush, ?_⟩
  unfold letGo
  rw [post_of_run hflush]
  simp only [hfind]

theorem plain_tsClose (hev : cfg.eventing = true) (h : Nat) :
    Carries Noted.st (tsClose cfg h) (Ts.tsClose cfg h) := by
  intro s
  cases hname : s.st.handles h with
  | none =>
    have hplain : (Ts.tsClose cfg h).run s.st = .ok () s.st := by
      unfold Ts.tsClose
      apply run_then (run_get _)
      rw [hname]
      rfl
    have hnoted : (tsClose cfg h).run s = .ok () s := by
      unfold tsClose
      apply run_then rfl
      rw [hname]
      rfl
    rw [outcome_of_run hplain, post_of_run hplain, outcome_of_run hnoted, post_of_run hnoted]
    exact ⟨rfl, rfl⟩
  | some name =>
    have hsection : Carries Noted.st (if s.st.tsCtx.isSome then locked (closeLocked cfg name) else pure () : AppM Status Unit)
        (if s.st.tsCtx.isSome then plainCloseLocked cfg name else pure ()) :=
      carries_ite (plain_locked (plain_closeLocked hev name)) (carries_pure ())
    have hcalls : Carries Noted.st (do
        let status ← attempt (if s.st.tsCtx.isSome then locked (closeLocked cfg name) else pure ())
        silent (modify fun a => a.bind h none)
        rethrow status : AppM Status Unit) (do
        let status ← attempt (if s.st.tsCtx.isSome then plainCloseLocked cfg name else pure ())
        modify fun a => a.bind h none
        rethrow status : Ts.AppM Status Unit) := by
      apply carries_bind (carries_attempt hsection)
      intro status
      apply carries_bind (carries_silent _)
      intro _
      exact carries_rethrow status
    have hplain : (Ts.tsClose cfg h).run s.st = (do
        let status ← attempt (if s.st.tsCtx.isSome then plainCloseLocked cfg name else pure ())
        modify fun a => a.bind h none
        rethrow status : Ts.AppM Status Unit).run s.st := by
      rw [run_tsClose hname]
      cases hctx : s.st.tsCtx with
      | none =>
        obtain ⟨hflush, hgone⟩ := @closeFlush_idle cfg _ hctx name
        rw [outcome_of_run hflush, hgone]
        rfl
      | some ctx =>
        obtain ⟨hout, hpost⟩ := passed_on (@run_plainCloseLocked cfg name s.st)
        refine (run_then (run_attempt _ s.st) ?_).symm
        simp only [Option.isSome_some, if_true]
        rw [hout, hpost]
        exact run_then rfl rfl
    have hnoted : (tsClose cfg h).run s = (do
        let status ← attempt (if s.st.tsCtx.isSome then locked (closeLocked cfg name) else pure ())
        silent (modify fun a => a.bind h none)
        rethrow status : AppM Status Unit).run s := by
      unfold tsClose
      apply run_then rfl
      rw [hname]
      exact run_then rfl rfl
    obtain ⟨ho, hp⟩ := hcalls s
    obtain ⟨hplainOut, hplainPost⟩ := ends_of_same hplain
    obtain ⟨hnotedOut, hnotedPost⟩ := ends_of_same hnoted
    rw [hplainOut, hplainPost, hnotedOut, hnotedPost]
    exact ⟨ho, hp⟩

theorem tsFlushAsync_split (h : Nat) : Ts.tsFlushAsync cfg h = (do
    let a ← get
    if (a.handles h).isNone || !a.cfgSet then throw .ERR_INVAL
    Ts.tsCtxGetOrAlloc cfg .ERR_NOMEM
    match ← submitFlush with
    | .ok _ => return ()
    | .error err =>
      modify fun a => a.setPending false
      throw (statusFromErrno err)) := by
  unfold Ts.tsFlushAsync submitFlush
  apply congrArg _
  apply funext
  intro a
  split
  · rfl
  · simp only [bind_assoc]
    apply congrArg _
    apply funext
    intro _
    apply congrArg _
    apply funext
    intro a'
    split
    · rfl
    · exact (bind_assoc _ _ _).symm

theorem plain_tsFlushAsync (h : Nat) : Carries Noted.st (tsFlushAsync cfg h) (Ts.tsFlushAsync cfg h) := by
  rw [tsFlushAsync_split]
  apply carries_get_bind
  intro s
  apply carries_guard
  apply carries_bind (plain_tsCtxGetOrAlloc _)
  intro _
  apply carries_bind (plain_locked (carries_silent _))
  intro sent
  cases sent with
  | ok _ => exact carries_pure ()
  | error err => exact carries_bind (carries_silent _) fun _ => carries_throw _

theorem plain_appendFlush (h i recSize : Nat) :
    Carries Noted.st (appendFlush cfg h i recSize) (Ts.appendFlush cfg h i recSize) := by
  apply carries_get_bind
  intro s
  apply carries_ite _ (carries_pure ())
  apply carries_bind (carries_attempt (plain_tsFlushAsync h))
  intro sent
  cases sent with
  | ok _ => exact carries_pure ()
  | error status => cases status <;> first | exact carries_pure () | exact carries_throw _

theorem plain_tsAppendI64 (hev : cfg.eventing = true) (h : Nat) (sample : Sample) :
    Carries Noted.st (tsAppendI64 cfg h sample) (Ts.tsAppendI64 cfg h sample) := by
  apply carries_get_bind
  intro s
  cases s.st.handles h with
  | none => exact carries_throw _
  | some name =>
    apply carries_bind (plain_tsCtxGetOrAlloc _)
    intro _
    apply carries_get_bind
    intro t
    cases t.st.slotFind name with
    | none => exact carries_throw _
    | some i =>
      apply carries_bind (plain_locked (plain_onSlot i (plain_appendRecord hev sample)))
      intro recSize
      exact plain_appendFlush h i recSize

/-- The locked section of `zdb_ts_append_batch_i64`, without the books. -/
def plainBatchLocked (cfg : Cfg) (name : Bytes) (samples : List Sample) : Ts.AppM Status Nat := do
  match (← get).slotFind name with
  | none => throw .ERR_INVAL
  | some i =>
    Ts.onSlot i (Ts.appendRecords cfg samples)
    return i

theorem plain_batchLocked (hev : cfg.eventing = true) (name : Bytes) (samples : List Sample) :
    Carries Noted.st (batchLocked cfg name samples) (plainBatchLocked cfg name samples) := by
  apply carries_get_bind
  intro s
  cases s.st.slotFind name with
  | none => exact carries_throw _
  | some i => exact carries_bind (plain_onSlot i (plain_appendRecords hev samples)) fun _ => carries_pure i

theorem tsAppendBatchI64_split (h : Nat) (samples : List Sample) : Ts.tsAppendBatchI64 cfg h samples = (do
    match (← get).handles h with
    | none => throw .ERR_INVAL
    | some name =>
      if samples.isEmpty then throw .ERR_INVAL
      Ts.tsCtxGetOrAlloc cfg .ERR_INVAL
      let i ← plainBatchLocked cfg name samples
      let slot := (← get).slotAt i
      if slot.ingestCapacity < slot.ingestUsed + slotRecSize cfg slot then
        let _ ← attempt (ε := Status) (Ts.tsFlushAsync cfg h)) := by
  unfold Ts.tsAppendBatchI64 plainBatchLocked
  apply congrArg _
  apply funext
  intro a
  cases a.handles h with
  | none => rfl
  | some name =>
    dsimp only
    split
    · rfl
    · simp only [bind_assoc]
      apply congrArg _
      apply funext
      intro _
      apply congrArg _
      apply funext
      intro a'
      cases a'.slotFind name with
      | none => rfl
      | some i => simp only [bind_assoc, pure_bind]

theorem plain_tsAppendBatchI64 (hev : cfg.eventing = true) (h : Nat) (samples : List Sample) :
    Carries Noted.st (tsAppendBatchI64 cfg h samples) (Ts.tsAppendBatchI64 cfg h samples) := by
  rw [tsAppendBatchI64_split]
  apply carries_get_bind
  intro s
  cases s.st.handles h with
  | none => exact carries_throw _
  | some name =>
    apply carries_guard
    apply carries_bind (plain_tsCtxGetOrAlloc _)
    intro _
    apply carries_bind (plain_locked (plain_batchLocked hev name samples))
    intro i
    apply carries_get_bind
    intro t
    apply carries_ite _ (carries_pure ())
    apply carries_bind (carries_attempt (plain_tsFlushAsync h))
    intro _
    exact carries_pure ()

/-! The drain counts what it writes; the plain one returns nothing. -/

theorem shadows_flushSlot (hev : cfg.eventing = true) (i : Nat) (d : Drained) (s : Noted App Books) :
    Shadows (fun _ => ()) (flushSlot cfg i d) (Ts.flushSlot cfg i) s := by
  apply shadows_get_bind
  apply shadows_ite _ (shadows_pure rfl s)
  have hflush : Carries Noted.st (onSlot i (flushBufferLocked cfg)) (Ts.onSlot i (Ts.flushBufferLocked cfg)) :=
    plain_onSlot i (plain_flushBufferLocked hev)
  apply shadows_bind (shadows_of_carries (carries_attempt hflush) s)
  intro result t _
  cases result with
  | ok _ => exact ⟨rfl, rfl⟩
  | error err => exact shadows_pure rfl t

theorem shadows_flushSlots (hev : cfg.eventing = true) (is : List Nat) (d : Drained) (s : Noted App Books) :
    Shadows (fun _ => ()) (flushSlots cfg is d) (Ts.flushSlots cfg is) s := by
  induction is generalizing d s with
  | nil => exact shadows_pure rfl s
  | cons i rest ih =>
    apply shadows_bind (shadows_flushSlot hev i d s)
    intro d' t _
    exact ih d' t

theorem plain_flushWorkHandler (hev : cfg.eventing = true) :
    Carries Noted.st (flushWorkHandler cfg) (Ts.flushWorkHandler cfg) := by
  apply carries_get_bind
  intro s
  apply carries_ite _ (carries_pure ())
  apply carries_of_shadows
  intro t
  have hdrain : Shadows (fun _ => ()) (flushAllLocked cfg) (Ts.flushAllLocked cfg) t :=
    shadows_get_bind (shadows_flushSlots hev _ _ t)
  apply shadows_bind hdrain
  intro d u _
  exact ⟨rfl, rfl⟩

theorem plain_tsFlushSync (hev : cfg.eventing = true) (h : Nat) :
    Carries Noted.st (tsFlushSync cfg h) (Ts.tsFlushSync cfg h) := by
  apply carries_get_bind
  intro s
  apply carries_guard
  apply carries_bind (plain_tsCtxGetOrAlloc _)
  intro _
  apply carries_bind (carries_attempt (plain_tsFlushAsync h))
  intro sent
  cases sent with
  | ok _ => exact plain_flushWorkHandler hev
  | error status =>
    cases status <;> first | exact plain_flushWorkHandler hev | exact carries_throw _

theorem step_st (hev : cfg.eventing = true) (s : Noted App Books) (op : Op) :
    (step cfg s op).1 = (Ts.step cfg s.st op).1 ∧ (step cfg s op).2.st = (Ts.step cfg s.st op).2 := by
  have hexec : ∀ {α : Type} (f : α → Answer) {m : AppM Status α} {m' : Ts.AppM Status α}, Carries Noted.st m m' →
      (exec f m s).1 = (Ts.exec f m' s.st).1 ∧ (exec f m s).2.st = (Ts.exec f m' s.st).2 := by
    intro α f m m' hm
    obtain ⟨ho, hp⟩ := hm s
    exact ⟨congrArg (reply f) ho.symm, hp.symm⟩
  cases op with
  | init => exact hexec _ (carries_note_after _ (carries_silent _))
  | deinit => exact hexec _ (carries_note_after _ (carries_silent _))
  | «open» h name => exact hexec _ (plain_tsOpen h name)
  | close h => exact hexec _ (plain_tsClose hev h)
  | append h sample => exact hexec _ (plain_tsAppendI64 hev h sample)
  | batch h samples => exact hexec _ (plain_tsAppendBatchI64 hev h samples)
  | flushAsync h => exact hexec _ (plain_tsFlushAsync h)
  | flushSync h => exact hexec _ (plain_tsFlushSync hev h)
  | drain => exact hexec _ (plain_flushWorkHandler hev)
  | recover h => exact hexec _ (carries_silent _)
  | count h window => exact hexec _ (plain_locked (carries_silent _))
  | cursor h window predicate descending n => exact hexec _ (plain_locked (carries_silent _))

theorem run_st (hev : cfg.eventing = true) (ops : List Op) (s : Noted App Books) :
    (run cfg s ops).st = Ts.run cfg s.st ops := by
  induction ops generalizing s with
  | nil => rfl
  | cons op ops ih =>
    unfold run Ts.run at *
    rw [List.foldl_cons, List.foldl_cons, ih, (step_st hev s op).2]

end ZephyrDB.Ts.Eventing
