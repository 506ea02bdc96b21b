import ZephyrDB.Ts.Lifetime
import ZephyrDB.Ts.Tail
import ZephyrDB.Ts.Reopen

/-!
A batch against the appends it stands for. Between two appends the calling
thread may queue a drain, which takes a call of its own; where the calls
succeed, a program on a slot does not notice how many were made before it.
-/

set_option autoImplicit false

namespace ZephyrDB.Ts

open Lib

/-- Two applications with the same slots, handles, files and counters: they differ in how many calls have
been made, and in whether a drain is queued. -/
structure SameStores (a b : App) : Prop where
  running : b.cfgSet = a.cfgSet
  streams : b.tsCtx.map TsCoreCtx.streams = a.tsCtx.map TsCoreCtx.streams
  dirReady : b.tsCtx.map TsCoreCtx.tsDirReady = a.tsCtx.map TsCoreCtx.tsDirReady
  handles : b.handles = a.handles
  env : b.env = { a.env with tick := b.env.tick }

/-- Append the samples one by one, up to and including the first one that is refused. -/
def appendEach (cfg : Cfg) (h : Nat) : List Sample → AppM Status Unit
  | [] => return ()
  | sample :: samples => do
    tsAppendI64 cfg h sample
    appendEach cfg h samples

structure SlotDrift (s t : SlotSt) : Prop where
  slot : t.slot = s.slot
  env : Drift s.env t.env

section Slot
variable {cfg : Cfg}

theorem drift_updStats {ε : Type} (f : TsStats → TsStats) : Agrees Drift (updStats f : EStateM ε Sys Unit) :=
  agrees_drift fun _ _ hc => ⟨rfl, hc, rfl⟩

theorem drift_refused {α β : Type} (f : TsStats → TsStats) (r : Status) (g : α → Zdb β) :
    Agrees Drift (updStats f >>= fun _ => throw r >>= g) :=
  agrees_bind (drift_updStats f) fun _ _ _ h => ⟨rfl, h⟩

theorem drift_streamHeaderDecode (raw name : Bytes) : Agrees Drift (streamHeaderDecode raw name) := by
  refine agrees_ite (drift_refused _ _ _) (agrees_ite (drift_refused _ _ _) (agrees_ite ?_ (agrees_ite ?_ ?_)))
  · exact agrees_bind (drift_updStats _) fun _ => drift_refused _ _ _
  · exact agrees_bind (drift_updStats _) fun _ => agrees_throw _
  · exact agrees_pure _

theorem drift_streamHeaderV2Decode (raw name : Bytes) : Agrees Drift (streamHeaderV2Decode raw name) := by
  refine agrees_ite (drift_refused _ _ _) (agrees_ite ?_ (agrees_ite (drift_refused _ _ _) (agrees_pure _)))
  exact agrees_bind (drift_updStats _) fun _ => drift_refused _ _ _

theorem drift_ensureHeaderEx (name path : Bytes) (baseTsMs : UInt64) :
    Agrees Drift (ensureHeaderEx cfg name path baseTsMs) := by
  apply agrees_bind (agrees_adaptExcept _ (drift_fsOpen _ _ _))
  intro _
  refine agrees_bind (agrees_adaptExcept _ (drift_fsRead _ _ _)) fun raw => agrees_ite ?_ (agrees_ite (agrees_throw _) ?_)
  · apply agrees_bind (agrees_adaptExcept _ drift_call)
    intro _
    exact agrees_bind (agrees_adaptExcept _ (drift_fsWrite _ _ _)) fun wr => agrees_guard (agrees_pure _)
  · refine agrees_ite (agrees_guard ?_) ?_
    · exact agrees_bind (drift_streamHeaderV2Decode _ _) fun _ => agrees_pure _
    · exact agrees_bind (drift_streamHeaderDecode _ _) fun _ => agrees_pure _

theorem drift_adoptLegacy (name : Bytes) : Agrees Drift (adoptLegacy cfg name) := by
  apply agrees_bind (agrees_rethrow _)
  intro legacyPath
  apply agrees_bind (agrees_rethrow _)
  intro segPath
  apply agrees_bind (agrees_attempt (drift_fsStat _))
  intro r
  split
  · exact agrees_adaptExcept _ (drift_fsRename _ _)
  · exact agrees_pure _

theorem drift_unlinkIfPresent (path : Path) : Agrees Drift (unlinkIfPresent path : Rc Unit) := by
  apply agrees_bind (agrees_attempt (drift_fsUnlink _))
  intro r
  split
  · exact agrees_pure _
  · exact agrees_pure _
  · exact agrees_throw _

theorem drift_discardSegment (path : Path) : Agrees Drift (discardSegment cfg path) := by
  unfold discardSegment
  split
  · exact agrees_bind (agrees_attempt (drift_fsStat _)) fun _ => drift_unlinkIfPresent path
  · exact drift_unlinkIfPresent path

theorem drift_onSys {ε α : Type} {m : EStateM ε Sys α} (h : Agrees Drift m) : Agrees SlotDrift (onSys m) :=
  agrees_zoom h (fun _ _ h => h.env) fun _ _ _ _ h l => ⟨h.slot, l⟩

theorem drift_getSlot {ε α : Type} {f : StreamCtx → SlotM ε α} (h : ∀ slot, Agrees SlotDrift (f slot)) :
    Agrees SlotDrift (getSlot >>= f) := fun s t hst => by
  obtain ⟨slot, e⟩ := s
  obtain ⟨slot', e'⟩ := t
  obtain rfl : slot' = slot := hst.slot
  exact h slot' _ _ hst

theorem drift_updSlot {ε : Type} (f : StreamCtx → StreamCtx) : Agrees SlotDrift (updSlot (ε := ε) f) :=
  agrees_modify fun _ _ h => ⟨congrArg f h.slot, h.env⟩

theorem drift_learnNewest (name : Bytes) (lowest highest : Nat) :
    Agrees SlotDrift (learnNewest cfg name lowest highest) := by
  apply agrees_bind (drift_updSlot _)
  intro _
  apply agrees_bind (agrees_rethrow _)
  intro segPath
  apply agrees_bind (drift_onSys (drift_ensureHeaderEx _ _ _))
  intro vb
  apply agrees_bind (drift_updSlot _)
  intro _
  exact agrees_bind (drift_onSys (agrees_attempt (drift_fsStat _))) fun size => drift_updSlot _

theorem drift_scanSegments : Agrees SlotDrift (scanSegments cfg) := by
  apply drift_getSlot
  intro slot
  apply agrees_ite (agrees_pure _)
  apply agrees_guard
  apply agrees_bind (drift_onSys (agrees_attempt (drift_fsList _)))
  intro entries
  refine agrees_ite ?_ (drift_learnNewest _ _ _)
  exact agrees_bind (drift_onSys (drift_adoptLegacy _)) fun _ => drift_learnNewest _ _ _

theorem drift_discardSegments (n : Nat) : Agrees SlotDrift (discardSegments cfg n) := by
  induction n with
  | zero => exact agrees_pure _
  | succ n ih =>
    apply drift_getSlot
    intro slot
    refine agrees_ite (agrees_bind (agrees_rethrow _) fun segPath => ?_) (agrees_pure _)
    exact agrees_bind (drift_onSys (drift_discardSegment _)) fun _ => agrees_bind (drift_updSlot _) fun _ => ih

theorem drift_startSegment (baseTsMs : UInt64) : Agrees SlotDrift (startSegment cfg baseTsMs) := by
  apply agrees_bind (drift_updSlot _)
  intro _
  apply drift_getSlot
  intro slot
  apply agrees_bind (agrees_rethrow _)
  intro segPath
  apply agrees_bind (drift_onSys (agrees_adaptExcept _ (drift_ensureHeaderEx _ _ _)))
  intro vb
  exact agrees_bind (drift_updSlot _) fun _ => agrees_ite (drift_discardSegments _) (agrees_pure _)

theorem drift_rollSegmentIfFull : Agrees SlotDrift (rollSegmentIfFull cfg) :=
  drift_getSlot fun _ => agrees_ite (drift_startSegment _) (agrees_pure _)

theorem drift_activePath : Agrees SlotDrift (activePath cfg) := by
  refine agrees_ite ?_ (drift_getSlot fun _ => agrees_rethrow _)
  exact agrees_bind (agrees_adaptExcept _ drift_scanSegments) fun _ => drift_getSlot fun _ => agrees_rethrow _

theorem drift_writeBuffer (buf : Bytes) (used : Nat) : Agrees SlotDrift (writeBuffer cfg buf used) := by
  apply agrees_bind drift_activePath
  intro path
  apply agrees_bind (drift_onSys (drift_fsOpen _ _ _))
  intro _
  apply agrees_bind (drift_onSys (drift_fsAppend _ _))
  intro wr
  apply agrees_guard
  exact agrees_bind (drift_onSys drift_call) fun _ => drift_updSlot _

theorem drift_flushBufferLocked : Agrees SlotDrift (flushBufferLocked cfg) := by
  apply drift_getSlot
  intro slot
  split
  · exact agrees_guard (agrees_throw _)
  · refine agrees_guard (agrees_ite (agrees_bind (drift_writeBuffer _ _) fun _ => ?_) (agrees_pure _))
    exact agrees_ite drift_rollSegmentIfFull (agrees_pure _)

theorem drift_rebaseRecord (sample : Sample) : Agrees SlotDrift (rebaseRecord cfg sample) := by
  unfold rebaseRecord
  apply agrees_guard
  apply agrees_bind (agrees_adaptExcept _ drift_flushBufferLocked)
  intro _
  apply agrees_bind (agrees_adaptExcept _ (drift_startSegment _))
  intro _
  apply drift_getSlot
  intro slot
  split
  · exact agrees_throw _
  · exact agrees_bind (drift_updSlot _) fun _ => agrees_pure _

theorem drift_encodeRecord (sample : Sample) (recSize : Nat) : Agrees SlotDrift (encodeRecord cfg sample recSize) := by
  apply drift_getSlot
  intro slot
  split
  · exact agrees_bind (drift_updSlot _) fun _ => agrees_pure _
  · exact drift_rebaseRecord sample

theorem drift_appendRecord (cfg : Cfg) (sample : Sample) : Agrees SlotDrift (appendRecord cfg sample) := by
  apply drift_getSlot
  intro slot
  refine agrees_guard (agrees_ite ?_ (drift_encodeRecord _ _))
  exact agrees_bind (agrees_adaptExcept _ drift_flushBufferLocked) fun _ => drift_encodeRecord _ _

end Slot

theorem SameStores.refl (a : App) : SameStores a a := ⟨rfl, rfl, rfl, rfl, rfl⟩

theorem SameStores.trans {a b c : App} (h : SameStores a b) (k : SameStores b c) : SameStores a c :=
  ⟨k.running.trans h.running, k.streams.trans h.streams, k.dirReady.trans h.dirReady, k.handles.trans h.handles, by
    rw [k.env, h.env]⟩

theorem SameStores.symm {a b : App} (h : SameStores a b) : SameStores b a :=
  ⟨h.running.symm, h.streams.symm, h.dirReady.symm, h.handles.symm, by rw [h.env]⟩

theorem SameStores.slotAt {a b : App} (h : SameStores a b) (i : Nat) : b.slotAt i = a.slotAt i := by
  have hstreams := h.streams
  unfold App.slotAt
  cases ha : a.tsCtx <;> cases hb : b.tsCtx <;> rw [ha, hb] at hstreams <;> simp_all

theorem sameStores_setPending (a : App) (pending : Bool) : SameStores a (a.setPending pending) := by
  refine ⟨rfl, ?_, ?_, rfl, rfl⟩ <;> unfold App.setPending <;> cases a.tsCtx <;> rfl

structure InUse (h : Nat) (b : App) : Prop where
  handle : (b.handles h).isSome = true
  set : b.cfgSet = true
  ctx : b.tsCtx.isSome = true

section Calls
variable {cfg : Cfg} {a b : App} {h i : Nat} {name : Bytes}

theorem run_tsFlushAsync (cfg : Cfg) (hc : a.env.Clean) (hu : InUse h a) :
    ∃ b, SameStores a b ∧
      ((tsFlushAsync cfg h).run a = .ok () b ∨ (tsFlushAsync cfg h).run a = .error .ERR_BUSY b) := by
  have hget : (get : AppM Status App).run a = .ok a a := rfl
  have hheld : ¬ ((a.handles h).isNone || !a.cfgSet) = true := by
    simp [hu.set, Option.isSome_iff_ne_none.mp hu.handle]
  have hctx : (tsCtxGetOrAlloc cfg .ERR_NOMEM).run a = .ok () a := run_tsCtxGetOrAlloc_up hu.set hu.ctx _
  cases hp : a.pending with
  | true =>
    refine ⟨a, SameStores.refl a, .inr (run_then hget ?_)⟩
    dsimp only
    rw [if_neg hheld]
    apply run_then hctx
    apply run_then hget
    rw [if_pos hp]
    rfl
  | false =>
    have hset : (modify fun a => a.setPending true : AppM Status Unit).run a = .ok () (a.setPending true) := rfl
    have hcall : (call : Rc Unit).run (a.setPending true).env = .ok () a.env.next := by
      have hf : (a.setPending true).env.fault = .none := hc _
      show call (a.setPending true).env = _
      simp only [call, hf]
      rfl
    refine ⟨{ a.setPending true with env := a.env.next }, ?_, .inl (run_then hget ?_)⟩
    · exact (sameStores_setPending a true).trans ⟨rfl, rfl, rfl, rfl, rfl⟩
    · dsimp only
      rw [if_neg hheld]
      apply run_then hctx
      apply run_then hget
      rw [if_neg (by simp [hp])]
      exact run_then hset (run_then (run_onEnv (run_attempt_ok hcall)) rfl)

theorem run_appendFlush (cfg : Cfg) (hc : a.env.Clean) (hu : InUse h a) (j recSize : Nat) :
    ∃ b, (appendFlush cfg h j recSize).run a = .ok () b ∧ SameStores a b := by
  have hget : (get : AppM Status App).run a = .ok a a := rfl
  by_cases hroom : (a.slotAt j).ingestCapacity < (a.slotAt j).ingestUsed + recSize
  · obtain ⟨b, hsame, hrun⟩ := run_tsFlushAsync cfg hc hu
    refine ⟨b, run_then hget ?_, hsame⟩
    dsimp only
    rw [if_pos hroom]
    rcases hrun with hrun | hrun
    · exact run_then (run_attempt_ok hrun) rfl
    · exact run_then (run_attempt_error hrun) rfl
  · refine ⟨a, run_then hget ?_, SameStores.refl a⟩
    dsimp only
    rw [if_neg hroom]
    rfl

def batchFlush (cfg : Cfg) (h i : Nat) : AppM Status Unit := do
  let slot := (← get).slotAt i
  if slot.ingestCapacity < slot.ingestUsed + slotRecSize cfg slot then
    let _ ← attempt (ε := Status) (tsFlushAsync cfg h)

theorem run_batchFlush (cfg : Cfg) (hc : a.env.Clean) (hu : InUse h a) (j : Nat) :
    ∃ b, (batchFlush cfg h j).run a = .ok () b ∧ SameStores a b := by
  have hget : (get : AppM Status App).run a = .ok a a := rfl
  by_cases hroom : (a.slotAt j).ingestCapacity < (a.slotAt j).ingestUsed + slotRecSize cfg (a.slotAt j)
  · obtain ⟨b, hsame, hrun⟩ := run_tsFlushAsync cfg hc hu
    refine ⟨b, run_then hget ?_, hsame⟩
    dsimp only
    rw [if_pos hroom]
    rcases hrun with hrun | hrun
    · exact run_then (run_attempt_ok hrun) rfl
    · exact run_then (run_attempt_error hrun) rfl
  · refine ⟨a, run_then hget ?_, SameStores.refl a⟩
    dsimp only
    rw [if_neg hroom]
    rfl

/-- The application once a program on slot `i` has ended as `s`. -/
def App.withSlot (a : App) (i : Nat) (s : SlotSt) : App := { a.setSlot i s.slot with env := s.env }

theorem sameStores_withSlot {s t t' : SlotSt} (hab : SameStores (a.withSlot i s) b) (htt : SlotDrift t t') :
    SameStores (a.withSlot i t) (b.withSlot i t') := by
  have hstreams := hab.streams
  have hready := hab.dirReady
  refine ⟨hab.running, ?_, ?_, hab.handles, htt.env.same⟩
  · unfold App.withSlot App.setSlot at *
    rw [htt.slot]
    cases ha : a.tsCtx <;> cases hb : b.tsCtx <;> rw [ha, hb] at hstreams <;> simp_all
  · unfold App.withSlot App.setSlot at *
    cases ha : a.tsCtx <;> cases hb : b.tsCtx <;> rw [ha, hb] at hready <;> simp_all

theorem slotAt_withSlot {s : SlotSt} (hi : HasSlot a i) : (a.withSlot i s).slotAt i = s.slot := by
  show (a.setSlot i s.slot).slotAt i = s.slot
  rw [slotAt_setSlot hi, if_pos rfl]

def atStream (cfg : Cfg) (h : Nat) (m : Nat → AppM Status Unit) : AppM Status Unit := do
  match (← get).handles h with
  | none => throw .ERR_INVAL
  | some name =>
    tsCtxGetOrAlloc cfg .ERR_INVAL
    match (← get).slotFind name with
    | none => throw .ERR_INVAL
    | some i => m i

theorem tsAppendI64_atStream (cfg : Cfg) (h : Nat) (sample : Sample) : tsAppendI64 cfg h sample =
    atStream cfg h fun i => onSlot i (appendRecord cfg sample) >>= appendFlush cfg h i := rfl

theorem tsAppendBatchI64_atStream (cfg : Cfg) (h : Nat) {samples : List Sample} (hne : samples ≠ []) :
    tsAppendBatchI64 cfg h samples =
      atStream cfg h fun i => onSlot i (appendRecords cfg samples) >>= fun _ => batchFlush cfg h i := by
  have hemp : samples.isEmpty = false := by simpa using hne
  unfold tsAppendBatchI64
  rw [hemp]
  rfl

/-- The handle leads to slot `i`. -/
structure OnStream (a : App) (h i : Nat) : Prop where
  running : a.cfgSet = true
  slot : ∃ name, a.handles h = some name ∧ a.slotFind name = some i

theorem OnStream.hasSlot (ho : OnStream a h i) : HasSlot a i := by
  obtain ⟨name, -, hfind⟩ := ho.slot
  exact hasSlot_of_inUse (slotFind_some hfind).1

theorem OnStream.ctx (ho : OnStream a h i) : a.tsCtx.isSome = true := by
  obtain ⟨ctx, hctx, -⟩ := ho.hasSlot
  rw [hctx]
  rfl

theorem OnStream.inUse (ho : OnStream a h i) (s : SlotSt) : InUse h (a.withSlot i s) := by
  obtain ⟨name, hh, -⟩ := ho.slot
  refine ⟨?_, ho.running, ?_⟩
  · show (a.handles h).isSome = true
    rw [hh]
    rfl
  · show (a.tsCtx.map _).isSome = true
    rw [Option.isSome_map]
    exact ho.ctx

theorem OnStream.run (ho : OnStream a h i) (cfg : Cfg) (m : Nat → AppM Status Unit) : (atStream cfg h m).run a = (m i).run a := by
  obtain ⟨name, hh, hfind⟩ := ho.slot
  refine run_then (show (get : AppM Status App).run a = .ok a a from rfl) ?_
  rw [hh]
  refine run_then (run_tsCtxGetOrAlloc_up ho.running ho.ctx _) (run_then (show (get : AppM Status App).run a = .ok a a from rfl) ?_)
  rw [hfind]

theorem OnStream.held {b : App} (ho : OnStream a h i) (hheld : b.held cfg = a.held cfg) : OnStream b h i := by
  obtain ⟨name, hh, hfind⟩ := ho.slot
  refine ⟨(congrArg (fun x => x.2.2) hheld).trans ho.running, name, ?_, ?_⟩
  · rw [handles_of_held hheld, hh]
  · rw [slotFind_of_claims (claims_of_held hheld), hfind]

theorem atStream_cases (cfg : Cfg) (h : Nat) (hc : a.env.Clean) :
    (∃ b, ∀ m, (atStream cfg h m).run a = .error .ERR_INVAL b) ∨
      ∃ b i, b.env.Clean ∧ OnStream b h i ∧ ∀ m, (atStream cfg h m).run a = (m i).run b := by
  have hget : ∀ b : App, (get : AppM Status App).run b = .ok b b := fun _ => rfl
  cases hh : a.handles h with
  | none =>
    refine .inl ⟨a, fun m => run_then (hget a) ?_⟩
    rw [hh]
    rfl
  | some name =>
  cases hset : a.cfgSet with
  | false =>
    refine .inl ⟨a, fun m => run_then (hget a) ?_⟩
    rw [hh]
    exact run_fails (run_tsCtxGetOrAlloc_down hset _)
  | true =>
  obtain ⟨b, hctx, hal, -⟩ := @tsCtxGetOrAlloc_spec cfg _ hc hset .ERR_INVAL
  cases hfind : b.slotFind name with
  | none =>
    refine .inl ⟨b, fun m => run_then (hget a) ?_⟩
    rw [hh]
    apply run_then hctx
    apply run_then (hget b)
    rw [hfind]
    rfl
  | some i =>
    refine .inr ⟨b, i, hal.env.clean hc, ⟨hal.running.trans hset, name, (congrFun hal.handles h).trans hh, hfind⟩, fun m => ?_⟩
    apply run_then (hget a)
    rw [hh]
    apply run_then hctx
    apply run_then (hget b)
    rw [hfind]

theorem appendRecords_each (cfg : Cfg) (samples : List Sample) {s : SlotSt} (hc : s.env.Clean) (hi : HasSlot a i)
    (hab : SameStores (a.withSlot i s) b) (ho : OnStream b h i) :
    outcome (appendRecords cfg samples) s = outcome (appendEach cfg h samples) b ∧
      (post (appendRecords cfg samples) s).env.Clean ∧
      SameStores (a.withSlot i (post (appendRecords cfg samples) s)) (post (appendEach cfg h samples) b) := by
  induction samples generalizing s b with
  | nil => exact ⟨rfl, hc, hab⟩
  | cons sample samples ih =>
    have hslot : SlotDrift s ⟨b.slotAt i, b.env⟩ := ⟨(hab.slotAt i).trans (slotAt_withSlot hi), hc, hab.env⟩
    obtain ⟨hout, hpost⟩ := drift_appendRecord cfg sample _ _ hslot
    have hsame := sameStores_withSlot hab hpost
    have hone := ho.run cfg fun i => onSlot i (appendRecord cfg sample) >>= appendFlush cfg h i
    rw [← tsAppendI64_atStream] at hone
    cases hrec : outcome (appendRecord cfg sample) s with
    | ok recSize =>
      have hrun := run_onSlot (run_of_outcome (hout.symm.trans hrec))
      obtain ⟨b', hflush, hflushed⟩ := run_appendFlush cfg hpost.env.clean' (ho.inUse _) i recSize
      have hrun' : (tsAppendI64 cfg h sample).run b = .ok () b' := hone.trans (run_then hrun hflush)
      have hsettled := (settles_tsAppendI64 h sample b : Keeps (Settles cfg) _ b).held
      rw [post_of_run hrun'] at hsettled
      rw [appendRecords, appendEach, outcome_bind_ok hrec, post_bind_ok hrec, outcome_then hrun', post_then hrun']
      exact ih hpost.env.clean (hsame.trans hflushed) (ho.held hsettled)
    | error r =>
      have hrun := hone.trans (run_fails (run_onSlot_error (run_of_outcome_error (hout.symm.trans hrec))))
      have hfail : outcome (tsAppendI64 cfg h sample) b = .error r := by simp only [outcome, hrun]
      rw [appendRecords, appendEach, outcome_bind_error hrec, post_bind_error hrec, outcome_bind_error hfail,
        post_bind_error hfail]
      refine ⟨rfl, hpost.env.clean, ?_⟩
      simp only [post, hrun]
      exact hsame

theorem batch_each (cfg : Cfg) (samples : List Sample) (hc : a.env.Clean) (ho : OnStream a h i) :
    outcome (onSlot i (appendRecords cfg samples) >>= fun _ => batchFlush cfg h i) a = outcome (appendEach cfg h samples) a ∧
      SameStores (post (onSlot i (appendRecords cfg samples) >>= fun _ => batchFlush cfg h i) a)
        (post (appendEach cfg h samples) a) := by
  have hself : SameStores (a.withSlot i ⟨a.slotAt i, a.env⟩) a := by
    show SameStores { a.setSlot i (a.slotAt i) with env := a.env } a
    rw [setSlot_self]
    exact SameStores.refl a
  obtain ⟨hout, hclean, hsame⟩ := appendRecords_each cfg samples (s := ⟨a.slotAt i, a.env⟩) hc ho.hasSlot hself ho
  rw [← hout]
  cases hrec : outcome (appendRecords cfg samples) ⟨a.slotAt i, a.env⟩ with
  | ok x =>
    have hrun : (onSlot i (appendRecords cfg samples)).run a = .ok x (a.withSlot i _) := run_onSlot (run_of_outcome hrec)
    obtain ⟨b, hflush, hflushed⟩ := run_batchFlush cfg hclean (ho.inUse _) i
    rw [outcome_then hrun, post_then hrun, post_of_run hflush]
    exact ⟨outcome_of_run hflush, hflushed.symm.trans hsame⟩
  | error r =>
    have hrun := run_onSlot_error (run_of_outcome_error hrec)
    have hbatch : (onSlot i (appendRecords cfg samples) >>= fun _ => batchFlush cfg h i).run a = .error r _ := run_fails hrun
    simp only [outcome, post, hbatch]
    exact ⟨trivial, hsame⟩

theorem run_of_appendEach {samples : List Sample} (hrun : (appendEach cfg h samples).run a = .ok () b) :
    run cfg a (samples.map (Op.append h)) = b := by
  induction samples generalizing a with
  | nil =>
    cases hrun
    rfl
  | cons sample samples ih =>
    obtain ⟨_, c, hone, hrest⟩ := of_run_bind hrun
    show run cfg (post (tsAppendI64 cfg h sample) a) _ = b
    rw [post_of_run hone]
    exact ih hrest

/-- A batch ends in the state of the appends it stands for, the first refused one included, and reports what
that one reports; where none is refused, in the state of all of them. -/
theorem batch_stops_at_refusal {samples : List Sample} (hc : a.env.Clean) (hne : samples ≠ []) :
    outcome (tsAppendBatchI64 cfg h samples) a = outcome (appendEach cfg h samples) a ∧
      SameStores (post (tsAppendBatchI64 cfg h samples) a) (post (appendEach cfg h samples) a) ∧
      (outcome (tsAppendBatchI64 cfg h samples) a = .ok () →
        SameStores (post (tsAppendBatchI64 cfg h samples) a) (run cfg a (samples.map (Op.append h)))) := by
  suffices hboth : outcome (tsAppendBatchI64 cfg h samples) a = outcome (appendEach cfg h samples) a ∧
      SameStores (post (tsAppendBatchI64 cfg h samples) a) (post (appendEach cfg h samples) a) by
    refine ⟨hboth.1, hboth.2, fun hok => ?_⟩
    rw [run_of_appendEach (run_of_outcome (hboth.1.symm.trans hok))]
    exact hboth.2
  rw [tsAppendBatchI64_atStream cfg h hne]
  obtain ⟨sample, rest, rfl⟩ := List.exists_cons_of_ne_nil hne
  rw [appendEach, tsAppendI64_atStream]
  rcases atStream_cases cfg h hc with ⟨b, hrefused⟩ | ⟨b, i, hcb, ho, harrives⟩
  · simp only [outcome, post, hrefused, run_fails (hrefused _)]
    exact ⟨trivial, SameStores.refl b⟩
  · have hboth := batch_each cfg (sample :: rest) hcb ho
    rw [appendEach, tsAppendI64_atStream] at hboth
    simp only [outcome, post, EStateM.run_bind, harrives, ho.run] at hboth ⊢
    exact hboth

end Calls

def twelve : List Sample := (List.range 12).map fun n => ⟨UInt64.ofNat n, 0⟩

/-- Twelve samples on stream `"A"`, which has segments 0 and 1: the buffer of ten records is written out on
the way. -/
theorem twelve_batched :
    outcome (tsAppendBatchI64 (Cfg.small true false true 280) 0 twelve) openedPair = .ok () ∧
      SameStores (post (tsAppendBatchI64 (Cfg.small true false true 280) 0 twelve) openedPair)
        (run (Cfg.small true false true 280) openedPair (twelve.map (Op.append 0))) := by
  have hok : outcome (tsAppendBatchI64 (Cfg.small true false true 280) 0 twelve) openedPair = .ok () := by decide +kernel
  obtain ⟨-, -, hall⟩ := batch_stops_at_refusal (h := 0) (a := openedPair) (fun _ => rfl) (show twelve ≠ [] by decide)
  exact ⟨hok, hall hok⟩

/-- An instance that has opened stream `"A"` on its segment 9999, while a file that is too short for a header is
in the place of segment 10000. -/
def blockedRoll : App :=
  let cfg := Cfg.small true false true 280
  run cfg (App.boot { Sys.blank (fun _ => false) with
    files := [(⟨segmentPath cfg [65] 9999, Format.v1.header [65]⟩ : (_ : Path) × Bytes),
      ⟨segmentPath cfg [65] 10000, [0]⟩].toAList }) [.open 0 [65]]

/-- The eleventh sample is refused, because the roll it asks for fails. The batch ends there; an append of the
twelfth puts it in the buffer. -/
theorem batch_ends_early :
    ((step (Cfg.small true false true 280) blockedRoll (.batch 0 twelve)).2.slotAt 0).ingestUsed = 0 ∧
      ((run (Cfg.small true false true 280) blockedRoll (twelve.map (Op.append 0))).slotAt 0).ingestUsed = 28 := by
  decide +kernel

end ZephyrDB.Ts
