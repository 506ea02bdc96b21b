import ZephyrDB.Ts.Calm
import ZephyrDB.Ts.Trail

/-!
Relations that every call keeps to, with the trail it leaves, as soon as what it
does to one file and to one stream does.
-/

set_option autoImplicit false

namespace ZephyrDB.Ts

open Lib

/-- `zdb_init` and `zdb_deinit`. -/
def Op.lifecycle : Op → Bool
  | .init | .deinit => true
  | _ => false

def HostCall.lifecycle : HostCall → Bool
  | .op o => o.lifecycle
  | _ => false

namespace Trail

theorem always_activePath {cfg : Cfg} {S : Noted SlotSt Trail → Noted SlotSt Trail → Prop} (hS : Chains S)
    (hget : Always S (silent getSlot : TrailM SlotSt Errno StreamCtx)) (hscan : Always S (scanSegments cfg)) :
    Always S (activePath cfg) := by
  refine always_ite (always_bind hS (always_adaptExcept _ hscan) fun _ => ?_) ?_
  · apply always_bind hS hget
    intro slot
    exact always_rethrow hS _
  · apply always_bind hS hget
    intro slot
    exact always_rethrow hS _

/-- A relation on a slot that flushes and appends keep to as soon as a new segment, a write of the buffer and
a record put into it do. -/
structure SlotLaw (cfg : Cfg) (S : Noted SlotSt Trail → Noted SlotSt Trail → Prop) : Prop where
  chains : Chains S
  getSlot : ∀ {ε : Type}, Always S (silent getSlot : TrailM SlotSt ε StreamCtx)
  store : ∀ raw recSize, Always S (storeRecord cfg raw recSize : TrailM SlotSt Status Unit)
  start : ∀ baseTsMs, Always S (startSegment cfg baseTsMs)
  write : ∀ buf used, Always S (writeBuffer cfg buf used)

namespace SlotLaw
variable {cfg : Cfg} {S : Noted SlotSt Trail → Noted SlotSt Trail → Prop} (hS : SlotLaw cfg S)
include hS

theorem roll : Always S (rollSegmentIfFull cfg) :=
  always_bind hS.chains hS.getSlot fun _ => always_ite (hS.start _) (always_pure hS.chains _)

theorem flush : Always S (flushBufferLocked cfg) := by
  apply always_bind hS.chains hS.getSlot
  intro slot
  apply always_guard hS.chains
  cases slot.ingestBuf with
  | none => exact always_throw hS.chains _
  | some buf =>
    refine always_ite (always_bind hS.chains (hS.write _ _) fun _ => ?_) (always_pure hS.chains _)
    exact always_ite hS.roll (always_pure hS.chains _)

theorem stored (raw : Bytes) (size recSize : Nat) : Always S (do
    storeRecord cfg raw size
    return recSize : TrailM SlotSt Status Nat) :=
  always_bind hS.chains (hS.store raw size) fun _ => always_pure hS.chains _

theorem rebase (sample : Sample) : Always S (rebaseRecord cfg sample) := by
  unfold Trail.rebaseRecord
  apply always_guard hS.chains
  apply always_bind hS.chains (always_adaptExcept _ hS.flush)
  intro _
  apply always_bind hS.chains (always_adaptExcept _ (hS.start _))
  intro _
  apply always_bind hS.chains hS.getSlot
  intro slot
  cases slotEncode cfg slot sample with
  | none => exact always_throw hS.chains _
  | some raw => exact hS.stored _ _ _

theorem encode (sample : Sample) (recSize : Nat) : Always S (encodeRecord cfg sample recSize) := by
  apply always_bind hS.chains hS.getSlot
  intro slot
  cases slotEncode cfg slot sample with
  | none => exact hS.rebase sample
  | some raw => exact hS.stored _ _ _

theorem append (sample : Sample) : Always S (appendRecord cfg sample) := by
  apply always_bind hS.chains hS.getSlot
  intro slot
  refine always_guard hS.chains (always_ite ?_ (hS.encode sample _))
  apply always_bind hS.chains (always_adaptExcept _ hS.flush)
  intro _
  exact hS.encode sample _

theorem batch (samples : List Sample) : Always S (appendRecords cfg samples) := by
  induction samples with
  | nil => exact always_pure hS.chains _
  | cons sample samples ih => exact always_bind hS.chains (hS.append sample) fun _ => ih

end SlotLaw

/-- Relations on file systems, slots and instances that go together: the programs on a file or a slot keep
to the first two, and a step on a part of an instance is one of the third. -/
structure Law (cfg : Cfg) (E : Noted Sys Trail → Noted Sys Trail → Prop) (S : Noted SlotSt Trail → Noted SlotSt Trail → Prop)
    (A : Noted App Trail → Noted App Trail → Prop) : Prop where
  chains : Chains A
  onEnv : ∀ {s : Noted App Trail} {t : Noted Sys Trail}, E ⟨s.st.env, s.notes⟩ t → A s ⟨{ s.st with env := t.st }, t.notes⟩
  onSlot : ∀ {ε α : Type} {m : TrailM SlotSt ε α} {i : Nat} {s : Noted App Trail}, (s.st.slotAt i).inUse = true →
    Always S m → Keeps A (onSlot cfg i m) s
  calm : ∀ {s : Noted App Trail} {a : App}, App.Calm cfg s.st a → A s { s with st := a }
  stats : ∀ f, Always A (silent (Ts.onEnv (updStats f)) : TrailM App Status Unit)
  lock : ∀ {s t : Noted App Trail}, A { s with notes := s.notes.add .locked } t → A s { t with notes := t.notes.add .unlocked }
  overCap : Always A (leave .overCap : TrailM App Status Unit)
  undrained : Always A (leave .undrained : TrailM App Status Unit)
  failed : Always A (leave .recoveryFailed >>= fun _ => Trail.onEnv (healthCheck (ε := Status)))
  record : ∀ version baseTsMs raw, Always E (recordDecodeAs version baseTsMs raw)
  header : cfg.segmented = false → ∀ name, Always E (ensureStreamHeader cfg name)
  recover : ∀ name path, Always E (recoverFile name path)
  activePath : Always S (activePath cfg)
  scan : Always S (scanSegments cfg)
  flush : Always S (flushBufferLocked cfg)
  append : ∀ sample, Always S (appendRecord cfg sample)
  batch : ∀ samples, Always S (appendRecords cfg samples)
  claim : ∀ name, Always A (silent (slotClaim cfg name))
  release : ∀ i, Always A (silent (slotRelease i))

variable {cfg : Cfg} {E : Noted Sys Trail → Noted Sys Trail → Prop} {S : Noted SlotSt Trail → Noted SlotSt Trail → Prop}
  {A : Noted App Trail → Noted App Trail → Prop} (hL : Law cfg E S A)

namespace Law
include hL

theorem quiet {ε α : Type} {m : AppM ε α} (hm : Always (App.Calm cfg) m) : Always A (silent m) :=
  always_zoom hm fun _ _ h => hL.calm h

theorem get {ε : Type} : Always A (MonadState.get : TrailM App ε (Noted App Trail)) := always_get hL.chains

theorem inEnv {ε α : Type} {m : TrailM Sys ε α} (hm : Always E m) : Always A (Trail.onEnv m) :=
  always_zoom hm fun _ _ h => hL.onEnv h

theorem underLock {ε α : Type} {m : TrailM App ε α} (hm : Always A m) : Always A (underLock m) := fun s => by
  unfold Keeps Trail.underLock
  rw [post_between]
  exact hL.lock (hm _)

theorem recoverPath (name : Bytes) : Always A (recoverPath cfg name) := by
  refine always_ite (always_bind hL.chains (hL.quiet (calm_tsCtxGetOrAlloc _)) fun _ => ?_) ?_
  · refine fun s => keeps_get_bind ?_
    cases hfind : s.st.slotFind name with
    | none => exact always_throw hL.chains _ s
    | some i => exact keeps_adaptExcept _ (hL.onSlot (slotFind_some hfind).1 hL.activePath)
  · apply always_bind hL.chains hL.get
    intro s
    exact always_guard hL.chains (always_rethrow hL.chains _)

theorem recoverStream (name : Bytes) : Always A (recoverStream cfg name) := by
  apply always_bind hL.chains (hL.stats _)
  intro _
  have hbody := always_bind hL.chains (hL.recoverPath name) fun path => hL.inEnv (hL.recover name path)
  apply always_bind hL.chains (always_attempt hbody)
  intro r
  cases r with
  | ok truncated => exact always_pure hL.chains _
  | error status =>
    apply always_bind hL.chains (hL.stats _)
    intro _
    have hfailed := always_bind hL.chains hL.failed fun _ => always_throw (ε := Status) (α := Nat) hL.chains status
    rwa [bind_assoc] at hfailed

theorem openRecover (name : Bytes) : Always A (openRecover cfg name) := by
  apply always_bind hL.chains (always_attempt (hL.recoverStream name))
  intro r
  cases r with
  | error status => exact always_bind hL.chains (hL.stats _) fun _ => always_throw hL.chains _
  | ok truncated =>
    refine always_ite (always_bind hL.chains (hL.stats _) fun _ => ?_) (always_pure hL.chains _)
    apply always_bind hL.chains hL.overCap
    intro _
    exact always_throw hL.chains _

theorem tsOpen (h : Nat) (name : Bytes) : Always A (tsOpen cfg h name) := by
  unfold Trail.tsOpen
  apply always_guard hL.chains
  apply always_bind hL.chains hL.get
  intro s
  apply always_guard hL.chains
  apply always_bind hL.chains (hL.quiet (calm_tsCtxGetOrAlloc _))
  intro _
  apply always_bind hL.chains (hL.quiet (always_adaptExcept _ calm_ensureStreamDir))
  intro _
  apply always_when hL.chains (fun hsegmented => hL.inEnv (hL.header (by simpa using hsegmented) name))
  apply always_bind hL.chains (hL.claim name)
  intro _
  apply always_bind hL.chains (hL.quiet (calm_bind h _))
  intro _
  exact always_ite (hL.openRecover name) (always_pure hL.chains _)

theorem tsClose (h : Nat) : Always A (tsClose cfg h) := by
  have hflush : ∀ name, Always A (closeFlush cfg name) := fun name s => by
    apply keeps_get_bind
    cases hfind : s.st.slotFind name with
    | none => exact always_pure hL.chains _ s
    | some i =>
      dsimp only
      split
      · exact keeps_adaptExcept _ (hL.onSlot (slotFind_some hfind).1 hL.flush)
      · exact always_pure hL.chains _ s
  apply always_bind hL.chains hL.get
  intro s
  cases s.st.handles h with
  | none => exact always_pure hL.chains _
  | some name =>
    apply always_bind hL.chains (always_attempt (hL.underLock (hflush name)))
    intro status
    have hrest : Always A (do
        silent (modify fun a => a.bind h none)
        rethrow status : TrailM App Status Unit) :=
      always_bind hL.chains (hL.quiet (calm_bind h _)) fun _ => always_rethrow hL.chains _
    apply always_bind hL.chains hL.get
    intro t
    cases t.st.slotFind name with
    | none => exact hrest
    | some i => exact always_bind hL.chains (hL.release i) fun _ => hrest

theorem appendFlush (h i recSize : Nat) : Always A (appendFlush cfg h i recSize) := fun s => by
  have hflush := hL.quiet (@calm_appendFlush cfg h i recSize) s
  unfold Keeps at hflush ⊢
  unfold Trail.appendFlush orLeave orNote
  cases hr : (silent (Ts.appendFlush cfg h i recSize) : TrailM App Status Unit).run s with
  | ok x t =>
    rw [post_of_run hr] at hflush
    rwa [post_of_run (run_orUndo hr)]
  | error r t =>
    rw [post_of_error hr] at hflush
    rw [post_of_error (run_orUndo_error hr)]
    exact hL.chains.trans hflush (hL.undrained t)

theorem tsAppendI64 (h : Nat) (sample : Sample) : Always A (tsAppendI64 cfg h sample) := by
  apply always_bind hL.chains hL.get
  intro s
  cases s.st.handles h with
  | none => exact always_throw hL.chains _
  | some name =>
    apply always_bind hL.chains (hL.quiet (calm_tsCtxGetOrAlloc _))
    intro _
    refine fun t => keeps_get_bind ?_
    cases hfind : t.st.slotFind name with
    | none => exact always_throw hL.chains _ t
    | some i =>
      refine keeps_bind hL.chains ?_ fun recSize u _ => hL.appendFlush h i recSize u
      unfold Keeps Trail.underLock
      rw [post_between]
      exact hL.lock (hL.onSlot (slotFind_some hfind).1 (hL.append sample))

theorem tsAppendBatchI64 (h : Nat) (samples : List Sample) : Always A (tsAppendBatchI64 cfg h samples) := by
  apply always_bind hL.chains hL.get
  intro s
  cases s.st.handles h with
  | none => exact always_throw hL.chains _
  | some name =>
    apply always_guard hL.chains
    apply always_bind hL.chains (hL.quiet (calm_tsCtxGetOrAlloc _))
    intro _
    refine fun t => keeps_get_bind ?_
    cases hfind : t.st.slotFind name with
    | none => exact always_throw hL.chains _ t
    | some i =>
      refine keeps_bind hL.chains ?_ fun _ u _ => ?_
      · unfold Keeps Trail.underLock
        rw [post_between]
        exact hL.lock (hL.onSlot (slotFind_some hfind).1 (hL.batch samples))
      · refine keeps_get_bind (always_ite ?_ (always_pure hL.chains _) u)
        apply always_bind hL.chains (hL.quiet (always_attempt (calm_tsFlushAsync h)))
        intro _
        exact always_pure hL.chains _

theorem flushSlots (is : List Nat) : Always A (flushSlots cfg is) := by
  induction is with
  | nil => exact always_pure hL.chains _
  | cons i rest ih =>
    refine always_bind hL.chains (fun s => keeps_get_bind ?_) fun _ => ih
    dsimp only
    split
    · rename_i hdirty
      have hin : (s.st.slotAt i).inUse = true := (Bool.and_eq_true _ _ ▸ hdirty).1
      apply keeps_bind hL.chains (keeps_attempt (hL.onSlot hin hL.flush))
      intro _ t _
      exact always_pure hL.chains _ t
    · exact always_pure hL.chains _ s

theorem flushWorkHandler : Always A (flushWorkHandler cfg) := by
  refine always_bind hL.chains hL.get fun s => always_ite (always_bind hL.chains ?_ fun _ => ?_) (always_pure hL.chains _)
  · exact hL.underLock (always_bind hL.chains hL.get fun t => hL.flushSlots _)
  · exact hL.quiet (calm_setPending false)

theorem tsFlushSync (h : Nat) : Always A (tsFlushSync cfg h) := by
  apply always_bind hL.chains hL.get
  intro s
  apply always_guard hL.chains
  apply always_bind hL.chains (hL.quiet (calm_tsCtxGetOrAlloc _))
  intro _
  apply always_bind hL.chains (hL.quiet (always_attempt (calm_tsFlushAsync h)))
  intro r
  rcases r with status | _
  · cases status <;> first | exact hL.flushWorkHandler | exact always_throw hL.chains _
  · exact hL.flushWorkHandler

theorem tsRecoverStream (h : Nat) : Always A (tsRecoverStream cfg h) := by
  apply always_bind hL.chains hL.get
  intro s
  cases s.st.handles h with
  | none => exact always_throw hL.chains _
  | some name => exact hL.recoverStream name

end Law

def UnderCursor (A : Noted App Trail → Noted App Trail → Prop) (s t : Noted CurSt Trail) : Prop :=
  A ⟨s.st.app, s.notes⟩ ⟨t.st.app, t.notes⟩

namespace Law
include hL

theorem curChains : Chains (UnderCursor A) := ⟨fun s => hL.chains.refl ⟨s.st.app, s.notes⟩, hL.chains.trans⟩

theorem curQuiet {ε α : Type} {m : CurM ε α} (hm : Always (CurSt.Calm cfg) m) : Always (UnderCursor A) (silent m) :=
  always_zoom hm fun _ _ h => hL.calm h

theorem getCur {ε : Type} : Always (UnderCursor A) (MonadState.get : TrailM CurSt ε (Noted CurSt Trail)) :=
  always_get hL.curChains

theorem curLock {ε α : Type} {m : TrailM CurSt ε α} (hm : Always (UnderCursor A) m) :
    Always (UnderCursor A) (Trail.underLock m) := fun s => by
  unfold Keeps Trail.underLock
  rw [post_between]
  have hin : UnderCursor A { s with notes := s.notes.add .locked } _ := hm _
  exact @Law.lock _ _ _ _ hL ⟨s.st.app, s.notes⟩ ⟨_, _⟩ hin

theorem recordCur {ε : Type} (version : Nat) (baseTsMs : UInt64) (raw : Bytes) :
    Always (UnderCursor A) (onCurEnv (attempt (recordDecodeAs version baseTsMs raw)) : TrailM CurSt ε _) := fun s => by
  unfold Keeps onCurEnv onApp noting
  rw [post_zoom]
  exact hL.inEnv (ε := ε) (always_attempt (hL.record version baseTsMs raw)) ⟨s.st.app, s.notes⟩

theorem cursorNextFile (n : Nat) : Always (UnderCursor A) (cursorNextFile cfg n) := by
  induction n with
  | zero => exact always_pure hL.curChains _
  | succ n ih =>
    apply always_bind hL.curChains hL.getCur
    intro s
    apply always_ite (always_pure hL.curChains _)
    apply always_bind hL.curChains (hL.curQuiet (always_attempt (calm_cursorReadFileRecord _)))
    intro r
    have hupd {f : CursorCtx → CursorCtx} {x : Option (Bytes × Sample)} :
        Always (UnderCursor A) (silent (updCur f) >>= fun _ => (pure x : TrailM CurSt Status _)) :=
      always_bind hL.curChains (hL.curQuiet (calm_updCur _)) fun _ => always_pure hL.curChains _
    rcases r with rc | raw
    · cases rc <;> first | exact always_throw hL.curChains _ | exact hupd
    · apply always_bind hL.curChains hL.getCur
      intro t
      apply always_bind hL.curChains (hL.recordCur _ _ _)
      intro sample
      rcases sample with rc | sample
      · cases rc <;> first | exact ih | exact always_throw hL.curChains _
      · exact always_ite hupd ih

theorem cursorNextBuf (slot : StreamCtx) (buf : Bytes) (n : Nat) : Always (UnderCursor A) (cursorNextBuf cfg slot buf n) := by
  induction n with
  | zero => exact always_throw hL.curChains _
  | succ n ih =>
    apply always_bind hL.curChains hL.getCur
    intro s
    apply always_guard hL.curChains
    apply always_bind hL.curChains (hL.recordCur _ _ _)
    intro sample
    rcases sample with rc | sample
    · cases rc <;> first
        | exact always_throw hL.curChains _
        | exact always_bind hL.curChains (hL.curQuiet (calm_updCur _)) fun _ => ih
    · apply always_bind hL.curChains (hL.curQuiet (calm_updCur _))
      intro _
      refine always_ite ?_ ih
      apply always_bind hL.curChains (hL.curQuiet (calm_updCur _))
      intro _
      exact always_pure hL.curChains _

theorem cursorNextRam : Always (UnderCursor A) (cursorNextRam cfg) := by
  apply always_bind hL.curChains (hL.curQuiet (calm_onApp (calm_tsCtxGetOrAlloc _)))
  intro _
  apply always_bind hL.curChains hL.getCur
  intro s
  cases s.st.app.slotFind s.st.cur.streamName with
  | none => exact always_throw hL.curChains _
  | some i =>
    dsimp only
    cases (s.st.app.slotAt i).ingestBuf with
    | none => exact always_throw hL.curChains _
    | some buf => exact hL.curLock (hL.cursorNextBuf _ buf _)

theorem cursorNext : Always (UnderCursor A) (cursorNext cfg) := by
  have hfound (n : Nat) {k : Option (Bytes × Sample) → TrailM CurSt Status (Bytes × Sample)}
      (hsome : ∀ x, k (some x) = pure x) (hnone : Always (UnderCursor A) (k none)) :
      Always (UnderCursor A) (Trail.cursorNextFile cfg n >>= k) := by
    apply always_bind hL.curChains (hL.cursorNextFile n)
    intro found
    cases found with
    | some x =>
      rw [hsome]
      exact always_pure hL.curChains _
    | none => exact hnone
  apply always_bind hL.curChains hL.getCur
  intro s
  refine always_ite ?_ (hfound _ (fun _ => rfl) hL.cursorNextRam)
  apply always_bind hL.curChains (always_attempt hL.cursorNextRam)
  intro r
  rcases r with rc | found
  · cases rc <;> first | exact always_throw hL.curChains _ | exact hfound _ (fun _ => rfl) (always_throw hL.curChains _)
  · exact always_pure hL.curChains _

theorem withCursor {ε α : Type} (c : CursorCtx) {m : TrailM CurSt ε α} (hm : Always (UnderCursor A) m) :
    Always A (withCursor c m) := by
  refine always_zoom (Q := UnderCursor A) ?_ fun _ _ h => h
  apply always_bind hL.curChains hm
  intro x
  apply always_bind hL.curChains hL.getCur
  intro _
  exact always_pure hL.curChains _

theorem cursorWindow (name : Bytes) : Always A (cursorWindow cfg name) := by
  apply always_bind hL.chains (hL.quiet (calm_tsCtxGetOrAlloc _))
  intro _
  refine fun s => keeps_get_bind ?_
  cases hfind : s.st.slotFind name with
  | none => exact always_throw hL.chains _ s
  | some i =>
    apply keeps_bind hL.chains (keeps_adaptExcept _ (hL.onSlot (slotFind_some hfind).1 hL.scan))
    intro _ t _
    exact keeps_get_bind (always_pure hL.chains _ t)

theorem cursorOpenDir (h : Nat) (window : Window) (predicate : Option (Bytes → Bool)) (descending : Bool) :
    Always A (cursorOpenDir cfg h window predicate descending) := by
  apply always_bind hL.chains hL.get
  intro s
  cases s.st.handles h with
  | none => exact always_throw hL.chains _
  | some name =>
    have hopen {m : CurM Status Unit} (c : CursorCtx) (hm : Always (CurSt.Calm cfg) m) :
        Always A (silent (Ts.withCursor c (m >>= fun _ => cursorReset)) >>= fun p => (pure p.2 : TrailM App Status _)) :=
      always_bind hL.chains (hL.quiet (calm_withCursor _ (always_bind (curCalm_chains cfg) hm fun _ => calm_cursorReset)))
        fun _ => always_pure hL.chains _
    apply always_guard hL.chains
    apply always_when hL.chains (fun hsegmented => hL.inEnv (hL.header (by simpa using hsegmented) name))
    refine always_bind hL.chains (hL.quiet (calm_onEnv (always_adaptExcept _ calm_call))) fun _ => always_ite ?_ ?_
    · apply always_bind hL.chains (hL.cursorWindow name)
      intro w
      exact hopen _ (calm_cursorOpenSegment _)
    · exact hopen _ (calm_cursorOpenStream name)

theorem cursorWalk (n : Nat) : Always (UnderCursor A) (cursorWalk cfg n) := by
  induction n with
  | zero => exact always_pure hL.curChains _
  | succ n ih =>
    apply always_bind hL.curChains (always_attempt hL.cursorNext)
    intro _
    apply always_bind hL.curChains ih
    intro _
    exact always_pure hL.curChains _

theorem queryCursor (h : Nat) (window : Window) (predicate : Option (Bytes → Bool)) (descending : Bool) (n : Nat) :
    Always A (queryCursor cfg h window predicate descending n) :=
  always_bind hL.chains (hL.cursorOpenDir h window predicate descending) fun c =>
    always_bind hL.chains (hL.withCursor c (hL.cursorWalk n)) fun _ => always_pure hL.chains _

theorem countScan (n points : Nat) : Always (UnderCursor A) (countScan cfg n points) := by
  induction n generalizing points with
  | zero => exact always_pure hL.curChains _
  | succ n ih =>
    apply always_bind hL.curChains (always_attempt hL.cursorNext)
    intro r
    rcases r with rc | found
    · cases rc <;> first | exact always_pure hL.curChains _ | exact always_throw hL.curChains _
    · exact ih _

theorem tsQueryCount (h : Nat) (window : Window) : Always A (tsQueryCount cfg h window) := by
  apply always_bind hL.chains hL.get
  intro s
  cases s.st.handles h with
  | none => exact always_throw hL.chains _
  | some name =>
    apply always_ite (hL.quiet (calm_tsCountAll name))
    apply always_bind hL.chains (hL.cursorOpenDir h window none false)
    intro c
    apply always_bind hL.chains hL.get
    intro t
    apply always_bind hL.chains (hL.withCursor c (hL.countScan _ _))
    intro _
    exact always_pure hL.chains _

theorem aggScan (agg : Agg) (n : Nat) (acc : Nat × Float) : Always (UnderCursor A) (aggScan cfg agg n acc) := by
  induction n generalizing acc with
  | zero => exact always_pure hL.curChains _
  | succ n ih =>
    apply always_bind hL.curChains (always_attempt hL.cursorNext)
    intro r
    rcases r with rc | found
    · cases rc <;> first | exact always_pure hL.curChains _ | exact always_throw hL.curChains _
    · exact ih _

theorem aggPeek (cap : Nat) (acc : Nat × Float) : Always (UnderCursor A) (aggPeek cfg cap acc) := by
  refine always_ite (always_bind hL.curChains (always_attempt hL.cursorNext) fun r => ?_) (always_pure hL.curChains _)
  cases r <;> exact always_pure hL.curChains _

theorem tsQueryAggregate (cap : AggCap) (h : Nat) (window : Window) (agg : Agg) :
    Always A (tsQueryAggregate cfg cap h window agg) := by
  apply always_ite (always_bind hL.chains (hL.tsQueryCount h window) fun _ => always_pure hL.chains _)
  apply always_bind hL.chains (hL.cursorOpenDir h window none false)
  intro c
  have hscan := always_bind hL.curChains (hL.aggScan agg cap.val (0, 0)) fun acc => hL.aggPeek cap.val acc
  apply always_bind hL.chains (hL.withCursor c hscan)
  intro r
  exact always_guard hL.chains (always_pure hL.chains _)

theorem op (o : Op) (ho : o.lifecycle = false) : Always A (op cfg o) := by
  cases o with
  | init => cases ho
  | deinit => cases ho
  | «open» h name => exact hL.tsOpen h name
  | close h => exact hL.tsClose h
  | append h sample => exact hL.tsAppendI64 h sample
  | batch h samples => exact hL.tsAppendBatchI64 h samples
  | flushAsync h => exact hL.quiet (calm_tsFlushAsync h)
  | flushSync h => exact hL.tsFlushSync h
  | drain => exact hL.flushWorkHandler
  | recover h => exact always_bind hL.chains (hL.tsRecoverStream h) fun _ => always_pure hL.chains _
  | count h window => exact always_bind hL.chains (hL.tsQueryCount h window) fun _ => always_pure hL.chains _
  | cursor h window predicate descending n =>
    apply always_bind hL.chains (hL.queryCursor h window predicate descending n)
    intro _
    exact always_pure hL.chains _

theorem markOp (o : MarkOp) : Always A (markOp cfg o) := by
  cases o with
  | set h tsMs => exact hL.quiet (calm_tsWatermarkSet h tsMs)
  | get h => exact always_bind hL.chains (hL.quiet (calm_tsWatermarkGet h)) fun _ => always_pure hL.chains _
  | clear h => exact hL.quiet (calm_tsWatermarkClear h)

end Law

end Trail

theorem Host.step_law {cfg : Cfg} {E : Noted Sys Trail → Noted Sys Trail → Prop}
    {S : Noted SlotSt Trail → Noted SlotSt Trail → Prop} {A : Noted App Trail → Noted App Trail → Prop}
    (hL : Trail.Law cfg E S A) (cap : AggCap) (w : Host) {call : HostCall} (hcall : call.lifecycle = false) :
    ∃ others, A ⟨w.app, ⟨[], []⟩⟩ ⟨(w.step cfg cap call).host.app, ⟨(w.step cfg cap call).marks, others⟩⟩ := by
  have happ : ∀ {α : Type} {m : Trail.TrailM App Status α}, Always A m →
      ∃ others, A ⟨w.app, ⟨[], []⟩⟩ ⟨(w.call m).host.app, ⟨(w.call m).marks, others⟩⟩ := fun hm => ⟨_, hm _⟩
  have hcursor : ∀ {α : Type} {m : Trail.TrailM CurSt Status α} (k : Nat) (c : CursorCtx), Always (Trail.UnderCursor A) m →
      ∃ others, A ⟨w.app, ⟨[], []⟩⟩ ⟨(w.onCursor m k c).host.app, ⟨(w.onCursor m k c).marks, others⟩⟩ :=
    fun k c hm => ⟨_, hm ⟨⟨c, w.app⟩, ⟨[], []⟩⟩⟩
  have hidle : ∃ others, A ⟨w.app, ⟨[], []⟩⟩ ⟨w.app, ⟨[], others⟩⟩ := ⟨_, hL.chains.refl _⟩
  cases call with
  | op op => exact happ (hL.op op hcall)
  | mark op => exact happ (hL.markOp op)
  | aggregate h window agg => exact happ (hL.tsQueryAggregate cap h window agg)
  | openCursor h window predicate descending =>
    have h := happ (hL.cursorOpenDir h window predicate descending)
    unfold Host.step
    dsimp only
    split <;> exact h
  | next k =>
    unfold Host.step
    dsimp only
    split
    · exact hcursor k _ hL.cursorNext
    · exact hidle
  | reset k =>
    unfold Host.step
    dsimp only
    split
    · exact hcursor k _ (hL.curQuiet calm_cursorReset)
    · exact hidle
  | close k => exact hidle

end ZephyrDB.Ts
