import ZephyrDB.Ts.Run

/-!
What the calls do to the diagnostics of an instance. A relation that the marks
left by a refused header or record respect is respected by every program that
leaves no other mark; the marks of a recovery are spoken about on their own.
-/

set_option autoImplicit false

namespace ZephyrDB.Ts

open Lib

structure Bears (R : Diag → Diag → Prop) : Prop where
  refl : ∀ d, R d d
  trans : ∀ {a b c}, R a b → R b c → R a c
  crcFailure : ∀ d, R d { d with stats := { d.stats with crcFailures := d.stats.crcFailures + 1 } }
  corruptRecord : ∀ d, R d { d with stats := { d.stats with corruptRecords := d.stats.corruptRecords + 1 } }
  unsupportedVersion : ∀ d, R d { d with stats := { d.stats with unsupportedVersions := d.stats.unsupportedVersions + 1 } }
  degraded : ∀ d, R d { d with health := .DEGRADED }

def Marked (R : Diag → Diag → Prop) (e e' : Sys) : Prop := R e.side e'.side

def SlotSt.Marked (R : Diag → Diag → Prop) (s t : SlotSt) : Prop := Ts.Marked R s.env t.env

def App.Marked (R : Diag → Diag → Prop) (a b : App) : Prop := Ts.Marked R a.env b.env

def CurSt.Marked (R : Diag → Diag → Prop) (s t : CurSt) : Prop := App.Marked R s.app t.app

theorem bears_of_field {α : Type} (f : Diag → α)
    (hcrc : ∀ d, f { d with stats := { d.stats with crcFailures := d.stats.crcFailures + 1 } } = f d)
    (hcorrupt : ∀ d, f { d with stats := { d.stats with corruptRecords := d.stats.corruptRecords + 1 } } = f d)
    (hunsupported : ∀ d, f { d with stats := { d.stats with unsupportedVersions := d.stats.unsupportedVersions + 1 } } = f d)
    (hdegraded : ∀ d, f { d with health := .DEGRADED } = f d) : Bears fun d d' => f d' = f d :=
  ⟨fun _ => rfl, fun h k => k.trans h, hcrc, hcorrupt, hunsupported, hdegraded⟩

section Bears
variable {R : Diag → Diag → Prop} {cfg : Cfg}

theorem Bears.chains (hR : Bears R) : Chains (Marked R) := ⟨fun e => hR.refl e.side, hR.trans⟩

theorem Bears.side (hR : Bears R) {ε α : Type} {m : EStateM ε Sys α} (h : Fixes Env.side m) : Always (Marked R) m :=
  fun e => by
    unfold Keeps Marked
    rw [h e]
    exact hR.refl e.side

theorem Bears.toStatus (hR : Bears R) {α : Type} {m : Rc α} (h : Fixes Env.side m) : Always (Marked R) (toStatus m) :=
  always_adaptExcept _ (hR.side h)

theorem Bears.healthCheck (hR : Bears R) {ε : Type} : Always (Marked R) (healthCheck (ε := ε)) := by
  apply always_modify
  intro e
  cases hh : e.side.health with
  | OK => exact hR.degraded e.side
  | DEGRADED => exact hR.refl e.side
  | READONLY => exact hR.refl e.side
  | FAULT => exact hR.refl e.side

theorem Bears.stops (hR : Bears R) {α β : Type} (r : Status) (g : α → Zdb β) : Always (Marked R) (throw r >>= g) :=
  fun e => hR.refl e.side

theorem Bears.statCrcFailure (hR : Bears R) {ε : Type} : Always (Marked R) (ZephyrDB.statCrcFailure (ε := ε)) :=
  fun e => hR.crcFailure e.side

theorem Bears.statCorruptRecord (hR : Bears R) {ε : Type} : Always (Marked R) (ZephyrDB.statCorruptRecord (ε := ε)) :=
  fun e => hR.corruptRecord e.side

theorem Bears.statUnsupportedVersion (hR : Bears R) {ε : Type} :
    Always (Marked R) (ZephyrDB.statUnsupportedVersion (ε := ε)) :=
  fun e => hR.unsupportedVersion e.side

theorem Bears.recordDecodeAs (hR : Bears R) (version : Nat) (baseTsMs : UInt64) (raw : Bytes) :
    Always (Marked R) (recordDecodeAs version baseTsMs raw) := by
  have hcorrupt : ∀ g : PUnit → Zdb Sample, Always (Marked R) (do
      ZephyrDB.statCorruptRecord
      ZephyrDB.healthCheck
      throw .ERR_CORRUPT >>= g) := fun g =>
    always_bind hR.chains hR.statCorruptRecord fun _ => always_bind hR.chains hR.healthCheck fun _ => hR.stops _ g
  have hcrc : ∀ g : PUnit → Zdb Sample, Always (Marked R) (do
      ZephyrDB.statCrcFailure
      ZephyrDB.statCorruptRecord
      ZephyrDB.healthCheck
      throw .ERR_CORRUPT >>= g) := fun g => always_bind hR.chains hR.statCrcFailure fun _ => hcorrupt g
  have hunsupported : ∀ g : PUnit → Zdb Sample, Always (Marked R) (do
      ZephyrDB.statUnsupportedVersion
      throw .ERR_UNSUPPORTED >>= g) := fun g => always_bind hR.chains hR.statUnsupportedVersion fun _ => hR.stops _ g
  apply always_ite (always_ite (hcrc _) (always_pure hR.chains _))
  refine always_ite (hcorrupt _) (always_ite (hunsupported _) (always_ite (hcrc _) (always_pure hR.chains _)))

theorem Bears.headers (hR : Bears R) {α β : Type} (g : α → Zdb β) :
    Always (Marked R) (ZephyrDB.statCorruptRecord >>= fun _ => throw .ERR_CORRUPT >>= g) ∧
      Always (Marked R) (ZephyrDB.statUnsupportedVersion >>= fun _ => throw .ERR_UNSUPPORTED >>= g) ∧
      Always (Marked R) (ZephyrDB.statCrcFailure >>= fun _ => ZephyrDB.statCorruptRecord >>= fun _ =>
        throw .ERR_CORRUPT >>= g) := by
  have hcorrupt := always_bind hR.chains hR.statCorruptRecord fun _ => hR.stops .ERR_CORRUPT g
  exact ⟨hcorrupt, always_bind hR.chains hR.statUnsupportedVersion fun _ => hR.stops _ g,
    always_bind hR.chains hR.statCrcFailure fun _ => hcorrupt⟩

theorem Bears.streamHeaderDecode (hR : Bears R) (raw name : Bytes) :
    Always (Marked R) (streamHeaderDecode raw name) := by
  refine always_ite (hR.headers _).1 (always_ite (hR.headers _).2.1 (always_ite (hR.headers _).2.2 (always_ite ?_ ?_)))
  · apply always_bind hR.chains hR.statCorruptRecord
    intro _
    exact always_throw hR.chains _
  · exact always_pure hR.chains _

theorem Bears.streamHeaderV2Decode (hR : Bears R) (raw name : Bytes) :
    Always (Marked R) (streamHeaderV2Decode raw name) :=
  always_ite (hR.headers _).1 (always_ite (hR.headers _).2.2 (always_ite (hR.headers _).1 (always_pure hR.chains _)))

theorem Bears.ensureHeaderEx (hR : Bears R) (name path : Bytes) (baseTsMs : UInt64) :
    Always (Marked R) (ensureHeaderEx cfg name path baseTsMs) := by
  apply always_bind hR.chains (hR.toStatus (fixes_fsOpen _ _ _))
  intro _
  refine always_bind hR.chains (hR.toStatus (fixes_fsRead _ _ _)) fun raw => always_ite ?_ ?_
  · apply always_bind hR.chains (hR.toStatus fixes_call)
    intro _
    apply always_bind hR.chains (hR.toStatus (fixes_fsWrite _ _ _))
    intro wr
    exact always_guard hR.chains (always_pure hR.chains _)
  · refine always_ite (always_throw hR.chains _) (always_ite (always_guard hR.chains ?_) ?_)
    · apply always_bind hR.chains (hR.streamHeaderV2Decode _ _)
      intro _
      exact always_pure hR.chains _
    · apply always_bind hR.chains (hR.streamHeaderDecode _ _)
      intro _
      exact always_pure hR.chains _

theorem Bears.cursorLearnLayout (hR : Bears R) (path : Path) : Always (Marked R) (cursorLearnLayout path) := by
  have hv1 : Always (Marked R) (pure FileLayout.v1 : Zdb FileLayout) := always_pure hR.chains _
  apply always_bind hR.chains (hR.toStatus (fixes_fsOpen _ _ _))
  intro _
  apply always_bind hR.chains (always_attempt (hR.side (fixes_fsRead _ _ _)))
  intro r
  split
  · exact hv1
  · exact always_ite hv1 (always_ite hv1 (always_ite (always_throw hR.chains _) (always_pure hR.chains _)))

theorem Bears.adoptLegacy (hR : Bears R) (name : Bytes) : Always (Marked R) (adoptLegacy cfg name) := by
  apply always_bind hR.chains (always_rethrow hR.chains _)
  intro legacy
  apply always_bind hR.chains (always_rethrow hR.chains _)
  intro seg
  apply always_bind hR.chains (always_attempt (hR.side (fixes_fsStat _)))
  intro r
  split
  · exact hR.toStatus (fixes_fsRename _ _)
  · exact always_pure hR.chains _

theorem Bears.unlinkIfPresent (hR : Bears R) (path : Path) : Always (Marked R) (unlinkIfPresent path) := by
  apply always_bind hR.chains (always_attempt (hR.side (fixes_fsUnlink _)))
  intro r
  split
  · exact always_pure hR.chains _
  · exact always_pure hR.chains _
  · exact always_throw hR.chains _

theorem Bears.discardSegment (hR : Bears R) (path : Path) : Always (Marked R) (discardSegment cfg path) := by
  unfold Ts.discardSegment
  split
  · apply always_bind hR.chains (always_attempt (hR.side (fixes_fsStat _)))
    intro _
    exact hR.unlinkIfPresent path
  · exact hR.unlinkIfPresent path

theorem Bears.slotChains (hR : Bears R) : Chains (SlotSt.Marked R) := ⟨fun s => hR.refl s.env.side, hR.trans⟩

theorem marked_onSys {ε α : Type} {m : EStateM ε Sys α} (h : Always (Marked R) m) :
    Always (SlotSt.Marked R) (onSys m) :=
  always_zoom h fun _ _ h => h

theorem Bears.updSlot (hR : Bears R) {ε : Type} (f : StreamCtx → StreamCtx) :
    Always (SlotSt.Marked R) (updSlot (ε := ε) f) :=
  fun s => hR.refl s.env.side

theorem Bears.getSlot (hR : Bears R) {ε : Type} : Always (SlotSt.Marked R) (getSlot (ε := ε)) :=
  fun s => hR.refl s.env.side

theorem Bears.learnNewest (hR : Bears R) (name : Bytes) (lowest highest : Nat) :
    Always (SlotSt.Marked R) (learnNewest cfg name lowest highest) := by
  apply always_bind hR.slotChains (hR.updSlot _)
  intro _
  apply always_bind hR.slotChains (always_rethrow hR.slotChains _)
  intro segPath
  apply always_bind hR.slotChains (marked_onSys (hR.ensureHeaderEx _ _ _))
  intro vb
  apply always_bind hR.slotChains (hR.updSlot _)
  intro _
  apply always_bind hR.slotChains (marked_onSys (always_attempt (hR.side (fixes_fsStat _))))
  intro size
  exact hR.updSlot _

theorem Bears.scanSegments (hR : Bears R) : Always (SlotSt.Marked R) (scanSegments cfg) := by
  apply always_bind hR.slotChains hR.getSlot
  intro slot
  apply always_ite (always_pure hR.slotChains _)
  apply always_guard hR.slotChains
  apply always_bind hR.slotChains (marked_onSys (always_attempt (hR.side (fixes_fsList _))))
  intro entries
  refine always_ite ?_ (hR.learnNewest _ _ _)
  apply always_bind hR.slotChains (marked_onSys (hR.adoptLegacy _))
  intro _
  exact hR.learnNewest _ _ _

theorem Bears.discardSegments (hR : Bears R) (n : Nat) : Always (SlotSt.Marked R) (discardSegments cfg n) := by
  induction n with
  | zero => exact always_pure hR.slotChains _
  | succ n ih =>
    apply always_bind hR.slotChains hR.getSlot
    intro slot
    refine always_ite ?_ (always_pure hR.slotChains _)
    apply always_bind hR.slotChains (always_rethrow hR.slotChains _)
    intro segPath
    apply always_bind hR.slotChains (marked_onSys (hR.discardSegment _))
    intro _
    apply always_bind hR.slotChains (hR.updSlot _)
    intro _
    exact ih

theorem Bears.startSegment (hR : Bears R) (baseTsMs : UInt64) :
    Always (SlotSt.Marked R) (startSegment cfg baseTsMs) := by
  apply always_bind hR.slotChains (hR.updSlot _)
  intro _
  apply always_bind hR.slotChains hR.getSlot
  intro slot
  apply always_bind hR.slotChains (always_rethrow hR.slotChains _)
  intro segPath
  apply always_bind hR.slotChains (marked_onSys (always_adaptExcept _ (hR.ensureHeaderEx _ _ _)))
  intro vb
  apply always_bind hR.slotChains (hR.updSlot _)
  intro _
  exact always_ite (hR.discardSegments _) (always_pure hR.slotChains _)

theorem Bears.rollSegmentIfFull (hR : Bears R) : Always (SlotSt.Marked R) (rollSegmentIfFull cfg) :=
  always_bind hR.slotChains hR.getSlot fun _ => always_ite (hR.startSegment _) (always_pure hR.slotChains _)

theorem Bears.activePath (hR : Bears R) : Always (SlotSt.Marked R) (activePath cfg) := by
  refine always_ite (always_bind hR.slotChains (always_adaptExcept _ hR.scanSegments) fun _ => ?_) ?_
  · apply always_bind hR.slotChains hR.getSlot
    intro slot
    exact always_rethrow hR.slotChains _
  · apply always_bind hR.slotChains hR.getSlot
    intro slot
    exact always_rethrow hR.slotChains _

theorem Bears.flushBufferLocked (hR : Bears R) : Always (SlotSt.Marked R) (flushBufferLocked cfg) := by
  apply always_bind hR.slotChains hR.getSlot
  intro slot
  split
  · exact always_guard hR.slotChains (always_throw hR.slotChains _)
  refine always_guard hR.slotChains (always_ite ?_ (always_pure hR.slotChains _))
  refine always_bind hR.slotChains ?_ fun _ => always_ite hR.rollSegmentIfFull (always_pure hR.slotChains _)
  apply always_bind hR.slotChains hR.activePath
  intro path
  apply always_bind hR.slotChains (marked_onSys (hR.side (fixes_fsOpen _ _ _)))
  intro _
  apply always_bind hR.slotChains (marked_onSys (hR.side (fixes_fsAppend _ _)))
  intro wr
  apply always_guard hR.slotChains
  apply always_bind hR.slotChains (marked_onSys (hR.side fixes_call))
  intro _
  exact hR.updSlot _

theorem Bears.appendRecord (hR : Bears R) (sample : Sample) :
    Always (SlotSt.Marked R) (appendRecord cfg sample) := by
  have hrebase : Always (SlotSt.Marked R) (rebaseRecord cfg sample) := by
    unfold rebaseRecord
    apply always_guard hR.slotChains
    apply always_bind hR.slotChains (always_adaptExcept _ hR.flushBufferLocked)
    intro _
    apply always_bind hR.slotChains (always_adaptExcept _ (hR.startSegment _))
    intro _
    apply always_bind hR.slotChains hR.getSlot
    intro slot
    split
    · exact always_throw hR.slotChains _
    · apply always_bind hR.slotChains (hR.updSlot _)
      intro _
      exact always_pure hR.slotChains _
  have hencode : ∀ recSize, Always (SlotSt.Marked R) (encodeRecord cfg sample recSize) := by
    intro recSize
    apply always_bind hR.slotChains hR.getSlot
    intro slot
    split
    · apply always_bind hR.slotChains (hR.updSlot _)
      intro _
      exact always_pure hR.slotChains _
    · exact hrebase
  apply always_bind hR.slotChains hR.getSlot
  intro slot
  refine always_guard hR.slotChains (always_ite ?_ (hencode _))
  apply always_bind hR.slotChains (always_adaptExcept _ hR.flushBufferLocked)
  intro _
  exact hencode _

theorem Bears.appendRecords (hR : Bears R) (samples : List Sample) :
    Always (SlotSt.Marked R) (appendRecords cfg samples) := by
  induction samples with
  | nil => exact always_pure hR.slotChains _
  | cons sample samples ih => exact always_bind hR.slotChains (hR.appendRecord sample) fun _ => ih

theorem Bears.appChains (hR : Bears R) : Chains (App.Marked R) := ⟨fun a => hR.refl a.env.side, hR.trans⟩

theorem marked_onEnv {ε α : Type} {m : EStateM ε Sys α} (h : Always (Marked R) m) : Always (App.Marked R) (onEnv m) :=
  always_zoom h fun _ _ h => h

theorem marked_onSlot {ε α : Type} {m : SlotM ε α} (i : Nat) (h : Always (SlotSt.Marked R) m) :
    Always (App.Marked R) (onSlot i m) :=
  always_zoom h fun _ _ h => h

theorem Bears.getApp (hR : Bears R) {ε : Type} : Always (App.Marked R) (get : AppM ε App) := always_get hR.appChains

theorem Bears.modifyApp (hR : Bears R) {ε : Type} {f : App → App} (h : ∀ a, (f a).env = a.env) :
    Always (App.Marked R) (modify f : AppM ε PUnit) :=
  always_modify fun a => by
    unfold App.Marked Marked
    rw [h a]
    exact hR.refl a.env.side

theorem Bears.tsCtxGetOrAlloc (hR : Bears R) (onNull : Status) :
    Always (App.Marked R) (tsCtxGetOrAlloc cfg onNull) := by
  apply always_bind hR.appChains hR.getApp
  intro a
  apply always_guard hR.appChains
  split
  · exact always_pure hR.appChains _
  · apply always_bind hR.appChains (marked_onEnv (always_adaptExcept _ (hR.side fixes_call)))
    intro _
    apply hR.modifyApp
    intro _
    exact rfl

theorem Bears.ensureStreamDir (hR : Bears R) : Always (App.Marked R) (ensureStreamDir cfg) := by
  apply always_bind hR.appChains hR.getApp
  intro a
  refine always_ite ?_ (always_pure hR.appChains _)
  apply always_guard hR.appChains
  apply always_bind hR.appChains (marked_onEnv (always_attempt (hR.side fixes_call)))
  intro r
  split
  · exact hR.modifyApp fun _ => rfl
  · apply always_bind hR.appChains (always_throw hR.appChains _)
    intro _
    apply hR.modifyApp
    intro _
    exact rfl
  · exact hR.modifyApp fun _ => rfl

theorem Bears.ensureStreamHeader (hR : Bears R) (name : Bytes) : Always (Marked R) (ensureStreamHeader cfg name) :=
  always_bind hR.chains (always_rethrow hR.chains _) fun _ =>
    always_bind hR.chains (hR.ensureHeaderEx _ _ _) fun _ => always_pure hR.chains _

theorem Bears.slotClaim (hR : Bears R) (name : Bytes) : Always (App.Marked R) (slotClaim cfg name) := by
  intro a
  apply keeps_get_bind
  dsimp only
  split
  · exact hR.refl a.env.side
  split
  · exact hR.refl a.env.side
  · refine keeps_bind hR.appChains (hR.refl a.env.side) fun _ b _ => ?_
    refine always_bind hR.appChains (marked_onEnv (always_adaptExcept _ (hR.side fixes_call))) (fun _ => ?_) b
    exact hR.modifyApp fun _ => rfl

theorem Bears.slotRelease (hR : Bears R) (i : Nat) : Always (App.Marked R) (slotRelease i) := by
  apply hR.modifyApp
  intro a
  dsimp only
  split <;> rfl

theorem Bears.tsFlushAsync (hR : Bears R) (h : Nat) : Always (App.Marked R) (tsFlushAsync cfg h) := by
  apply always_bind hR.appChains hR.getApp
  intro a
  apply always_guard hR.appChains
  apply always_bind hR.appChains (hR.tsCtxGetOrAlloc _)
  intro _
  apply always_bind hR.appChains hR.getApp
  intro b
  apply always_guard hR.appChains
  refine always_bind hR.appChains (hR.modifyApp fun _ => rfl) fun _ => ?_
  apply always_bind hR.appChains (marked_onEnv (always_attempt (hR.side fixes_call)))
  intro r
  split
  · exact always_pure hR.appChains _
  · exact always_bind hR.appChains (hR.modifyApp fun _ => rfl) fun _ => always_throw hR.appChains _

theorem Bears.appendFlush (hR : Bears R) (h i recSize : Nat) : Always (App.Marked R) (appendFlush cfg h i recSize) := by
  apply always_bind hR.appChains hR.getApp
  intro a
  refine always_ite ?_ (always_pure hR.appChains _)
  apply always_bind hR.appChains (always_attempt (hR.tsFlushAsync h))
  intro r
  split
  · exact always_pure hR.appChains _
  · exact always_pure hR.appChains _
  · exact always_throw hR.appChains _

theorem Bears.tsAppendI64 (hR : Bears R) (h : Nat) (sample : Sample) :
    Always (App.Marked R) (tsAppendI64 cfg h sample) := by
  apply always_bind hR.appChains hR.getApp
  intro a
  split
  · exact always_throw hR.appChains _
  apply always_bind hR.appChains (hR.tsCtxGetOrAlloc _)
  intro _
  apply always_bind hR.appChains hR.getApp
  intro b
  split
  · exact always_throw hR.appChains _
  · apply always_bind hR.appChains (marked_onSlot _ (hR.appendRecord sample))
    intro recSize
    exact hR.appendFlush _ _ _

theorem Bears.tsAppendBatchI64 (hR : Bears R) (h : Nat) (samples : List Sample) :
    Always (App.Marked R) (tsAppendBatchI64 cfg h samples) := by
  apply always_bind hR.appChains hR.getApp
  intro a
  split
  · exact always_throw hR.appChains _
  apply always_guard hR.appChains
  apply always_bind hR.appChains (hR.tsCtxGetOrAlloc _)
  intro _
  apply always_bind hR.appChains hR.getApp
  intro b
  split
  · exact always_throw hR.appChains _
  · apply always_bind hR.appChains (marked_onSlot _ (hR.appendRecords samples))
    intro _
    apply always_bind hR.appChains hR.getApp
    intro c
    refine always_ite ?_ (always_pure hR.appChains _)
    apply always_bind hR.appChains (always_attempt (hR.tsFlushAsync h))
    intro _
    exact always_pure hR.appChains _

theorem Bears.flushSlots (hR : Bears R) (is : List Nat) : Always (App.Marked R) (flushSlots cfg is) := by
  induction is with
  | nil => exact always_pure hR.appChains _
  | cons i is ih =>
    refine always_bind hR.appChains (always_bind hR.appChains hR.getApp fun a => ?_) fun _ => ih
    refine always_ite ?_ (always_pure hR.appChains _)
    apply always_bind hR.appChains (always_attempt (marked_onSlot _ hR.flushBufferLocked))
    intro _
    exact always_pure hR.appChains _

theorem Bears.flushWorkHandler (hR : Bears R) : Always (App.Marked R) (flushWorkHandler cfg) := by
  apply always_bind hR.appChains hR.getApp
  intro a
  refine always_ite ?_ (always_pure hR.appChains _)
  apply always_bind hR.appChains (always_bind hR.appChains hR.getApp fun b => hR.flushSlots _)
  intro _
  exact hR.modifyApp fun _ => rfl

theorem Bears.tsFlushSync (hR : Bears R) (h : Nat) : Always (App.Marked R) (tsFlushSync cfg h) := by
  apply always_bind hR.appChains hR.getApp
  intro a
  apply always_guard hR.appChains
  apply always_bind hR.appChains (hR.tsCtxGetOrAlloc _)
  intro _
  apply always_bind hR.appChains (always_attempt (hR.tsFlushAsync h))
  intro r
  split
  · exact hR.flushWorkHandler
  · exact hR.flushWorkHandler
  · exact always_throw hR.appChains _

theorem Bears.tsClose (hR : Bears R) (h : Nat) : Always (App.Marked R) (tsClose cfg h) := by
  have hflush : ∀ name, Always (App.Marked R) (closeFlush cfg name) := by
    intro name
    apply always_bind hR.appChains hR.getApp
    intro a
    split
    · exact always_pure hR.appChains _
    · exact always_ite (always_adaptExcept _ (marked_onSlot _ hR.flushBufferLocked)) (always_pure hR.appChains _)
  apply always_bind hR.appChains hR.getApp
  intro a
  split
  · exact always_pure hR.appChains _
  apply always_bind hR.appChains (always_attempt (hflush _))
  intro status
  apply always_bind hR.appChains hR.getApp
  intro b
  have hlast : Always (App.Marked R) (do
      modify fun a => a.bind h none
      rethrow status : AppM Status Unit) :=
    always_bind hR.appChains (hR.modifyApp fun _ => rfl) fun _ => always_rethrow hR.appChains _
  split
  · exact hlast
  · apply always_bind hR.appChains (hR.slotRelease _)
    intro _
    exact hlast

theorem Bears.recoverWalk (hR : Bears R) (layout : FileLayout) (path : Path) (fuel goodEnd : Nat) :
    Always (Marked R) (recoverWalk layout path fuel goodEnd) := by
  induction fuel generalizing goodEnd with
  | zero => exact always_pure hR.chains _
  | succ fuel ih =>
    apply always_bind hR.chains (hR.toStatus (fixes_fsRead _ _ _))
    intro raw
    apply always_ite (always_pure hR.chains _)
    apply always_bind hR.chains (always_attempt (hR.recordDecodeAs _ _ _))
    intro r
    split
    · exact ih _
    · exact always_pure hR.chains _

theorem Bears.probeLayout (hR : Bears R) (path : Path) : Always (Marked R) (probeLayout path) := by
  apply always_bind hR.chains (always_attempt (hR.side (fixes_fsStat _)))
  intro r
  split
  · exact always_pure hR.chains _
  · apply always_bind hR.chains (always_attempt (hR.cursorLearnLayout _))
    intro r
    split <;> exact always_pure hR.chains _

theorem Bears.recoverFile (hR : Bears R) (hcut : ∀ n, Always (Marked R) (statRecoverTruncated n : Zdb Unit))
    (name path : Bytes) : Always (Marked R) (recoverFile name path) := by
  apply always_bind hR.chains (hR.probeLayout _)
  intro layout
  apply always_bind hR.chains (hR.toStatus (fixes_fsOpen _ _ _))
  intro _
  apply always_bind hR.chains (hR.toStatus (fixes_fsRead _ _ _))
  intro hdr
  refine always_ite ?_ (always_guard hR.chains ?_)
  · apply always_bind hR.chains (hR.toStatus fixes_call)
    intro _
    apply always_bind hR.chains (hR.toStatus (fixes_fsWrite _ _ _))
    intro wr
    exact always_guard hR.chains (always_pure hR.chains _)
  apply always_when hR.chains (fun _ => hR.streamHeaderDecode _ _)
  apply always_bind hR.chains (hR.toStatus fixes_call)
  intro _
  apply always_bind hR.chains (always_get hR.chains)
  intro e
  apply always_bind hR.chains (hR.recoverWalk _ _ _ _)
  intro ends
  apply always_bind hR.chains (hR.toStatus fixes_call)
  intro _
  refine always_ite ?_ (always_pure hR.chains _)
  apply always_bind hR.chains (hR.toStatus (fixes_fsTruncate _ _))
  intro _
  apply always_bind hR.chains (hcut _)
  intro _
  exact always_pure hR.chains _

theorem Bears.recoverPath (hR : Bears R) (name : Bytes) : Always (App.Marked R) (recoverPath cfg name) := by
  refine always_ite ?_ ?_
  · apply always_bind hR.appChains (hR.tsCtxGetOrAlloc _)
    intro _
    apply always_bind hR.appChains hR.getApp
    intro a
    split
    · exact always_throw hR.appChains _
    · exact always_adaptExcept _ (marked_onSlot _ hR.activePath)
  · apply always_bind hR.appChains hR.getApp
    intro a
    exact always_guard hR.appChains (always_rethrow hR.appChains _)

theorem Bears.curChains (hR : Bears R) : Chains (CurSt.Marked R) := ⟨fun s => hR.refl s.app.env.side, hR.trans⟩

theorem Bears.updCur (hR : Bears R) {ε : Type} (f : CursorCtx → CursorCtx) :
    Always (CurSt.Marked R) (updCur (ε := ε) f) :=
  fun s => hR.refl s.app.env.side

theorem Bears.getCur (hR : Bears R) {ε : Type} : Always (CurSt.Marked R) (get : CurM ε CurSt) := always_get hR.curChains

theorem marked_onApp {ε α : Type} {m : AppM ε α} (h : Always (App.Marked R) m) : Always (CurSt.Marked R) (onApp m) :=
  always_zoom h fun _ _ h => h

theorem marked_onCurEnv {ε α : Type} {m : EStateM ε Sys α} (h : Always (Marked R) m) :
    Always (CurSt.Marked R) (onCurEnv m) :=
  marked_onApp (marked_onEnv h)

theorem Bears.seekTo (hR : Bears R) (off : Nat) : Always (CurSt.Marked R) (seekTo off) := by
  apply always_bind hR.curChains hR.getCur
  intro s
  apply always_bind hR.curChains hR.getCur
  intro t
  apply always_guard hR.curChains
  apply always_bind hR.curChains (marked_onCurEnv (hR.side fixes_call))
  intro _
  exact hR.updCur _

theorem Bears.seekHere (hR : Bears R) : Always (CurSt.Marked R) (do
    ZephyrDB.toStatus (Ts.seekTo (← get).cur.fileOffset) : CurM Status Unit) :=
  always_bind hR.curChains hR.getCur fun _ => always_adaptExcept _ (hR.seekTo _)

theorem Bears.cursorOpenFile (hR : Bears R) (path : Path) : Always (CurSt.Marked R) (cursorOpenFile path) := by
  apply always_bind hR.curChains (hR.updCur _)
  intro _
  apply always_bind hR.curChains (marked_onCurEnv (hR.toStatus (fixes_fsOpen _ _ _)))
  intro _
  apply always_bind hR.curChains hR.getCur
  intro s
  exact hR.updCur _

theorem Bears.cursorLearn (hR : Bears R) (path : Path) : Always (CurSt.Marked R) (cursorLearn path) := by
  apply always_bind hR.curChains (hR.updCur _)
  intro _
  apply always_bind hR.curChains (marked_onCurEnv (hR.cursorLearnLayout _))
  intro _
  exact hR.updCur _

theorem Bears.cursorLearnSize (hR : Bears R) : Always (CurSt.Marked R) cursorLearnSize :=
  always_bind hR.curChains (marked_onCurEnv (hR.toStatus fixes_call)) fun _ => hR.updCur _

theorem Bears.cursorOpenSegment (hR : Bears R) (seq : Nat) : Always (CurSt.Marked R) (cursorOpenSegment cfg seq) := by
  apply always_bind hR.curChains (hR.updCur _)
  intro _
  apply always_bind hR.curChains hR.getCur
  intro s
  apply always_bind hR.curChains (always_rethrow hR.curChains _)
  intro path
  apply always_bind hR.curChains (hR.cursorOpenFile _)
  intro _
  apply always_bind hR.curChains (hR.updCur _)
  intro _
  apply always_bind hR.curChains (hR.cursorLearn _)
  intro _
  apply always_bind hR.curChains hR.getCur
  intro t
  refine always_ite ?_ (always_bind hR.curChains (hR.updCur _) fun _ => hR.seekHere)
  apply always_bind hR.curChains hR.cursorLearnSize
  intro _
  apply always_bind hR.curChains (hR.updCur _)
  intro _
  exact hR.seekHere

theorem Bears.cursorNextSegment (hR : Bears R) (n : Nat) : Always (CurSt.Marked R) (cursorNextSegment cfg n) := by
  induction n with
  | zero => exact always_throw hR.curChains _
  | succ n ih =>
    apply always_bind hR.curChains hR.getCur
    intro s
    apply always_guard hR.curChains
    apply always_bind hR.curChains (always_attempt (hR.cursorOpenSegment _))
    intro r
    split
    · exact always_pure hR.curChains _
    · apply always_bind hR.curChains (hR.updCur _)
      intro _
      exact ih

theorem Bears.cursorReadHere (hR : Bears R) : Always (CurSt.Marked R) cursorReadHere := by
  have hread : Always (CurSt.Marked R) cursorRead := by
    apply always_bind hR.curChains hR.getCur
    intro s
    dsimp only
    split
    · exact always_throw hR.curChains _
    · apply always_bind hR.curChains (marked_onCurEnv (hR.toStatus (fixes_fsReadHandle _ _ _ _)))
      intro raw
      apply always_bind hR.curChains (hR.updCur _)
      intro _
      exact always_pure hR.curChains _
  apply always_bind hR.curChains hR.getCur
  intro s
  refine always_ite (always_ite (always_pure hR.curChains _) ?_) hread
  apply always_bind hR.curChains (hR.updCur _)
  intro _
  apply always_bind hR.curChains (always_adaptExcept _ (hR.seekTo _))
  intro _
  exact hread

theorem Bears.cursorReadFileRecord (hR : Bears R) (n : Nat) :
    Always (CurSt.Marked R) (cursorReadFileRecord cfg n) := by
  induction n with
  | zero => exact always_throw hR.curChains _
  | succ n ih =>
    apply always_bind hR.curChains hR.getCur
    intro s
    apply always_guard hR.curChains
    apply always_bind hR.curChains hR.cursorReadHere
    intro raw
    refine always_ite (always_guard hR.curChains ?_) (always_ite (always_throw hR.curChains _) (always_ite ?_ ?_))
    · apply always_bind hR.curChains (always_adaptExcept _ (hR.cursorNextSegment _))
      intro _
      exact ih
    · apply always_bind hR.curChains (always_adaptExcept _ (hR.seekTo _))
      intro _
      exact always_pure hR.curChains _
    · apply always_bind hR.curChains (hR.updCur _)
      intro _
      exact always_pure hR.curChains _

theorem Bears.cursorNextFile (hR : Bears R) (n : Nat) : Always (CurSt.Marked R) (cursorNextFile cfg n) := by
  induction n with
  | zero => exact always_pure hR.curChains _
  | succ n ih =>
    apply always_bind hR.curChains hR.getCur
    intro s
    apply always_ite (always_pure hR.curChains _)
    apply always_bind hR.curChains (always_attempt (hR.cursorReadFileRecord _))
    intro r
    split
    · apply always_bind hR.curChains (hR.updCur _)
      intro _
      exact always_pure hR.curChains _
    · exact always_throw hR.curChains _
    apply always_bind hR.curChains hR.getCur
    intro t
    apply always_bind hR.curChains (marked_onCurEnv (always_attempt (hR.recordDecodeAs _ _ _)))
    intro r
    split
    · exact ih
    · exact always_throw hR.curChains _
    · exact always_ite (always_bind hR.curChains (hR.updCur _) fun _ => always_pure hR.curChains _) ih

theorem Bears.cursorNextBuf (hR : Bears R) (slot : StreamCtx) (buf : Bytes) (n : Nat) :
    Always (CurSt.Marked R) (cursorNextBuf cfg slot buf n) := by
  induction n with
  | zero => exact always_throw hR.curChains _
  | succ n ih =>
    apply always_bind hR.curChains hR.getCur
    intro s
    apply always_guard hR.curChains
    apply always_bind hR.curChains (marked_onCurEnv (always_attempt (hR.recordDecodeAs _ _ _)))
    intro r
    split
    · apply always_bind hR.curChains (hR.updCur _)
      intro _
      exact ih
    · exact always_throw hR.curChains _
    · apply always_bind hR.curChains (hR.updCur _)
      intro _
      refine always_ite ?_ ih
      apply always_bind hR.curChains (hR.updCur _)
      intro _
      exact always_pure hR.curChains _

theorem Bears.cursorNextRam (hR : Bears R) : Always (CurSt.Marked R) (cursorNextRam cfg) := by
  apply always_bind hR.curChains (marked_onApp (hR.tsCtxGetOrAlloc _))
  intro _
  apply always_bind hR.curChains hR.getCur
  intro s
  split
  · exact always_throw hR.curChains _
  dsimp only
  split
  · exact always_throw hR.curChains _
  · exact hR.cursorNextBuf _ _ _

theorem Bears.cursorNext (hR : Bears R) : Always (CurSt.Marked R) (cursorNext cfg) := by
  refine always_bind hR.curChains hR.getCur fun s => always_ite ?_ ?_
  · apply always_bind hR.curChains (always_attempt hR.cursorNextRam)
    intro r
    split
    · exact always_pure hR.curChains _
    · apply always_bind hR.curChains (hR.cursorNextFile _)
      intro found
      split
      · exact always_pure hR.curChains _
      · exact always_throw hR.curChains _
    · exact always_throw hR.curChains _
  · apply always_bind hR.curChains (hR.cursorNextFile _)
    intro found
    split
    · exact always_pure hR.curChains _
    · exact hR.cursorNextRam

theorem Bears.cursorReset (hR : Bears R) : Always (CurSt.Marked R) cursorReset :=
  always_bind hR.curChains (hR.updCur _) fun _ =>
    always_bind hR.curChains hR.getCur fun _ => always_ite hR.seekHere (always_pure hR.curChains _)

theorem Bears.cursorOpenStream (hR : Bears R) (name : Bytes) :
    Always (CurSt.Marked R) (cursorOpenStream cfg name) := by
  apply always_bind hR.curChains (always_rethrow hR.curChains _)
  intro path
  apply always_bind hR.curChains (hR.cursorOpenFile _)
  intro _
  apply always_bind hR.curChains (hR.cursorLearn _)
  intro _
  apply always_bind hR.curChains hR.cursorLearnSize
  intro _
  apply always_bind hR.curChains (hR.updCur _)
  intro _
  exact hR.seekHere

theorem Bears.cursorWalk (hR : Bears R) (n : Nat) : Always (CurSt.Marked R) (cursorWalk cfg n) := by
  induction n with
  | zero => exact always_pure hR.curChains _
  | succ n ih =>
    apply always_bind hR.curChains (always_attempt hR.cursorNext)
    intro r
    apply always_bind hR.curChains ih
    intro rs
    exact always_pure hR.curChains _

theorem Bears.countScan (hR : Bears R) (n points : Nat) : Always (CurSt.Marked R) (countScan cfg n points) := by
  induction n generalizing points with
  | zero => exact always_pure hR.curChains _
  | succ n ih =>
    apply always_bind hR.curChains (always_attempt hR.cursorNext)
    intro r
    split
    · exact always_pure hR.curChains _
    · exact always_throw hR.curChains _
    · exact ih _

theorem marked_withCursor {ε α : Type} {m : CurM ε α} (c : CursorCtx) (hm : Always (CurSt.Marked R) m) :
    Always (App.Marked R) (withCursor c m) := fun a => by
  have h := hm ⟨c, a⟩
  unfold Keeps at h ⊢
  cases hrun : m.run ⟨c, a⟩ with
  | ok x s =>
    rw [post_of_run hrun] at h
    rw [post_of_run (run_withCursor hrun)]
    exact h
  | error r s =>
    rw [post_of_error hrun] at h
    rw [post_of_error (run_withCursor_error hrun)]
    exact h

theorem Bears.cursorOpenDir (hR : Bears R) (h : Nat) (window : Window) (predicate : Option (Bytes → Bool))
    (descending : Bool) : Always (App.Marked R) (cursorOpenDir cfg h window predicate descending) := by
  apply always_bind hR.appChains hR.getApp
  intro a
  split
  · exact always_throw hR.appChains _
  rename_i name _
  have hwindow : Always (App.Marked R) (cursorWindow cfg name) := by
    apply always_bind hR.appChains (hR.tsCtxGetOrAlloc _)
    intro _
    apply always_bind hR.appChains hR.getApp
    intro b
    split
    · exact always_throw hR.appChains _
    · apply always_bind hR.appChains (always_adaptExcept _ (marked_onSlot _ hR.scanSegments))
      intro _
      apply always_bind hR.appChains hR.getApp
      intro _
      exact always_pure hR.appChains _
  apply always_guard hR.appChains
  apply always_when hR.appChains (fun _ => marked_onEnv (hR.ensureStreamHeader _))
  apply always_bind hR.appChains (marked_onEnv (always_adaptExcept _ (hR.side fixes_call)))
  intro _
  refine always_ite ?_ ?_
  · apply always_bind hR.appChains hwindow
    intro w
    refine always_bind hR.appChains (marked_withCursor _ ?_) fun p => always_pure hR.appChains _
    apply always_bind hR.curChains (hR.cursorOpenSegment _)
    intro _
    exact hR.cursorReset
  · refine always_bind hR.appChains (marked_withCursor _ ?_) fun p => always_pure hR.appChains _
    apply always_bind hR.curChains (hR.cursorOpenStream _)
    intro _
    exact hR.cursorReset

theorem Bears.queryCursor (hR : Bears R) (h : Nat) (window : Window) (predicate : Option (Bytes → Bool))
    (descending : Bool) (n : Nat) : Always (App.Marked R) (queryCursor cfg h window predicate descending n) :=
  always_bind hR.appChains (hR.cursorOpenDir _ _ _ _) fun _ =>
    always_bind hR.appChains (marked_withCursor _ (hR.cursorWalk n)) fun _ => always_pure hR.appChains _

theorem Bears.countSegments (hR : Bears R) (name : Bytes) (seqs : List Nat) :
    Always (Marked R) (countSegments cfg name seqs) := by
  have hfile : ∀ path, Always (Marked R) (countFile path) := by
    intro path
    apply always_bind hR.chains (always_attempt (hR.side (fixes_fsStat _)))
    intro r
    split
    · exact always_pure hR.chains _
    · apply always_bind hR.chains (always_attempt (hR.cursorLearnLayout _))
      intro r
      split <;> exact always_pure hR.chains _
  induction seqs with
  | nil => exact always_pure hR.chains _
  | cons seq seqs ih =>
    apply always_bind hR.chains (always_rethrow hR.chains _)
    intro path
    apply always_bind hR.chains (hfile _)
    intro n
    apply always_bind hR.chains ih
    intro _
    exact always_pure hR.chains _

theorem Bears.countStream (hR : Bears R) (name : Bytes) : Always (Marked R) (countStream cfg name) := by
  apply always_bind hR.chains (always_rethrow hR.chains _)
  intro path
  apply always_bind hR.chains (always_attempt (hR.side (fixes_fsStat _)))
  intro r
  split
  · exact always_pure hR.chains _
  · exact always_throw hR.chains _
  · apply always_bind hR.chains (always_attempt (hR.cursorLearnLayout _))
    intro r
    split <;> exact always_pure hR.chains _

theorem Bears.tsQueryCount (hR : Bears R) (h : Nat) (window : Window) :
    Always (App.Marked R) (tsQueryCount cfg h window) := by
  have hall : ∀ name, Always (App.Marked R) (tsCountAll cfg name) := by
    intro name
    refine always_bind hR.appChains hR.getApp fun a => always_guard hR.appChains (always_ite ?_ ?_)
    · split
      · apply always_bind hR.appChains (always_throw hR.appChains _)
        intro _
        exact always_pure hR.appChains _
      · apply always_bind hR.appChains (marked_onEnv (hR.countSegments _ _))
        intro _
        exact always_pure hR.appChains _
    · apply always_bind hR.appChains (marked_onEnv (hR.countStream _))
      intro _
      exact always_pure hR.appChains _
  apply always_bind hR.appChains hR.getApp
  intro a
  split
  · exact always_throw hR.appChains _
  apply always_ite (hall _)
  apply always_bind hR.appChains (hR.cursorOpenDir _ _ _ _)
  intro _
  apply always_bind hR.appChains hR.getApp
  intro _
  apply always_bind hR.appChains (marked_withCursor _ (hR.countScan _ _))
  intro _
  exact always_pure hR.appChains _

theorem Bears.tsWatermarkSet (hR : Bears R) (h : Nat) (tsMs : UInt64) :
    Always (App.Marked R) (tsWatermarkSet cfg h tsMs) := by
  apply always_bind hR.appChains hR.getApp
  intro a
  split
  · exact always_throw hR.appChains _
  apply always_guard hR.appChains
  apply always_bind hR.appChains (hR.tsCtxGetOrAlloc _)
  intro _
  apply always_bind hR.appChains (always_adaptExcept _ hR.ensureStreamDir)
  intro _
  apply always_bind hR.appChains (always_rethrow hR.appChains _)
  intro path
  apply always_bind hR.appChains (marked_onEnv (hR.toStatus (fixes_fsOpen _ _ _)))
  intro _
  apply always_bind hR.appChains (marked_onEnv (hR.toStatus (fixes_fsWrite _ _ _)))
  intro wr
  exact always_ite (always_throw hR.appChains _) (always_pure hR.appChains _)

theorem Bears.tsWatermarkGet (hR : Bears R) (h : Nat) : Always (App.Marked R) (tsWatermarkGet cfg h) := by
  apply always_bind hR.appChains hR.getApp
  intro a
  split
  · exact always_throw hR.appChains _
  apply always_guard hR.appChains
  apply always_bind hR.appChains (always_rethrow hR.appChains _)
  intro path
  apply always_bind hR.appChains (marked_onEnv (hR.toStatus (fixes_fsOpen _ _ _)))
  intro _
  apply always_bind hR.appChains (marked_onEnv (hR.toStatus (fixes_fsRead _ _ _)))
  intro raw
  exact always_guard hR.appChains (always_guard hR.appChains (always_pure hR.appChains _))

theorem Bears.tsWatermarkClear (hR : Bears R) (h : Nat) : Always (App.Marked R) (tsWatermarkClear cfg h) := by
  apply always_bind hR.appChains hR.getApp
  intro a
  split
  · exact always_throw hR.appChains _
  apply always_guard hR.appChains
  apply always_bind hR.appChains (always_rethrow hR.appChains _)
  intro path
  exact marked_onEnv (always_adaptExcept _ (hR.unlinkIfPresent _))

end Bears

end ZephyrDB.Ts
