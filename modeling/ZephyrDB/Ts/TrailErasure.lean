import ZephyrDB.Ts.Trail

/-!
With the trail left out, every program that leaves one is the program of the
model, and a call answers and ends as the model's call does.
-/

set_option autoImplicit false

namespace ZephyrDB.Ts

open Lib

theorem withCursor_eq_zoom {ε α : Type} (c : CursorCtx) (m : CurM ε α) :
    withCursor c m = zoom (fun a => ⟨c, a⟩) (fun _ s => s.app) (do
      let x ← m
      return (x, (← get).cur)) := by
  funext a
  cases hr : m.run ⟨c, a⟩ with
  | ok x s =>
    refine (run_withCursor hr).trans (Eq.symm ?_)
    exact run_zoom (run_then hr rfl)
  | error r s =>
    refine (run_withCursor_error hr).trans (Eq.symm ?_)
    exact run_zoom_error (run_fails hr)

namespace Trail

variable {cfg : Cfg}

theorem plain_leave {σ ε α : Type} (k : Mark) {m : TrailM σ ε α} {m' : EStateM ε σ α} (hm : Carries Noted.st m m') :
    Carries Noted.st (leave k >>= fun _ => m) m' := carries_note _ hm

theorem plain_onSlot {ε α : Type} (i : Nat) {m : TrailM SlotSt ε α} {m' : SlotM ε α} (hm : Carries Noted.st m m') :
    Carries Noted.st (onSlot cfg i m) (Ts.onSlot i m') :=
  carries_zoom (fun _ => rfl) (fun _ _ => rfl) hm

theorem plain_healthCheck {ε α : Type} {m : TrailM Sys ε α} {m' : EStateM ε Sys α} (hm : Carries Noted.st m m') :
    Carries Noted.st (healthCheck >>= fun _ => m) (ZephyrDB.healthCheck >>= fun _ => m') := by
  have h := carries_bind (carries_silent ZephyrDB.healthCheck (ε := ε)) fun _ => plain_leave .healthCheck hm
  exact fun s => h s

theorem plain_recordDecodeAs (version : Nat) (baseTsMs : UInt64) (raw : Bytes) :
    Carries Noted.st (recordDecodeAs version baseTsMs raw) (Ts.recordDecodeAs version baseTsMs raw) := by
  have hcorrupt : ∀ (g : PUnit → TrailM Sys Status Sample) (g' : PUnit → Zdb Sample), Carries Noted.st (do
      silent statCorruptRecord
      leave .badRecord
      healthCheck
      throw .ERR_CORRUPT >>= g) (do
      statCorruptRecord
      ZephyrDB.healthCheck
      throw .ERR_CORRUPT >>= g') := fun g g' =>
    carries_bind (carries_silent _) fun _ => plain_leave _ (plain_healthCheck fun _ => ⟨rfl, rfl⟩)
  have hcrc : ∀ (g : PUnit → TrailM Sys Status Sample) (g' : PUnit → Zdb Sample), Carries Noted.st (do
      silent statCrcFailure
      silent statCorruptRecord
      leave .badRecord
      healthCheck
      throw .ERR_CORRUPT >>= g) (do
      statCrcFailure
      statCorruptRecord
      ZephyrDB.healthCheck
      throw .ERR_CORRUPT >>= g') := fun g g' => carries_bind (carries_silent _) fun _ => hcorrupt g g'
  refine carries_ite (carries_ite (hcrc _ _) (carries_pure _)) (carries_ite (hcorrupt _ _) (carries_ite ?_ ?_))
  · apply carries_bind (carries_silent _)
    intro _
    exact fun _ => ⟨rfl, rfl⟩
  · exact carries_ite (hcrc _ _) (carries_pure _)

theorem plain_badHeader {α : Type} (g : PUnit → TrailM Sys Status α) (g' : PUnit → Zdb α) :
    Carries Noted.st (do
      silent statCorruptRecord
      leave .badHeader
      throw .ERR_CORRUPT >>= g) (do
      statCorruptRecord
      throw .ERR_CORRUPT >>= g') :=
  carries_bind (carries_silent _) fun _ => plain_leave _ fun _ => ⟨rfl, rfl⟩

theorem plain_streamHeaderDecode (raw name : Bytes) :
    Carries Noted.st (streamHeaderDecode raw name) (Ts.streamHeaderDecode raw name) := by
  refine carries_ite (plain_badHeader _ _) (carries_ite ?_ (carries_ite ?_ (carries_ite ?_ (carries_pure _))))
  · apply carries_bind (carries_silent _)
    intro _
    exact fun _ => ⟨rfl, rfl⟩
  · apply carries_bind (carries_silent _)
    intro _
    exact plain_badHeader _ _
  · apply carries_bind (carries_silent _)
    intro _
    exact plain_leave _ (carries_throw _)

theorem plain_streamHeaderV2Decode (raw name : Bytes) :
    Carries Noted.st (streamHeaderV2Decode raw name) (Ts.streamHeaderV2Decode raw name) := by
  refine carries_ite (plain_badHeader _ _) (carries_ite ?_ (carries_ite (plain_badHeader _ _) (carries_pure _)))
  apply carries_bind (carries_silent _)
  intro _
  exact plain_badHeader _ _

theorem plain_ensureHeaderEx (name path : Bytes) (baseTsMs : UInt64) :
    Carries Noted.st (ensureHeaderEx cfg name path baseTsMs) (Ts.ensureHeaderEx cfg name path baseTsMs) := by
  refine carries_bind (carries_silent _) fun _ => carries_bind (carries_silent _) fun raw => carries_ite ?_ ?_
  · apply carries_bind (carries_silent _)
    intro _
    apply carries_bind (carries_silent _)
    intro wr
    exact carries_guard (carries_pure _)
  · refine carries_ite (carries_throw _) (carries_ite (carries_guard ?_) ?_)
    · apply carries_bind (plain_streamHeaderV2Decode _ _)
      intro _
      exact carries_pure _
    · apply carries_bind (plain_streamHeaderDecode _ _)
      intro _
      exact carries_pure _

theorem plain_ensureStreamHeader (name : Bytes) :
    Carries Noted.st (ensureStreamHeader cfg name) (Ts.ensureStreamHeader cfg name) :=
  carries_bind (carries_rethrow _) fun _ => carries_bind (plain_ensureHeaderEx _ _ _) fun _ => carries_pure _

theorem plain_adoptLegacy (name : Bytes) : Carries Noted.st (adoptLegacy cfg name) (Ts.adoptLegacy cfg name) := by
  apply carries_bind (carries_rethrow _)
  intro legacy
  apply carries_bind (carries_rethrow _)
  intro seg
  apply carries_bind (carries_silent _)
  intro info
  cases info with
  | error err => exact carries_pure _
  | ok size => exact carries_note_after _ (carries_silent _)

theorem plain_learnFormat {ε : Type} (version : Nat) (baseTsMs : UInt64) : Carries Noted.st
    (learnFormat cfg version baseTsMs) (updSlot fun s => s.setFormat version baseTsMs : SlotM ε Unit) :=
  carries_noteWhen _ _ (carries_silent _)

theorem plain_storeRecord {ε : Type} (raw : Bytes) (recSize : Nat) : Carries Noted.st (storeRecord cfg raw recSize)
    (updSlot fun s => s.store raw recSize : SlotM ε Unit) := carries_noteWhen _ _ (carries_silent _)

theorem plain_learnNewest (name : Bytes) (lowest highest : Nat) :
    Carries Noted.st (learnNewest cfg name lowest highest) (Ts.learnNewest cfg name lowest highest) := by
  apply carries_bind (carries_silent _)
  intro _
  apply carries_bind (carries_rethrow _)
  intro path
  apply carries_bind (carries_noting (plain_ensureHeaderEx _ _ _))
  intro _
  apply carries_bind (plain_learnFormat _ _)
  intro _
  apply carries_bind (carries_silent _)
  intro size
  exact carries_noteWhen _ _ (carries_silent _)

theorem plain_scanSegments : Carries Noted.st (scanSegments cfg) (Ts.scanSegments cfg) := by
  apply carries_bind (carries_silent _)
  intro slot
  apply carries_ite (carries_pure _)
  apply carries_guard
  apply carries_bind (carries_silent _)
  intro entries
  refine carries_ite ?_ (plain_learnNewest _ _ _)
  apply carries_bind (carries_noting (plain_adoptLegacy _))
  intro _
  exact plain_learnNewest _ _ _

theorem plain_startSegment (baseTsMs : UInt64) :
    Carries Noted.st (startSegment cfg baseTsMs) (Ts.startSegment cfg baseTsMs) := by
  apply carries_bind (carries_silent _)
  intro _
  apply carries_bind (carries_silent _)
  intro slot
  apply carries_bind (carries_orNote _ _ (carries_rethrow _))
  intro path
  apply carries_bind (carries_orNote _ _ (carries_noting (carries_adaptExcept _ (plain_ensureHeaderEx _ _ _))))
  intro vb
  apply carries_noteWhen _ _
  apply carries_bind (plain_learnFormat _ _)
  intro _
  exact carries_ite (carries_silent _) (carries_pure _)

theorem plain_rollSegmentIfFull : Carries Noted.st (rollSegmentIfFull cfg) (Ts.rollSegmentIfFull cfg) :=
  carries_bind (carries_silent _) fun _ => carries_ite (plain_startSegment _) (carries_pure _)

theorem plain_activePath : Carries Noted.st (activePath cfg) (Ts.activePath cfg) := by
  refine carries_ite (carries_bind (carries_adaptExcept _ plain_scanSegments) fun _ => ?_) ?_
  · apply carries_bind (carries_silent _)
    intro slot
    exact carries_rethrow _
  · apply carries_bind (carries_silent _)
    intro slot
    exact carries_rethrow _

theorem plain_writeBuffer (buf : Bytes) (used : Nat) :
    Carries Noted.st (writeBuffer cfg buf used) (Ts.writeBuffer cfg buf used) := by
  apply carries_bind plain_activePath
  intro path
  apply carries_bind (carries_silent _)
  intro _
  refine fun s => carries_bind (carries_orNote _ _ (carries_silent _)) (fun wr => carries_ite ?_ ?_) s
  · apply carries_noteWhen _ _
    intro _
    exact ⟨rfl, rfl⟩
  · apply carries_bind (carries_orNote _ _ (carries_silent _))
    intro _
    exact carries_silent _

theorem plain_flushBufferLocked : Carries Noted.st (flushBufferLocked cfg) (Ts.flushBufferLocked cfg) := by
  apply carries_bind (carries_silent _)
  intro slot
  apply carries_guard
  dsimp only
  cases slot.ingestBuf with
  | none => exact carries_throw _
  | some buf =>
    refine carries_ite (carries_bind (plain_writeBuffer _ _) fun _ => ?_) (carries_pure _)
    exact carries_ite plain_rollSegmentIfFull (carries_pure _)

theorem plain_rebaseRecord (sample : Sample) : Carries Noted.st (rebaseRecord cfg sample) (Ts.rebaseRecord cfg sample) := by
  unfold rebaseRecord Ts.rebaseRecord
  apply carries_guard
  apply carries_bind (carries_adaptExcept _ plain_flushBufferLocked)
  intro _
  apply carries_bind (carries_adaptExcept _ (plain_startSegment _))
  intro _
  apply carries_bind (carries_silent _)
  intro slot
  cases slotEncode cfg slot sample with
  | none => exact carries_throw _
  | some raw => exact carries_bind (plain_storeRecord _ _) fun _ => carries_pure _

theorem plain_appendRecord (sample : Sample) : Carries Noted.st (appendRecord cfg sample) (Ts.appendRecord cfg sample) := by
  have hencode : ∀ recSize, Carries Noted.st (encodeRecord cfg sample recSize) (Ts.encodeRecord cfg sample recSize) := by
    intro recSize
    apply carries_bind (carries_silent _)
    intro slot
    cases slotEncode cfg slot sample with
    | none => exact plain_rebaseRecord sample
    | some raw => exact carries_bind (plain_storeRecord _ _) fun _ => carries_pure _
  apply carries_bind (carries_silent _)
  intro slot
  refine carries_guard (carries_ite ?_ (hencode _))
  apply carries_bind (carries_adaptExcept _ plain_flushBufferLocked)
  intro _
  exact hencode _

theorem plain_appendRecords (samples : List Sample) :
    Carries Noted.st (appendRecords cfg samples) (Ts.appendRecords cfg samples) := by
  induction samples with
  | nil => exact carries_pure _
  | cons sample samples ih => exact carries_bind (plain_appendRecord sample) fun _ => ih

theorem plain_recoverWalk (layout : FileLayout) (path : Path) (fuel goodEnd : Nat) :
    Carries Noted.st (recoverWalk layout path fuel goodEnd) (Ts.recoverWalk layout path fuel goodEnd) := by
  induction fuel generalizing goodEnd with
  | zero => exact carries_pure _
  | succ fuel ih =>
    apply carries_bind (carries_silent _)
    intro raw
    apply carries_ite (carries_pure _)
    apply carries_bind (carries_attempt (plain_recordDecodeAs _ _ _))
    intro r
    cases r with
    | ok _ => exact ih _
    | error _ => exact carries_pure _

theorem plain_recoverFile (name path : Bytes) : Carries Noted.st (recoverFile name path) (Ts.recoverFile name path) := by
  apply carries_bind (carries_silent _)
  intro layout
  apply carries_bind (carries_silent _)
  intro _
  refine carries_bind (carries_silent _) fun hdr => carries_ite ?_ (carries_guard ?_)
  · apply carries_bind (carries_silent _)
    intro _
    refine fun s => ?_
    refine carries_bind (carries_orNote _ _ (carries_silent _)) (fun wr => carries_noteWhen _ _ ?_) s
    exact carries_guard (carries_pure _)
  apply carries_when (plain_streamHeaderDecode _ _)
  apply carries_bind (carries_silent _)
  intro _
  apply carries_get_bind
  intro s
  apply carries_bind (plain_recoverWalk _ _ _ _)
  intro ends
  apply carries_bind (carries_silent _)
  intro _
  refine carries_ite (carries_bind (carries_silent _) fun _ => plain_leave _ ?_) (carries_pure _)
  apply carries_bind (carries_silent _)
  intro _
  exact carries_pure _

theorem plain_recoverPath (name : Bytes) : Carries Noted.st (recoverPath cfg name) (Ts.recoverPath cfg name) := by
  refine carries_ite (carries_bind (carries_silent _) fun _ => carries_get_bind fun s => ?_) ?_
  · cases s.st.slotFind name with
    | none => exact carries_throw _
    | some i => exact carries_adaptExcept _ (plain_onSlot i plain_activePath)
  · apply carries_get_bind
    intro s
    exact carries_guard (carries_rethrow _)

theorem plain_recoverStream (name : Bytes) : Carries Noted.st (recoverStream cfg name) (Ts.recoverStream cfg name) := by
  apply carries_bind (carries_silent _)
  intro _
  apply carries_bind (carries_attempt (carries_bind (plain_recoverPath name) fun path => carries_noting (plain_recoverFile name path)))
  intro r
  cases r with
  | ok truncated => exact carries_pure _
  | error status =>
    apply carries_bind (carries_silent _)
    intro _
    refine plain_leave _ (carries_bind (carries_noting ?_) fun _ => carries_throw _)
    exact fun _ => ⟨rfl, rfl⟩

theorem plain_openRecover (name : Bytes) : Carries Noted.st (openRecover cfg name) (Ts.openRecover cfg name) := by
  apply carries_bind (carries_attempt (plain_recoverStream name))
  intro r
  cases r with
  | error status => exact carries_bind (carries_silent _) fun _ => carries_throw _
  | ok truncated =>
    exact carries_ite (carries_bind (carries_silent _) fun _ => plain_leave _ (carries_throw _)) (carries_pure _)

theorem plain_tsOpen (h : Nat) (name : Bytes) : Carries Noted.st (tsOpen cfg h name) (Ts.tsOpen cfg h name) := by
  unfold tsOpen Ts.tsOpen
  apply carries_guard
  apply carries_get_bind
  intro s
  apply carries_guard
  apply carries_bind (carries_silent _)
  intro _
  apply carries_bind (carries_silent _)
  intro _
  apply carries_when (carries_noting (plain_ensureStreamHeader name))
  apply carries_bind (carries_silent _)
  intro _
  apply carries_bind (carries_silent _)
  intro _
  exact carries_ite (plain_openRecover name) (carries_pure _)

theorem plain_closeFlush (name : Bytes) : Carries Noted.st (closeFlush cfg name) (Ts.closeFlush cfg name) := by
  apply carries_get_bind
  intro s
  cases s.st.slotFind name with
  | none => exact carries_pure _
  | some i =>
    exact carries_ite (carries_adaptExcept _ (plain_onSlot i plain_flushBufferLocked)) (carries_pure _)

theorem plain_tsClose (h : Nat) : Carries Noted.st (tsClose cfg h) (Ts.tsClose cfg h) := by
  apply carries_get_bind
  intro s
  dsimp only
  cases s.st.handles h with
  | none => exact carries_pure _
  | some name =>
    apply carries_bind (carries_attempt (carries_between _ _ (plain_closeFlush name)))
    intro status
    apply carries_get_bind
    intro t
    have hrest : Carries Noted.st (do
        silent (modify fun a => a.bind h none)
        rethrow status : TrailM App Status Unit) (do
        modify fun a => a.bind h none
        rethrow status : AppM Status Unit) := carries_bind (carries_silent _) fun _ => carries_rethrow _
    cases t.st.slotFind name with
    | none => exact hrest
    | some i => exact carries_bind (carries_silent _) fun _ => hrest

theorem plain_appendFlush (h i recSize : Nat) :
    Carries Noted.st (appendFlush cfg h i recSize) (Ts.appendFlush cfg h i recSize) := by
  unfold appendFlush
  exact carries_orNote _ _ (carries_silent _)

theorem plain_tsAppendI64 (h : Nat) (sample : Sample) :
    Carries Noted.st (tsAppendI64 cfg h sample) (Ts.tsAppendI64 cfg h sample) := by
  apply carries_get_bind
  intro s
  cases s.st.handles h with
  | none => exact carries_throw _
  | some name =>
    apply carries_bind (carries_silent _)
    intro _
    apply carries_get_bind
    intro t
    cases t.st.slotFind name with
    | none => exact carries_throw _
    | some i =>
      apply carries_bind (carries_between _ _ (plain_onSlot i (plain_appendRecord sample)))
      intro _
      exact plain_appendFlush h i _

theorem plain_tsAppendBatchI64 (h : Nat) (samples : List Sample) :
    Carries Noted.st (tsAppendBatchI64 cfg h samples) (Ts.tsAppendBatchI64 cfg h samples) := by
  apply carries_get_bind
  intro s
  dsimp only
  cases s.st.handles h with
  | none => exact carries_throw _
  | some name =>
    apply carries_guard
    apply carries_bind (carries_silent _)
    intro _
    apply carries_get_bind
    intro t
    cases t.st.slotFind name with
    | none => exact carries_throw _
    | some i =>
      apply carries_bind (carries_between _ _ (plain_onSlot i (plain_appendRecords samples)))
      intro _
      apply carries_get_bind
      intro u
      refine carries_ite ?_ (carries_pure _)
      apply carries_bind (carries_silent _)
      intro _
      exact carries_pure _

theorem plain_flushSlots (is : List Nat) : Carries Noted.st (flushSlots cfg is) (Ts.flushSlots cfg is) := by
  induction is with
  | nil => exact carries_pure _
  | cons i rest ih =>
    refine carries_bind (carries_get_bind fun s => carries_ite ?_ (carries_pure _)) fun _ => ih
    apply carries_bind (carries_attempt (plain_onSlot i plain_flushBufferLocked))
    intro _
    exact carries_pure _

theorem plain_flushWorkHandler : Carries Noted.st (flushWorkHandler cfg) (Ts.flushWorkHandler cfg) := by
  apply carries_get_bind
  intro s
  refine carries_ite (carries_bind ?_ fun _ => carries_silent _) (carries_pure _)
  apply carries_between _ _
  apply carries_get_bind
  intro t
  exact plain_flushSlots _

theorem plain_tsFlushSync (h : Nat) : Carries Noted.st (tsFlushSync cfg h) (Ts.tsFlushSync cfg h) := by
  apply carries_get_bind
  intro s
  apply carries_guard
  apply carries_bind (carries_silent _)
  intro _
  apply carries_bind (carries_silent _)
  intro r
  rcases r with status | _
  · cases status <;> first | exact plain_flushWorkHandler | exact carries_throw _
  · exact plain_flushWorkHandler

theorem plain_tsRecoverStream (h : Nat) : Carries Noted.st (tsRecoverStream cfg h) (Ts.tsRecoverStream cfg h) := by
  apply carries_get_bind
  intro s
  cases s.st.handles h with
  | none => exact carries_throw _
  | some name => exact plain_recoverStream name

theorem plain_onCurEnv {ε α : Type} {m : TrailM Sys ε α} {m' : EStateM ε Sys α} (hm : Carries Noted.st m m') :
    Carries Noted.st (onCurEnv m) (Ts.onCurEnv m') := carries_noting (carries_noting hm)

theorem plain_cursorNextFile (n : Nat) : Carries Noted.st (cursorNextFile cfg n) (Ts.cursorNextFile cfg n) := by
  induction n with
  | zero => exact carries_pure _
  | succ n ih =>
    apply carries_get_bind
    intro s
    apply carries_ite (carries_pure _)
    apply carries_bind (carries_silent _)
    intro r
    rcases r with rc | raw
    · cases rc <;> first | exact carries_throw _ | exact carries_bind (carries_silent _) fun _ => carries_pure _
    · apply carries_get_bind
      intro t
      apply carries_bind (plain_onCurEnv (carries_attempt (plain_recordDecodeAs _ _ _)))
      intro sample
      rcases sample with rc | sample
      · cases rc <;> first | exact ih | exact carries_throw _
      · exact carries_ite (carries_bind (carries_silent _) fun _ => carries_pure _) ih

theorem plain_cursorNextBuf (slot : StreamCtx) (buf : Bytes) (n : Nat) :
    Carries Noted.st (cursorNextBuf cfg slot buf n) (Ts.cursorNextBuf cfg slot buf n) := by
  induction n with
  | zero => exact carries_throw _
  | succ n ih =>
    apply carries_get_bind
    intro s
    apply carries_guard
    apply carries_bind (plain_onCurEnv (carries_attempt (plain_recordDecodeAs _ _ _)))
    intro sample
    rcases sample with rc | sample
    · cases rc <;> first | exact carries_throw _ | exact carries_bind (carries_silent _) fun _ => ih
    · apply carries_bind (carries_silent _)
      intro _
      refine carries_ite ?_ ih
      apply carries_bind (carries_silent _)
      intro _
      exact carries_pure _

theorem plain_cursorNextRam : Carries Noted.st (cursorNextRam cfg) (Ts.cursorNextRam cfg) := by
  apply carries_bind (carries_silent _)
  intro _
  apply carries_get_bind
  intro s
  dsimp only
  cases s.st.app.slotFind s.st.cur.streamName with
  | none => exact carries_throw _
  | some i =>
    dsimp only
    cases (s.st.app.slotAt i).ingestBuf with
    | none => exact carries_throw _
    | some buf => exact carries_between _ _ (plain_cursorNextBuf _ buf _)

theorem plain_cursorNext : Carries Noted.st (cursorNext cfg) (Ts.cursorNext cfg) := by
  have hfound (n : Nat) {k : Option (Bytes × Sample) → TrailM CurSt Status (Bytes × Sample)}
      {k' : Option (Bytes × Sample) → CurM Status (Bytes × Sample)} (hsome : ∀ x, k (some x) = pure x)
      (hsome' : ∀ x, k' (some x) = pure x) (hnone : Carries Noted.st (k none) (k' none)) :
      Carries Noted.st (cursorNextFile cfg n >>= k) (Ts.cursorNextFile cfg n >>= k') := by
    apply carries_bind (plain_cursorNextFile n)
    intro found
    cases found with
    | some x =>
      rw [hsome, hsome']
      exact carries_pure _
    | none => exact hnone
  apply carries_get_bind
  intro s
  refine carries_ite ?_ (hfound _ (fun _ => rfl) (fun _ => rfl) plain_cursorNextRam)
  apply carries_bind (carries_attempt plain_cursorNextRam)
  intro r
  rcases r with rc | found
  · cases rc <;> first | exact carries_throw _ | exact hfound _ (fun _ => rfl) (fun _ => rfl) (carries_throw _)
  · exact carries_pure _

theorem plain_withCursor {ε α : Type} (c : CursorCtx) {m : TrailM CurSt ε α} {m' : CurM ε α} (hm : Carries Noted.st m m') :
    Carries Noted.st (withCursor c m) (Ts.withCursor c m') := by
  rw [withCursor_eq_zoom]
  exact carries_zoom (fun _ => rfl) (fun _ _ => rfl) (carries_bind hm fun x => carries_get_bind fun s => carries_pure _)

theorem plain_cursorWindow (name : Bytes) : Carries Noted.st (cursorWindow cfg name) (Ts.cursorWindow cfg name) := by
  apply carries_bind (carries_silent _)
  intro _
  apply carries_get_bind
  intro s
  dsimp only
  cases s.st.slotFind name with
  | none => exact carries_throw _
  | some i =>
    apply carries_bind (carries_adaptExcept _ (plain_onSlot i plain_scanSegments))
    intro _
    apply carries_get_bind
    intro _
    exact carries_pure _

theorem plain_cursorOpenDir (h : Nat) (window : Window) (predicate : Option (Bytes → Bool)) (descending : Bool) :
    Carries Noted.st (cursorOpenDir cfg h window predicate descending)
      (Ts.cursorOpenDir cfg h window predicate descending) := by
  apply carries_get_bind
  intro s
  dsimp only
  cases s.st.handles h with
  | none => exact carries_throw _
  | some name =>
    apply carries_guard
    apply carries_when (carries_noting (plain_ensureStreamHeader name))
    refine carries_bind (carries_silent _) fun _ => carries_ite ?_ ?_
    · apply carries_bind (plain_cursorWindow name)
      intro w
      apply carries_bind (carries_silent _)
      intro _
      exact carries_pure _
    · apply carries_bind (carries_silent _)
      intro _
      exact carries_pure _

theorem plain_cursorWalk (n : Nat) : Carries Noted.st (cursorWalk cfg n) (Ts.cursorWalk cfg n) := by
  induction n with
  | zero => exact carries_pure _
  | succ n ih =>
    apply carries_bind (carries_attempt plain_cursorNext)
    intro _
    apply carries_bind ih
    intro _
    exact carries_pure _

theorem plain_queryCursor (h : Nat) (window : Window) (predicate : Option (Bytes → Bool)) (descending : Bool) (n : Nat) :
    Carries Noted.st (queryCursor cfg h window predicate descending n)
      (Ts.queryCursor cfg h window predicate descending n) :=
  carries_bind (plain_cursorOpenDir h window predicate descending) fun c =>
    carries_bind (plain_withCursor c (plain_cursorWalk n)) fun _ => carries_pure _

theorem plain_countScan (n points : Nat) : Carries Noted.st (countScan cfg n points) (Ts.countScan cfg n points) := by
  induction n generalizing points with
  | zero => exact carries_pure _
  | succ n ih =>
    apply carries_bind (carries_attempt plain_cursorNext)
    intro r
    rcases r with rc | found
    · cases rc <;> first | exact carries_pure _ | exact carries_throw _
    · exact ih _

theorem plain_tsQueryCount (h : Nat) (window : Window) :
    Carries Noted.st (tsQueryCount cfg h window) (Ts.tsQueryCount cfg h window) := by
  apply carries_get_bind
  intro s
  dsimp only
  cases s.st.handles h with
  | none => exact carries_throw _
  | some name =>
    apply carries_ite (carries_silent _)
    apply carries_bind (plain_cursorOpenDir h window none false)
    intro c
    refine carries_get_bind fun t => carries_bind (plain_withCursor c (plain_countScan _ _)) fun _ => carries_pure _

theorem plain_aggScan (agg : Agg) (n : Nat) (acc : Nat × Float) :
    Carries Noted.st (aggScan cfg agg n acc) (Ts.aggScan cfg agg n acc) := by
  induction n generalizing acc with
  | zero => exact carries_pure _
  | succ n ih =>
    apply carries_bind (carries_attempt plain_cursorNext)
    intro r
    rcases r with rc | found
    · cases rc <;> first | exact carries_pure _ | exact carries_throw _
    · exact ih _

theorem plain_aggPeek (cap : Nat) (acc : Nat × Float) : Carries Noted.st (aggPeek cfg cap acc) (Ts.aggPeek cfg cap acc) := by
  refine carries_ite (carries_bind (carries_attempt plain_cursorNext) fun r => ?_) (carries_pure _)
  cases r <;> exact carries_pure _

theorem plain_tsQueryAggregate (cap : AggCap) (h : Nat) (window : Window) (agg : Agg) :
    Carries Noted.st (tsQueryAggregate cfg cap h window agg) (Ts.tsQueryAggregate cfg cap h window agg) := by
  apply carries_ite (carries_bind (plain_tsQueryCount h window) fun _ => carries_pure _)
  apply carries_bind (plain_cursorOpenDir h window none false)
  intro c
  apply carries_bind (plain_withCursor c (carries_bind (plain_aggScan agg _ _) fun acc => plain_aggPeek _ acc))
  intro r
  exact carries_guard (carries_pure _)

end Trail

theorem host_step_op (cfg : Cfg) (cap : AggCap) (w : Host) (op : Op) :
    (w.step cfg cap (.op op)).status = (step cfg w.app op).1.status ∧
      (w.step cfg cap (.op op)).host.app = (step cfg w.app op).2 := by
  have hexec : ∀ {α β : Type} (f : β → Answer) (g : β → α) {m : Trail.TrailM App Status α} {m' : AppM Status β},
      Carries Noted.st m (m' >>= fun x => pure (g x)) →
      (w.call m).status = (exec f m' w.app).1.status ∧ (w.call m).host.app = (exec f m' w.app).2 := by
    intro α β f g m m' hm
    obtain ⟨ho, hp⟩ := hm ⟨w.app, ⟨[], []⟩⟩
    unfold Host.call exec
    dsimp only at ho hp ⊢
    rw [← ho, ← hp]
    cases hr : outcome m' w.app with
    | ok x =>
      rw [outcome_bind_ok hr, post_bind_ok hr]
      exact ⟨rfl, rfl⟩
    | error r =>
      rw [outcome_bind_error hr, post_bind_error hr]
      exact ⟨rfl, rfl⟩
  have hunit : ∀ {m : Trail.TrailM App Status Unit} {m' : AppM Status Unit}, Carries Noted.st m m' →
      (w.call m).status = (exec (fun _ => .none) m' w.app).1.status ∧
        (w.call m).host.app = (exec (fun _ => .none) m' w.app).2 := fun hm =>
    hexec _ id (by simpa using hm)
  cases op with
  | init => exact hunit (Trail.plain_leave _ (carries_silent _))
  | deinit => exact hunit (Trail.plain_leave _ (carries_silent _))
  | «open» h name => exact hunit (Trail.plain_tsOpen h name)
  | close h => exact hunit (Trail.plain_tsClose h)
  | append h sample => exact hunit (Trail.plain_tsAppendI64 h sample)
  | batch h samples => exact hunit (Trail.plain_tsAppendBatchI64 h samples)
  | flushAsync h => exact hunit (carries_silent _)
  | flushSync h => exact hunit (Trail.plain_tsFlushSync h)
  | drain => exact hunit Trail.plain_flushWorkHandler
  | recover h => exact hexec _ (fun _ => ()) (carries_bind (Trail.plain_tsRecoverStream h) fun _ => carries_pure _)
  | count h window => exact hexec _ (fun _ => ()) (carries_bind (Trail.plain_tsQueryCount h window) fun _ => carries_pure _)
  | cursor h window predicate descending n =>
    exact hexec _ (fun _ => ()) (carries_bind (Trail.plain_queryCursor h window predicate descending n) fun _ => carries_pure _)

end ZephyrDB.Ts
