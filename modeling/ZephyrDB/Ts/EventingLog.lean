import ZephyrDB.Ts.EventingErasure
import ZephyrDB.Ts.FlushSyncSpec

/-!
The buffers that count as flushed are writes in the log of the file system,
each of as many bytes as are counted for it.
-/

set_option autoImplicit false

namespace ZephyrDB.Ts.Eventing

open Lib

variable {cfg : Cfg}

def Logged (flushes flushes' : List Nat) (written written' : List (Path × Bytes)) : Prop :=
  ∃ fs ws, flushes' = fs ++ flushes ∧ written' = ws ++ written ∧ fs.Sublist (ws.map fun w => w.2.length)

theorem logged_none {flushes : List Nat} {written written' : List (Path × Bytes)} (h : written <:+ written') :
    Logged flushes flushes written written' := by
  obtain ⟨ws, rfl⟩ := h
  exact ⟨[], ws, rfl, rfl, List.nil_sublist _⟩

theorem Logged.trans {f f' f'' : List Nat} {w w' w'' : List (Path × Bytes)} (h : Logged f f' w w')
    (k : Logged f' f'' w' w'') : Logged f f'' w w'' := by
  obtain ⟨fs, ws, rfl, rfl, hsub⟩ := h
  obtain ⟨fs', ws', rfl, rfl, hsub'⟩ := k
  refine ⟨fs' ++ fs, ws' ++ ws, (List.append_assoc ..).symm, (List.append_assoc ..).symm, ?_⟩
  rw [List.map_append]
  exact hsub'.append hsub

theorem Logged.grows {f f' : List Nat} {w w' : List (Path × Bytes)} (h : Logged f f' w w') : w <:+ w' := by
  obtain ⟨-, ws, -, rfl, -⟩ := h
  exact List.suffix_append ws w

def SlotLogs (s t : Noted SlotSt SlotNotes) : Prop :=
  Logged s.notes.done.flushes t.notes.done.flushes s.st.env.written t.st.env.written

theorem slotLogs_chains : Chains SlotLogs where
  refl _ := logged_none List.suffix_rfl
  trans := Logged.trans

theorem slotLogs_silent {ε α : Type} {m : Ts.SlotM ε α} {s : Noted SlotSt SlotNotes}
    (h : s.st.env.written <:+ (post m s.st).env.written) : Keeps SlotLogs (silent m) s := by
  unfold Keeps silent
  rw [post_zoom]
  exact logged_none h

theorem slotLogs_moves {ε α : Type} {m : SlotM ε α} {m' : Ts.SlotM ε α} {s : Noted SlotSt SlotNotes}
    (hplain : Carries Noted.st m m') (hmoves : Keeps (Moves cfg) m' s.st)
    (hsame : (post m s).notes.done.flushes = s.notes.done.flushes) : Keeps SlotLogs m s := by
  have hgrows : s.st.env.written <:+ (post m s).st.env.written := by
    rw [← (hplain s).2]
    exact hmoves.within.written
  unfold Keeps SlotLogs
  rw [hsame]
  exact logged_none hgrows

theorem done_rolls : Rolls fun s t => t.notes.done.flushes = s.notes.done.flushes where
  chains := fixes_chains fun s : Noted SlotSt SlotNotes => s.notes.done.flushes
  same _ _ h := congrArg (·.done.flushes) h
  discard segPath s := by
    obtain ⟨info, removed, _, hnotes⟩ := discardFile_notes segPath s
    exact congrArg (·.done.flushes) hnotes

theorem slotLogs_startSegment (hev : cfg.eventing = true) (hs : cfg.segmented = true) (baseTsMs : UInt64) :
    Always SlotLogs (startSegment cfg baseTsMs) := fun s =>
  slotLogs_moves (plain_startSegment hev baseTsMs) (keeps_startSegment hs baseTsMs s.st)
    (done_rolls.startSegment cfg baseTsMs s)

theorem slotLogs_rollSegmentIfFull (hev : cfg.eventing = true) (hs : cfg.segmented = true) :
    Always SlotLogs (rollSegmentIfFull cfg) := fun s =>
  slotLogs_moves (plain_rollSegmentIfFull hev) (keeps_rollSegmentIfFull hs s.st) (done_rolls.rollSegmentIfFull cfg s)

theorem fsAppend_le {p : Path} {bs : Bytes} {n : Nat} {e e' : Sys} (h : (fsAppend p bs).run e = .ok n e') :
    n ≤ bs.length := by
  change fsWrite p _ bs e = _ at h
  unfold fsWrite at h
  split at h
  · cases h
    exact Nat.le_refl _
  · cases h
    exact Nat.min_le_right _ _
  · cases h

theorem writeBuffer_logs {buf : Bytes} {used : Nat} {s t : SlotSt} (h : (writeBuffer cfg buf used).run s = .ok () t) :
    ∃ ws w, t.env.written = ws ++ s.env.written ∧ w ∈ ws ∧ w.2.length = used := by
  have hsys : ∀ {ε α : Type} {m : EStateM ε Sys α} {u v : SlotSt} {x : α}, (onSys m).run u = .ok x v →
      m.run u.env = .ok x v.env := by
    intro ε α m u v x hrun
    have hout : outcome m u.env = .ok x := by
      rw [← outcome_of_run hrun, onSys, outcome_zoom]
    have hpost : post m u.env = v.env := by
      rw [← post_of_run hrun, onSys, post_zoom]
    rw [← hpost]
    exact run_of_outcome hout
  have hkeeps : ∀ {ε α : Type} {m : EStateM ε Sys α} {u v : SlotSt} {x : α}, (onSys m).run u = .ok x v →
      Keeps (Within fun _ => True) m u.env → u.env.written <:+ v.env.written := by
    intro ε α m u v x hrun hm
    have hwithin := hm.written
    rwa [post_of_run (hsys hrun)] at hwithin
  unfold writeBuffer at h
  obtain ⟨p, s₁, hpath, h⟩ := of_run_bind h
  obtain ⟨_, s₂, hopen, h⟩ := of_run_bind h
  obtain ⟨wr, s₃, happ, h⟩ := of_run_bind h
  dsimp only at h
  by_cases hcount : wr = used
  · subst hcount
    rw [if_neg (not_not.mpr rfl)] at h
    obtain ⟨_, s₄, hclose, h⟩ := of_run_bind h
    have h₁ : s.env.written <:+ s₁.env.written := by
      have hmoves := (keeps_activePath cfg s).within.written
      rwa [post_of_run hpath] at hmoves
    have h₂ := hkeeps hopen (keeps_fsOpen trivial _ _ _)
    have h₄ := hkeeps hclose (keeps_call _)
    have hlen : (buf.take wr).length = wr :=
      Nat.le_antisymm (List.length_take_le _ _) (fsAppend_le (hsys happ))
    have h₃ := written_of_fsAppend (hsys happ) (Nat.le_of_eq hlen)
    have h₅ : t.env.written = s₄.env.written := by
      cases h
      rfl
    obtain ⟨before, hbefore⟩ := h₁.trans h₂
    obtain ⟨after, hafter⟩ := h₄
    refine ⟨after ++ (p, buf.take wr) :: before, (p, buf.take wr), ?_, by simp, hlen⟩
    rw [h₅, ← hafter, h₃, ← hbefore, List.append_assoc, List.cons_append]
  · rw [if_pos hcount] at h
    obtain ⟨_, _, hthrow, -⟩ := of_run_bind h
    cases hthrow

theorem slotLogs_flushBufferLocked (hev : cfg.eventing = true) : Always SlotLogs (flushBufferLocked cfg) := by
  have hR := slotLogs_chains
  have hrest : Always SlotLogs (if cfg.segmented then rollSegmentIfFull cfg else pure () : SlotM Errno Unit) := by
    split
    · rename_i hs
      exact slotLogs_rollSegmentIfFull hev hs
    · exact always_pure hR ()
  intro s
  show Keeps SlotLogs (silent getSlot >>= _) s
  unfold Keeps
  rw [post_then (show (silent getSlot : SlotM Errno StreamCtx).run s = .ok s.st.slot s from rfl)]
  dsimp only
  split
  · apply keeps_bind hR (keeps_throw hR _ s)
    intro _ _ h
    exact by cases h
  cases hbuf : s.st.slot.ingestBuf with
  | none => exact keeps_throw hR _ s
  | some buf =>
    dsimp only
    split
    case isFalse => exact keeps_pure hR () s
    cases hwrite : (writeBuffer cfg buf s.st.slot.ingestUsed).run s.st with
    | ok u t =>
      have hsilent : (silent (writeBuffer cfg buf s.st.slot.ingestUsed) : SlotM Errno Unit).run s =
          .ok () { s with st := t } := run_zoom hwrite
      obtain ⟨ws, w, hws, hmem, hlen⟩ := writeBuffer_logs hwrite
      rw [post_then hsilent, post_then (run_note _ _)]
      refine slotLogs_chains.trans ?_ (hrest _)
      refine ⟨[s.st.slot.ingestUsed], ws, rfl, hws, ?_⟩
      exact List.singleton_sublist.mpr (List.mem_map.mpr ⟨w, hmem, hlen⟩)
    | error err t =>
      have hsilent : (silent (writeBuffer cfg buf s.st.slot.ingestUsed) : SlotM Errno Unit).run s =
          .error err { s with st := t } := run_zoom_error hwrite
      have hmoves := (keeps_writeBuffer cfg hbuf rfl).within.written
      rw [post_of_error hwrite] at hmoves
      rw [post_of_error (run_fails hsilent)]
      exact logged_none hmoves

theorem slotLogs_rebaseRecord (hev : cfg.eventing = true) (sample : Sample) : Always SlotLogs (rebaseRecord cfg sample) := by
  have hR := slotLogs_chains
  unfold rebaseRecord
  cases hs : cfg.segmented with
  | false => exact always_throw hR _
  | true =>
    apply always_bind hR (always_adaptExcept _ (slotLogs_flushBufferLocked hev))
    intro _
    apply always_bind hR (always_adaptExcept _ (slotLogs_startSegment hev hs _))
    intro _
    apply always_bind hR (fun s => slotLogs_silent List.suffix_rfl)
    intro slot
    cases slotEncode cfg slot sample with
    | none => exact always_throw hR _
    | some raw => exact always_bind hR (fun s => slotLogs_silent List.suffix_rfl) fun _ => always_pure hR _

theorem slotLogs_appendRecord (hev : cfg.eventing = true) (sample : Sample) : Always SlotLogs (appendRecord cfg sample) := by
  have hR := slotLogs_chains
  have hencode : ∀ recSize, Always SlotLogs (encodeRecord cfg sample recSize) := by
    intro recSize
    apply always_bind hR (fun s => slotLogs_silent List.suffix_rfl)
    intro slot
    cases slotEncode cfg slot sample with
    | none => exact slotLogs_rebaseRecord hev sample
    | some raw => exact always_bind hR (fun s => slotLogs_silent List.suffix_rfl) fun _ => always_pure hR _
  apply always_bind hR (fun s => slotLogs_silent List.suffix_rfl)
  intro slot
  apply always_guard hR
  exact always_when hR (fun _ => always_adaptExcept _ (slotLogs_flushBufferLocked hev)) (hencode _)

theorem slotLogs_appendRecords (hev : cfg.eventing = true) (samples : List Sample) :
    Always SlotLogs (appendRecords cfg samples) := by
  induction samples with
  | nil => exact always_pure slotLogs_chains ()
  | cons sample samples ih => exact always_bind slotLogs_chains (slotLogs_appendRecord hev sample) fun _ => ih

def AppLogs (s t : Noted App Books) : Prop :=
  Logged s.notes.done.flushes t.notes.done.flushes s.st.env.written t.st.env.written

theorem appLogs_chains : Chains AppLogs where
  refl _ := logged_none List.suffix_rfl
  trans := Logged.trans

theorem appLogs_of_same {s t : Noted App Books} (hdone : t.notes.done = s.notes.done)
    (hwritten : s.st.env.written <:+ t.st.env.written) : AppLogs s t := by
  unfold AppLogs
  rw [hdone]
  exact logged_none hwritten

theorem appLogs_silent {ε α : Type} {m : Ts.AppM ε α} (h : ∀ a, a.env.written <:+ (post m a).env.written) :
    Always AppLogs (silent m : AppM ε α) := by
  intro s
  unfold Keeps silent
  rw [post_zoom]
  exact appLogs_of_same rfl (h s.st)

theorem appLogs_onSlot {ε α : Type} {m : SlotM ε α} (i : Nat) (hm : Always SlotLogs m) :
    Always AppLogs (onSlot i m) := by
  intro s
  unfold Keeps onSlot
  rw [post_zoom]
  exact hm ⟨⟨s.st.slotAt i, s.st.env⟩, s.notes.page i⟩

theorem appLogs_locked {ε α : Type} {m : AppM ε α} (hm : Always AppLogs m) : Always AppLogs (locked m) := by
  intro s
  have hrun : post (locked m) s = unlocked (post m s) :=
    (post_then (run_attempt m s)).trans ((post_then rfl).trans (by cases outcome m s <;> rfl))
  unfold Keeps
  rw [hrun]
  exact appLogs_chains.trans (hm s) (appLogs_of_same (unlocked_done _) List.suffix_rfl)

theorem appLogs_get {ε α : Type} {f : Noted App Books → AppM ε α} (h : ∀ s, Always AppLogs (f s)) :
    Always AppLogs (get >>= f) := fun s => keeps_get_bind (h s s)

theorem appLogs_tsCtxGetOrAlloc (onNull : Status) : Always AppLogs (tsCtxGetOrAlloc cfg onNull) := by
  apply appLogs_get
  intro s
  have hctx : Always AppLogs (silent (Ts.tsCtxGetOrAlloc cfg onNull) : AppM Status Unit) :=
    appLogs_silent fun a => (rests_tsCtxGetOrAlloc onNull a).written
  apply always_bind appLogs_chains hctx
  intro _
  exact always_ite (fun t => appLogs_of_same rfl List.suffix_rfl) (always_pure appLogs_chains ())

theorem written_submitFlush (a : App) : a.env.written <:+ (post submitFlush a).env.written := by
  have hR : Chains fun a b : App => a.env.written <:+ b.env.written := ⟨fun _ => List.suffix_rfl, List.IsSuffix.trans⟩
  show Keeps (fun a b : App => a.env.written <:+ b.env.written) submitFlush a
  apply keeps_get_bind
  split
  · apply keeps_bind hR (keeps_throw hR _ a)
    intro _ _ h
    exact by cases h
  · refine keeps_bind hR List.suffix_rfl fun _ b _ => ?_
    unfold Keeps Ts.onEnv
    rw [post_zoom]
    exact (keeps_call (P := fun _ => False) b.env).written

theorem appLogs_tsFlushAsync (h : Nat) : Always AppLogs (tsFlushAsync cfg h) := by
  have hR := appLogs_chains
  apply appLogs_get
  intro s
  apply always_guard hR
  apply always_bind hR (appLogs_tsCtxGetOrAlloc _)
  intro _
  apply always_bind hR (appLogs_locked (appLogs_silent written_submitFlush))
  intro sent
  cases sent with
  | ok _ => exact always_pure hR ()
  | error err => exact always_bind hR (appLogs_silent fun a => List.suffix_rfl) fun _ => always_throw hR _

theorem appLogs_tsAppendI64 (hev : cfg.eventing = true) (h : Nat) (sample : Sample) :
    Always AppLogs (tsAppendI64 cfg h sample) := by
  have hR := appLogs_chains
  have hflush : ∀ i recSize, Always AppLogs (appendFlush cfg h i recSize) := by
    intro i recSize
    apply appLogs_get
    intro s
    apply always_ite _ (always_pure hR ())
    apply always_bind hR (always_attempt (appLogs_tsFlushAsync h))
    intro sent
    split
    · exact always_pure hR ()
    · exact always_pure hR ()
    · exact always_throw hR _
  apply appLogs_get
  intro s
  cases s.st.handles h with
  | none => exact always_throw hR _
  | some name =>
    apply always_bind hR (appLogs_tsCtxGetOrAlloc _)
    intro _
    apply appLogs_get
    intro t
    cases t.st.slotFind name with
    | none => exact always_throw hR _
    | some i =>
      apply always_bind hR (appLogs_locked (appLogs_onSlot i (slotLogs_appendRecord hev sample)))
      intro recSize
      exact hflush i recSize

theorem appLogs_tsAppendBatchI64 (hev : cfg.eventing = true) (h : Nat) (samples : List Sample) :
    Always AppLogs (tsAppendBatchI64 cfg h samples) := by
  have hR := appLogs_chains
  have hlocked : ∀ name, Always AppLogs (batchLocked cfg name samples) := by
    intro name
    apply appLogs_get
    intro s
    cases s.st.slotFind name with
    | none => exact always_throw hR _
    | some i =>
      apply always_bind hR (appLogs_onSlot i (slotLogs_appendRecords hev samples))
      intro _
      exact always_pure hR i
  apply appLogs_get
  intro s
  cases s.st.handles h with
  | none => exact always_throw hR _
  | some name =>
    apply always_guard hR
    apply always_bind hR (appLogs_tsCtxGetOrAlloc _)
    intro _
    apply always_bind hR (appLogs_locked (hlocked name))
    intro i
    apply appLogs_get
    intro t
    apply always_ite _ (always_pure hR ())
    apply always_bind hR (always_attempt (appLogs_tsFlushAsync h))
    intro _
    exact always_pure hR ()

theorem appLogs_slotRelease (i : Nat) : Always AppLogs (slotRelease i) := by
  have hR := appLogs_chains
  have hfree : Always AppLogs (silent (Ts.slotRelease i) : AppM Status Unit) := by
    apply appLogs_silent
    intro a
    unfold Ts.slotRelease
    rw [post_modify]
    dsimp only
    split <;> exact List.suffix_rfl
  apply appLogs_get
  intro s
  dsimp only
  split
  · apply always_bind hR
    · intro t
      refine appLogs_of_same ?_ List.suffix_rfl
      show (t.notes.rescue i _).done = _
      unfold Books.rescue
      split <;> rfl
    · intro _
      apply always_bind hR (fun t => appLogs_of_same rfl List.suffix_rfl)
      intro _
      exact hfree
  · exact hfree

theorem appLogs_tsClose (hev : cfg.eventing = true) (h : Nat) : Always AppLogs (tsClose cfg h) := by
  have hR := appLogs_chains
  have hflush : ∀ name, Always AppLogs (closeFlush cfg name) := by
    intro name
    apply appLogs_get
    intro s
    dsimp only
    cases s.st.slotFind name with
    | none => exact always_pure hR ()
    | some i =>
      exact always_ite (always_adaptExcept _ (appLogs_onSlot i (slotLogs_flushBufferLocked hev))) (always_pure hR ())
  have hlocked : ∀ name, Always AppLogs (closeLocked cfg name) := by
    intro name
    apply always_bind hR (always_attempt (hflush name))
    intro status
    apply appLogs_get
    intro s
    dsimp only
    cases s.st.slotFind name with
    | none => exact always_rethrow hR status
    | some i => exact always_bind hR (appLogs_slotRelease i) fun _ => always_rethrow hR status
  apply appLogs_get
  intro s
  cases s.st.handles h with
  | none => exact always_pure hR ()
  | some name =>
    apply appLogs_get
    intro t
    have hsection : Always AppLogs (if t.st.tsCtx.isSome then locked (closeLocked cfg name) else pure () : AppM Status Unit) :=
      always_ite (appLogs_locked (hlocked name)) (always_pure hR ())
    apply always_bind hR (always_attempt hsection)
    intro status
    apply always_bind hR (appLogs_silent fun a => List.suffix_rfl)
    intro _
    exact always_rethrow hR status

theorem appLogs_flushSlots (hev : cfg.eventing = true) (is : List Nat) (d : Drained) :
    Always AppLogs (flushSlots cfg is d) := by
  have hR := appLogs_chains
  have hslot : ∀ i d, Always AppLogs (flushSlot cfg i d) := by
    intro i d
    apply appLogs_get
    intro s
    apply always_ite _ (always_pure hR d)
    apply always_bind hR (always_attempt (appLogs_onSlot i (slotLogs_flushBufferLocked hev)))
    intro result
    cases result with
    | error err => exact always_pure hR _
    | ok _ => exact always_bind hR (fun t => appLogs_of_same rfl List.suffix_rfl) fun _ => always_pure hR _
  induction is generalizing d with
  | nil => exact always_pure hR d
  | cons i rest ih => exact always_bind hR (hslot i d) fun d' => ih d'

theorem appLogs_flushWorkHandler (hev : cfg.eventing = true) : Always AppLogs (flushWorkHandler cfg) := by
  have hR := appLogs_chains
  apply appLogs_get
  intro s
  apply always_ite _ (always_pure hR ())
  apply always_bind hR
  · exact appLogs_get fun t => appLogs_flushSlots hev _ _
  · intro d
    have hunlock : Always AppLogs (unlockCommon : AppM Status Unit) := fun t =>
      appLogs_of_same (unlocked_done t) List.suffix_rfl
    apply always_bind hR (appLogs_silent fun a => List.suffix_rfl)
    intro _
    apply always_bind hR hunlock
    intro _ t
    exact appLogs_of_same (report_done d t.notes) List.suffix_rfl

theorem appLogs_tsFlushSync (hev : cfg.eventing = true) (h : Nat) : Always AppLogs (tsFlushSync cfg h) := by
  have hR := appLogs_chains
  apply appLogs_get
  intro s
  apply always_guard hR
  apply always_bind hR (appLogs_tsCtxGetOrAlloc _)
  intro _
  apply always_bind hR (always_attempt (appLogs_tsFlushAsync h))
  intro sent
  split
  · exact appLogs_flushWorkHandler hev
  · exact appLogs_flushWorkHandler hev
  · exact always_throw hR _

theorem done_tsOpen (h : Nat) (name : Bytes) : Fixes (fun s : Noted App Books => s.notes.done) (tsOpen cfg h name) := by
  have hsilent : ∀ {α : Type} (m : Ts.AppM Status α),
      Fixes (fun s : Noted App Books => s.notes.done) (silent m : AppM Status α) := fun m s =>
    congrArg Books.done (fixes_silent m s)
  have hctx : Fixes (fun s : Noted App Books => s.notes.done) (tsCtxGetOrAlloc cfg .ERR_NOMEM) := by
    apply fixes_bind fixes_get
    intro s
    apply fixes_bind (hsilent _)
    intro _
    exact fixes_ite (fun _ => rfl) (fixes_pure ())
  have hclaim : Fixes (fun s : Noted App Books => s.notes.done) (slotClaim cfg name) := by
    apply fixes_bind fixes_get
    intro s
    dsimp only
    split
    · split
      · exact hsilent _
      · apply fixes_bind (fun _ => rfl)
        intro _
        exact hsilent _
    · exact hsilent _
  have hrest : Fixes (fun s : Noted App Books => s.notes.done) (slotClaim cfg name >>= fun _ => do
      silent (modify fun a => a.bind h (some name))
      if cfg.autoRecoverOnOpen then silent (openRecover cfg name) : AppM Status Unit) := by
    apply fixes_bind hclaim
    intro _
    apply fixes_bind (hsilent _)
    intro _
    exact fixes_ite (hsilent _) (fixes_pure ())
  unfold tsOpen
  apply fixes_guard
  apply fixes_bind fixes_get
  intro s
  apply fixes_guard
  apply fixes_bind hctx
  intro _
  apply fixes_bind (hsilent _)
  intro _
  exact fixes_ite (fixes_bind (hsilent _) fun _ => hrest) hrest

theorem done_reads {α : Type} (m : Ts.AppM Status α) (s : Noted App Books) :
    (post (locked (silent m) : AppM Status α) s).notes.done = s.notes.done := by
  have hrun : post (locked (silent m) : AppM Status α) s = unlocked (post (silent m : AppM Status α) s) :=
    (post_then (run_attempt _ s)).trans ((post_then rfl).trans (by cases outcome (silent m : AppM Status α) s <;> rfl))
  rw [hrun, unlocked_done, fixes_silent m s]

/-- In a build with events, what a call counts as flushed is in the write log: each buffer it counts is one
write it made, of as many bytes. `zdb_init` starts the count again. -/
theorem flushes_logged (hev : cfg.eventing = true) (s : Noted App Books) (op : Op) :
    (step cfg s op).2.notes.done.flushes = s.notes.done.flushes ∨ (step cfg s op).2.notes.done.flushes = [] ∨
      AppLogs s (step cfg s op).2 := by
  cases op with
  | init => exact .inr (.inl rfl)
  | deinit => exact .inl rfl
  | «open» h name => exact .inl (congrArg Done.flushes (done_tsOpen h name s))
  | close h => exact .inr (.inr (appLogs_tsClose hev h s))
  | append h sample => exact .inr (.inr (appLogs_tsAppendI64 hev h sample s))
  | batch h samples => exact .inr (.inr (appLogs_tsAppendBatchI64 hev h samples s))
  | flushAsync h => exact .inr (.inr (appLogs_tsFlushAsync h s))
  | flushSync h => exact .inr (.inr (appLogs_tsFlushSync hev h s))
  | drain => exact .inr (.inr (appLogs_flushWorkHandler hev s))
  | recover h => exact .inl (congrArg (·.done.flushes) (fixes_silent (tsRecoverStream cfg h) s))
  | count h window => exact .inl (congrArg Done.flushes (done_reads (tsQueryCount cfg h window) s))
  | cursor h window predicate descending n =>
    exact .inl (congrArg Done.flushes (done_reads (queryCursor cfg h window predicate descending n) s))

end ZephyrDB.Ts.Eventing
