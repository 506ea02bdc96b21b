import ZephyrDB.Ts.Fcb

/-!
What a cursor on the circular buffer yields. A run does not look at what its
entries hold, so the same run on samples with their stream names says which
stream each retained entry was appended through.
-/

set_option autoImplicit false

namespace ZephyrDB.Ts

open Lib

section Carries
variable {α γ ε β : Type} (f : α → γ)

theorem carries_fcbApp (m : AppM ε β) : Carries (FcbApp.map f) (fcbApp m) (fcbApp m) :=
  carries_zoom (p := id) (fun _ => rfl) (fun _ _ => rfl) (carries_id m)

theorem carries_fcbLog {m : RingM α β} {m' : RingM γ β} (h : Carries (RingLog.map f) m m') :
    Carries (FcbApp.map f) (fcbLog m) (fcbLog m') :=
  carries_zoom (fun _ => rfl) (fun _ _ => rfl) h

theorem carries_fcbCall : Carries (FcbApp.map f) (fcbLog (ringCall : RingM α Unit)) (fcbLog ringCall) :=
  carries_fcbLog f (carries_ringCall f)

theorem carries_fcbEnsureInit : Carries (FcbApp.map f) fcbEnsureInit fcbEnsureInit := by
  apply carries_get_bind
  intro s
  dsimp only [FcbApp.map]
  cases s.fcbInitialized with
  | true => exact carries_pure _
  | false =>
    apply carries_bind (carries_fcbCall f)
    intro _
    apply carries_get_bind
    intro t
    dsimp only [FcbApp.map, RingLog.map]
    by_cases hs : t.log.sectors < 2
    · simp only [hs, if_true]
      exact carries_throw _
    · simp only [hs, if_false]
      apply carries_bind (carries_fcbCall f)
      intro _
      apply carries_modify
      intro _
      rfl

theorem carries_fcbReserve (cfg : Cfg) : Carries (FcbApp.map f) (fcbReserve cfg) (fcbReserve cfg) := by
  apply carries_bind (carries_attempt (carries_fcbCall f))
  intro r
  split
  · exact carries_pure _
  · split
    · apply carries_bind (carries_fcbLog f (carries_ringRotate f))
      intro _
      exact carries_fcbCall f
    · exact carries_throw _
  · exact carries_throw _

theorem carries_fcbAppendRecord (cfg : Cfg) (rec : α) :
    Carries (FcbApp.map f) (fcbAppendRecord cfg rec) (fcbAppendRecord cfg (f rec)) :=
  carries_bind (carries_fcbEnsureInit f) fun _ => carries_bind (carries_fcbReserve f cfg) fun _ =>
    carries_bind (carries_fcbCall f) fun _ => carries_fcbLog f (carries_ringFinish f rec)

theorem carries_fcbTsOpen (cfg : Cfg) (h : Nat) (name : Bytes) :
    Carries (FcbApp.map f) (fcbTsOpen cfg h name) (fcbTsOpen cfg h name) := by
  unfold fcbTsOpen
  cases streamNameValid cfg name with
  | false => exact carries_throw _
  | true =>
    apply carries_get_bind
    intro s
    dsimp only [FcbApp.map]
    cases s.app.cfgSet with
    | false => exact carries_throw _
    | true =>
      apply carries_bind (carries_fcbApp f _)
      intro _
      apply carries_bind (carries_adaptExcept _ (carries_fcbEnsureInit f))
      intro _
      apply carries_bind (carries_fcbApp f _)
      intro _
      apply carries_modify
      intro _
      rfl

theorem carries_fcbTsClose (h : Nat) : Carries (FcbApp.map f) (fcbTsClose h) (fcbTsClose h) := by
  apply carries_get_bind
  intro s
  dsimp only [FcbApp.map]
  cases s.app.handles h with
  | none => exact carries_pure _
  | some name =>
    apply carries_get_bind
    intro t
    dsimp only [FcbApp.map]
    cases t.app.slotFind name with
    | none => exact carries_modify fun _ => rfl
    | some i => exact carries_bind (carries_fcbApp f _) fun _ => carries_modify fun _ => rfl

variable (enc : Bytes → Sample → α)

theorem carries_fcbAppendRecords (cfg : Cfg) (name : Bytes) (samples : List Sample) :
    Carries (FcbApp.map f) (fcbAppendRecords enc cfg name samples)
      (fcbAppendRecords (fun n x => f (enc n x)) cfg name samples) := by
  induction samples with
  | nil => exact carries_pure _
  | cons sample samples ih => exact carries_bind (carries_fcbAppendRecord f cfg _) fun _ => ih

theorem carries_fcbTsAppendI64 (cfg : Cfg) (h : Nat) (sample : Sample) :
    Carries (FcbApp.map f) (fcbTsAppendI64 enc cfg h sample)
      (fcbTsAppendI64 (fun n x => f (enc n x)) cfg h sample) := by
  apply carries_get_bind
  intro s
  dsimp only [FcbApp.map]
  cases s.app.handles h with
  | none => exact carries_throw _
  | some name =>
    apply carries_bind (carries_fcbApp f _)
    intro _
    apply carries_get_bind
    intro t
    dsimp only [FcbApp.map]
    cases t.app.slotFind name with
    | none => exact carries_throw _
    | some i => exact carries_adaptExcept _ (carries_fcbAppendRecord f cfg _)

theorem carries_fcbTsAppendBatchI64 (cfg : Cfg) (h : Nat) (samples : List Sample) :
    Carries (FcbApp.map f) (fcbTsAppendBatchI64 enc cfg h samples)
      (fcbTsAppendBatchI64 (fun n x => f (enc n x)) cfg h samples) := by
  apply carries_get_bind
  intro s
  dsimp only [FcbApp.map]
  cases s.app.handles h with
  | none => exact carries_throw _
  | some name =>
    cases samples with
    | nil => exact carries_throw _
    | cons sample rest =>
      apply carries_bind (carries_fcbApp f _)
      intro _
      apply carries_get_bind
      intro t
      dsimp only [FcbApp.map]
      cases t.app.slotFind name with
      | none => exact carries_throw _
      | some i => exact carries_adaptExcept _ (carries_fcbAppendRecords f enc cfg name (sample :: rest))

theorem carries_fcbOp (cfg : Cfg) (op : FcbOp) :
    Carries (FcbApp.map f) (fcbCall enc cfg op) (fcbCall (fun n x => f (enc n x)) cfg op) := by
  cases op with
  | init => exact carries_bind (carries_fcbApp f _) fun _ => carries_modify fun _ => rfl
  | deinit => exact carries_bind (carries_fcbApp f _) fun _ => carries_modify fun _ => rfl
  | «open» h name => exact carries_fcbTsOpen f cfg h name
  | close h => exact carries_fcbTsClose f h
  | append h sample => exact carries_fcbTsAppendI64 f enc cfg h sample
  | batch h samples => exact carries_fcbTsAppendBatchI64 f enc cfg h samples

theorem fcbRun_map (cfg : Cfg) (ops : List FcbOp) (s : FcbApp α) :
    fcbRun (fun n x => f (enc n x)) cfg (s.map f) ops = (fcbRun enc cfg s ops).map f := by
  induction ops generalizing s with
  | nil => rfl
  | cons op ops ih =>
    have hstep := (carries_fcbOp f enc cfg op s).2
    simp only [fcbRun, List.foldl_cons] at ih ⊢
    rw [hstep, ih]

end Carries

/-- Nothing fails from here on. -/
structure FcbApp.Quiet (s : FcbApp Bytes) : Prop where
  log : s.log.Quiet
  env : ∀ n, s.app.env.tick ≤ n → s.app.env.faults n = Fault.none

/-- A handle on a stream that is open. -/
structure FcbApp.Holds (s : FcbApp Bytes) (h : Nat) (name : Bytes) : Prop where
  cfgSet : s.app.cfgSet = true
  bound : s.app.handles h = some name
  inSlot : (s.app.slotFind name).isSome = true

def FcbApp.Ready (s : FcbApp Bytes) : Prop := s.app.cfgSet = true ∧ s.app.tsCtx.isSome = true

theorem FcbApp.Holds.ready {s : FcbApp Bytes} {h : Nat} {name : Bytes} (ho : s.Holds h name) : s.Ready := by
  refine ⟨ho.cfgSet, ?_⟩
  have hslot := ho.inSlot
  unfold App.slotFind at hslot
  cases hctx : s.app.tsCtx with
  | none => simp [hctx] at hslot
  | some ctx => rfl

/-- The state after one more call to the log. -/
def FcbApp.read (s : FcbApp Bytes) : FcbApp Bytes := { s with log := s.log.next }

theorem FcbApp.Quiet.read {s : FcbApp Bytes} (h : s.Quiet) : s.read.Quiet := ⟨h.log.next, h.env⟩

theorem run_getCtx {cfg : Cfg} {s : FcbApp Bytes} (hr : s.Ready) (c : FcbCursor) :
    (fcbOn (fcbApp (tsCtxGetOrAlloc cfg .ERR_INVAL))).run ⟨c, s⟩ = .ok () ⟨c, s⟩ := by
  obtain ⟨hcfg, hctx⟩ := hr
  obtain ⟨ctx, hctx⟩ := Option.isSome_iff_exists.mp hctx
  have happ : (tsCtxGetOrAlloc cfg .ERR_INVAL).run s.app = .ok () s.app := by
    unfold tsCtxGetOrAlloc
    refine run_then (t := s.app) rfl ?_
    simp only [hcfg, hctx]
    rfl
  exact run_zoom (run_zoom happ)

theorem run_readRecord {s : FcbApp Bytes} {c : FcbCursor} {raw : Bytes} (hq : s.Quiet)
    (hlen : raw.length = recSizeV1) (h : s.log.entries[c.fcbLoc]? = some raw) :
    fcbCursorReadRecord.run ⟨c, s⟩ = .ok raw ⟨{ c with fcbLoc := c.fcbLoc + 1 }, s.read.read⟩ := by
  have hget : (fcbOn (toStatus (fcbLog (ringGetnext c.fcbLoc)))).run ⟨c, s⟩ = .ok raw ⟨c, s.read⟩ :=
    run_zoom (run_adapt (run_zoom (run_ringGetnext hq.log h)))
  have hcall : (fcbOn (toStatus (fcbLog ringCall))).run ⟨{ c with fcbLoc := c.fcbLoc + 1 }, s.read⟩ =
      .ok () ⟨{ c with fcbLoc := c.fcbLoc + 1 }, s.read.read⟩ :=
    run_zoom (run_adapt (run_zoom (run_ringCall hq.log.next)))
  refine run_then (a := ⟨c, s⟩) (t := ⟨c, s⟩) rfl ?_
  apply run_then hget
  refine run_then (t := ⟨{ c with fcbLoc := c.fcbLoc + 1 }, s.read⟩) rfl ?_
  rw [if_neg (fun hne => hne hlen)]
  exact run_then hcall rfl

theorem run_cursorScan {s : FcbApp Bytes} {c : FcbCursor} {sample : Sample} (n : Nat) (hq : s.Quiet)
    (h : s.log.entries[c.fcbLoc]? = some (recordEncode sample))
    (hadmits : c.admits (recordEncode sample) sample = true) :
    (fcbCursorScan (n + 1)).run ⟨c, s⟩ = .ok (recordEncode sample, sample)
      ⟨{ c with fcbLoc := c.fcbLoc + 1, last := some sample }, s.read.read⟩ := by
  have hread := run_readRecord hq (recordEncode_length sample) h
  have hdecode := run_recordDecode_encode sample s.read.read.app.env
  generalize recordEncode sample = raw at *
  have hattempt : (attempt (fcbOn (fcbApp (onEnv (recordDecode raw)))) :
      FcbCurM Status (Except Status Sample)).run ⟨{ c with fcbLoc := c.fcbLoc + 1 }, s.read.read⟩ =
      .ok (.ok sample) ⟨{ c with fcbLoc := c.fcbLoc + 1 }, s.read.read⟩ :=
    run_attempt_ok (run_zoom (run_zoom (run_zoom hdecode)))
  have hadm : ({ c with fcbLoc := c.fcbLoc + 1 } : FcbCursor).admits raw sample = true := hadmits
  rw [fcbCursorScan]
  apply run_then hread
  apply run_then hattempt
  refine run_then (a := ⟨{ c with fcbLoc := c.fcbLoc + 1 }, s.read.read⟩)
    (t := ⟨{ c with fcbLoc := c.fcbLoc + 1 }, s.read.read⟩) rfl ?_
  simp only [hadm, if_true]
  rfl

theorem run_cursorNext (cfg : Cfg) {s : FcbApp Bytes} {c : FcbCursor} {sample : Sample} (hr : s.Ready) (hq : s.Quiet)
    (h : s.log.entries[c.fcbLoc]? = some (recordEncode sample))
    (hadmits : c.admits (recordEncode sample) sample = true) :
    (fcbCursorNext cfg).run ⟨c, s⟩ = .ok (recordEncode sample, sample)
      ⟨{ c with fcbLoc := c.fcbLoc + 1, last := some sample }, s.read.read⟩ := by
  have hscan := run_cursorScan s.log.entries.length hq h hadmits
  generalize recordEncode sample = raw at hscan ⊢
  apply run_then (run_getCtx hr c)
  refine run_then (a := ⟨c, s⟩) (t := ⟨c, s⟩) rfl ?_
  exact hscan

theorem run_cursorNext_end (cfg : Cfg) {s : FcbApp Bytes} {c : FcbCursor} (hr : s.Ready) (hq : s.Quiet)
    (h : s.log.entries[c.fcbLoc]? = none) :
    (fcbCursorNext cfg).run ⟨c, s⟩ = .error .ERR_NOT_FOUND ⟨c, s.read⟩ := by
  have hget : (fcbOn (toStatus (fcbLog (ringGetnext c.fcbLoc)))).run ⟨c, s⟩ =
      .error .ERR_NOT_FOUND ⟨c, s.read⟩ :=
    run_zoom_error (run_adapt_error (f := statusFromErrno) (run_zoom_error (run_ringGetnext_end hq.log h)))
  apply run_then (run_getCtx hr c)
  refine run_then (a := ⟨c, s⟩) (t := ⟨c, s⟩) rfl (run_fails ?_)
  refine run_then (a := ⟨c, s⟩) (t := ⟨c, s⟩) rfl ?_
  exact run_fails hget

def walkResults (samples : List Sample) : List (Except Status (Bytes × Sample)) :=
  samples.map (fun sample => .ok (recordEncode sample, sample)) ++ [.error .ERR_NOT_FOUND]

theorem walkResults_end (samples : List Sample) :
    (walkResults samples)[samples.length]? = some (.error .ERR_NOT_FOUND) := by simp [walkResults]

theorem walkResults_before {samples : List Sample} {n : Nat} (hn : n < samples.length) :
    (walkResults samples)[n]? = some (.ok (recordEncode samples[n], samples[n])) := by
  rw [walkResults, List.getElem?_append_left (by simpa using hn), List.getElem?_map, List.getElem?_eq_getElem hn]
  rfl

theorem run_cursorWalk (cfg : Cfg) {kept : List Sample} {n : Nat} {s : FcbApp Bytes} {c : FcbCursor} (hr : s.Ready)
    (hq : s.Quiet) (hn : n ≤ kept.length + 1)
    (hadmits : ∀ sample ∈ kept, c.admits (recordEncode sample) sample = true)
    (hlog : s.log.entries.drop c.fcbLoc = kept.map recordEncode) :
    ∃ t, (fcbCursorWalk cfg n).run ⟨c, s⟩ = .ok ((walkResults kept).take n) t := by
  induction kept generalizing s c n with
  | nil =>
    have hnone : s.log.entries[c.fcbLoc]? = none := by
      have h0 := congrArg (fun l : List Bytes => l[0]?) hlog
      simpa using h0
    cases n with
    | zero => exact ⟨_, rfl⟩
    | succ n =>
      obtain rfl : n = 0 := Nat.le_zero.mp (Nat.le_of_succ_le_succ hn)
      exact ⟨_, run_then (run_attempt_error (run_cursorNext_end cfg hr hq hnone)) (run_then rfl rfl)⟩
  | cons sample kept ih =>
    cases n with
    | zero => exact ⟨_, rfl⟩
    | succ n =>
      have hhere : s.log.entries[c.fcbLoc]? = some (recordEncode sample) := by
        have h0 := congrArg (fun l : List Bytes => l[0]?) hlog
        simpa using h0
      have hrest : s.log.entries.drop (c.fcbLoc + 1) = kept.map recordEncode := by
        have h1 := congrArg List.tail hlog
        simpa using h1
      have hnext := run_cursorNext cfg hr hq hhere (hadmits sample List.mem_cons_self)
      obtain ⟨t, ht⟩ := ih (s := s.read.read) (c := { c with fcbLoc := c.fcbLoc + 1, last := some sample }) hr
        hq.read.read (Nat.le_of_succ_le_succ hn) (fun x hx => hadmits x (List.mem_cons_of_mem sample hx)) hrest
      exact ⟨t, run_then (run_attempt_ok hnext) (run_then ht rfl)⟩

/-- An ascending cursor on the handle, walked to its end, yields these samples. -/
def FcbApp.Walks (cfg : Cfg) (s : FcbApp Bytes) (h : Nat) (window : Window) (samples : List Sample) : Prop :=
  outcome (fcbQueryCursor cfg h window none false (samples.length + 1)) s = .ok (walkResults samples)

theorem outcome_queryCursor {cfg : Cfg} {s : FcbApp Bytes} {h : Nat} {name : Bytes} {w : Window} {kept : List Sample}
    {n : Nat} (ho : s.Holds h name) (hq : s.Quiet) (hw : windowIsUnbounded w = true)
    (hlog : s.log.entries = kept.map recordEncode) (hn : n ≤ kept.length + 1) :
    outcome (fcbQueryCursor cfg h w none false n) s = .ok ((walkResults kept).take n) := by
  let s₁ : FcbApp Bytes := { s with app := { s.app with env := s.app.env.next } }
  let c : FcbCursor := ⟨name, w, none, 0, none⟩
  have hslab : (fcbApp (onEnv (orFail Status.ERR_NOMEM call))).run s = .ok () s₁ := by
    apply run_zoom
    apply run_zoom
    apply run_adapt
    change call s.app.env = _
    simp only [call, Env.fault, hq.env s.app.env.tick (Nat.le_refl _)]
  have hopen : (fcbCursorOpenDir h w none false).run s = .ok c s₁ := by
    refine run_then (t := s) rfl ?_
    simp only [ho.bound]
    exact run_then hslab rfl
  have hq₁ : s₁.Quiet := ⟨hq.log, fun m hm => hq.env m (Nat.le_of_succ_le hm)⟩
  obtain ⟨t, ht⟩ := run_cursorWalk cfg (n := n) (c := c) (show s₁.Ready from ho.ready) hq₁ hn
    (fun sample _ => by simp [c, FcbCursor.admits, windowMatch_of_unbounded hw]) (by simpa [c, s₁] using hlog)
  refine outcome_of_run (t := t.sys) (run_then hopen (run_then (a := (_, t.cur)) ?_ rfl))
  change fcbWithCursor c (fcbCursorWalk cfg n) s₁ = _
  unfold fcbWithCursor
  rw [ht]

/-- The samples of one stream among entries that name theirs. -/
def appendedThrough (name : Bytes) (kept : List (Bytes × Sample)) : List Sample :=
  (kept.filter fun e => e.1 = name).map Prod.snd

theorem walks_iff {cfg : Cfg} {s : FcbApp Bytes} {h : Nat} {name : Bytes} {w : Window} {kept : List (Bytes × Sample)}
    (ho : s.Holds h name) (hq : s.Quiet) (hw : windowIsUnbounded w = true)
    (hlog : s.log.entries = (kept.map Prod.snd).map recordEncode) :
    s.Walks cfg h w (appendedThrough name kept) ↔ ∀ e ∈ kept, e.1 = name := by
  have hle : (appendedThrough name kept).length ≤ (kept.map Prod.snd).length := by
    simpa [appendedThrough] using List.length_filter_le _ kept
  unfold FcbApp.Walks
  rw [outcome_queryCursor ho hq hw hlog (Nat.succ_le_succ hle), ← filter_owner_length]
  constructor
  · intro hwalk
    -- The walk has come to the end of the log once it reports that it has.
    have hend := congrArg (fun l => l[(appendedThrough name kept).length]?) (Except.ok.inj hwalk)
    have hstop : ¬ (appendedThrough name kept).length < (kept.map Prod.snd).length := by
      intro hlt
      rw [List.getElem?_take_of_lt (Nat.lt_succ_self _), walkResults_before hlt, walkResults_end] at hend
      cases hend
    simpa [appendedThrough] using Nat.le_antisymm hle (Nat.not_lt.mp hstop)
  · intro hlen
    have hall : appendedThrough name kept = kept.map Prod.snd := by
      rw [appendedThrough, List.filter_eq_self.mpr]
      intro e he
      exact decide_eq_true (filter_owner_length.mp hlen e he)
    rw [hall, List.take_of_length_le (by simp [walkResults])]

section Run
variable (cfg : Cfg) (env : Sys) (sectors : Nat) (faults : Nat → Option Errno) (oldest : Nat → Nat)
  (ops : List FcbOp)

/-- The instance after a run of calls on an empty log. -/
def fcbAfter : FcbApp Bytes := fcbRun storedRecord cfg (FcbApp.boot env sectors faults oldest) ops

/-- What the log retains after the run, with the stream that each sample was appended through. -/
def fcbRetained : List (Bytes × Sample) := (fcbRun Prod.mk cfg (FcbApp.boot env sectors faults oldest) ops).log.entries

theorem fcbAfter_entries : (fcbAfter cfg env sectors faults oldest ops).log.entries =
    ((fcbRetained cfg env sectors faults oldest ops).map Prod.snd).map recordEncode := by
  have h := fcbRun_map (fun e : Bytes × Sample => recordEncode e.2) Prod.mk cfg ops
    (FcbApp.boot env sectors faults oldest)
  have hlog := congrArg (fun s : FcbApp Bytes => s.log.entries) h
  rw [List.map_map]
  exact hlog

/-- After any run, a cursor on an open stream yields the samples appended through that stream, and no
others, exactly where none that the log retains was appended through another one. -/
theorem cursor_isolated_iff {h : Nat} {name : Bytes} {w : Window}
    (ho : (fcbAfter cfg env sectors faults oldest ops).Holds h name)
    (hq : (fcbAfter cfg env sectors faults oldest ops).Quiet) (hw : windowIsUnbounded w = true) :
    (fcbAfter cfg env sectors faults oldest ops).Walks cfg h w
        (appendedThrough name (fcbRetained cfg env sectors faults oldest ops)) ↔
      ∀ e ∈ fcbRetained cfg env sectors faults oldest ops, e.1 = name :=
  walks_iff ho hq hw (fcbAfter_entries cfg env sectors faults oldest ops)

end Run

theorem sole_stream_isolated :
    (fcbAfter (Cfg.small true false false 56) (Sys.blank fun _ => false) 2 (fun _ => none) (fun _ => 1)
      [.open 0 [97], .open 1 [98], .append 1 ⟨5, 7⟩]).Walks (Cfg.small true false false 56) 1 Window.all
      [⟨5, 7⟩] :=
  (@cursor_isolated_iff (Cfg.small true false false 56) (Sys.blank fun _ => false) 2 (fun _ => none) (fun _ => 1)
    [.open 0 [97], .open 1 [98], .append 1 ⟨5, 7⟩] 1 [98] Window.all
    ⟨by decide +kernel, by decide +kernel, by decide +kernel⟩ ⟨fun _ _ => rfl, fun _ _ => rfl⟩
    (by decide)).mpr (by decide +kernel)

/-- Two open streams: what is appended through the first comes back from a cursor on the second. -/
theorem streams_mixed :
    ¬ ∀ (cfg : Cfg) (env : Sys) (sectors : Nat) (faults : Nat → Option Errno) (oldest : Nat → Nat)
      (ops : List FcbOp) (hA hB : Nat) (A B : Bytes) (w : Window),
      A ≠ B → (fcbAfter cfg env sectors faults oldest ops).Holds hA A →
      (fcbAfter cfg env sectors faults oldest ops).Holds hB B →
      (fcbAfter cfg env sectors faults oldest ops).Quiet → windowIsUnbounded w = true →
      (fcbAfter cfg env sectors faults oldest ops).Walks cfg hB w
        (appendedThrough B (fcbRetained cfg env sectors faults oldest ops)) := by
  intro hall
  let ops : List FcbOp := [.open 0 [97], .open 1 [98], .append 0 ⟨5, 7⟩]
  have hA : (fcbAfter (Cfg.small true false false 56) (Sys.blank fun _ => false) 2 (fun _ => none) (fun _ => 1)
      ops).Holds 0 [97] := ⟨by decide +kernel, by decide +kernel, by decide +kernel⟩
  have hB : (fcbAfter (Cfg.small true false false 56) (Sys.blank fun _ => false) 2 (fun _ => none) (fun _ => 1)
      ops).Holds 1 [98] := ⟨by decide +kernel, by decide +kernel, by decide +kernel⟩
  have hw := hall (Cfg.small true false false 56) (Sys.blank fun _ => false) 2 (fun _ => none) (fun _ => 1) ops
    0 1 [97] [98] Window.all (by decide) hA hB ⟨fun _ _ => rfl, fun _ _ => rfl⟩ (by decide)
  have hown := (walks_iff hB ⟨fun _ _ => rfl, fun _ _ => rfl⟩ (by decide) (fcbAfter_entries _ _ _ _ _ ops)).mp hw
  exact absurd hown (by decide +kernel)

end ZephyrDB.Ts
