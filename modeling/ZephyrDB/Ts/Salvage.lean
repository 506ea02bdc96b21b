import ZephyrDB.Lib.Noted
import ZephyrDB.Ts.Tail
import ZephyrDB.Ts.Lifetime

/-!
What the recovery pass leaves of a stream's newest file, what it says it took,
and how much of it opening a stream may take.
-/

set_option autoImplicit false

namespace ZephyrDB.Ts

open Lib

/-- `n` whole records behind the header decode, one after another, and what follows them is none. -/
structure GoodPrefix (layout : FileLayout) (bs : Bytes) (n : Nat) : Prop where
  good : ∀ j < n, layout.good (slice bs (layout.hdrSize + j * layout.recSize) layout.recSize) = true
  stop : layout.good (slice bs (layout.hdrSize + n * layout.recSize) layout.recSize) = false

section Left
variable {cfg : Cfg} {name bs : Bytes} {layout : FileLayout}

theorem slice_behind (bs : Bytes) (off pos len : Nat) : slice (bs.drop off) pos len = slice bs (off + pos) len := by
  unfold slice
  rw [List.drop_drop]

theorem goodPrefix (hr : 0 < layout.recSize) (bs : Bytes) :
    GoodPrefix layout bs (layout.goodRecords (bs.drop layout.hdrSize)) := by
  obtain ⟨hgood, hstop⟩ := goodRecords_spec hr (bs.drop layout.hdrSize)
  refine ⟨fun j hj => ?_, ?_⟩
  · rw [← slice_behind]
    exact hgood j hj
  · rw [← slice_behind]
    exact hstop

theorem layoutOf_take (hl : layoutOf bs = .ok layout) {m : Nat} (hm : layout.hdrSize ≤ m)
    (hlen : layout.hdrSize ≤ bs.length) : layoutOf (bs.take m) = .ok layout := by
  have hfield : hdrSizeV1 ≤ m → field (slice (bs.take m) 0 hdrSizeV2) 4 2 = field (slice bs 0 hdrSizeV2) 4 2 := by
    intro h
    have h16 : hdrSizeV1 = 16 := rfl
    have h24 : hdrSizeV2 = 24 := rfl
    unfold field slice
    rw [List.drop_zero, List.drop_zero, List.take_take, List.drop_take, List.drop_take, List.take_take, List.take_take,
      h24]
    congr 2
    omega
  have hshort : (slice (bs.take m) 0 hdrSizeV2).length = min hdrSizeV2 (min m bs.length) := by
    rw [slice_length, List.length_take, Nat.sub_zero]
  have hwhole : (slice bs 0 hdrSizeV2).length = min hdrSizeV2 bs.length := by rw [slice_length, Nat.sub_zero]
  have h16 : hdrSizeV1 = 16 := rfl
  have h24 : hdrSizeV2 = 24 := rfl
  rcases layoutOf_cases hl with rfl | rfl
  · have hm16 : hdrSizeV1 ≤ m := hm
    have hlen16 : hdrSizeV1 ≤ bs.length := hlen
    unfold layoutOf at hl ⊢
    dsimp only at hl ⊢
    rw [if_neg (by omega)] at hl ⊢
    rw [hfield hm16]
    by_cases hv : field (slice bs 0 hdrSizeV2) 4 2 ≠ STREAM_VERSION_V2
    · rw [if_pos hv]
    · rw [if_neg hv] at hl
      by_cases hcut : (slice bs 0 hdrSizeV2).length < hdrSizeV2
      · rw [if_pos hcut] at hl
        cases hl
      · rw [if_neg hcut] at hl
        cases hl
  · have hm24 : hdrSizeV2 ≤ m := hm
    have hlen24 : hdrSizeV2 ≤ bs.length := hlen
    have hsame : slice (bs.take m) 0 hdrSizeV2 = slice bs 0 hdrSizeV2 := slice_take bs (by omega)
    unfold layoutOf at hl ⊢
    rw [hsame]
    exact hl

theorem probed_of_layout (hl : layoutOf bs = .ok layout) : probed bs = layout := by
  unfold probed
  rw [hl]

theorem headerValid_take (hl : layoutOf bs = .ok layout) (hv : headerValid name bs = true) {m : Nat}
    (hm : layout.hdrSize ≤ m) : headerValid name (bs.take m) = true := by
  unfold headerValid at hv ⊢
  rw [hl] at hv
  simp only [Bool.and_eq_true, decide_eq_true_eq] at hv
  rw [layoutOf_take hl hm hv.1]
  simp only [Bool.and_eq_true, decide_eq_true_eq, List.length_take]
  refine ⟨by omega, ?_⟩
  rw [List.take_take, Nat.min_eq_left hm]
  exact hv.2

theorem goodEnd_take (hr : 0 < layout.recSize) (hlen : layout.hdrSize ≤ bs.length) :
    layout.goodEnd (bs.take (layout.goodEnd bs)) = layout.goodEnd bs ∧
      (bs.take (layout.goodEnd bs)).length = layout.goodEnd bs := by
  have hend := goodEnd_le hr hlen
  refine ⟨?_, by rw [List.length_take, Nat.min_eq_left hend]⟩
  have hdrop : (bs.take (layout.goodEnd bs)).drop layout.hdrSize =
      (bs.drop layout.hdrSize).take (layout.goodRecords (bs.drop layout.hdrSize) * layout.recSize) := by
    rw [List.drop_take]
    unfold FileLayout.goodEnd
    rw [Nat.add_sub_cancel_left]
  rw [FileLayout.goodEnd, hdrop, goodRecords_take hr]
  rfl

/-- The recovery pass leaves the header and the longest prefix of whole records that decode, and a
second one leaves that alone. -/
theorem recover_keeps_good_prefix {a : App} {h : Nat} {path : Path} (hc : a.env.Clean)
    (hh : a.handles h = some name) (ht : recoverTarget cfg name a = some (path, bs))
    (hv : headerValid name bs = true) :
    ∃ layout n taken b c, layoutOf bs = .ok layout ∧ GoodPrefix layout bs n ∧
      (tsRecoverStream cfg h).run a = .ok taken b ∧
      b.env.look path = some (bs.take (layout.hdrSize + n * layout.recSize)) ∧
      (tsRecoverStream cfg h).run b = .ok 0 c ∧ c.env.look = b.env.look := by
  obtain ⟨layout, hl⟩ : ∃ layout, layoutOf bs = .ok layout := by
    unfold headerValid at hv
    cases hl : layoutOf bs with
    | error r => rw [hl] at hv; cases hv
    | ok layout => exact ⟨layout, rfl⟩
  have hlen : layout.hdrSize ≤ bs.length := by
    unfold headerValid at hv
    rw [hl] at hv
    simp only [Bool.and_eq_true, decide_eq_true_eq] at hv
    exact hv.1
  have hr := layoutOf_recSize hl
  have hhdr : layout.hdrSize ≤ layout.goodEnd bs := Nat.le_add_right _ _
  -- what is left has the header it had, and nothing behind its good prefix
  let left := bs.take (layout.goodEnd bs)
  have hl' : layoutOf left = .ok layout := layoutOf_take hl hhdr hlen
  have hv' : headerValid name left = true := headerValid_take hl hv hhdr
  obtain ⟨hend, hleft⟩ := goodEnd_take hr hlen
  have htail : tail left = 0 := by
    unfold tail
    rw [probed_of_layout hl', hend, hleft, Nat.sub_self]
  obtain ⟨b, hb, hlook⟩ := recoverTarget_arrives hc ht
  obtain ⟨e₁, h₁, l₁⟩ := recoverFile_passes hb.clean hlook (headerPasses_of_valid hv)
  rw [probed_of_layout hl] at l₁
  let first : App := { b with env := e₁ }
  have hlook₁ : first.begun.env.look path = some left := by rw [begun_look, l₁.look, Function.update_self]
  have hh₁ : first.handles h = some name := by
    rw [show first.handles = a.handles from congrArg (fun x => x.2.1) hb.held, hh]
  obtain ⟨e₂, h₂, l₂⟩ := recoverFile_passes (show first.begun.env.Clean from l₁.clean hb.clean) hlook₁
    (headerPasses_of_valid hv')
  refine ⟨layout, _, taken bs, first, { first.begun with env := e₂ }, hl, goodPrefix hr bs, ?_, ?_, ?_, ?_⟩
  · rw [run_tsRecoverStream hh]
    exact run_recoverStream_ok hb.found h₁
  · rw [← begun_look, hlook₁]
    rfl
  · rw [run_tsRecoverStream hh₁]
    have hnone : taken left = 0 := by
      unfold taken
      rw [htail, Nat.min_zero]
    rw [← hnone]
    exact run_recoverStream_ok (hb.again _) h₂
  · have hsame : left.take ((probed left).goodEnd left) = left := by
      rw [probed_of_layout hl', hend, List.take_of_length_le (by rw [hleft])]
    rw [hsame, ← hlook₁, Function.update_eq_self, begun_look] at l₂
    exact l₂.look

end Left

/-! Files to try it on. -/

/-- An instance without segments whose handle 0 is on stream `A`, with these bytes behind the header of
its file. -/
def App.holding (cfg : Cfg) (rest : Bytes) : App where
  cfgSet := true
  tsCtx := none
  handles := fun _ => some [65]
  env := { Sys.blank (fun _ => false) with
    files := [(⟨streamPath cfg [65], streamHeaderEncode [65] ++ rest⟩ : (_ : Path) × Bytes)].toAList }

def Cfg.plain (autoRecover : Bool) (maxTruncate : Nat) : Cfg :=
  { Cfg.small false false autoRecover 64 with maxRecoveryTruncateBytes := maxTruncate }

theorem holding_clean (cfg : Cfg) (rest : Bytes) : (App.holding cfg rest).env.Clean := fun _ => rfl

theorem holding_handle (cfg : Cfg) (rest : Bytes) : (App.holding cfg rest).handles 0 = some [65] := rfl

/-- A record and three bytes of another one: the record stays. -/
theorem torn_tail_cut : ∃ layout n taken b c,
    layoutOf (streamHeaderEncode [65] ++ (recordEncode ⟨5, 7⟩ ++ [1, 2, 3])) = .ok layout ∧
      GoodPrefix layout (streamHeaderEncode [65] ++ (recordEncode ⟨5, 7⟩ ++ [1, 2, 3])) n ∧
      (tsRecoverStream (Cfg.plain false 0) 0).run (App.holding (Cfg.plain false 0) (recordEncode ⟨5, 7⟩ ++ [1, 2, 3])) =
        .ok taken b ∧
      b.env.look (streamPath (Cfg.plain false 0) [65]) =
        some ((streamHeaderEncode [65] ++ (recordEncode ⟨5, 7⟩ ++ [1, 2, 3])).take
          (layout.hdrSize + n * layout.recSize)) ∧
      (tsRecoverStream (Cfg.plain false 0) 0).run b = .ok 0 c ∧ c.env.look = b.env.look :=
  recover_keeps_good_prefix (holding_clean _ _) (holding_handle _ _) (by decide +kernel) (by decide +kernel)

/-- What a RECOVER event tells of a pass. -/
structure RecoverEvent where
  truncatedBytes : Nat
  status : Status

abbrev RecoverM (σ α : Type) := EStateM Status (Noted σ (List RecoverEvent)) α

/-- `zdb_emit_ts_event` for a RECOVER event. -/
def emitRecover {σ : Type} (truncatedBytes : Nat) (status : Status) : RecoverM σ Unit :=
  note (⟨truncatedBytes, status⟩ :: ·)

namespace Recovery

/-- The part of `zdb_ts_recover_stream` that works on the file; each good exit publishes. -/
def recoverFile (streamName : Bytes) (path : Path) : RecoverM Sys Nat := do
  let layout ← silent (probeLayout path)
  silent (toStatus (fsOpen path true false))
  let hdr ← silent (toStatus (fsRead path 0 hdrSizeV1))
  if hdr.length = 0 then
    silent (toStatus call)
    let wr ← silent (toStatus (fsWrite path 0 (streamHeaderEncode streamName)))
    if wr ≠ hdrSizeV1 then throw Status.ERR_IO
    emitRecover 0 .OK
    return 0
  else
    if hdr.length ≠ hdrSizeV1 then throw .ERR_CORRUPT
    if layout.hdrSize = hdrSizeV1 then silent (streamHeaderDecode hdr streamName)
    silent (toStatus call)
    let fuel := ((← get).st.contents path).length + 1
    let (goodEnd, endPos) ← silent (recoverWalk layout path fuel layout.hdrSize)
    silent (toStatus call)
    if goodEnd < endPos then
      silent (toStatus (fsTruncate path goodEnd))
      silent (statRecoverTruncated (endPos - goodEnd))
    emitRecover (endPos - goodEnd) .OK
    return endPos - goodEnd

/-- `zdb_ts_recover_stream` on a handle; its one bad exit publishes too. -/
def tsRecoverStream (cfg : Cfg) (h : Nat) : RecoverM App Nat := do
  match (← get).st.handles h with
  | none => throw .ERR_INVAL
  | some name =>
    silent (onEnv statRecoverRun)
    let body : RecoverM App Nat := do
      let path ← silent (recoverPath cfg name)
      noting App.env (fun a e => { a with env := e }) (recoverFile name path)
    match ← attempt body with
    | .ok truncated => return truncated
    | .error status =>
      silent (onEnv statRecoverFailure)
      silent (onEnv healthCheck)
      emitRecover 0 status
      throw status

theorem plain_recoverFile (name : Bytes) (path : Path) :
    Carries Noted.st (recoverFile name path) (Ts.recoverFile name path) := by
  apply carries_bind (carries_silent _)
  intro layout
  apply carries_bind (carries_silent _)
  intro _
  apply carries_bind (carries_silent _)
  intro hdr
  apply carries_ite
  · apply carries_bind (carries_silent _)
    intro _
    apply carries_bind (carries_silent _)
    intro wr
    apply carries_guard
    exact carries_note _ (carries_pure 0)
  · have hwalk : Carries Noted.st (do
        silent (toStatus call)
        let fuel := ((← get).st.contents path).length + 1
        let (goodEnd, endPos) ← silent (recoverWalk layout path fuel layout.hdrSize)
        silent (toStatus call)
        if goodEnd < endPos then
          silent (toStatus (fsTruncate path goodEnd))
          silent (statRecoverTruncated (endPos - goodEnd))
        emitRecover (endPos - goodEnd) .OK
        return endPos - goodEnd : RecoverM Sys Nat) (do
        toStatus call
        let fuel := ((← get).contents path).length + 1
        let (goodEnd, endPos) ← recoverWalk layout path fuel layout.hdrSize
        toStatus call
        if goodEnd < endPos then
          toStatus (fsTruncate path goodEnd)
          statRecoverTruncated (endPos - goodEnd)
        return endPos - goodEnd) := by
      apply carries_bind (carries_silent _)
      intro _
      apply carries_get_bind
      intro s
      apply carries_bind (carries_silent _)
      intro ends
      apply carries_bind (carries_silent _)
      intro _
      apply carries_ite
      · apply carries_bind (carries_silent _)
        intro _
        apply carries_bind (carries_silent _)
        intro _
        exact carries_note _ (carries_pure _)
      · exact carries_note _ (carries_pure _)
    apply carries_guard
    exact carries_when (carries_silent _) hwalk

theorem plain_tsRecoverStream (cfg : Cfg) (h : Nat) :
    Carries Noted.st (tsRecoverStream cfg h) (Ts.tsRecoverStream cfg h) := by
  apply carries_get_bind
  intro s
  cases s.st.handles h with
  | none => exact carries_throw _
  | some name =>
    apply carries_bind (carries_silent _)
    intro _
    apply carries_bind
    · apply carries_attempt
      apply carries_bind (carries_silent _)
      intro path
      exact carries_noting (plain_recoverFile name path)
    · intro result
      cases result with
      | ok truncated => exact carries_pure _
      | error status =>
        apply carries_bind (carries_silent _)
        intro _
        apply carries_bind (carries_silent _)
        intro _
        exact carries_note _ (carries_throw _)

theorem yields_silently {σ α : Type} (m : EStateM Status σ α) (s : Noted σ (List RecoverEvent)) :
    Yields (silent m : RecoverM σ α) s (fun _ t => t.notes = s.notes) fun _ t => t.notes = s.notes :=
  ((fixes_silent m).yields s).imp (fun _ _ h => h) fun _ _ h => h

theorem yields_silently_bind {σ α β : Type} {m : EStateM Status σ α} {f : α → RecoverM σ β}
    {s : Noted σ (List RecoverEvent)} {P : β → Noted σ (List RecoverEvent) → Prop}
    (hf : ∀ a t, t.notes = s.notes → Yields (f a) t P fun _ t => t.notes = s.notes) :
    Yields (silent m >>= f) s P fun _ t => t.notes = s.notes :=
  yields_bind (yields_silently m s) hf

theorem recoverFile_emits (name : Bytes) (path : Path) (s : Noted Sys (List RecoverEvent)) :
    Yields (recoverFile name path) s (fun n t => t.notes = ⟨n, .OK⟩ :: s.notes) fun _ t => t.notes = s.notes := by
  apply yields_silently_bind
  intro layout s₁ h₁
  rw [← h₁]
  apply yields_silently_bind
  intro _ s₂ h₂
  rw [← h₂]
  apply yields_silently_bind
  intro hdr s₃ h₃
  rw [← h₃]
  split
  · apply yields_silently_bind
    intro _ s₄ h₄
    rw [← h₄]
    apply yields_silently_bind
    intro wr s₅ h₅
    rw [← h₅]
    exact yields_guard (fun _ => rfl) fun _ => rfl
  · have hwalk : ∀ u : Noted Sys (List RecoverEvent), Yields (do
        silent (toStatus call)
        let fuel := ((← get).st.contents path).length + 1
        let (goodEnd, endPos) ← silent (recoverWalk layout path fuel layout.hdrSize)
        silent (toStatus call)
        if goodEnd < endPos then
          silent (toStatus (fsTruncate path goodEnd))
          silent (statRecoverTruncated (endPos - goodEnd))
        emitRecover (endPos - goodEnd) .OK
        return endPos - goodEnd : RecoverM Sys Nat) u (fun n t => t.notes = ⟨n, .OK⟩ :: u.notes)
        fun _ t => t.notes = u.notes := by
      intro u
      apply yields_silently_bind
      intro _ u₁ k₁
      rw [← k₁]
      apply yields_get_bind
      apply yields_silently_bind
      intro ends u₂ k₂
      rw [← k₂]
      apply yields_silently_bind
      intro _ u₃ k₃
      rw [← k₃]
      dsimp only
      split
      · apply yields_silently_bind
        intro _ u₄ k₄
        rw [← k₄]
        apply yields_silently_bind
        intro _ u₅ k₅
        rw [← k₅]
        rfl
      · rfl
    refine yields_guard (fun _ => rfl) fun _ => ?_
    dsimp only
    split
    · apply yields_silently_bind
      intro _ s₄ h₄
      rw [← h₄]
      exact hwalk s₄
    · exact hwalk s₃

theorem tsRecoverStream_emits {cfg : Cfg} {h : Nat} {name : Bytes} {s : Noted App (List RecoverEvent)}
    (hname : s.st.handles h = some name) :
    Yields (tsRecoverStream cfg h) s (fun n t => t.notes = ⟨n, .OK⟩ :: s.notes)
      fun status t => t.notes = ⟨0, status⟩ :: s.notes := by
  have hbody : ∀ u : Noted App (List RecoverEvent), Yields (do
      let path ← silent (recoverPath cfg name)
      noting App.env (fun a e => { a with env := e }) (recoverFile name path) : RecoverM App Nat) u
      (fun n t => t.notes = ⟨n, .OK⟩ :: u.notes) fun _ t => t.notes = u.notes := by
    intro u
    apply yields_silently_bind
    intro path v hv
    rw [← hv]
    exact yields_zoom (recoverFile_emits name path ⟨v.st.env, v.notes⟩)
  unfold tsRecoverStream
  apply yields_get_bind
  rw [hname]
  -- The counters cannot fail, so the body alone decides how the pass ends.
  have hcounted : ∀ {m : Zdb Unit} {u : Noted App (List RecoverEvent)}, outcome m u.st.env = .ok () →
      ∃ t, (silent (onEnv m) : RecoverM App Unit).run u = .ok () t ∧ t.notes = u.notes := fun hm =>
    ⟨_, run_zoom (run_zoom (run_of_outcome hm)), rfl⟩
  obtain ⟨s₁, hrun, h₁⟩ := @hcounted statRecoverRun s rfl
  apply yields_then hrun
  rw [← h₁]
  apply yields_bind (yields_attempt (hbody s₁))
  intro r s₂ h₂
  cases r with
  | ok n => exact yields_pure h₂
  | error status =>
    obtain ⟨s₃, hfail, h₃⟩ := @hcounted statRecoverFailure s₂ rfl
    obtain ⟨s₄, hhealth, h₄⟩ := @hcounted healthCheck s₃ rfl
    refine yields_then hfail (yields_then hhealth (yields_then rfl (yields_throw ?_)))
    show _ :: s₄.notes = _
    rw [h₄, h₃, h₂]

end Recovery

/-- The result of the pass, the statistics and the event give the bytes that the file lost. -/
def ReportsLoss (cfg : Cfg) (h : Nat) (a : App) (path : Path) (bs : Bytes) : Prop :=
  ∀ n b, (tsRecoverStream cfg h).run a = .ok n b →
    n = bs.length - (b.env.contents path).length ∧
      b.cutBytes = a.cutBytes + UInt64.ofNat (bs.length - (b.env.contents path).length) ∧
      (post (Recovery.tsRecoverStream cfg h) ⟨a, []⟩).notes.map (·.truncatedBytes) =
        [bs.length - (b.env.contents path).length]

section Reported
variable {cfg : Cfg} {name bs : Bytes}

theorem run_recover_passes {a : App} {h : Nat} {path : Path} (hc : a.env.Clean) (hh : a.handles h = some name)
    (ht : recoverTarget cfg name a = some (path, bs)) (hp : headerPasses name bs = true) :
    ∃ b, (tsRecoverStream cfg h).run a = .ok (taken bs) b ∧
      b.env.look path = some (bs.take ((probed bs).goodEnd bs)) ∧
      b.cutBytes = a.cutBytes + UInt64.ofNat (taken bs) ∧ b.env.Clean ∧ b.held cfg = a.held cfg := by
  obtain ⟨b, hb, hlook⟩ := recoverTarget_arrives hc ht
  obtain ⟨e, h₁, l₁⟩ := recoverFile_passes hb.clean hlook hp
  refine ⟨{ b with env := e }, ?_, ?_, ?_, l₁.clean hb.clean, hb.held⟩
  · rw [run_tsRecoverStream hh]
    exact run_recoverStream_ok hb.found h₁
  · show e.look path = _
    rw [l₁.look, Function.update_self]
  · have hcount := (recoverFile_counts name path b.env).run_ok h₁
    exact hcount.trans (congrArg (· + UInt64.ofNat (taken bs)) hb.counted)

theorem length_left (hp : headerPasses name bs = true) :
    (bs.take ((probed bs).goodEnd bs)).length = bs.length - tail bs := by
  have hend := probed_goodEnd_le (headerPasses_long hp)
  rw [List.length_take, Nat.min_eq_left hend]
  unfold tail
  omega

theorem passes_of_shorter {a b : App} {h : Nat} {path : Path} {n : Nat} (hc : a.env.Clean)
    (hh : a.handles h = some name) (ht : recoverTarget cfg name a = some (path, bs))
    (hrun : (tsRecoverStream cfg h).run a = .ok n b) (hshort : (b.env.contents path).length < bs.length) :
    headerPasses name bs = true := by
  by_contra hp
  rw [Bool.not_eq_true] at hp
  have hne : bs ≠ [] := by
    rintro rfl
    exact Nat.not_lt_zero _ hshort
  obtain ⟨c, hcArr, hlook⟩ := recoverTarget_arrives hc ht
  obtain ⟨r, e, hfail, _⟩ := recoverFile_refuses hcArr.clean hlook hne hp
  obtain ⟨d, hd, _⟩ := run_recoverStream_error hcArr.found hfail
  rw [run_tsRecoverStream hh, hd] at hrun
  cases hrun

theorem cuts_tail {a : App} {h : Nat} {path : Path} (hc : a.env.Clean) (hh : a.handles h = some name)
    (ht : recoverTarget cfg name a = some (path, bs)) (hp : headerPasses name bs = true) (htail : 0 < tail bs) :
    ∃ n b, (tsRecoverStream cfg h).run a = .ok n b ∧ (b.env.contents path).length < bs.length := by
  obtain ⟨b, hrun, hlook, _⟩ := run_recover_passes hc hh ht hp
  refine ⟨_, b, hrun, ?_⟩
  rw [Env.contents_eq, hlook, Option.getD_some, length_left hp]
  unfold tail at htail ⊢
  omega

/-- A pass that cuts something off reports what the file lost exactly when that is no more than one
record. -/
theorem recover_reports_iff {a : App} {h : Nat} {path : Path} (hc : a.env.Clean) (hh : a.handles h = some name)
    (ht : recoverTarget cfg name a = some (path, bs))
    (hcut : ∃ n b, (tsRecoverStream cfg h).run a = .ok n b ∧ (b.env.contents path).length < bs.length) :
    ReportsLoss cfg h a path bs ↔ tail bs ≤ (probed bs).recSize := by
  obtain ⟨n, b, hrun, hshort⟩ := hcut
  have hp := passes_of_shorter hc hh ht hrun hshort
  have hend := probed_goodEnd_le (headerPasses_long hp)
  obtain ⟨c, hc', hlook, hcount, -⟩ := run_recover_passes hc hh ht hp
  have hlost : bs.length - (c.env.contents path).length = tail bs := by
    rw [Env.contents_eq, hlook, Option.getD_some, length_left hp]
    unfold tail
    omega
  constructor
  · intro hrep
    have hn := (hrep _ _ hc').1
    rw [hlost] at hn
    rw [← hn]
    exact Nat.min_le_left _ _
  · intro hle m d hd
    have htaken : taken bs = tail bs := Nat.min_eq_right hle
    rw [hc'] at hd
    cases hd
    obtain ⟨hout, -⟩ := Recovery.plain_tsRecoverStream cfg h ⟨a, []⟩
    rw [outcome_of_run hc'] at hout
    have hnotes := (@Recovery.tsRecoverStream_emits cfg h name ⟨a, []⟩ hh).run_ok (run_of_outcome hout.symm)
    rw [hlost, hnotes]
    exact ⟨htaken, by rw [hcount, htaken], congrArg (fun n => [n]) htaken⟩

end Reported

/-- Three bytes of a record are cut off and reported. -/
theorem torn_tail_reported : ReportsLoss (Cfg.plain false 0) 0
      (App.holding (Cfg.plain false 0) (recordEncode ⟨5, 7⟩ ++ [1, 2, 3])) (streamPath (Cfg.plain false 0) [65])
      (streamHeaderEncode [65] ++ (recordEncode ⟨5, 7⟩ ++ [1, 2, 3])) :=
  (recover_reports_iff (holding_clean _ _) (holding_handle _ _) (by decide +kernel)
    (cuts_tail (holding_clean _ _) (holding_handle _ _) (by decide +kernel) (by decide +kernel) (by decide +kernel))).mpr
    (by decide +kernel)

/-- A record that does not decode with a good one behind it: both are lost and one is reported. -/
theorem middle_loss_unreported :
    (∃ n b, (tsRecoverStream (Cfg.plain false 0) 0).run
        (App.holding (Cfg.plain false 0) (List.replicate 28 0 ++ recordEncode ⟨5, 7⟩)) = .ok n b ∧
      (b.env.contents (streamPath (Cfg.plain false 0) [65])).length <
        (streamHeaderEncode [65] ++ (List.replicate 28 0 ++ recordEncode ⟨5, 7⟩)).length) ∧
    recoverTarget (Cfg.plain false 0) [65]
        (App.holding (Cfg.plain false 0) (List.replicate 28 0 ++ recordEncode ⟨5, 7⟩)) =
      some (streamPath (Cfg.plain false 0) [65],
        streamHeaderEncode [65] ++ (List.replicate 28 0 ++ recordEncode ⟨5, 7⟩)) ∧
    ¬ ReportsLoss (Cfg.plain false 0) 0
      (App.holding (Cfg.plain false 0) (List.replicate 28 0 ++ recordEncode ⟨5, 7⟩))
      (streamPath (Cfg.plain false 0) [65])
      (streamHeaderEncode [65] ++ (List.replicate 28 0 ++ recordEncode ⟨5, 7⟩)) := by
  have htarget : recoverTarget (Cfg.plain false 0) [65]
      (App.holding (Cfg.plain false 0) (List.replicate 28 0 ++ recordEncode ⟨5, 7⟩)) =
    some (streamPath (Cfg.plain false 0) [65],
      streamHeaderEncode [65] ++ (List.replicate 28 0 ++ recordEncode ⟨5, 7⟩)) := by decide +kernel
  have hpass : headerPasses [65] (streamHeaderEncode [65] ++ (List.replicate 28 0 ++ recordEncode ⟨5, 7⟩)) = true := by
    decide +kernel
  have htaken : taken (streamHeaderEncode [65] ++ (List.replicate 28 0 ++ recordEncode ⟨5, 7⟩)) = 28 := by
    decide +kernel
  have htail : tail (streamHeaderEncode [65] ++ (List.replicate 28 0 ++ recordEncode ⟨5, 7⟩)) = 56 := by
    decide +kernel
  have hlen : (streamHeaderEncode [65] ++ (List.replicate 28 0 ++ recordEncode ⟨5, 7⟩)).length = 72 := by
    decide +kernel
  refine ⟨cuts_tail (holding_clean _ _) (holding_handle _ _) htarget hpass (by omega), htarget, fun hrep => ?_⟩
  obtain ⟨b, hrun, hlook, _⟩ := run_recover_passes (holding_clean _ _) (holding_handle _ _) htarget hpass
  have hleft := length_left hpass
  have hn := (hrep _ _ hrun).1
  rw [Env.contents_eq, hlook, Option.getD_some, hleft] at hn
  omega

/-- The file that the recovery pass of `zdb_ts_open` works on, and what it holds then. -/
def openTarget (cfg : Cfg) (h : Nat) (name : Bytes) (a : App) : Option (Path × Bytes) :=
  match (openClaim cfg h name).run a with
  | .ok _ b => recoverTarget cfg name b
  | .error _ _ => none

/-- Opening the stream takes no more than the cap from the file, and refuses, with the file as it was,
where a clean tail would take more. -/
structure CapProtects (cfg : Cfg) (h : Nat) (name : Bytes) (a : App) (path : Path) (bs : Bytes) : Prop where
  bounded : bs.length - ((post (tsOpen cfg h name) a).env.contents path).length ≤ cfg.maxRecoveryTruncateBytes
  refused : cfg.maxRecoveryTruncateBytes < tail bs →
    ¬ Succeeds (tsOpen cfg h name) a ∧ (post (tsOpen cfg h name) a).env.look path = some bs

section Cap
variable {cfg : Cfg} {name bs : Bytes}

/-! What opening does before its pass leaves the faults to come as they are. -/

def App.faults (a : App) : Nat → Fault := a.env.faults

theorem faults_onEnv {ε α : Type} {m : EStateM ε Sys α} (hm : ∀ e, Keeps (Within fun _ => True) m e) :
    Fixes App.faults (onEnv m) := fun a => by
  unfold onEnv
  rw [post_zoom]
  exact (hm a.env).faults

theorem faults_openClaim (h : Nat) : Fixes App.faults (openClaim cfg h name) := by
  have hget : ∀ {ε : Type}, Fixes App.faults (get : AppM ε App) := fixes_get
  have hcall : ∀ r : Status, Fixes App.faults (onEnv (orFail r call)) := fun r =>
    faults_onEnv fun e => keeps_orFail r (keeps_call e)
  have hctx : Fixes App.faults (tsCtxGetOrAlloc cfg .ERR_NOMEM) := by
    apply fixes_bind hget
    intro a
    apply fixes_guard
    split
    · exact fixes_pure _
    · apply fixes_bind (hcall _)
      intro _
      apply fixes_modify
      intro _
      exact rfl
  have hdir : Fixes App.faults (ensureStreamDir cfg) := by
    apply fixes_bind hget
    intro a
    refine fixes_ite (fixes_guard ?_) (fixes_pure _)
    apply fixes_bind (faults_onEnv fun e => keeps_attempt (keeps_call e))
    intro r
    split
    · apply fixes_modify
      intro _
      exact rfl
    · apply fixes_bind (fixes_throw _)
      intro _
      apply fixes_modify
      intro _
      exact rfl
    · apply fixes_modify
      intro _
      exact rfl
  have hslot : Fixes App.faults (slotClaim cfg name) := fun b => by
    refine (show Keeps (fun s t : App => t.faults = s.faults) (slotClaim cfg name) b from keeps_get_bind ?_)
    split
    · rfl
    · split
      · rfl
      · refine keeps_bind (fixes_chains _) (show _ = _ from rfl) fun _ c _ => ?_
        apply keeps_bind (fixes_chains _) (hcall _ c)
        intro _ d _
        exact rfl
  have hclaim : Fixes App.faults (slotClaim cfg name >>= fun _ =>
      (modify fun a => a.bind h (some name) : AppM Status Unit)) := fixes_bind hslot fun _ => fixes_modify fun _ => rfl
  unfold openClaim
  apply fixes_guard
  apply fixes_bind hget
  intro a
  apply fixes_guard
  apply fixes_bind hctx
  intro _
  apply fixes_bind (fixes_adaptExcept _ hdir)
  intro _
  refine fixes_ite (fixes_bind (faults_onEnv fun e => ?_) fun _ => hclaim) hclaim
  apply keeps_bind (within_chains _) (keeps_rethrow (within_chains _) _ e)
  intro path e' _
  apply keeps_bind (within_chains _) (keeps_ensureHeaderEx cfg name trivial 0 e')
  intro _ e'' _
  exact keeps_pure (within_chains _) _ e''

theorem openRecover_after (b : App) :
    (post (openRecover cfg name) b).env.look = (post (recoverStream cfg name) b).env.look := by
  unfold openRecover
  rw [post_then (run_attempt _ b)]
  cases outcome (recoverStream cfg name) b with
  | error r => rfl
  | ok n =>
    dsimp only
    split <;> rfl

theorem openRecover_error {b c : App} {r : Status} (h : (recoverStream cfg name).run b = .error r c) :
    ¬ Succeeds (openRecover cfg name) b := by
  rintro ⟨_, d, hrun⟩
  obtain ⟨x, t, hx, hrest⟩ := of_run_bind hrun
  rw [run_attempt, outcome, h] at hx
  cases hx
  cases hrest

/-- Opening a stream whose newest file the pass gets to keeps within the cap exactly when the pass
refuses the file, or no more than the cap follows the good prefix. -/
theorem cap_protects_iff {a : App} {h : Nat} {path : Path} (hc : a.env.Clean)
    (hauto : cfg.autoRecoverOnOpen = true) (ht : openTarget cfg h name a = some (path, bs)) :
    CapProtects cfg h name a path bs ↔
      headerPasses name bs = false ∨ tail bs ≤ cfg.maxRecoveryTruncateBytes := by
  unfold openTarget at ht
  cases hclaim : (openClaim cfg h name).run a with
  | error r b =>
    rw [hclaim] at ht
    cases ht
  | ok x b =>
    rw [hclaim] at ht
    dsimp only at ht
    have hcb : b.env.Clean := by
      have hfix : (post (openClaim cfg h name) a).env.faults = a.env.faults := faults_openClaim h a
      rw [post_of_run hclaim] at hfix
      intro n
      rw [hfix]
      exact hc n
    have hopen : tsOpen cfg h name = (openClaim cfg h name >>= fun _ => openRecover cfg name) := by
      rw [tsOpen_eq]
      unfold openPass
      rw [if_pos hauto]
    have hafter : (post (tsOpen cfg h name) a).env.look = (post (recoverStream cfg name) b).env.look := by
      rw [hopen, post_then hclaim, openRecover_after]
    obtain ⟨c, hcArr, hlook⟩ := recoverTarget_arrives hcb ht
    cases hp : headerPasses name bs with
    | true =>
      obtain ⟨e, h₁, l₁⟩ := recoverFile_passes hcArr.clean hlook hp
      have hleft : (post (tsOpen cfg h name) a).env.look path = some (bs.take ((probed bs).goodEnd bs)) := by
        rw [hafter, post_of_run (run_recoverStream_ok hcArr.found h₁)]
        show e.look path = _
        rw [l₁.look, Function.update_self]
      have hlost : bs.length - ((post (tsOpen cfg h name) a).env.contents path).length = tail bs := by
        rw [Env.contents_eq, hleft, Option.getD_some, length_left hp]
        unfold tail
        omega
      refine ⟨fun hcap => .inr ?_, fun hor => ?_⟩
      · rw [← hlost]
        exact hcap.bounded
      · rcases hor with hno | hle
        · cases hno
        · exact ⟨by rw [hlost]; exact hle, fun hgt => absurd hle (Nat.not_le.mpr hgt)⟩
    | false =>
      refine ⟨fun _ => .inl rfl, fun _ => ?_⟩
      by_cases hne : bs = []
      · subst hne
        refine ⟨Nat.le_trans (Nat.sub_le _ _) (Nat.zero_le _), fun hgt => ?_⟩
        exact absurd hgt (Nat.not_lt.mpr (Nat.le_trans (Nat.sub_le _ _) (Nat.zero_le _)))
      · obtain ⟨r, e, hfail, l⟩ := recoverFile_refuses hcArr.clean hlook hne hp
        obtain ⟨d, hd, hdlook⟩ := run_recoverStream_error hcArr.found hfail
        have hkept : (post (tsOpen cfg h name) a).env.look path = some bs := by
          rw [hafter, post, hd]
          show d.env.look path = _
          rw [hdlook, l.look, hlook]
        refine ⟨?_, fun _ => ⟨?_, hkept⟩⟩
        · rw [Env.contents_eq, hkept, Option.getD_some, Nat.sub_self]
          exact Nat.zero_le _
        · rintro ⟨_, t, hrun⟩
          rw [hopen, EStateM.run_bind, hclaim] at hrun
          exact openRecover_error hd ⟨_, t, hrun⟩

end Cap

/-- A cap of four bytes lets three bytes of a record go. -/
theorem small_tail_within_cap : CapProtects (Cfg.plain true 4) 0 [65]
    (App.holding (Cfg.plain true 4) (recordEncode ⟨5, 7⟩ ++ [1, 2, 3])) (streamPath (Cfg.plain true 4) [65])
    (streamHeaderEncode [65] ++ (recordEncode ⟨5, 7⟩ ++ [1, 2, 3])) :=
  (cap_protects_iff (holding_clean _ _) rfl (by decide +kernel)).mpr (.inr (by decide +kernel))

/-- A cap of one byte refuses the stream, and the three bytes are gone all the same. -/
theorem capped_open_truncates :
    openTarget (Cfg.plain true 1) 0 [65] (App.holding (Cfg.plain true 1) (recordEncode ⟨5, 7⟩ ++ [1, 2, 3])) =
      some (streamPath (Cfg.plain true 1) [65], streamHeaderEncode [65] ++ (recordEncode ⟨5, 7⟩ ++ [1, 2, 3])) ∧
    ¬ CapProtects (Cfg.plain true 1) 0 [65]
      (App.holding (Cfg.plain true 1) (recordEncode ⟨5, 7⟩ ++ [1, 2, 3])) (streamPath (Cfg.plain true 1) [65])
      (streamHeaderEncode [65] ++ (recordEncode ⟨5, 7⟩ ++ [1, 2, 3])) := by
  refine ⟨by decide +kernel, fun hcap => ?_⟩
  exact absurd hcap.bounded (by decide +kernel)

end ZephyrDB.Ts
