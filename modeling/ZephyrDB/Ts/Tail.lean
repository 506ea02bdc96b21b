import ZephyrDB.Ts.Ahead
import ZephyrDB.Ts.Diagnostics
import ZephyrDB.Ts.Held

/-!
The recovery pass on a file with any bytes in it: which whole records at the
front of the file decode, and what is cut off behind them.
-/

set_option autoImplicit false

namespace ZephyrDB.Ts

open Lib

namespace FileLayout

def good (layout : FileLayout) (raw : Bytes) : Bool :=
  raw.length == layout.recSize && (decoded layout.version layout.baseTsMs raw).isOk

def goodRecords (layout : FileLayout) (bs : Bytes) : Nat := ((chunks layout.recSize bs).takeWhile layout.good).length

def goodEnd (layout : FileLayout) (bs : Bytes) : Nat :=
  layout.hdrSize + layout.goodRecords (bs.drop layout.hdrSize) * layout.recSize

end FileLayout

/-- The layout that the recovery pass walks a file with. -/
def probed (bs : Bytes) : FileLayout :=
  match layoutOf bs with
  | .ok layout => layout
  | .error _ => FileLayout.v1

def headerFields (name : Bytes) (layout : FileLayout) (raw : Bytes) : Bool :=
  field raw 0 4 == STREAM_MAGIC && field raw 4 2 == layout.version && crcOk raw (layout.hdrSize - 4) &&
    field raw 8 4 == (fnv1a32 name).toNat

/-- The file starts with a whole and valid header of the stream. -/
def headerValid (name bs : Bytes) : Bool :=
  match layoutOf bs with
  | .error _ => false
  | .ok layout => layout.hdrSize ≤ bs.length && headerFields name layout (bs.take layout.hdrSize)

/-- The recovery pass lets the header pass: it checks a version 1 header, and that there is as much of
another one. -/
def headerPasses (name bs : Bytes) : Bool :=
  hdrSizeV1 ≤ bs.length &&
    ((probed bs).hdrSize != hdrSizeV1 || headerFields name FileLayout.v1 (bs.take hdrSizeV1))

theorem layoutOf_cases {bs : Bytes} {layout : FileLayout} (h : layoutOf bs = .ok layout) :
    layout = FileLayout.v1 ∨ layout = ⟨hdrSizeV2, recSizeV2, UInt64.ofNat (field (slice bs 0 hdrSizeV2) 12 8)⟩ := by
  unfold layoutOf at h
  dsimp only at h
  split at h
  · exact .inl (Except.ok.inj h).symm
  · split at h
    · exact .inl (Except.ok.inj h).symm
    · split at h
      · cases h
      · exact .inr (Except.ok.inj h).symm

theorem probed_cases (bs : Bytes) :
    probed bs = FileLayout.v1 ∨ probed bs = ⟨hdrSizeV2, recSizeV2, UInt64.ofNat (field (slice bs 0 hdrSizeV2) 12 8)⟩ := by
  unfold probed
  split
  · rename_i layout hl
    exact layoutOf_cases hl
  · exact .inl rfl

theorem probed_recSize (bs : Bytes) : 0 < (probed bs).recSize := by
  rcases probed_cases bs with h | h <;> rw [h]
  · exact show 0 < recSizeV1 by decide
  · exact show 0 < recSizeV2 by decide

theorem probed_hdrSize {bs : Bytes} (h : hdrSizeV1 ≤ bs.length) : (probed bs).hdrSize ≤ bs.length := by
  unfold probed
  cases hl : layoutOf bs with
  | error r => exact h
  | ok layout =>
    rcases layoutOf_cases hl with rfl | rfl
    · exact h
    · unfold layoutOf at hl
      dsimp only at hl
      split at hl
      · cases hl
      · split at hl
        · cases hl
        · split at hl
          · cases hl
          · rename_i hlong
            rw [slice_length] at hlong
            show hdrSizeV2 ≤ bs.length
            omega

theorem headerPasses_of_valid {name bs : Bytes} (h : headerValid name bs = true) : headerPasses name bs = true := by
  unfold headerValid at h
  unfold headerPasses probed
  cases hl : layoutOf bs with
  | error r => rw [hl] at h; cases h
  | ok layout =>
    rw [hl] at h
    simp only [Bool.and_eq_true, decide_eq_true_eq] at h
    obtain ⟨hlen, hfields⟩ := h
    simp only [Bool.and_eq_true, decide_eq_true_eq, Bool.or_eq_true, bne_iff_ne]
    rcases layoutOf_cases hl with rfl | rfl
    · exact ⟨hlen, .inr hfields⟩
    · exact ⟨Nat.le_trans (show hdrSizeV1 ≤ hdrSizeV2 by decide) hlen, .inl (show hdrSizeV2 ≠ hdrSizeV1 by decide)⟩

theorem decoded_isOk (version : Nat) (base base' : UInt64) (raw : Bytes) :
    (decoded version base raw).isOk = (decoded version base' raw).isOk := by
  unfold decoded
  split
  · split <;> rfl
  · rfl

theorem chunks_whole {r : Nat} (hr : 0 < r) {bs : Bytes} (hlen : (bs.take r).length = r) :
    chunks r bs = bs.take r :: chunks r (bs.drop r) := by
  refine chunks_cons hr fun hnil => ?_
  rw [hnil, List.take_nil, List.length_nil] at hlen
  exact Nat.ne_of_lt hr hlen

section Good
variable {layout : FileLayout}

theorem good_length {raw : Bytes} (h : layout.good raw = true) : raw.length = layout.recSize := by
  simp only [FileLayout.good, Bool.and_eq_true, beq_iff_eq] at h
  exact h.1

theorem goodRecords_cons (hr : 0 < layout.recSize) {bs : Bytes} (h : layout.good (bs.take layout.recSize) = true) :
    layout.goodRecords bs = layout.goodRecords (bs.drop layout.recSize) + 1 := by
  unfold FileLayout.goodRecords
  rw [chunks_whole hr (good_length h), List.takeWhile_cons_of_pos h, List.length_cons]

theorem goodRecords_stop (hr : 0 < layout.recSize) {bs : Bytes} (h : layout.good (bs.take layout.recSize) = false) :
    layout.goodRecords bs = 0 := by
  unfold FileLayout.goodRecords
  by_cases hnil : bs = []
  · rw [hnil, chunks_nil]
    rfl
  · rw [chunks_cons hr hnil, List.takeWhile_cons_of_neg (by rw [h]; exact Bool.false_ne_true)]
    rfl

theorem goodRecords_spec (hr : 0 < layout.recSize) (bs : Bytes) :
    (∀ j < layout.goodRecords bs, layout.good (slice bs (j * layout.recSize) layout.recSize) = true) ∧
      layout.good (slice bs (layout.goodRecords bs * layout.recSize) layout.recSize) = false := by
  generalize hn : bs.length = n
  induction n using Nat.strong_induction_on generalizing bs with
  | _ n ih =>
    have hnext : ∀ j, slice (bs.drop layout.recSize) (j * layout.recSize) layout.recSize =
        slice bs ((j + 1) * layout.recSize) layout.recSize := by
      intro j
      unfold slice
      rw [List.drop_drop, Nat.add_mul, Nat.one_mul, Nat.add_comm]
    cases h : layout.good (bs.take layout.recSize) with
    | false =>
      rw [goodRecords_stop hr h, Nat.zero_mul]
      exact ⟨fun j hj => absurd hj (Nat.not_lt_zero j), h⟩
    | true =>
      have hlen := good_length h
      rw [List.length_take] at hlen
      obtain ⟨hgood, hstop⟩ := ih (bs.drop layout.recSize).length (by rw [List.length_drop]; omega) _ rfl
      rw [goodRecords_cons hr h, ← hnext]
      refine ⟨fun j hj => ?_, hstop⟩
      cases j with
      | zero =>
        rw [Nat.zero_mul]
        exact h
      | succ j =>
        rw [← hnext]
        exact hgood j (Nat.lt_of_succ_lt_succ hj)

theorem goodRecords_le (hr : 0 < layout.recSize) (bs : Bytes) :
    layout.goodRecords bs * layout.recSize ≤ bs.length := by
  cases hn : layout.goodRecords bs with
  | zero =>
    rw [Nat.zero_mul]
    exact Nat.zero_le _
  | succ n =>
    have hlast := good_length ((goodRecords_spec hr bs).1 n (by omega))
    rw [slice_length] at hlast
    rw [Nat.add_mul, Nat.one_mul]
    omega

theorem goodRecords_take (hr : 0 < layout.recSize) (bs : Bytes) :
    layout.goodRecords (bs.take (layout.goodRecords bs * layout.recSize)) = layout.goodRecords bs := by
  generalize hn : layout.goodRecords bs = n
  induction n generalizing bs with
  | zero =>
    rw [Nat.zero_mul, List.take_zero]
    unfold FileLayout.goodRecords
    rw [chunks_nil]
    rfl
  | succ n ih =>
    cases h : layout.good (bs.take layout.recSize) with
    | false =>
      rw [goodRecords_stop hr h] at hn
      cases hn
    | true =>
      have hhead : ∀ k, (bs.take (layout.recSize + k)).take layout.recSize = bs.take layout.recSize := fun k => by
        rw [List.take_take, Nat.min_eq_left (Nat.le_add_right _ _)]
      rw [goodRecords_cons hr h] at hn
      rw [Nat.add_mul, Nat.one_mul, Nat.add_comm, goodRecords_cons hr (by rw [hhead]; exact h), List.drop_take,
        Nat.add_sub_cancel_left, ih _ (Nat.succ.inj hn)]

end Good

theorem goodEnd_le {layout : FileLayout} (hr : 0 < layout.recSize) {bs : Bytes} (h : layout.hdrSize ≤ bs.length) :
    layout.goodEnd bs ≤ bs.length := by
  have := goodRecords_le hr (bs.drop layout.hdrSize)
  rw [List.length_drop] at this
  unfold FileLayout.goodEnd
  omega

theorem run_recoverWalk {layout : FileLayout} (hr : 0 < layout.recSize) {path : Path} {bs : Bytes} (fuel pos : Nat)
    (e : Sys) (hc : e.Clean) (h : e.look path = some bs) (hfuel : bs.length - pos < fuel) :
    ∃ e', (recoverWalk layout path fuel pos).run e =
        .ok (pos + layout.goodRecords (bs.drop pos) * layout.recSize,
          pos + layout.goodRecords (bs.drop pos) * layout.recSize +
            min layout.recSize (bs.length - (pos + layout.goodRecords (bs.drop pos) * layout.recSize))) e' ∧
      Leads e e.look e' := by
  induction fuel generalizing pos e with
  | zero => exact absurd hfuel (Nat.not_lt_zero _)
  | succ fuel ih =>
    obtain ⟨e₁, h₁, l₁⟩ := fsRead_ok hc path pos layout.recSize
    rw [h, Option.getD_some] at h₁
    have hlen : (slice bs pos layout.recSize).length = min layout.recSize (bs.length - pos) := slice_length bs pos _
    have hraw : slice bs pos layout.recSize = (bs.drop pos).take layout.recSize := rfl
    rw [recoverWalk]
    by_cases hwhole : (slice bs pos layout.recSize).length = layout.recSize
    · obtain ⟨e₂, h₂, l₂⟩ := run_decode layout.version 0 (slice bs pos layout.recSize) e₁
      have l₂ := l₁.trans (l₁.look ▸ l₂)
      have hok := decoded_isOk layout.version 0 layout.baseTsMs (slice bs pos layout.recSize)
      cases hdec : decoded layout.version 0 (slice bs pos layout.recSize) with
      | ok sample =>
        rw [hdec] at h₂ hok
        have hgood : layout.good ((bs.drop pos).take layout.recSize) = true := by
          rw [← hraw, FileLayout.good, hwhole, beq_self_eq_true, ← hok]
          rfl
        have hone := goodRecords_cons hr hgood
        rw [List.drop_drop] at hone
        obtain ⟨e₃, h₃, l₃⟩ := ih (pos + layout.recSize) e₂ (l₂.clean hc) (by rw [l₂.look, h])
          (by rw [hlen] at hwhole; omega)
        refine ⟨e₃, ?_, l₂.trans (l₂.look ▸ l₃)⟩
        refine run_then (run_toStatus h₁) ?_
        rw [if_neg (not_not.mpr hwhole)]
        refine run_then h₂ ?_
        have hsum : pos + layout.goodRecords (bs.drop pos) * layout.recSize =
            pos + layout.recSize + layout.goodRecords (bs.drop (pos + layout.recSize)) * layout.recSize := by
          rw [hone, Nat.add_mul, Nat.one_mul]
          omega
        rw [hsum]
        exact h₃
      | error r =>
        rw [hdec] at h₂ hok
        have hbad : layout.goodRecords (bs.drop pos) = 0 := goodRecords_stop hr (by
          rw [← hraw, FileLayout.good, ← hok]
          exact Bool.and_false _)
        refine ⟨e₂, ?_, l₂⟩
        refine run_then (run_toStatus h₁) ?_
        rw [if_neg (not_not.mpr hwhole)]
        refine run_then h₂ ?_
        rw [hbad, Nat.zero_mul, Nat.add_zero, ← hlen]
        rfl
    · have hbad : layout.goodRecords (bs.drop pos) = 0 := goodRecords_stop hr (by
        rw [← hraw, FileLayout.good, beq_eq_false_iff_ne.mpr hwhole]
        rfl)
      refine ⟨e₁, ?_, l₁⟩
      refine run_then (run_toStatus h₁) ?_
      rw [if_pos hwhole, hbad, Nat.zero_mul, Nat.add_zero, ← hlen]
      rfl

theorem headerFields_v1 (name raw : Bytes) : headerFields name FileLayout.v1 raw =
    (field raw 0 4 == STREAM_MAGIC && field raw 4 2 == STREAM_VERSION && crcOk raw 12 &&
      field raw 8 4 == (fnv1a32 name).toNat) := rfl

theorem outcome_streamHeaderDecode (raw name : Bytes) (e : Sys) :
    outcome (streamHeaderDecode raw name) e = .ok () ↔ headerFields name FileLayout.v1 raw = true := by
  rw [headerFields_v1]
  unfold streamHeaderDecode
  by_cases hm : field raw 0 4 = STREAM_MAGIC
  · by_cases hv : field raw 4 2 = STREAM_VERSION
    · cases hcrc : crcOk raw 12 with
      | true =>
        by_cases hid : field raw 8 4 = (fnv1a32 name).toNat
        · simp [hm, hv, hid, outcome]
        · simp only [hm, hv, hid, ne_eq, not_true, if_false, if_true, not_false_iff, Bool.not_true]
          exact ⟨fun h => (by cases h), fun h => by simp [hid] at h⟩
      | false =>
        simp only [hm, hv, ne_eq, not_true, if_false, Bool.not_false, if_true]
        exact ⟨fun h => (by cases h), fun h => by simp at h⟩
    · simp only [hm, hv, ne_eq, not_true, if_false, not_false_iff, if_true]
      exact ⟨fun h => (by cases h), fun h => by simp [hv] at h⟩
  · simp only [hm, ne_eq, not_false_iff, if_true]
    exact ⟨fun h => (by cases h), fun h => by simp [hm] at h⟩

theorem run_streamHeaderDecode (raw name : Bytes) (e : Sys) :
    ∃ e', Leads e e.look e' ∧
      if headerFields name FileLayout.v1 raw then (streamHeaderDecode raw name).run e = .ok () e'
      else ∃ r, (streamHeaderDecode raw name).run e = .error r e' := by
  refine ⟨post (streamHeaderDecode raw name) e, leads_of_within (keeps_streamHeaderDecode raw name e), ?_⟩
  have hout := outcome_streamHeaderDecode raw name e
  split
  · rename_i hf
    exact run_of_outcome (hout.mpr hf)
  · rename_i hf
    cases ho : outcome (streamHeaderDecode raw name) e with
    | ok x => exact absurd (hout.mp ho) hf
    | error r => exact ⟨r, run_of_outcome_error ho⟩

theorem run_probeLayout {path : Path} {bs : Bytes} {e : Sys} (hc : e.Clean) (h : e.look path = some bs) :
    ∃ e', (probeLayout path).run e = .ok (probed bs) e' ∧ Leads e e.look e' := by
  obtain ⟨e₁, h₁, l₁⟩ := fsStat_existing hc h
  have hlook : e₁.look path = some bs := by rw [l₁.look, h]
  have hl : Leads e₁ e₁.look (post (cursorLearnLayout path) e₁) :=
    leads_of_within (keeps_cursorLearnLayout path e₁)
  refine ⟨post (cursorLearnLayout path) e₁, ?_, l₁.trans (l₁.look ▸ hl)⟩
  refine run_then (run_attempt_ok h₁) ?_
  dsimp only
  refine run_then (run_attempt _ e₁) ?_
  rw [outcome_cursorLearnLayout (l₁.clean hc) hlook]
  unfold probed
  cases layoutOf bs <;> rfl

/-- The bytes behind the longest prefix of whole records that decode. -/
def tail (bs : Bytes) : Nat := bs.length - (probed bs).goodEnd bs

/-- What the recovery pass counts as cut off: it stops behind the first record that does not decode. -/
def taken (bs : Bytes) : Nat := min (probed bs).recSize (tail bs)

theorem probed_goodEnd_le {bs : Bytes} (h : hdrSizeV1 ≤ bs.length) : (probed bs).goodEnd bs ≤ bs.length :=
  goodEnd_le (probed_recSize bs) (probed_hdrSize h)

def recoverCut (layout : FileLayout) (path : Path) : Zdb Nat := do
  toStatus call
  let fuel := ((← get).contents path).length + 1
  let (goodEnd, endPos) ← recoverWalk layout path fuel layout.hdrSize
  toStatus call
  if goodEnd < endPos then
    toStatus (fsTruncate path goodEnd)
    statRecoverTruncated (endPos - goodEnd)
  return endPos - goodEnd

def recoverRead (name : Bytes) (path : Path) (layout : FileLayout) (hdr : Bytes) : Zdb Nat := do
  if hdr.length = 0 then
    toStatus call
    let wr ← toStatus (fsWrite path 0 (streamHeaderEncode name))
    if wr ≠ hdrSizeV1 then throw Status.ERR_IO
    return 0
  else
    if hdr.length ≠ hdrSizeV1 then throw .ERR_CORRUPT
    if layout.hdrSize = hdrSizeV1 then streamHeaderDecode hdr name
    recoverCut layout path

theorem recoverFile_eq (name path : Bytes) : recoverFile name path = (do
    let layout ← probeLayout path
    toStatus (fsOpen path true false)
    let hdr ← toStatus (fsRead path 0 hdrSizeV1)
    recoverRead name path layout hdr) := rfl

theorem run_recoverStart (name : Bytes) {path bs : Bytes} {e : Sys} (hc : e.Clean) (h : e.look path = some bs) :
    ∃ e', (recoverFile name path).run e = (recoverRead name path (probed bs) (bs.take hdrSizeV1)).run e' ∧
      Leads e e.look e' := by
  obtain ⟨e₁, h₁, l₁⟩ := run_probeLayout hc h
  obtain ⟨e₂, h₂, l₂⟩ := fsOpen_existing (l₁.clean hc) true (show e₁.look path = _ by rw [l₁.look, h])
  have l₂ := l₁.trans (l₁.look ▸ l₂)
  obtain ⟨e₃, h₃, l₃⟩ := fsRead_ok (l₂.clean hc) path 0 hdrSizeV1
  rw [l₂.look, h, Option.getD_some] at h₃
  refine ⟨e₃, ?_, l₂.trans (l₂.look ▸ l₃)⟩
  rw [recoverFile_eq]
  exact run_then h₁ (run_then (run_toStatus h₂) (run_then (run_toStatus h₃) rfl))

theorem run_recoverRead (name path : Bytes) {bs : Bytes} (e : Sys) (hlen : hdrSizeV1 ≤ bs.length) :
    ∃ e', Leads e e.look e' ∧
      if headerPasses name bs then
        (recoverRead name path (probed bs) (bs.take hdrSizeV1)).run e = (recoverCut (probed bs) path).run e'
      else ∃ r, (recoverRead name path (probed bs) (bs.take hdrSizeV1)).run e = .error r e' := by
  have hhdr : (bs.take hdrSizeV1).length = hdrSizeV1 := by
    rw [List.length_take, Nat.min_eq_left hlen]
  have hread : recoverRead name path (probed bs) (bs.take hdrSizeV1) =
      (if (probed bs).hdrSize = hdrSizeV1 then do
        streamHeaderDecode (bs.take hdrSizeV1) name
        recoverCut (probed bs) path
      else recoverCut (probed bs) path) := by
    unfold recoverRead
    dsimp only
    rw [if_neg (by rw [hhdr]; decide), if_neg (not_not.mpr hhdr)]
  rw [hread]
  by_cases hv : (probed bs).hdrSize = hdrSizeV1
  · obtain ⟨e', l, hrun⟩ := run_streamHeaderDecode (bs.take hdrSizeV1) name e
    have hpass : headerPasses name bs = headerFields name FileLayout.v1 (bs.take hdrSizeV1) := by
      simp [headerPasses, hlen, hv]
    refine ⟨e', l, ?_⟩
    rw [hpass]
    split at hrun
    · rename_i hf
      rw [if_pos hf, if_pos hv]
      exact run_then hrun rfl
    · rename_i hf
      rw [if_neg hf, if_pos hv]
      obtain ⟨r, hr⟩ := hrun
      exact ⟨r, run_fails hr⟩
  · have hpass : headerPasses name bs = true := by simp [headerPasses, hlen, hv]
    refine ⟨e, Leads.refl e, ?_⟩
    rw [if_pos hpass, if_neg hv]

theorem run_recoverCut {path : Path} {bs : Bytes} {e : Sys} (hc : e.Clean) (h : e.look path = some bs)
    (hlong : hdrSizeV1 ≤ bs.length) :
    ∃ e', (recoverCut (probed bs) path).run e = .ok (taken bs) e' ∧
      Leads e (Function.update e.look path (some (bs.take ((probed bs).goodEnd bs)))) e' := by
  have hend := probed_goodEnd_le hlong
  obtain ⟨e₁, h₁, l₁⟩ := call_ok hc
  have hcont : e₁.contents path = bs := by rw [Env.contents_eq, l₁.look, h, Option.getD_some]
  obtain ⟨e₂, h₂, l₂⟩ := run_recoverWalk (probed_recSize bs) ((e₁.contents path).length + 1) (probed bs).hdrSize e₁
    (l₁.clean hc) (by rw [l₁.look, h]) (by rw [hcont]; omega)
  have l₂ := l₁.trans (l₁.look ▸ l₂)
  obtain ⟨e₃, h₃, l₃⟩ := call_ok (l₂.clean hc)
  have l₃ := l₂.trans (l₂.look ▸ l₃)
  have hsum : (probed bs).goodEnd bs + taken bs - (probed bs).goodEnd bs = taken bs := Nat.add_sub_cancel_left _ _
  have hrun : ∀ {r : EStateM.Result Status Sys Nat},
      (do
        if (probed bs).goodEnd bs < (probed bs).goodEnd bs + taken bs then
          toStatus (fsTruncate path ((probed bs).goodEnd bs))
          statRecoverTruncated ((probed bs).goodEnd bs + taken bs - (probed bs).goodEnd bs)
        return (probed bs).goodEnd bs + taken bs - (probed bs).goodEnd bs : Zdb Nat).run e₃ = r →
      (recoverCut (probed bs) path).run e = r := fun hr =>
    run_then (run_toStatus h₁) (run_then (show (get : Zdb Sys).run e₁ = .ok e₁ e₁ from rfl)
      (run_then h₂ (run_then (run_toStatus h₃) hr)))
  rw [hsum] at hrun
  by_cases hcut : taken bs = 0
  · refine ⟨e₃, hrun ?_, ?_⟩
    · rw [if_neg (by omega), hcut]
      rfl
    · have htail : tail bs = 0 := by
        have := probed_recSize bs
        unfold taken at hcut
        omega
      have hall : bs.take ((probed bs).goodEnd bs) = bs := List.take_of_length_le (by unfold tail at htail; omega)
      rw [hall, ← h, Function.update_eq_self]
      exact l₃
  · obtain ⟨e₄, h₄, l₄⟩ := fsTruncate_ok (l₃.clean hc) ((probed bs).goodEnd bs)
      (show e₃.look path = some bs by rw [l₃.look, h])
    rw [l₃.look] at l₄
    have l₄ := l₃.trans l₄
    let e₅ : Sys := { e₄ with side := { e₄.side with stats := { e₄.side.stats with
      recoverTruncatedBytes := e₄.side.stats.recoverTruncatedBytes + UInt64.ofNat (taken bs) } } }
    refine ⟨e₅, hrun ?_, l₄.look, l₄.faults, l₄.shared, l₄.written⟩
    rw [if_pos (by omega)]
    exact run_then (run_toStatus h₄) rfl

theorem headerPasses_long {name bs : Bytes} (h : headerPasses name bs = true) : hdrSizeV1 ≤ bs.length := by
  simp only [headerPasses, Bool.and_eq_true, decide_eq_true_eq] at h
  exact h.1

theorem recoverFile_passes {name path : Bytes} {bs : Bytes} {e : Sys} (hc : e.Clean) (h : e.look path = some bs)
    (hp : headerPasses name bs = true) :
    ∃ e', (recoverFile name path).run e = .ok (taken bs) e' ∧
      Leads e (Function.update e.look path (some (bs.take ((probed bs).goodEnd bs)))) e' := by
  have hlong := headerPasses_long hp
  obtain ⟨e₁, h₁, l₁⟩ := run_recoverStart name hc h
  obtain ⟨e₂, l₂, hread⟩ := run_recoverRead name path e₁ hlong
  rw [if_pos hp] at hread
  have l₂ := l₁.trans (l₁.look ▸ l₂)
  obtain ⟨e₃, h₃, l₃⟩ := run_recoverCut (l₂.clean hc) (show e₂.look path = some bs by rw [l₂.look, h]) hlong
  exact ⟨e₃, h₁.trans (hread.trans h₃), l₂.trans (l₂.look ▸ l₃)⟩

theorem recoverFile_refuses {name path : Bytes} {bs : Bytes} {e : Sys} (hc : e.Clean) (h : e.look path = some bs)
    (hne : bs ≠ []) (hp : headerPasses name bs = false) :
    ∃ r e', (recoverFile name path).run e = .error r e' ∧ Leads e e.look e' := by
  obtain ⟨e₁, h₁, l₁⟩ := run_recoverStart name hc h
  by_cases hlong : hdrSizeV1 ≤ bs.length
  · obtain ⟨e₂, l₂, hread⟩ := run_recoverRead name path e₁ hlong
    rw [if_neg (by rw [hp]; exact Bool.false_ne_true)] at hread
    obtain ⟨r, hr⟩ := hread
    exact ⟨r, e₂, h₁.trans hr, l₁.trans (l₁.look ▸ l₂)⟩
  · have hpos := List.length_pos_iff.mpr hne
    have hhdr : (bs.take hdrSizeV1).length = bs.length := by
      rw [List.length_take, Nat.min_eq_right (by omega)]
    refine ⟨.ERR_CORRUPT, e₁, h₁.trans ?_, l₁⟩
    unfold recoverRead
    dsimp only
    rw [if_neg (by rw [hhdr]; omega), if_pos (by rw [hhdr]; omega)]
    rfl

/-- `recover_truncated_bytes`. -/
def cutBytes (e : Sys) : UInt64 := e.side.stats.recoverTruncatedBytes

theorem bears_cutBytes : Bears fun d d' => d'.stats.recoverTruncatedBytes = d.stats.recoverTruncatedBytes :=
  bears_of_field _ (fun _ => rfl) (fun _ => rfl) (fun _ => rfl) fun _ => rfl

def SlotSt.cutBytes (s : SlotSt) : UInt64 := Ts.cutBytes s.env

def App.cutBytes (a : App) : UInt64 := Ts.cutBytes a.env

section CutBytes
variable {cfg : Cfg}

theorem uncut_activePath : Fixes SlotSt.cutBytes (activePath cfg) := bears_cutBytes.activePath

theorem uncut_recoverPath (name : Bytes) : Fixes App.cutBytes (recoverPath cfg name) := by
  refine fixes_ite ?_ ?_
  · refine fixes_bind (bears_cutBytes.tsCtxGetOrAlloc _) fun _ => fixes_bind bears_cutBytes.getApp fun a => ?_
    split
    · exact fixes_throw _
    · exact fixes_adaptExcept _ (fixes_zoom uncut_activePath fun _ _ h => h)
  · exact fixes_bind bears_cutBytes.getApp fun a => fixes_guard (fixes_rethrow _)

theorem counts_of_uncut {α : Type} {m : Zdb α} (h : Fixes cutBytes m) (e : Sys) :
    Yields m e (fun _ e' => cutBytes e' = cutBytes e) fun _ _ => True := by
  have hfix := h e
  unfold Yields
  unfold post at hfix
  cases hm : m.run e with
  | ok a t =>
    rw [hm] at hfix
    exact hfix
  | error r t => trivial

theorem recoverFile_counts (name path : Bytes) (e : Sys) :
    Yields (recoverFile name path) e (fun n e' => cutBytes e' = cutBytes e + UInt64.ofNat n) fun _ _ => True := by
  have hpass : ∀ {α β : Type} {m : Zdb α} {f : α → Zdb β} {P : β → Sys → Prop} {e : Sys}, Fixes cutBytes m →
      (∀ a t, cutBytes t = cutBytes e → Yields (f a) t P fun _ _ => True) → Yields (m >>= f) e P fun _ _ => True :=
    fun hm hf => yields_bind ((counts_of_uncut hm _).imp (fun _ _ h => h) fun _ _ h => h) hf
  have hzero : ∀ t, cutBytes t = cutBytes e → Yields (pure 0 : Zdb Nat) t
      (fun n e' => cutBytes e' = cutBytes e + UInt64.ofNat n) fun _ _ => True := fun t ht => by
    refine yields_pure (ht.trans ?_)
    exact (UInt64.add_zero _).symm
  rw [recoverFile_eq]
  refine hpass (bears_cutBytes.probeLayout _) fun layout e₁ h₁ => ?_
  refine hpass (bears_cutBytes.toStatus (fixes_fsOpen _ _ _)) fun _ e₂ h₂ => ?_
  refine hpass (bears_cutBytes.toStatus (fixes_fsRead _ _ _)) fun hdr e₃ h₃ => ?_
  have h₃ := h₃.trans (h₂.trans h₁)
  have hcut : ∀ t, cutBytes t = cutBytes e → Yields (recoverCut layout path) t
      (fun n e' => cutBytes e' = cutBytes e + UInt64.ofNat n) fun _ _ => True := by
    intro t ht
    refine hpass (bears_cutBytes.toStatus fixes_call) fun _ t₁ k₁ => yields_get_bind ?_
    refine hpass (bears_cutBytes.recoverWalk _ _ _ _) fun ends t₂ k₂ => ?_
    refine hpass (bears_cutBytes.toStatus fixes_call) fun _ t₃ k₃ => ?_
    have k₃ := k₃.trans (k₂.trans (k₁.trans ht))
    dsimp only
    by_cases hlt : ends.1 < ends.2
    · rw [if_pos hlt]
      refine hpass (bears_cutBytes.toStatus (fixes_fsTruncate _ _)) fun _ t₄ k₄ => ?_
      refine yields_of_run rfl ?_
      show cutBytes t₄ + UInt64.ofNat (ends.2 - ends.1) = _
      rw [k₄, k₃]
    · rw [if_neg hlt, Nat.sub_eq_zero_of_le (Nat.not_lt.mp hlt)]
      exact hzero t₃ k₃
  unfold recoverRead
  by_cases hnil : hdr.length = 0
  · rw [if_pos hnil]
    refine hpass (bears_cutBytes.toStatus fixes_call) fun _ e₄ h₄ => ?_
    refine hpass (bears_cutBytes.toStatus (fixes_fsWrite _ _ _)) fun wr e₅ h₅ => ?_
    exact yields_guard (fun _ => trivial) fun _ => hzero e₅ (h₅.trans (h₄.trans h₃))
  · rw [if_neg hnil]
    refine yields_guard (fun _ => trivial) fun _ => ?_
    dsimp only
    by_cases hv : layout.hdrSize = hdrSizeV1
    · rw [if_pos hv]
      exact hpass (bears_cutBytes.streamHeaderDecode _ _) fun _ e₄ h₄ => hcut e₄ (h₄.trans h₃)
    · rw [if_neg hv]
      exact hcut e₃ h₃

end CutBytes

section Target
variable {cfg : Cfg} {name : Bytes}

theorem scanSegments_scanned (s : SlotSt) :
    Yields (scanSegments cfg) s (fun _ t => t.slot.segsScanned = true) fun _ _ => True := by
  have hlearn : ∀ lowest highest t, Yields (learnNewest cfg s.slot.name lowest highest) t
      (fun _ t => t.slot.segsScanned = true) fun _ _ => True := by
    intro lowest highest t
    refine yields_bind (yields_any _ t) fun _ t _ => yields_bind (yields_any _ t) fun segPath t _ => ?_
    refine yields_bind (yields_any _ t) fun vb t _ => yields_bind (yields_any _ t) fun _ t _ => ?_
    refine yields_bind (yields_any _ t) fun size t _ => ?_
    exact yields_of_run rfl rfl
  refine (show Yields (if s.slot.segsScanned then pure () else _ : SlotM Status Unit) s _ _ from ?_)
  split
  · rename_i hscan
    exact yields_pure hscan
  · refine yields_guard (fun _ => trivial) fun _ => yields_bind (yields_any _ s) fun entries t _ => ?_
    dsimp only
    split
    · exact yields_bind (yields_any _ t) fun _ t _ => hlearn _ _ t
    · exact hlearn _ _ t

theorem activePath_again {s t : SlotSt} {path : Path} (h : (activePath cfg).run s = .ok path t) (e : Sys) :
    (activePath cfg).run ⟨t.slot, e⟩ = .ok path ⟨t.slot, e⟩ := by
  unfold activePath at h ⊢
  by_cases hs : cfg.segmented = true
  · rw [if_pos hs] at h ⊢
    obtain ⟨_, u, hscan, hrest⟩ := of_run_bind h
    have hdone := (scanSegments_scanned s).run_ok (of_run_adapt hscan)
    obtain ⟨slot, v, hslot, hpath⟩ := of_run_bind hrest
    cases hslot
    obtain ⟨hbuild, rfl⟩ := run_rethrow.mp hpath
    have hskip : (scanSegments cfg).run ⟨u.slot, e⟩ = .ok () ⟨u.slot, e⟩ := by
      refine run_then (show (getSlot : SlotM Status StreamCtx).run ⟨u.slot, e⟩ = .ok u.slot ⟨u.slot, e⟩ from rfl) ?_
      rw [if_pos hdone]
      rfl
    refine run_then (run_orFail hskip) ?_
    refine run_then (show (getSlot : SlotM Errno StreamCtx).run ⟨u.slot, e⟩ = .ok u.slot ⟨u.slot, e⟩ from rfl) ?_
    exact run_rethrow.mpr ⟨hbuild, rfl⟩
  · rw [if_neg hs] at h ⊢
    obtain ⟨slot, v, hslot, hpath⟩ := of_run_bind h
    cases hslot
    obtain ⟨hbuild, rfl⟩ := run_rethrow.mp hpath
    refine run_then (show (getSlot : SlotM Errno StreamCtx).run ⟨s.slot, e⟩ = .ok s.slot ⟨s.slot, e⟩ from rfl) ?_
    exact run_rethrow.mpr ⟨hbuild, rfl⟩

theorem setSlot_self {a : App} {i : Nat} : a.setSlot i (a.slotAt i) = a := by
  unfold App.setSlot
  cases hc : a.tsCtx with
  | none => rw [Option.map_none, ← hc]
  | some ctx =>
    have hset : ctx.streams.set i (a.slotAt i) = ctx.streams := by
      rw [slotAt_some hc]
      by_cases hi : i < ctx.streams.length
      · rw [List.getD_eq_getElem _ _ hi, List.set_getElem_self]
      · exact List.set_eq_of_length_le (by omega)
    rw [Option.map_some, hset, ← hc]

theorem run_onSlot_still {ε α : Type} {m : SlotM ε α} {a : App} {i : Nat} {x : α}
    (h : m.run ⟨a.slotAt i, a.env⟩ = .ok x ⟨a.slotAt i, a.env⟩) : (onSlot i m).run a = .ok x a := by
  rw [run_onSlot h]
  dsimp only
  rw [setSlot_self]

theorem recoverPath_cases {a b : App} {path : Path} (hc : a.env.Clean)
    (h : (recoverPath cfg name).run a = .ok path b) :
    b.env.Clean ∧ ∀ e, (recoverPath cfg name).run { b with env := e } = .ok path { b with env := e } := by
  have hheld : App.held cfg (post (recoverPath cfg name) a) = a.held cfg := (settles_recoverPath name a).held
  rw [post_of_run h] at hheld
  have hset : ∀ e : Sys, ({ b with env := e } : App).cfgSet = a.cfgSet := fun _ =>
    congrArg (fun x => x.2.2) hheld
  unfold recoverPath at h ⊢
  by_cases hs : cfg.segmented = true
  · rw [if_pos hs] at h ⊢
    cases hrun : a.cfgSet with
    | false =>
      obtain ⟨_, c, hctx, _⟩ := of_run_bind h
      rw [run_tsCtxGetOrAlloc_down hrun] at hctx
      cases hctx
    | true =>
      obtain ⟨c, hctx, l, hsome⟩ := @tsCtxGetOrAlloc_spec cfg _ hc hrun .ERR_INVAL
      obtain ⟨_, c', hctx', h⟩ := of_run_bind h
      rw [hctx] at hctx'
      cases hctx'
      obtain ⟨_, c', hget, h⟩ := of_run_bind h
      cases hget
      cases hfind : c.slotFind name with
      | none =>
        rw [hfind] at h
        cases h
      | some i =>
        rw [hfind] at h
        dsimp only at h
        obtain ⟨t, hpath, rfl⟩ := of_run_zoom (of_run_adapt h)
        have hslot := hasSlot_of_inUse (slotFind_some hfind).1
        have hmoves := keeps_activePath cfg ⟨c.slotAt i, c.env⟩
        rw [Keeps, post_of_run hpath] at hmoves
        refine ⟨hmoves.within.clean (l.env.clean hc), fun e => ?_⟩
        -- the context and the slot of that name are where they were
        have hfind' : ({ c.setSlot i t.slot with env := e } : App).slotFind name = some i := by
          have hclaims : App.claims cfg { c.setSlot i t.slot with env := e } = c.claims cfg := by
            refine claims_setSlot_self cfg c ?_
            have htag : (post (activePath cfg) ⟨c.slotAt i, c.env⟩).tag = slotTag (c.slotAt i) :=
              (gentle_activePath ⟨c.slotAt i, c.env⟩).tag
            rw [post_of_run hpath] at htag
            exact htag
          rw [slotFind_table cfg, ← claims_table, hclaims, claims_table, ← slotFind_table, hfind]
        have hat : ({ c.setSlot i t.slot with env := e } : App).slotAt i = t.slot := by
          refine (show _ = (c.setSlot i t.slot).slotAt i from rfl).trans ?_
          rw [slotAt_setSlot hslot, if_pos rfl]
        generalize hd : ({ c.setSlot i t.slot with env := e } : App) = d at hfind' hat ⊢
        have hdctx : (tsCtxGetOrAlloc cfg .ERR_INVAL).run d = .ok () d := by
          obtain ⟨ctx, hcs⟩ := Option.isSome_iff_exists.mp hsome
          have hdset : d.cfgSet = true := by
            rw [← hd]
            exact (hset e).trans hrun
          refine run_then (show (get : AppM Status App).run d = .ok d d from rfl) ?_
          dsimp only
          rw [if_neg (by rw [hdset]; decide), ← hd]
          simp only [App.setSlot, hcs, Option.map_some]
          rfl
        refine run_then hdctx (run_then (show (get : AppM Status App).run d = .ok d d from rfl) ?_)
        rw [hfind']
        have hagain : (activePath cfg).run ⟨d.slotAt i, d.env⟩ = .ok path ⟨d.slotAt i, d.env⟩ := by
          rw [hat]
          exact activePath_again hpath _
        exact run_toStatus (run_onSlot_still hagain)
  · rw [if_neg hs] at h ⊢
    obtain ⟨_, c, hget, h⟩ := of_run_bind h
    cases hget
    dsimp only at h
    by_cases hrun : a.cfgSet = true
    · rw [if_neg (by rw [hrun]; decide)] at h
      obtain ⟨hpath, rfl⟩ := run_rethrow.mp h
      refine ⟨hc, fun e => ?_⟩
      refine run_then (show (get : AppM Status App).run _ = .ok _ _ from rfl) ?_
      dsimp only
      rw [if_neg (by rw [hrun]; decide)]
      exact run_rethrow.mpr ⟨hpath, rfl⟩
    · rw [if_pos (by simp [hrun])] at h
      cases h

/-- The file that a recovery pass over a stream works on, and what it holds when the pass gets to it. -/
def recoverTarget (cfg : Cfg) (name : Bytes) (a : App) : Option (Path × Bytes) :=
  match (do onEnv statRecoverRun; recoverPath cfg name : AppM Status Path).run a with
  | .ok path b => (b.env.look path).map fun bs => (path, bs)
  | .error _ _ => none

def App.begun (a : App) : App := { a with env := post (statRecoverRun : Zdb Unit) a.env }

theorem begun_look (a : App) : a.begun.env.look = a.env.look := rfl

theorem run_recoverStream_ok {a b : App} {path : Path} {n : Nat} {e : Sys}
    (hpath : (recoverPath cfg name).run a.begun = .ok path b) (hf : (recoverFile name path).run b.env = .ok n e) :
    (recoverStream cfg name).run a = .ok n { b with env := e } := by
  have hbody : (do let path ← recoverPath cfg name; onEnv (recoverFile name path) : AppM Status Nat).run a.begun =
      .ok n { b with env := e } := run_then hpath (run_onEnv hf)
  exact run_then (show (onEnv statRecoverRun : AppM Status Unit).run a = .ok () a.begun from rfl)
    (run_then (run_attempt_ok hbody) rfl)

theorem run_recoverStream_error {a b : App} {path : Path} {r : Status} {e : Sys}
    (hpath : (recoverPath cfg name).run a.begun = .ok path b) (hf : (recoverFile name path).run b.env = .error r e) :
    ∃ c, (recoverStream cfg name).run a = .error r c ∧ c.env.look = e.look := by
  have hbody : (do let path ← recoverPath cfg name; onEnv (recoverFile name path) : AppM Status Nat).run a.begun =
      .error r { b with env := e } := run_then hpath (run_zoom_error hf)
  let failed : Sys := post (statRecoverFailure : Zdb Unit) e
  let degraded : Sys := post (healthCheck : Zdb Unit) failed
  refine ⟨{ b with env := degraded }, ?_, ?_⟩
  · refine run_then (show (onEnv statRecoverRun : AppM Status Unit).run a = .ok () a.begun from rfl) ?_
    refine run_then (run_attempt_error hbody) ?_
    refine run_then (t := { b with env := failed }) rfl ?_
    exact run_then (t := { b with env := degraded }) rfl rfl
  · have hwithin : Within (fun _ => False) e degraded :=
      (within_chains _).trans (keeps_updStats _ e) (keeps_healthCheck _)
    exact (leads_of_within hwithin).look

structure Arrives (cfg : Cfg) (name : Bytes) (path : Path) (a b : App) : Prop where
  found : (recoverPath cfg name).run a.begun = .ok path b
  clean : b.env.Clean
  counted : b.cutBytes = a.cutBytes
  held : b.held cfg = a.held cfg
  again : ∀ e, (recoverPath cfg name).run { b with env := e } = .ok path { b with env := e }

theorem recoverTarget_arrives {a : App} {path : Path} {bs : Bytes} (hc : a.env.Clean)
    (h : recoverTarget cfg name a = some (path, bs)) :
    ∃ b, Arrives cfg name path a b ∧ b.env.look path = some bs := by
  have hstat : (onEnv statRecoverRun : AppM Status Unit).run a = .ok () a.begun := rfl
  unfold recoverTarget at h
  cases hrun : (recoverPath cfg name).run a.begun with
  | error r b =>
    rw [run_then hstat hrun] at h
    cases h
  | ok p b =>
    rw [run_then hstat hrun] at h
    dsimp only at h
    obtain ⟨bs', hlook, heq⟩ := Option.map_eq_some_iff.mp h
    cases heq
    obtain ⟨hclean, hagain⟩ := recoverPath_cases (show a.begun.env.Clean from hc) hrun
    refine ⟨b, ⟨hrun, hclean, ?_, ?_, hagain⟩, hlook⟩
    · have hfix : (post (recoverPath cfg name) a.begun).cutBytes = a.cutBytes := uncut_recoverPath name a.begun
      rwa [post_of_run hrun] at hfix
    · have hfix : App.held cfg (post (recoverPath cfg name) a.begun) = a.held cfg := (settles_recoverPath name a.begun).held
      rwa [post_of_run hrun] at hfix

theorem run_tsRecoverStream {a : App} {h : Nat} (hh : a.handles h = some name) :
    (tsRecoverStream cfg h).run a = (recoverStream cfg name).run a := by
  refine run_then (show (get : AppM Status App).run a = .ok a a from rfl) ?_
  rw [hh]

end Target

end ZephyrDB.Ts
