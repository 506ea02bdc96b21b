import ZephyrDB.Ts.World

/-!
Reading a stream's files back: the layout of a segment, its records by number,
and the recovery pass, which finds nothing to cut off a log that is intact.
-/

set_option autoImplicit false

namespace ZephyrDB.Ts

open Lib

theorem layout_version (f : Format) : f.layout.version = f.version := by
  cases f <;> rfl

theorem hdrSizeV1_le (f : Format) : hdrSizeV1 ≤ f.hdrSize := by
  cases f with
  | v1 => exact Nat.le_refl _
  | v2 base => exact show hdrSizeV1 ≤ hdrSizeV2 by decide

theorem slice_segBytes (name : Bytes) (g : Seg Format.fits) {j : Nat} (hj : j < g.items.length) :
    slice (segBytes name g) (g.format.hdrSize + j * g.format.recSize) g.format.recSize =
      g.format.encode g.items[j] := by
  have hlen := g.format.header_length name
  rw [segBytes, slice_append_right _ _ _ _ (by omega), hlen, Nat.add_sub_cancel_left]
  exact slice_flatMap (fun x hx => Format.encode_length (g.ok x hx)) hj

theorem slice_segBytes_end (name : Bytes) (g : Seg Format.fits) (len : Nat) :
    slice (segBytes name g) (g.format.hdrSize + g.items.length * g.format.recSize) len = [] :=
  slice_eq_nil_of_le _ _ _ (by rw [segBytes_length])

theorem cursorLearnLayout_existing {name path rest : Bytes} {f : Format} {e : Sys} (hc : e.Clean)
    (h : e.look path = some (f.header name ++ rest)) :
    ∃ e', (cursorLearnLayout path).run e = .ok f.layout e' ∧ Leads e e.look e' := by
  obtain ⟨e₁, h₁, l₁⟩ := fsOpen_existing hc false h
  obtain ⟨e₂, h₂, l₂⟩ := fsRead_ok (l₁.clean hc) path 0 hdrSizeV2
  rw [l₁.look, h, Option.getD_some, slice_header] at h₂
  refine ⟨e₂, ?_, l₁.trans (l₁.look ▸ l₂)⟩
  apply run_then (run_toStatus h₁)
  apply run_then (run_attempt_ok h₂)
  generalize rest.take (hdrSizeV2 - f.hdrSize) = tail
  have hlen : f.hdrSize ≤ (f.header name ++ tail).length := by simp [f.header_length]
  cases f with
  | v1 =>
    have hver : field (Format.v1.header name ++ tail) 4 2 = STREAM_VERSION :=
      streamHeader_version name tail
    generalize Format.v1.header name ++ tail = raw at hlen hver
    have hlen' : 16 ≤ raw.length := hlen
    dsimp only
    rw [if_neg (by unfold hdrSizeV1; omega), if_pos (by rw [hver]; decide)]
    rfl
  | v2 base =>
    have hver : field ((Format.v2 base).header name ++ tail) 4 2 = STREAM_VERSION_V2 :=
      streamHeaderV2_version name tail base
    have hbase : UInt64.ofNat (field ((Format.v2 base).header name ++ tail) 12 8) = base :=
      streamHeaderV2_base name tail base
    generalize (Format.v2 base).header name ++ tail = raw at hlen hver hbase
    have hlen' : 24 ≤ raw.length := hlen
    dsimp only
    rw [if_neg (by unfold hdrSizeV1; omega), if_neg (by rw [hver]; decide),
      if_neg (by unfold hdrSizeV2; omega), hbase]
    rfl

theorem recoverWalk_spec {name path : Bytes} (g : Seg Format.fits) (fuel j : Nat) (e : Sys) (hc : e.Clean)
    (h : e.look path = some (segBytes name g)) (hj : j ≤ g.items.length) (hfuel : g.items.length - j < fuel) :
    ∃ e', (recoverWalk g.format.layout path fuel (g.format.hdrSize + j * g.format.recSize)).run e =
        .ok (g.format.hdrSize + g.items.length * g.format.recSize,
          g.format.hdrSize + g.items.length * g.format.recSize) e' ∧ Leads e e.look e' := by
  induction fuel generalizing j e with
  | zero => omega
  | succ fuel ih =>
    obtain ⟨e₁, h₁, l₁⟩ := fsRead_ok hc path (g.format.hdrSize + j * g.format.recSize) g.format.recSize
    rw [h, Option.getD_some] at h₁
    unfold recoverWalk
    rcases Nat.lt_or_eq_of_le hj with hlt | rfl
    · rw [slice_segBytes name g hlt] at h₁
      have hfits := g.ok _ (List.getElem_mem hlt)
      obtain ⟨decoded, hdec⟩ := run_recordDecodeAs_any (Format.encode?_eq hfits) 0 e₁
      rw [← layout_version] at hdec
      obtain ⟨e₂, h₂, l₂⟩ := ih (j + 1) e₁ (l₁.clean hc) (by rw [l₁.look, h]) hlt (by omega)
      refine ⟨e₂, ?_, l₁.trans (l₁.look ▸ l₂)⟩
      apply run_then (run_toStatus h₁)
      rw [if_neg (by rw [not_not]; exact Format.encode_length hfits)]
      apply run_then (run_attempt_ok hdec)
      rw [← h₂, Nat.add_mul, Nat.one_mul, Nat.add_assoc]
      rfl
    · rw [slice_segBytes_end] at h₁
      refine ⟨e₁, run_then (run_toStatus h₁) ?_, l₁⟩
      rw [if_pos]
      · rfl
      · have := g.format.recSize_pos
        show (0 : Nat) ≠ g.format.recSize
        omega

theorem probeLayout_existing {name path : Bytes} {g : Seg Format.fits} {e : Sys} (hc : e.Clean)
    (h : e.look path = some (segBytes name g)) :
    ∃ e', (probeLayout path).run e = .ok g.format.layout e' ∧ Leads e e.look e' := by
  obtain ⟨e₁, h₁, l₁⟩ := fsStat_existing hc h
  obtain ⟨e₂, h₂, l₂⟩ := cursorLearnLayout_existing (l₁.clean hc)
    (show e₁.look path = some (g.format.header name ++ _) by rw [l₁.look, h, segBytes])
  exact ⟨e₂, run_then (run_attempt_ok h₁) (run_then (run_attempt_ok h₂) rfl), l₁.trans (l₁.look ▸ l₂)⟩

theorem recoverFile_existing {name path : Bytes} {g : Seg Format.fits} {e : Sys} (hc : e.Clean)
    (h : e.look path = some (segBytes name g)) :
    ∃ e', (recoverFile name path).run e = .ok 0 e' ∧ Leads e e.look e' := by
  obtain ⟨e₁, h₁, l₁⟩ := probeLayout_existing hc h
  obtain ⟨e₂, h₂, l₂⟩ := fsOpen_existing (l₁.clean hc) true (show e₁.look path = _ by rw [l₁.look, h])
  have l₂ := l₁.trans (l₁.look ▸ l₂)
  obtain ⟨e₃, h₃, l₃⟩ := fsRead_ok (l₂.clean hc) path 0 hdrSizeV1
  rw [l₂.look, h, Option.getD_some] at h₃
  have l₃ := l₂.trans (l₂.look ▸ l₃)
  obtain ⟨e₄, h₄, l₄⟩ := call_ok (l₃.clean hc)
  have l₄ := l₃.trans (l₃.look ▸ l₄)
  have hcont : e₄.contents path = segBytes name g := by
    rw [Env.contents_eq, l₄.look, h, Option.getD_some]
  have hfuel : g.items.length - 0 < (e₄.contents path).length + 1 := by
    rw [hcont, segBytes_length]
    have := Nat.le_mul_of_pos_right g.items.length g.format.recSize_pos
    omega
  obtain ⟨e₅, h₅, l₅⟩ := recoverWalk_spec g _ 0 e₄ (l₄.clean hc) (by rw [l₄.look, h])
    (Nat.zero_le _) hfuel
  simp only [Nat.zero_mul, Nat.add_zero] at h₅
  have l₅ := l₄.trans (l₄.look ▸ l₅)
  obtain ⟨e₆, h₆, l₆⟩ := call_ok (l₅.clean hc)
  have l₆ := l₅.trans (l₅.look ▸ l₆)
  refine ⟨e₆, ?_, l₆⟩
  have hhdr : hdrSizeV1 ≤ (segBytes name g).length := by
    rw [segBytes_length]
    have := hdrSizeV1_le g.format
    omega
  have hlen : (slice (segBytes name g) 0 hdrSizeV1).length = hdrSizeV1 := by
    rw [slice_length]
    omega
  -- a version 2 header is longer than what is read here, and only a version 1 one is checked
  have hdecode : ∀ k : Zdb Nat, (if g.format.layout.hdrSize = hdrSizeV1 then do
      streamHeaderDecode (slice (segBytes name g) 0 hdrSizeV1) name
      k
      else k).run e₃ = k.run e₃ := by
    intro k
    split
    · rename_i hv1
      have hf : g.format = .v1 := by
        cases hf : g.format with
        | v1 => rfl
        | v2 base =>
          rw [hf] at hv1
          exact absurd hv1 (show ¬ hdrSizeV2 = hdrSizeV1 by decide)
      have hhead : slice (segBytes name g) 0 hdrSizeV1 = streamHeaderEncode name ++ [] := by
        have hl := streamHeaderEncode_length name
        rw [segBytes, hf, List.append_nil, ← hl]
        exact slice_zero_append _ _
      rw [hhead]
      exact run_then (run_streamHeaderDecode_encode name [] e₃) rfl
    · rfl
  apply run_then h₁
  apply run_then (run_toStatus h₂)
  apply run_then (run_toStatus h₃)
  dsimp only
  rw [if_neg (by rw [hlen]; decide), if_neg (by rw [not_not]; exact hlen)]
  refine (hdecode _).trans ?_
  apply run_then (run_toStatus h₄)
  refine run_then (show (get : Zdb Sys).run e₄ = .ok e₄ e₄ from rfl) ?_
  apply run_then h₅
  apply run_then (run_toStatus h₆)
  dsimp only
  rw [if_neg (Nat.lt_irrefl _), Nat.sub_self]
  rfl

theorem recoverFile_absent {name path : Bytes} {e : Sys} (hc : e.Clean) (h : e.look path = none) :
    ∃ e', (recoverFile name path).run e = .ok 0 e' ∧
      Leads e (Function.update e.look path (some (streamHeaderEncode name))) e' := by
  obtain ⟨e₁, h₁, l₁⟩ := fsStat_missing hc h
  obtain ⟨e₂, h₂, l₂⟩ := fsOpen_create (l₁.clean hc) false (show e₁.look path = none by rw [l₁.look, h])
  have l₂ := l₁.trans l₂
  obtain ⟨e₃, h₃, l₃⟩ := fsRead_ok (l₂.clean hc) path 0 hdrSizeV1
  have hempty : e₂.look path = some [] := by rw [l₂.look, Function.update_self]
  have hnil : (slice ((some ([] : Bytes)).getD []) 0 hdrSizeV1).length = 0 := by simp [slice]
  rw [hempty] at h₃
  have l₃ := l₂.trans l₃
  obtain ⟨e₄, h₄, l₄⟩ := call_ok (l₃.clean hc)
  have l₄ := l₃.trans l₄
  obtain ⟨e₅, h₅, l₅⟩ := fsWrite_ok (l₄.clean hc) 0 (streamHeaderEncode name)
    (show e₄.look path = some [] by rw [l₄.look, l₃.look, hempty])
  have l₅ := l₄.trans l₅
  refine ⟨e₅, ?_, ?_⟩
  · refine run_then (run_then (run_attempt_error h₁) rfl) ?_
    apply run_then (run_toStatus h₂)
    apply run_then (run_toStatus h₃)
    dsimp only
    rw [if_pos hnil]
    apply run_then (run_toStatus h₄)
    apply run_then (run_toStatus h₅)
    rw [if_neg (not_not.mpr (streamHeaderEncode_length name))]
    rfl
  · rw [l₄.look, l₃.look, l₂.look, l₁.look, Function.update_idem, writeAt_nil] at l₅
    exact l₅

end ZephyrDB.Ts
