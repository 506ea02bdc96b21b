import ZephyrDB.Ts.Log
import ZephyrDB.Ts.Frame

/-!
Segment files in a clean environment: which files a log stands for, and what
reading, creating, adopting and scanning them does to that correspondence.
-/

set_option autoImplicit false

namespace ZephyrDB.Ts

open Lib

theorem run_toStatus {σ α : Type} {m : EStateM Errno σ α} {s t : σ} {a : α} (h : m.run s = .ok a t) :
    (toStatus m).run s = .ok a t :=
  run_adapt h

theorem run_orFail {ε ε' σ α : Type} {m : EStateM ε σ α} {s t : σ} {a : α} {r : ε'}
    (h : m.run s = .ok a t) : (orFail r m).run s = .ok a t :=
  run_adapt h

theorem run_onSys {ε α : Type} {m : EStateM ε Sys α} {s : SlotSt} {a : α} {e : Sys}
    (h : m.run s.env = .ok a e) : (onSys m).run s = .ok a ⟨s.slot, e⟩ :=
  run_zoom h

def Admissible (cfg : Cfg) (name : Bytes) : Prop :=
  streamNameValid cfg name = true ∧ (segFile cfg name 0).length < PATH_MAX

instance (cfg : Cfg) (name : Bytes) : Decidable (Admissible cfg name) :=
  inferInstanceAs (Decidable (streamNameValid cfg name = true ∧ (segFile cfg name 0).length < PATH_MAX))

theorem segmentPath_length (cfg : Cfg) (name : Bytes) {seq : Nat} (h : seq < 10000) :
    (segmentPath cfg name seq).length = (streamPath cfg name).length + 5 := by
  simp [segmentPath, streamPath, tsPath, segmentEntry, streamEntry, dotZts,
    @printPadded_length 4 _ (by decide) h]
  omega

theorem Admissible.streamPath_length {cfg : Cfg} {name : Bytes} (h : Admissible cfg name) :
    (streamPath cfg name).length < PATH_MAX := by
  have hlen := h.2
  unfold segFile at hlen
  split at hlen
  · rw [segmentPath_length cfg name (by decide)] at hlen
    omega
  · exact hlen

theorem Admissible.buildPath {cfg : Cfg} {name : Bytes} (h : Admissible cfg name) :
    buildPath cfg name = .ok (streamPath cfg name) := by
  have hlen := h.streamPath_length
  unfold streamPath at hlen
  simp [Ts.buildPath, buildEntryPath, h.1, streamPath, Nat.not_le.mpr hlen]

theorem Admissible.buildSegmentPath {cfg : Cfg} {name : Bytes} (h : Admissible cfg name)
    (hs : cfg.segmented = true) {seq : Nat} (hseq : seq < 10000) :
    buildSegmentPath cfg name seq = .ok (segmentPath cfg name seq) := by
  have hlen := h.2
  rw [segFile, if_pos hs, segmentPath_length cfg name (by decide),
    ← segmentPath_length cfg name hseq] at hlen
  unfold segmentPath at hlen
  simp [Ts.buildSegmentPath, buildEntryPath, h.1, segmentPath, Nat.not_le.mpr hlen]

theorem Admissible.tsDir_length {cfg : Cfg} {name : Bytes} (h : Admissible cfg name) :
    (tsDir cfg).length < PATH_MAX := by
  have hlen := h.streamPath_length
  simp only [streamPath, tsPath, List.length_append, List.length_cons] at hlen
  omega

theorem Admissible.no_slash {cfg : Cfg} {name : Bytes} (h : Admissible cfg name) :
    (47 : UInt8) ∉ name := by
  have hv := h.1
  simp only [streamNameValid, Bool.and_eq_true, Bool.not_eq_true', List.contains_eq_mem,
    decide_eq_false_iff_not] at hv
  exact hv.1.2

theorem entryName_segmentPath {cfg : Cfg} {name : Bytes} (h : (47 : UInt8) ∉ name) (seq : Nat) :
    entryName (tsDir cfg) (segmentPath cfg name seq) = some (segmentEntry name seq) := by
  refine entryName_eq_some.mpr ⟨rfl, by simp [segmentEntry], ?_⟩
  intro hm
  rcases List.mem_append.mp hm with hm | hm
  · exact h hm
  · have hd := printPadded_digits 4 seq
    simp only [List.mem_cons, List.mem_append, dotZts] at hm
    rcases hm with hm | hm | hm
    · exact absurd hm (by decide)
    · exact absurd (hd 47 hm) (by decide)
    · exact absurd hm (by decide)

theorem scans_segmentPath {cfg : Cfg} {name : Bytes} (h : (47 : UInt8) ∉ name) (seq : Nat) :
    ∃ v, Scans cfg name (segmentPath cfg name seq) v ∧ (seq < 10000 → v = seq) := by
  have hentry := @entryName_segmentPath cfg _ h seq
  by_cases hseq : seq < 10000
  · exact ⟨seq, ⟨_, hentry, segSeq_segmentEntry name hseq⟩, fun _ => rfl⟩
  · have hne := printPadded_ne_nil 4 seq
    have hd := printPadded_digits 4 seq
    obtain ⟨c, cs, hc⟩ := List.exists_cons_of_ne_nil hne
    have hscan : ∃ v, scanUnsigned 4 (printPadded 4 seq ++ dotZts) = some v := by
      rw [hc, List.cons_append, scanUnsigned_digit (hd c (by simp [hc]))]
      simp [scanRun, hd c (by simp [hc])]
    obtain ⟨v, hv⟩ := hscan
    exact ⟨v, ⟨_, hentry, segSeq_eq_some.mpr ⟨_, rfl, hv⟩⟩, fun hlt => absurd hlt hseq⟩

def segBytes (name : Bytes) (g : Seg Format.fits) : Bytes := g.format.header name ++ g.format.records g.items

structure SegFiles (cfg : Cfg) (name : Bytes) (L : Log) (look : Path → Option Bytes) : Prop where
  file : ∀ k, L.lo ≤ k → k ≤ L.past.length → look (segFile cfg name k) = some (segBytes name (L.seg k))
  window : cfg.segmented = true → ∀ p v, (look p).isSome → Scans cfg name p v →
    ∃ k, L.lo ≤ k ∧ k ≤ L.past.length ∧ p = segmentPath cfg name k
  single : cfg.segmented = false → L.past = [] ∧ L.cur.format = .v1

/-- What is on storage for a log while nobody has it open: its segments; nothing, for one that was
never opened; or the single file of an unsegmented build. -/
inductive Stored (cfg : Cfg) (name : Bytes) (L : Log) (look : Path → Option Bytes) : Prop where
  | files (h : SegFiles cfg name L look)
  | absent (hpast : L.past = []) (hitems : L.cur.items = []) (hformat : L.cur.format = buildFormat cfg 0)
      (hnone : look (streamPath cfg name) = none)
      (hscan : cfg.segmented = true → ∀ p v, (look p).isSome → ¬ Scans cfg name p v)
  | legacy (hs : cfg.segmented = true) (hpast : L.past = []) (hformat : L.cur.format = .v1)
      (hfile : look (streamPath cfg name) = some (segBytes name L.cur))
      (hscan : ∀ p v, (look p).isSome → ¬ Scans cfg name p v)

theorem segBytes_length (name : Bytes) (g : Seg Format.fits) :
    (segBytes name g).length = g.format.hdrSize + g.items.length * g.format.recSize := by
  rw [segBytes, List.length_append, Format.header_length, Format.records_length g.ok]

theorem SegFiles.cur {cfg : Cfg} {name : Bytes} {L : Log} {look : Path → Option Bytes}
    (h : SegFiles cfg name L look) :
    look (segFile cfg name L.past.length) = some (segBytes name L.cur) := by
  rw [h.file _ L.lo_le (Nat.le_refl _), L.seg_cur]

theorem segFile_of_segmented {cfg : Cfg} (hs : cfg.segmented = true) (name : Bytes) (k : Nat) :
    segFile cfg name k = segmentPath cfg name k := by
  rw [segFile, if_pos hs]

theorem segFile_of_single {cfg : Cfg} (hs : cfg.segmented = false) (name : Bytes) (k : Nat) :
    segFile cfg name k = streamPath cfg name := by
  rw [segFile, if_neg (by simp [hs])]

theorem SegFiles.next_absent {cfg : Cfg} {name : Bytes} {L : Log} {look : Path → Option Bytes}
    (h : SegFiles cfg name L look) (hs : cfg.segmented = true) (hn : (47 : UInt8) ∉ name) :
    look (segmentPath cfg name (L.past.length + 1)) = none := by
  by_contra hne
  obtain ⟨v, hv, _⟩ := @scans_segmentPath cfg _ hn (L.past.length + 1)
  obtain ⟨k, _, hk, hp⟩ := h.window hs _ v (Option.isSome_iff_ne_none.mpr hne) hv
  have := segmentPath_injective hp
  omega

theorem slice_header (name : Bytes) (f : Format) (rest : Bytes) :
    slice (f.header name ++ rest) 0 hdrSizeV2 = f.header name ++ rest.take (hdrSizeV2 - f.hdrSize) := by
  have hle : f.hdrSize ≤ hdrSizeV2 := by
    cases f <;> simp [Format.hdrSize, hdrSizeFor, Format.version, hdrSizeV1, hdrSizeV2, STREAM_VERSION,
      STREAM_VERSION_V2]
  rw [slice, List.drop_zero, List.take_append, f.header_length, List.take_of_length_le]
  rw [f.header_length]
  exact hle

theorem ensureHeaderEx_existing {cfg : Cfg} {name path rest : Bytes} {f : Format} {e : Sys}
    (hc : e.Clean) (h : e.look path = some (f.header name ++ rest)) (baseTsMs : UInt64) :
    ∃ e', (ensureHeaderEx cfg name path baseTsMs).run e = .ok (f.version, f.baseTs) e' ∧
      Leads e e.look e' := by
  obtain ⟨e₁, h₁, l₁⟩ := fsOpen_existing hc true h
  obtain ⟨e₂, h₂, l₂⟩ := fsRead_ok (l₁.clean hc) path 0 hdrSizeV2
  rw [l₁.look, h, Option.getD_some, slice_header] at h₂
  refine ⟨e₂, ?_, l₁.trans (l₁.look ▸ l₂)⟩
  apply run_then (run_toStatus h₁)
  apply run_then (run_toStatus h₂)
  generalize rest.take (hdrSizeV2 - f.hdrSize) = tail
  have hlen : f.hdrSize ≤ (f.header name ++ tail).length := by simp [f.header_length]
  cases f with
  | v1 =>
    have hver : field (Format.v1.header name ++ tail) 4 2 = STREAM_VERSION :=
      streamHeader_version name tail
    have hdec : (streamHeaderDecode (Format.v1.header name ++ tail) name).run e₂ = .ok () e₂ :=
      run_streamHeaderDecode_encode name tail e₂
    generalize Format.v1.header name ++ tail = raw at hlen hver hdec
    have hlen' : 16 ≤ raw.length := hlen
    rw [if_neg (by omega), if_neg (by unfold hdrSizeV1; omega), if_neg (by rw [hver]; decide)]
    apply run_then hdec
    rw [hver]
    rfl
  | v2 base =>
    have hver : field ((Format.v2 base).header name ++ tail) 4 2 = STREAM_VERSION_V2 :=
      streamHeaderV2_version name tail base
    have hdec : (streamHeaderV2Decode ((Format.v2 base).header name ++ tail) name).run e₂ =
        .ok base e₂ := run_streamHeaderV2Decode_encode name tail base e₂
    generalize (Format.v2 base).header name ++ tail = raw at hlen hver hdec
    have hlen' : 24 ≤ raw.length := hlen
    rw [if_neg (by omega), if_neg (by unfold hdrSizeV1; omega), if_pos hver]
    dsimp only
    rw [if_neg (by unfold hdrSizeV2; omega)]
    exact run_then hdec rfl

theorem newHeader_eq (cfg : Cfg) (name : Bytes) (baseTsMs : UInt64) :
    newHeader cfg name baseTsMs =
      ((buildFormat cfg baseTsMs).header name, (buildFormat cfg baseTsMs).version,
        (buildFormat cfg baseTsMs).baseTs) := by
  unfold newHeader buildFormat
  split <;> rfl

theorem ensureHeaderEx_new {cfg : Cfg} {name path : Bytes} {e : Sys} (hc : e.Clean)
    (h : e.look path = none) (baseTsMs : UInt64) :
    ∃ e', (ensureHeaderEx cfg name path baseTsMs).run e =
        .ok ((buildFormat cfg baseTsMs).version, (buildFormat cfg baseTsMs).baseTs) e' ∧
      Leads e (Function.update e.look path (some ((buildFormat cfg baseTsMs).header name))) e' := by
  obtain ⟨e₁, h₁, l₁⟩ := fsOpen_create hc false h
  have hempty : e₁.look path = some [] := by rw [l₁.look, Function.update_self]
  obtain ⟨e₂, h₂, l₂⟩ := fsRead_ok (l₁.clean hc) path 0 hdrSizeV2
  rw [hempty] at h₂
  have l₂ := l₁.trans l₂
  obtain ⟨e₃, h₃, l₃⟩ := call_ok (l₂.clean hc)
  have l₃ := l₂.trans l₃
  obtain ⟨e₄, h₄, l₄⟩ := fsWrite_ok (l₃.clean hc) 0 ((buildFormat cfg baseTsMs).header name)
    (show e₃.look path = some [] by rw [l₃.look, l₂.look, hempty])
  have l₄ := l₃.trans l₄
  refine ⟨e₄, ?_, ?_⟩
  · apply run_then (run_toStatus h₁)
    apply run_then (run_toStatus h₂)
    rw [newHeader_eq]
    apply run_then (run_toStatus h₃)
    apply run_then (run_toStatus h₄)
    dsimp only
    rw [if_neg (by simp)]
    rfl
  · rw [l₃.look, l₂.look, l₁.look, Function.update_idem, writeAt_nil] at l₄
    exact l₄

end ZephyrDB.Ts
