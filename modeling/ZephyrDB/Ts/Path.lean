import ZephyrDB.Core
import ZephyrDB.Lib.Decimal

/-!
The build configuration, the files a stream name stands for, and how the
directory scan recognises a stream's segments among them.
-/

set_option autoImplicit false

namespace ZephyrDB.Ts

open Lib

/-- The Kconfig options and the instance configuration that the time-series module reads.
`segmented` is on whenever rollover or delta encoding is. -/
structure Cfg where
  mountPoint : Bytes
  dirname : Bytes
  streamNameMaxLen : Nat
  rollover : Bool
  delta : Bool
  segmented : Bool
  segmented_of_rollover : rollover = true → segmented = true
  segmented_of_delta : delta = true → segmented = true
  segmentBytes : Nat
  maxSegments : Nat
  /-- The option's range starts at two. -/
  two_le_maxSegments : 2 ≤ maxSegments
  ingestBufferBytes : Nat
  ingestSlabBlockSize : Nat
  maxStreams : Nat
  autoRecoverOnOpen : Bool
  maxRecoveryTruncateBytes : Nat
  eventing : Bool

def Cfg.ingestCapacity (cfg : Cfg) : Nat := min cfg.ingestBufferBytes cfg.ingestSlabBlockSize

/-- `ZDB_TS_PATH_MAX`. -/
def PATH_MAX : Nat := 128

/-- `zdb_ts_stream_name_valid`. -/
def streamNameValid (cfg : Cfg) (name : Bytes) : Bool :=
  !name.isEmpty && name.length ≤ cfg.streamNameMaxLen && name != [46] && name != [46, 46] &&
    !name.contains 47 && !name.contains 92

/-- `".zts"`. -/
def dotZts : Bytes := [46, 122, 116, 115]
/-- `".wmk"`. -/
def dotWmk : Bytes := [46, 119, 109, 107]

def tsDir (cfg : Cfg) : Path := cfg.mountPoint ++ 47 :: cfg.dirname

def tsPath (cfg : Cfg) (entry : Bytes) : Path := tsDir cfg ++ 47 :: entry

def streamEntry (name : Bytes) : Bytes := name ++ dotZts
def watermarkEntry (name : Bytes) : Bytes := name ++ dotWmk
def segmentEntry (name : Bytes) (seq : Nat) : Bytes := name ++ 46 :: (printPadded 4 seq ++ dotZts)

/-- The common shape of `zdb_ts_build_path`, `zdb_ts_build_watermark_path` and
`zdb_ts_build_segment_path`. -/
def buildEntryPath (cfg : Cfg) (name entry : Bytes) : Except Errno Path :=
  if !streamNameValid cfg name then .error .EINVAL
  else if PATH_MAX ≤ (tsPath cfg entry).length then .error .ENAMETOOLONG
  else .ok (tsPath cfg entry)

/-- `zdb_ts_build_path`. -/
def buildPath (cfg : Cfg) (name : Bytes) : Except Errno Path :=
  buildEntryPath cfg name (streamEntry name)

/-- `zdb_ts_build_watermark_path`. -/
def buildWatermarkPath (cfg : Cfg) (name : Bytes) : Except Errno Path :=
  buildEntryPath cfg name (watermarkEntry name)

/-- `zdb_ts_build_segment_path`. -/
def buildSegmentPath (cfg : Cfg) (name : Bytes) (seq : Nat) : Except Errno Path :=
  buildEntryPath cfg name (segmentEntry name seq)

def streamPath (cfg : Cfg) (name : Bytes) : Path := tsPath cfg (streamEntry name)
def segmentPath (cfg : Cfg) (name : Bytes) (seq : Nat) : Path := tsPath cfg (segmentEntry name seq)

/-- The file that record `seq` of the segment window lives in; an unsegmented stream is one file. -/
def segFile (cfg : Cfg) (name : Bytes) (seq : Nat) : Path :=
  if cfg.segmented then segmentPath cfg name seq else streamPath cfg name

/-- The test of a directory entry in `zdb_ts_scan_segments`: the name, a dot, and whatever
`sscanf("%4u.zts")` converts. What stands after the digits is not looked at. -/
def segSeq (name entry : Bytes) : Option Nat :=
  if name.isPrefixOf entry then
    match entry.drop name.length with
    | 46 :: rest => scanUnsigned 4 rest
    | _ => none
  else none

theorem segSeq_eq_some {name entry : Bytes} {seq : Nat} :
    segSeq name entry = some seq ↔ ∃ rest, entry = name ++ 46 :: rest ∧ scanUnsigned 4 rest = some seq := by
  unfold segSeq
  constructor
  · intro h
    split at h
    · rename_i hp
      obtain ⟨tail, rfl⟩ := List.isPrefixOf_iff_prefix.mp hp
      rw [List.drop_left] at h
      split at h
      · rename_i rest
        exact ⟨rest, rfl, h⟩
      · cases h
    · cases h
  · rintro ⟨rest, rfl, h⟩
    have hp : name.isPrefixOf (name ++ 46 :: rest) = true :=
      List.isPrefixOf_iff_prefix.mpr ⟨_, rfl⟩
    simp [hp, h]

theorem segSeq_segmentEntry (name : Bytes) {seq : Nat} (h : seq < 10000) :
    segSeq name (segmentEntry name seq) = some seq :=
  segSeq_eq_some.mpr ⟨_, rfl, scan_printPadded (by decide) (by simpa using h) dotZts⟩

theorem tsPath_injective {cfg : Cfg} {x y : Bytes} (h : tsPath cfg x = tsPath cfg y) : x = y := by
  simpa [tsPath] using h

theorem segmentEntry_injective {name : Bytes} {a b : Nat}
    (h : segmentEntry name a = segmentEntry name b) : a = b := by
  have h' : printPadded 4 a = printPadded 4 b := by simpa [segmentEntry] using h
  exact printPadded_injective h'

theorem segmentPath_injective {cfg : Cfg} {name : Bytes} {a b : Nat}
    (h : segmentPath cfg name a = segmentPath cfg name b) : a = b :=
  segmentEntry_injective (tsPath_injective h)

theorem digits_no_dot {ds : Bytes} (h : ∀ c ∈ ds, isDigit c = true) : (46 : UInt8) ∉ ds := by
  intro hm
  have := h 46 hm
  revert this
  decide

theorem split_last_dot {xs ys ds es : Bytes} (hd : (46 : UInt8) ∉ ds) (he : (46 : UInt8) ∉ es)
    (h : xs ++ 46 :: ds = ys ++ 46 :: es) : xs = ys ∧ ds = es := by
  rcases List.append_eq_append_iff.mp h with ⟨l, hy, hl⟩ | ⟨l, hx, hl⟩
  · cases l with
    | nil => exact ⟨by simpa using hy.symm, by simpa using hl⟩
    | cons c l =>
      have hds : ds = l ++ 46 :: es := (List.cons.inj hl).2
      exact absurd (by simp [hds]) hd
  · cases l with
    | nil => exact ⟨by simpa using hx, by simpa using hl.symm⟩
    | cons c l =>
      have hes : es = l ++ 46 :: ds := (List.cons.inj hl).2
      exact absurd (by simp [hes]) he

theorem streamEntry_ne_watermarkEntry (a b : Bytes) : streamEntry a ≠ watermarkEntry b := by
  intro h
  have := congrArg List.getLast? h
  simp [streamEntry, watermarkEntry, dotZts, dotWmk] at this

theorem segmentEntry_ne_watermarkEntry (a b : Bytes) (seq : Nat) :
    segmentEntry a seq ≠ watermarkEntry b := by
  intro h
  have := congrArg List.getLast? h
  simp [segmentEntry, watermarkEntry, dotZts, dotWmk, List.getLast?_append, List.getLast?_cons] at this

theorem streamEntry_eq_segmentEntry {a b : Bytes} {seq : Nat} :
    streamEntry a = segmentEntry b seq ↔ a = b ++ 46 :: printPadded 4 seq := by
  unfold streamEntry segmentEntry
  rw [show b ++ 46 :: (printPadded 4 seq ++ dotZts) = (b ++ 46 :: printPadded 4 seq) ++ dotZts by simp,
    List.append_left_inj]

theorem segmentEntry_eq_segmentEntry {a b : Bytes} {i j : Nat}
    (h : segmentEntry a i = segmentEntry b j) : a = b ∧ i = j := by
  have h' : a ++ 46 :: printPadded 4 i = b ++ 46 :: printPadded 4 j := by
    apply List.append_left_inj dotZts |>.mp
    simpa [segmentEntry] using h
  obtain ⟨hab, hij⟩ := split_last_dot (digits_no_dot (printPadded_digits 4 i))
    (digits_no_dot (printPadded_digits 4 j)) h'
  exact ⟨hab, printPadded_injective hij⟩

inductive OwnEntry (cfg : Cfg) (name : Bytes) : Bytes → Prop where
  | stream : OwnEntry cfg name (streamEntry name)
  | watermark : OwnEntry cfg name (watermarkEntry name)
  | segment (seq : Nat) (h : cfg.segmented = true) : OwnEntry cfg name (segmentEntry name seq)

def Owns (cfg : Cfg) (name : Bytes) (p : Path) : Prop := ∃ entry, OwnEntry cfg name entry ∧ p = tsPath cfg entry

/-- A path that the directory scan of `name` counts as one of its segments. -/
def Scans (cfg : Cfg) (name : Bytes) (p : Path) (seq : Nat) : Prop :=
  ∃ entry, entryName (tsDir cfg) p = some entry ∧ segSeq name entry = some seq

/-- Two names such that neither one's segment scan takes the other for a segment of its own: neither
is the other followed by a dot and something that `%4u` converts. -/
def Separate (cfg : Cfg) (a b : Bytes) : Prop :=
  a ≠ b ∧ (cfg.segmented = true → segSeq a b = none ∧ segSeq b a = none)

instance (cfg : Cfg) (a b : Bytes) : Decidable (Separate cfg a b) :=
  inferInstanceAs (Decidable (a ≠ b ∧ (cfg.segmented = true → segSeq a b = none ∧ segSeq b a = none)))

theorem Separate.symm {cfg : Cfg} {a b : Bytes} (h : Separate cfg a b) : Separate cfg b a :=
  ⟨h.1.symm, fun hs => (h.2 hs).symm⟩

theorem OwnEntry.disjoint {cfg : Cfg} {a b x : Bytes} (h : Separate cfg a b) (ha : OwnEntry cfg a x)
    (hb : OwnEntry cfg b x) : False := by
  have hseg : ∀ {c d : Bytes} {seq : Nat}, cfg.segmented = true → Separate cfg c d →
      streamEntry c ≠ segmentEntry d seq := by
    intro c d seq hs hsep heq
    rw [streamEntry_eq_segmentEntry] at heq
    have hn := (hsep.2 hs).2
    have hsome : ∃ v, scanUnsigned 4 (printPadded 4 seq) = some v := by
      cases hp : printPadded 4 seq with
      | nil => exact absurd hp (printPadded_ne_nil 4 seq)
      | cons d ds =>
        have hd : isDigit d = true := printPadded_digits 4 seq d (by simp [hp])
        rw [scanUnsigned_digit hd]
        simp [scanRun, hd]
    obtain ⟨v, hv⟩ := hsome
    rw [segSeq_eq_some.mpr ⟨_, heq, hv⟩] at hn
    cases hn
  cases ha with
  | stream =>
    generalize hx : streamEntry a = x at hb
    cases hb with
    | stream => exact h.1 (List.append_left_inj dotZts |>.mp hx)
    | watermark => exact streamEntry_ne_watermarkEntry _ _ hx
    | segment seq hs => exact hseg hs h hx
  | watermark =>
    generalize hx : watermarkEntry a = x at hb
    cases hb with
    | stream => exact streamEntry_ne_watermarkEntry _ _ hx.symm
    | watermark => exact h.1 (List.append_left_inj dotWmk |>.mp hx)
    | segment seq hs => exact segmentEntry_ne_watermarkEntry _ _ _ hx.symm
  | segment seq hs =>
    generalize hx : segmentEntry a seq = x at hb
    cases hb with
    | stream => exact hseg hs h.symm hx.symm
    | watermark => exact segmentEntry_ne_watermarkEntry _ _ _ hx
    | segment seq' hs' => exact h.1 (segmentEntry_eq_segmentEntry hx).1

theorem scan_dot (xs rest : Bytes) : scanUnsigned 4 (xs ++ 46 :: rest) = scanUnsigned 4 xs :=
  scan_stop (by decide) (by decide) (by decide) (by decide) 4 xs rest

theorem OwnEntry.dotted {cfg : Cfg} {a x : Bytes} (h : OwnEntry cfg a x) :
    ∃ t, x = a ++ 46 :: t ∧ (∀ l r, t = l ++ 46 :: r → r = [122, 116, 115]) := by
  have hplain : ∀ {t : Bytes}, (46 : UInt8) ∉ t → ∀ l r, t = l ++ 46 :: r → r = [122, 116, 115] := by
    intro t ht l r hlr
    exact absurd (by simp [hlr]) ht
  cases h with
  | stream => exact ⟨[122, 116, 115], rfl, hplain (by decide)⟩
  | watermark => exact ⟨[119, 109, 107], rfl, hplain (by decide)⟩
  | segment seq hs =>
    refine ⟨_, rfl, fun l r hlr => ?_⟩
    have hdots : (46 : UInt8) ∉ printPadded 4 seq := digits_no_dot (printPadded_digits 4 seq)
    rcases List.append_eq_append_iff.mp hlr with ⟨m, hl, hm⟩ | ⟨m, hp, hm⟩
    · cases m with
      | nil => simpa [dotZts] using hm.symm
      | cons c m =>
        have hr : [122, 116, 115] = m ++ 46 :: r := (List.cons.inj hm).2
        have hmem : (46 : UInt8) ∈ ([122, 116, 115] : Bytes) := by rw [hr]; simp
        exact absurd hmem (by decide)
    · cases m with
      | nil => simpa [dotZts] using hm
      | cons c m =>
        have hc : (46 : UInt8) = c := (List.cons.inj hm).1
        exact absurd (by rw [hp, ← hc]; simp) hdots

theorem OwnEntry.not_scanned {cfg : Cfg} {a b x : Bytes} {seq : Nat} (hs : cfg.segmented = true)
    (h : Separate cfg a b) (ha : OwnEntry cfg a x) : segSeq b x ≠ some seq := by
  intro hscan
  obtain ⟨r, hx, hr⟩ := segSeq_eq_some.mp hscan
  obtain ⟨t, hxt, ht⟩ := ha.dotted
  rw [hxt] at hx
  rcases List.append_eq_append_iff.mp hx with ⟨l, hb, hl⟩ | ⟨l, ha', hl⟩
  · cases l with
    | nil => exact h.1 (by simpa using hb.symm)
    | cons c l =>
      have htl : t = l ++ 46 :: r := (List.cons.inj hl).2
      rw [ht l r htl, show scanUnsigned 4 [122, 116, 115] = none by decide] at hr
      cases hr
  · cases l with
    | nil => exact h.1 (by simpa using ha')
    | cons c l =>
      have hc : 46 = c := (List.cons.inj hl).1
      have hrl : r = l ++ 46 :: t := (List.cons.inj hl).2
      rw [hrl, scan_dot] at hr
      have hn := (h.2 hs).2
      rw [segSeq_eq_some.mpr ⟨l, by rw [ha', ← hc], hr⟩] at hn
      cases hn

theorem Owns.disjoint {cfg : Cfg} {a b : Bytes} {p : Path} (h : Separate cfg a b) (ha : Owns cfg a p) :
    ¬ Owns cfg b p := by
  rintro ⟨y, hy, hp⟩
  obtain ⟨x, hx, rfl⟩ := ha
  cases tsPath_injective hp
  exact hx.disjoint h hy

theorem Owns.not_scanned {cfg : Cfg} {a b : Bytes} {p : Path} {seq : Nat} (hs : cfg.segmented = true)
    (h : Separate cfg a b) (ha : Owns cfg a p) : ¬ Scans cfg b p seq := by
  rintro ⟨entry, hentry, hseq⟩
  obtain ⟨x, hx, rfl⟩ := ha
  have hpath := (entryName_eq_some.mp hentry).1
  cases tsPath_injective hpath
  exact hx.not_scanned hs h hseq

end ZephyrDB.Ts
