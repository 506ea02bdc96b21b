import ZephyrDB.Ts.Record

/-!
The record codec over all of its inputs: which samples a record format can
express, which byte strings decode, and that the encoder and the decoder undo
each other in both directions.
-/

set_option autoImplicit false

namespace ZephyrDB.Ts

open Lib

/-- `zdb_ts_record_encode_as` on the buffer that it is given: its answer, and the buffer afterwards. -/
def recordEncodeInto (version : Nat) (baseTsMs : UInt64) (sample : Sample) (out : Bytes) : Bool × Bytes :=
  if version ≠ STREAM_VERSION_V2 then (true, writeAt out 0 (recordEncode sample))
  else if sample.tsMs < baseTsMs then (false, out)
  else
    let delta := sample.tsMs - baseTsMs
    if delta.toNat > 2 ^ 32 - 1 then (false, out)
    else (true, writeAt out 0 (sealed (recordV2Fields delta.toNat sample)))

/-- The timestamps that a format has a form for. -/
def Expressible (version : Nat) (baseTsMs tsMs : UInt64) : Prop :=
  version ≠ STREAM_VERSION_V2 ∨
    0 ≤ (tsMs.toNat : Int) - baseTsMs.toNat ∧ (tsMs.toNat : Int) - baseTsMs.toNat < 2 ^ 32

/-- A record whose stored checksum is that of the bytes before it; a version 1 record carries its magic
and its version as well. -/
def Stamped (version : Nat) (raw : Bytes) : Prop :=
  if version = STREAM_VERSION_V2 then field raw 12 4 = (crc32 (raw.take 12)).toNat
  else field raw 0 4 = REC_MAGIC ∧ field raw 4 2 = REC_VERSION ∧ field raw 24 4 = (crc32 (raw.take 24)).toNat

/-- What a record holds that its sample does not tell: a version 1 record has a reserved field, and the
timestamp of a version 2 record may lie past the end of 64 bits. -/
def Canonical (version : Nat) (baseTsMs : UInt64) (raw : Bytes) : Prop :=
  if version = STREAM_VERSION_V2 then baseTsMs.toNat + field raw 0 4 ≤ 2 ^ 64 - 1 else field raw 6 2 = 0

def sampleOf (version : Nat) (baseTsMs : UInt64) (raw : Bytes) : Sample :=
  if version = STREAM_VERSION_V2 then
    ⟨baseTsMs + UInt64.ofNat (field raw 0 4), (UInt64.ofNat (field raw 4 8)).toInt64⟩
  else ⟨UInt64.ofNat (field raw 8 8), (UInt64.ofNat (field raw 16 8)).toInt64⟩

section Encode
variable {version : Nat} {baseTsMs : UInt64} {sample : Sample}

theorem recordEncodeInto_eq (out : Bytes) : recordEncodeInto version baseTsMs sample out =
    match recordEncodeAs version baseTsMs sample with
    | some raw => (true, writeAt out 0 raw)
    | none => (false, out) := by
  unfold recordEncodeInto recordEncodeAs
  by_cases hv : version = STREAM_VERSION_V2
  · rw [if_neg (not_not.mpr hv), if_pos hv]
    by_cases hlt : sample.tsMs < baseTsMs
    · rw [if_pos hlt, if_pos hlt]
    · rw [if_neg hlt, if_neg hlt]
      dsimp only
      split <;> rfl
  · rw [if_pos hv, if_neg hv]

theorem recordEncodeInto_some {raw : Bytes} (h : recordEncodeAs version baseTsMs sample = some raw) (out : Bytes) :
    recordEncodeInto version baseTsMs sample out = (true, raw ++ out.drop (recSizeFor version)) := by
  rw [recordEncodeInto_eq, h, ← recordEncodeAs_length h]
  simp [writeAt]

theorem recordEncodeInto_none (h : recordEncodeAs version baseTsMs sample = none) (out : Bytes) :
    recordEncodeInto version baseTsMs sample out = (false, out) := by
  rw [recordEncodeInto_eq, h]

theorem recordEncodeAs_isSome_iff :
    (recordEncodeAs version baseTsMs sample).isSome = true ↔ Expressible version baseTsMs sample.tsMs := by
  unfold recordEncodeAs Expressible
  by_cases hv : version = STREAM_VERSION_V2
  · rw [if_pos hv]
    have hts := sample.tsMs.toNat_lt
    by_cases hlt : sample.tsMs < baseTsMs
    · rw [if_pos hlt]
      have hlt' : sample.tsMs.toNat < baseTsMs.toNat := hlt
      simp only [Option.isSome_none, Bool.false_eq_true, false_iff, not_or, not_not]
      exact ⟨hv, by omega⟩
    · rw [if_neg hlt]
      have hle : baseTsMs.toNat ≤ sample.tsMs.toNat := Nat.le_of_not_lt hlt
      have hdelta : (sample.tsMs - baseTsMs).toNat = sample.tsMs.toNat - baseTsMs.toNat :=
        UInt64.toNat_sub_of_le _ _ hle
      dsimp only
      rw [hdelta]
      split
      · rename_i hbig
        simp only [Option.isSome_none, Bool.false_eq_true, false_iff, not_or, not_not]
        exact ⟨hv, by omega⟩
      · rename_i hsmall
        simp only [Option.isSome_some, true_iff]
        exact .inr (by omega)
  · rw [if_neg hv]
    exact ⟨fun _ => .inl hv, fun _ => rfl⟩

end Encode

theorem crcOk_iff (raw : Bytes) (off : Nat) : crcOk raw off = true ↔ field raw off 4 = (crc32 (raw.take off)).toNat :=
  beq_iff_eq

theorem run_recordDecode_iff {raw : Bytes} {sample : Sample} {e e' : Sys} :
    (recordDecode raw).run e = .ok sample e' ↔
      (field raw 0 4 = REC_MAGIC ∧ field raw 4 2 = REC_VERSION ∧ crcOk raw 24 = true) ∧
        sample = ⟨UInt64.ofNat (field raw 8 8), (UInt64.ofNat (field raw 16 8)).toInt64⟩ ∧ e' = e := by
  unfold recordDecode
  by_cases hm : field raw 0 4 = REC_MAGIC
  · rw [if_neg (not_not.mpr hm)]
    by_cases hver : field raw 4 2 = REC_VERSION
    · cases hcrc : crcOk raw 24 with
      | false =>
        rw [if_neg (not_not.mpr hver)]
        exact ⟨fun h => (by cases h), fun h => (by cases h.1.2.2)⟩
      | true =>
        rw [if_neg (not_not.mpr hver)]
        refine ⟨fun h => ?_, fun h => ?_⟩
        · cases h
          exact ⟨⟨hm, hver, rfl⟩, rfl, rfl⟩
        · rw [h.2.1, h.2.2]
          rfl
    · rw [if_pos hver]
      exact ⟨fun h => (by cases h), fun h => absurd h.1.2.1 hver⟩
  · rw [if_pos hm]
    exact ⟨fun h => (by cases h), fun h => absurd h.1.1 hm⟩

theorem run_recordDecodeAs_iff {version : Nat} {baseTsMs : UInt64} {raw : Bytes} {sample : Sample} {e e' : Sys} :
    (recordDecodeAs version baseTsMs raw).run e = .ok sample e' ↔
      Stamped version raw ∧ sample = sampleOf version baseTsMs raw ∧ e' = e := by
  unfold recordDecodeAs Stamped sampleOf
  by_cases hv : version = STREAM_VERSION_V2
  · rw [if_pos hv, if_pos hv, if_pos hv, ← crcOk_iff]
    cases hcrc : crcOk raw 12 with
    | false => exact ⟨fun h => (by cases h), fun h => (by cases h.1)⟩
    | true =>
      refine ⟨fun h => ?_, fun h => ?_⟩
      · cases h
        exact ⟨rfl, rfl, rfl⟩
      · rw [h.2.1, h.2.2]
        rfl
  · rw [if_neg hv, if_neg hv, if_neg hv, run_recordDecode_iff, ← crcOk_iff]

theorem sealed_take {raw : Bytes} {n : Nat} (hlen : raw.length = n + 4)
    (hcrc : field raw n 4 = (crc32 (raw.take n)).toNat) : sealed (raw.take n) = raw := by
  have htail : slice raw n 4 = raw.drop n := by
    unfold slice
    rw [List.take_of_length_le (by rw [List.length_drop]; omega)]
  rw [sealed, ← hcrc, leBytes_field (by omega), htail, List.take_append_drop]

theorem toNat_ofNat_field {raw : Bytes} {off : Nat} : (UInt64.ofNat (field raw off 8)).toNat = field raw off 8 := by
  have hlt := leNat_lt (slice raw off 8)
  have hlen : (slice raw off 8).length ≤ 8 := by
    rw [slice_length]
    omega
  have hpow : 256 ^ (slice raw off 8).length ≤ 256 ^ 8 := Nat.pow_le_pow_right (by decide) hlen
  rw [UInt64.toNat_ofNat']
  exact Nat.mod_eq_of_lt (Nat.lt_of_lt_of_le hlt hpow)

theorem recordFields_sampleOf {version : Nat} {baseTsMs : UInt64} {raw : Bytes} (hv : version ≠ STREAM_VERSION_V2)
    (hlen : raw.length = recSizeV1) (hs : Stamped version raw) (hc : Canonical version baseTsMs raw) :
    recordFields (sampleOf version baseTsMs raw) = raw.take 24 := by
  have hlen' : raw.length = 28 := hlen
  unfold Stamped at hs
  unfold Canonical at hc
  rw [if_neg hv] at hs hc
  have hreserved : leBytes 2 0 = slice raw 6 2 := by rw [← leBytes_field (by omega), hc]
  unfold recordFields sampleOf
  rw [if_neg hv]
  dsimp only
  rw [toNat_ofNat_field, UInt64.toUInt64_toInt64, toNat_ofNat_field, ← hs.1, ← hs.2.1, hreserved]
  rw [leBytes_field (by omega), leBytes_field (by omega), leBytes_field (by omega), leBytes_field (by omega),
    slice_split, slice_split, slice_split, slice_split]
  rfl

theorem recordV2Fields_sampleOf {version : Nat} {baseTsMs : UInt64} {raw : Bytes} (hv : version = STREAM_VERSION_V2)
    (hlen : raw.length = recSizeV2) : recordV2Fields (field raw 0 4) (sampleOf version baseTsMs raw) = raw.take 12 := by
  have hlen' : raw.length = 16 := hlen
  unfold recordV2Fields sampleOf
  rw [if_pos hv]
  dsimp only
  rw [UInt64.toUInt64_toInt64, toNat_ofNat_field, leBytes_field (by omega), leBytes_field (by omega), slice_split]
  rfl

theorem delta_sampleOf {version : Nat} {baseTsMs : UInt64} {raw : Bytes} (hv : version = STREAM_VERSION_V2)
    (hc : Canonical version baseTsMs raw) :
    baseTsMs.toNat ≤ (sampleOf version baseTsMs raw).tsMs.toNat ∧
      ((sampleOf version baseTsMs raw).tsMs - baseTsMs).toNat = field raw 0 4 := by
  unfold Canonical at hc
  rw [if_pos hv] at hc
  unfold sampleOf
  rw [if_pos hv]
  dsimp only
  have hdelta : (UInt64.ofNat (field raw 0 4)).toNat = field raw 0 4 := by
    rw [UInt64.toNat_ofNat']
    exact Nat.mod_eq_of_lt (by omega)
  have hsum : (baseTsMs + UInt64.ofNat (field raw 0 4)).toNat = baseTsMs.toNat + field raw 0 4 := by
    rw [UInt64.toNat_add, hdelta]
    exact Nat.mod_eq_of_lt (by omega)
  have hle : baseTsMs.toNat ≤ (baseTsMs + UInt64.ofNat (field raw 0 4)).toNat := by omega
  refine ⟨hle, ?_⟩
  rw [UInt64.toNat_sub_of_le _ _ hle, hsum]
  omega

theorem recordEncodeAs_sampleOf {version : Nat} {baseTsMs : UInt64} {raw : Bytes} (hlen : raw.length = recSizeFor version)
    (hs : Stamped version raw) (hc : Canonical version baseTsMs raw) :
    recordEncodeAs version baseTsMs (sampleOf version baseTsMs raw) = some raw := by
  unfold recordEncodeAs
  unfold recSizeFor at hlen
  by_cases hv : version = STREAM_VERSION_V2
  · rw [if_pos hv] at hlen ⊢
    obtain ⟨hle, hdelta⟩ := delta_sampleOf hv hc
    have hfield : field raw 0 4 ≤ 2 ^ 32 - 1 := by
      have hlt := leNat_lt (slice raw 0 4)
      have hlen' : raw.length = 16 := hlen
      have hslice : (slice raw 0 4).length = 4 := by
        rw [slice_length]
        omega
      rw [hslice] at hlt
      exact Nat.le_sub_one_of_lt hlt
    have hbefore : ¬ (sampleOf version baseTsMs raw).tsMs < baseTsMs := Nat.not_lt.mpr hle
    have hcrc : field raw 12 4 = (crc32 (raw.take 12)).toNat := by
      unfold Stamped at hs
      rw [if_pos hv] at hs
      exact hs
    rw [if_neg hbefore]
    dsimp only
    rw [hdelta, if_neg (by omega), recordV2Fields_sampleOf hv hlen, sealed_take hlen hcrc]
  · rw [if_neg hv] at hlen ⊢
    have hcrc : field raw 24 4 = (crc32 (raw.take 24)).toNat := by
      unfold Stamped at hs
      rw [if_neg hv] at hs
      exact hs.2.2
    rw [recordEncode, recordFields_sampleOf hv hlen hs hc, sealed_take hlen hcrc]

/-- The laws of the codec, for either format, every base, every sample and every record's worth of bytes. -/
theorem record_codec_laws (version : Nat) (baseTsMs : UInt64) (sample : Sample) (out : Bytes) {raw : Bytes}
    (hraw : raw.length = recSizeFor version) (e : Sys) :
    ((recordEncodeInto version baseTsMs sample out).1 = true ↔ Expressible version baseTsMs sample.tsMs) ∧
      ((recordEncodeInto version baseTsMs sample out).1 = true →
        ∃ wrote, wrote.length = recSizeFor version ∧
          (recordEncodeInto version baseTsMs sample out).2 = wrote ++ out.drop (recSizeFor version) ∧
          (recordDecodeAs version baseTsMs wrote).run e = .ok sample e) ∧
      ((recordEncodeInto version baseTsMs sample out).1 = false →
        (recordEncodeInto version baseTsMs sample out).2 = out) ∧
      ((∃ decoded e', (recordDecodeAs version baseTsMs raw).run e = .ok decoded e') ↔ Stamped version raw) ∧
      ∀ decoded e', (recordDecodeAs version baseTsMs raw).run e = .ok decoded e' → Canonical version baseTsMs raw →
        recordEncodeInto version baseTsMs decoded out = (true, raw ++ out.drop (recSizeFor version)) := by
  have hdecode : (∃ decoded e', (recordDecodeAs version baseTsMs raw).run e = .ok decoded e') ↔ Stamped version raw := by
    constructor
    · rintro ⟨decoded, e', h⟩
      exact (run_recordDecodeAs_iff.mp h).1
    · exact fun h => ⟨_, _, run_recordDecodeAs_iff.mpr ⟨h, rfl, rfl⟩⟩
  have himage : ∀ decoded e', (recordDecodeAs version baseTsMs raw).run e = .ok decoded e' →
      Canonical version baseTsMs raw →
      recordEncodeInto version baseTsMs decoded out = (true, raw ++ out.drop (recSizeFor version)) := by
    intro decoded e' h hc
    obtain ⟨hs, hdecoded, -⟩ := run_recordDecodeAs_iff.mp h
    rw [hdecoded]
    exact recordEncodeInto_some (recordEncodeAs_sampleOf hraw hs hc) out
  have hsome := @recordEncodeAs_isSome_iff version baseTsMs sample
  cases henc : recordEncodeAs version baseTsMs sample with
  | some wrote =>
    rw [henc] at hsome
    rw [recordEncodeInto_some henc]
    refine ⟨⟨fun _ => hsome.mp rfl, fun _ => rfl⟩, fun _ => ?_, fun h => (by cases h), hdecode, himage⟩
    exact ⟨wrote, recordEncodeAs_length henc, rfl, run_recordDecodeAs_encode henc e⟩
  | none =>
    rw [henc] at hsome
    rw [recordEncodeInto_none henc]
    exact ⟨⟨fun h => (by cases h), hsome.mpr⟩, fun h => (by cases h), fun _ => rfl, hdecode, himage⟩

/-- A compact record of two milliseconds past its base, read and written again into a larger buffer. -/
theorem record_codec_laws_compact :
    recordEncodeInto STREAM_VERSION_V2 5 ⟨7, -1⟩ (List.replicate 20 0) =
      (true, sealed (recordV2Fields 2 ⟨7, -1⟩) ++ List.replicate 4 0) := by
  have henc : recordEncodeAs STREAM_VERSION_V2 5 ⟨7, -1⟩ = some (sealed (recordV2Fields 2 ⟨7, -1⟩)) := rfl
  obtain ⟨-, -, -, -, himage⟩ := record_codec_laws STREAM_VERSION_V2 5 ⟨7, -1⟩ (List.replicate 20 0)
    (recordEncodeAs_length henc) ⟨∅, fun _ => .none, 0, true, [], ⟨TsStats.zero, .OK⟩⟩
  exact himage _ _ (run_recordDecodeAs_encode henc _) (by unfold Canonical; decide)

end ZephyrDB.Ts
