import ZephyrDB.Core

/-!
The two record layouts of a time-series stream and the two segment headers.

A version 1 record is self-contained. A version 2 record stores its timestamp
as an offset from the base that its segment's header carries, and has a
checksum of its own but no magic.
-/

set_option autoImplicit false

namespace ZephyrDB.Ts

open Lib

/-- `zdb_ts_sample_i64_t`. -/
structure Sample where
  tsMs : UInt64
  value : Int64
  deriving DecidableEq

def REC_MAGIC : Nat := 0x5A445442
def REC_VERSION : Nat := 1
def STREAM_MAGIC : Nat := 0x5A445453
def STREAM_VERSION : Nat := 1
def STREAM_VERSION_V2 : Nat := 2

/-- `sizeof(struct zdb_ts_record_i64)`. -/
def recSizeV1 : Nat := 28
/-- `sizeof(struct zdb_ts_record_v2)`. -/
def recSizeV2 : Nat := 16
/-- `sizeof(struct zdb_ts_stream_header)`. -/
def hdrSizeV1 : Nat := 16
/-- `sizeof(struct zdb_ts_stream_header_v2)`, which is `ZDB_TS_HDR_MAX_SIZE`. -/
def hdrSizeV2 : Nat := 24

/-- `zdb_ts_rec_size_for`. -/
def recSizeFor (version : Nat) : Nat := if version = STREAM_VERSION_V2 then recSizeV2 else recSizeV1

/-- `zdb_ts_hdr_size_for`. -/
def hdrSizeFor (version : Nat) : Nat := if version = STREAM_VERSION_V2 then hdrSizeV2 else hdrSizeV1

theorem recSizeFor_pos (version : Nat) : 0 < recSizeFor version := by
  unfold recSizeFor recSizeV1 recSizeV2
  split <;> omega

/-- `zdb_fnv1a32`. -/
def fnv1a32 (s : Bytes) : UInt32 :=
  s.foldl (fun hash c => (hash ^^^ c.toUInt32) * 0x01000193) 0x811C9DC5

/-- The fields of a packed struct followed by the checksum over them. -/
def sealed (fields : Bytes) : Bytes := fields ++ leBytes 4 (crc32 fields).toNat

/-- The little-endian field of `len` bytes at `off`. -/
def field (raw : Bytes) (off len : Nat) : Nat := leNat (slice raw off len)

/-- Whether the four bytes at `off` are the checksum of everything before them. -/
def crcOk (raw : Bytes) (off : Nat) : Bool := field raw off 4 == (crc32 (raw.take off)).toNat

def recordFields (sample : Sample) : Bytes :=
  leBytes 4 REC_MAGIC ++ (leBytes 2 REC_VERSION ++ (leBytes 2 0 ++
    (leBytes 8 sample.tsMs.toNat ++ leBytes 8 sample.value.toUInt64.toNat)))

/-- `zdb_ts_record_encode`. -/
def recordEncode (sample : Sample) : Bytes := sealed (recordFields sample)

def recordV2Fields (delta : Nat) (sample : Sample) : Bytes :=
  leBytes 4 delta ++ leBytes 8 sample.value.toUInt64.toNat

/-- `zdb_ts_record_encode_as`: a compact record has no form for a sample before its base, or more
than a 32-bit span past it. -/
def recordEncodeAs (version : Nat) (baseTsMs : UInt64) (sample : Sample) : Option Bytes :=
  if version = STREAM_VERSION_V2 then
    if sample.tsMs < baseTsMs then none
    else
      let delta := sample.tsMs - baseTsMs
      if delta.toNat > 2 ^ 32 - 1 then none else some (sealed (recordV2Fields delta.toNat sample))
  else some (recordEncode sample)

/-- `zdb_ts_record_decode`. -/
def recordDecode (raw : Bytes) : Zdb Sample := do
  if field raw 0 4 ≠ REC_MAGIC then
    statCorruptRecord
    healthCheck
    throw .ERR_CORRUPT
  if field raw 4 2 ≠ REC_VERSION then
    statUnsupportedVersion
    throw .ERR_UNSUPPORTED
  if !crcOk raw 24 then
    statCrcFailure
    statCorruptRecord
    healthCheck
    throw .ERR_CORRUPT
  return ⟨UInt64.ofNat (field raw 8 8), (UInt64.ofNat (field raw 16 8)).toInt64⟩

/-- `zdb_ts_record_decode_as`. -/
def recordDecodeAs (version : Nat) (baseTsMs : UInt64) (raw : Bytes) : Zdb Sample := do
  if version = STREAM_VERSION_V2 then
    if !crcOk raw 12 then
      statCrcFailure
      statCorruptRecord
      healthCheck
      throw .ERR_CORRUPT
    return ⟨baseTsMs + UInt64.ofNat (field raw 0 4), (UInt64.ofNat (field raw 4 8)).toInt64⟩
  else recordDecode raw

/-- `zdb_ts_stream_header_encode`. -/
def streamHeaderEncode (streamName : Bytes) : Bytes :=
  sealed (leBytes 4 STREAM_MAGIC ++ (leBytes 2 STREAM_VERSION ++ (leBytes 2 0 ++
    leBytes 4 (fnv1a32 streamName).toNat)))

/-- The header `zdb_ts_ensure_header_ex` writes in a delta build. -/
def streamHeaderV2Encode (streamName : Bytes) (baseTsMs : UInt64) : Bytes :=
  sealed (leBytes 4 STREAM_MAGIC ++ (leBytes 2 STREAM_VERSION_V2 ++ (leBytes 2 0 ++
    (leBytes 4 (fnv1a32 streamName).toNat ++ leBytes 8 baseTsMs.toNat))))

/-- `zdb_ts_stream_header_decode`. -/
def streamHeaderDecode (raw streamName : Bytes) : Zdb Unit := do
  if field raw 0 4 ≠ STREAM_MAGIC then
    statCorruptRecord
    throw .ERR_CORRUPT
  if field raw 4 2 ≠ STREAM_VERSION then
    statUnsupportedVersion
    throw .ERR_UNSUPPORTED
  if !crcOk raw 12 then
    statCrcFailure
    statCorruptRecord
    throw .ERR_CORRUPT
  if field raw 8 4 ≠ (fnv1a32 streamName).toNat then
    statCorruptRecord
    throw .ERR_CORRUPT

/-- The check of a version 2 header in `zdb_ts_ensure_header_ex`; reports its base. -/
def streamHeaderV2Decode (raw streamName : Bytes) : Zdb UInt64 := do
  if field raw 0 4 ≠ STREAM_MAGIC then
    statCorruptRecord
    throw .ERR_CORRUPT
  if !crcOk raw 20 then
    statCrcFailure
    statCorruptRecord
    throw .ERR_CORRUPT
  if field raw 8 4 ≠ (fnv1a32 streamName).toNat then
    statCorruptRecord
    throw .ERR_CORRUPT
  return UInt64.ofNat (field raw 12 8)

theorem field_here {k n : Nat} (rest : Bytes) (h : n < 256 ^ k) : field (leBytes k n ++ rest) 0 k = n := by
  have hs : slice (leBytes k n ++ rest) 0 k = leBytes k n := by
    simpa using slice_zero_append (leBytes k n) rest
  rw [field, hs, leNat_leBytes_of_lt h]

theorem leBytes_field {raw : Bytes} {off len : Nat} (h : off + len ≤ raw.length) :
    leBytes len (field raw off len) = slice raw off len := by
  have hlen : (slice raw off len).length = len := by
    rw [slice_length]
    omega
  have hback := leBytes_leNat (slice raw off len)
  rw [hlen] at hback
  exact hback

theorem slice_split (raw : Bytes) (off m n : Nat) : slice raw off m ++ slice raw (off + m) n = slice raw off (m + n) := by
  unfold slice
  rw [← List.drop_drop, ← List.take_add]

theorem field_skip {xs ys : Bytes} {off len : Nat} (h : xs.length ≤ off) :
    field (xs ++ ys) off len = field ys (off - xs.length) len := by
  rw [field, field, slice_append_right xs ys off len h]

theorem field_front {xs ys : Bytes} {off len : Nat} (h : off + len ≤ xs.length) :
    field (xs ++ ys) off len = field xs off len := by
  rw [field, field, slice_append_left xs ys off len h]

@[simp] theorem sealed_length (fields : Bytes) : (sealed fields).length = fields.length + 4 := by
  simp [sealed]

theorem field_sealed {fields : Bytes} {off len : Nat} (h : off + len ≤ fields.length) :
    field (sealed fields) off len = field fields off len :=
  field_front h

theorem crcOk_front {xs ys : Bytes} {n : Nat} (h : n + 4 ≤ xs.length) :
    crcOk (xs ++ ys) n = crcOk xs n := by
  rw [crcOk, crcOk, field_front h, List.take_append_of_le_length (by omega)]

theorem crcOk_sealed {fields : Bytes} {n : Nat} (h : fields.length = n) :
    crcOk (sealed fields) n = true := by
  subst h
  have hf : field (sealed fields) fields.length 4 = (crc32 fields).toNat := by
    rw [sealed, field_skip (Nat.le_refl _), Nat.sub_self]
    simpa using field_here [] (crc32 fields).toNat_lt
  have ht : (sealed fields).take fields.length = fields := by simp [sealed]
  simp [crcOk, hf, ht]

theorem recordFields_length (sample : Sample) : (recordFields sample).length = 24 := by
  simp [recordFields]

theorem recordV2Fields_length (delta : Nat) (sample : Sample) :
    (recordV2Fields delta sample).length = 12 := by
  simp [recordV2Fields]

theorem recordEncode_length (sample : Sample) : (recordEncode sample).length = recSizeV1 := by
  simp [recordEncode, recordFields_length, recSizeV1]

theorem recordEncodeAs_length {version : Nat} {baseTsMs : UInt64} {sample : Sample} {raw : Bytes}
    (h : recordEncodeAs version baseTsMs sample = some raw) : raw.length = recSizeFor version := by
  unfold recordEncodeAs at h
  unfold recSizeFor
  split at h
  · rename_i hv
    simp only [hv, if_true]
    split at h
    · cases h
    · simp only at h
      split at h
      · cases h
      · cases h
        simp [recordV2Fields_length, recSizeV2]
  · rename_i hv
    cases h
    simp [hv, recordEncode_length]

theorem run_recordDecode_encode (sample : Sample) (e : Sys) :
    (recordDecode (recordEncode sample)).run e = .ok sample e := by
  have hlen := recordFields_length sample
  have hmagic : field (recordEncode sample) 0 4 = REC_MAGIC := by
    rw [recordEncode, field_sealed (by omega)]
    exact field_here _ (by decide)
  have hversion : field (recordEncode sample) 4 2 = REC_VERSION := by
    rw [recordEncode, field_sealed (by omega), recordFields, field_skip (by simp)]
    exact field_here _ (by decide)
  have hts : field (recordEncode sample) 8 8 = sample.tsMs.toNat := by
    rw [recordEncode, field_sealed (by omega), recordFields, field_skip (by simp),
      field_skip (by simp), field_skip (by simp)]
    simpa using field_here _ sample.tsMs.toNat_lt
  have hvalue : field (recordEncode sample) 16 8 = sample.value.toUInt64.toNat := by
    rw [recordEncode, field_sealed (by omega), recordFields, field_skip (by simp),
      field_skip (by simp), field_skip (by simp), field_skip (by simp)]
    simpa using field_here [] sample.value.toUInt64.toNat_lt
  have hcrc : crcOk (recordEncode sample) 24 = true := crcOk_sealed hlen
  have hback : (UInt64.ofNat sample.value.toUInt64.toNat).toInt64 = sample.value := by simp
  simp only [recordDecode, hmagic, hversion, hcrc, hts, hvalue, hback]
  simp

theorem run_recordDecodeAs_encode {version : Nat} {baseTsMs : UInt64} {sample : Sample} {raw : Bytes}
    (h : recordEncodeAs version baseTsMs sample = some raw) (e : Sys) :
    (recordDecodeAs version baseTsMs raw).run e = .ok sample e := by
  unfold recordEncodeAs at h
  unfold recordDecodeAs
  by_cases hv : version = STREAM_VERSION_V2
  · rw [if_pos hv] at h ⊢
    split at h
    · cases h
    · simp only at h
      split at h
      · cases h
      · rename_i hle hspan
        generalize hd : (sample.tsMs - baseTsMs).toNat = delta at h hspan
        cases h
        have hlen := recordV2Fields_length delta sample
        have hdelta : field (sealed (recordV2Fields delta sample)) 0 4 = delta := by
          rw [field_sealed (by omega)]
          exact field_here _ (by omega)
        have hvalue : field (sealed (recordV2Fields delta sample)) 4 8 =
            sample.value.toUInt64.toNat := by
          rw [field_sealed (by omega), recordV2Fields, field_skip (by simp)]
          simpa using field_here [] sample.value.toUInt64.toNat_lt
        have hback : (UInt64.ofNat sample.value.toUInt64.toNat).toInt64 = sample.value := by simp
        have hts : baseTsMs + UInt64.ofNat delta = sample.tsMs := by
          rw [← hd, UInt64.ofNat_toNat, UInt64.add_comm, UInt64.sub_add_cancel]
        simp only [hdelta, hvalue, crcOk_sealed hlen, hback, hts]
        simp
  · rw [if_neg hv] at h ⊢
    cases h
    exact run_recordDecode_encode sample e

theorem run_recordDecodeAs_any {version : Nat} {baseTsMs : UInt64} {sample : Sample} {raw : Bytes}
    (h : recordEncodeAs version baseTsMs sample = some raw) (base : UInt64) (e : Sys) :
    ∃ decoded, (recordDecodeAs version base raw).run e = .ok decoded e := by
  have hsame := run_recordDecodeAs_encode h e
  unfold recordDecodeAs at hsame ⊢
  by_cases hv : version = STREAM_VERSION_V2
  · rw [if_pos hv] at hsame ⊢
    by_cases hcrc : crcOk raw 12 = true
    · rw [hcrc]
      exact ⟨_, rfl⟩
    · simp only [Bool.not_eq_true] at hcrc
      rw [hcrc] at hsame
      cases hsame
  · rw [if_neg hv] at hsame ⊢
    exact ⟨sample, hsame⟩

theorem streamHeaderEncode_length (streamName : Bytes) :
    (streamHeaderEncode streamName).length = hdrSizeV1 := by
  simp [streamHeaderEncode, hdrSizeV1]

theorem streamHeaderV2Encode_length (streamName : Bytes) (baseTsMs : UInt64) :
    (streamHeaderV2Encode streamName baseTsMs).length = hdrSizeV2 := by
  simp [streamHeaderV2Encode, hdrSizeV2]

theorem run_streamHeaderDecode_encode (streamName rest : Bytes) (e : Sys) :
    (streamHeaderDecode (streamHeaderEncode streamName ++ rest) streamName).run e = .ok () e := by
  have hlen := streamHeaderEncode_length streamName
  unfold hdrSizeV1 at hlen
  have hmagic : field (streamHeaderEncode streamName ++ rest) 0 4 = STREAM_MAGIC := by
    rw [field_front (by omega), streamHeaderEncode, field_sealed (by simp)]
    exact field_here _ (by decide)
  have hversion : field (streamHeaderEncode streamName ++ rest) 4 2 = STREAM_VERSION := by
    rw [field_front (by omega), streamHeaderEncode, field_sealed (by simp), field_skip (by simp)]
    exact field_here _ (by decide)
  have hid : field (streamHeaderEncode streamName ++ rest) 8 4 = (fnv1a32 streamName).toNat := by
    rw [field_front (by omega), streamHeaderEncode, field_sealed (by simp), field_skip (by simp),
      field_skip (by simp), field_skip (by simp)]
    simpa using field_here [] (fnv1a32 streamName).toNat_lt
  have hcrc : crcOk (streamHeaderEncode streamName ++ rest) 12 = true := by
    rw [crcOk_front (by omega)]
    exact crcOk_sealed (by simp)
  simp [streamHeaderDecode, hmagic, hversion, hid, hcrc]

theorem streamHeader_version (streamName rest : Bytes) :
    field (streamHeaderEncode streamName ++ rest) 4 2 = STREAM_VERSION := by
  rw [field_front (by simp [streamHeaderEncode]), streamHeaderEncode, field_sealed (by simp),
    field_skip (by simp)]
  exact field_here _ (by decide)

theorem streamHeaderV2_version (streamName rest : Bytes) (baseTsMs : UInt64) :
    field (streamHeaderV2Encode streamName baseTsMs ++ rest) 4 2 = STREAM_VERSION_V2 := by
  rw [field_front (by simp [streamHeaderV2Encode]), streamHeaderV2Encode, field_sealed (by simp),
    field_skip (by simp)]
  exact field_here _ (by decide)

theorem streamHeaderV2_base (streamName rest : Bytes) (baseTsMs : UInt64) :
    UInt64.ofNat (field (streamHeaderV2Encode streamName baseTsMs ++ rest) 12 8) = baseTsMs := by
  have h : field (streamHeaderV2Encode streamName baseTsMs ++ rest) 12 8 = baseTsMs.toNat := by
    rw [field_front (by simp [streamHeaderV2Encode]), streamHeaderV2Encode, field_sealed (by simp),
      field_skip (by simp), field_skip (by simp), field_skip (by simp), field_skip (by simp)]
    simpa using field_here [] baseTsMs.toNat_lt
  rw [h, UInt64.ofNat_toNat]

theorem run_streamHeaderV2Decode_encode (streamName rest : Bytes) (baseTsMs : UInt64) (e : Sys) :
    (streamHeaderV2Decode (streamHeaderV2Encode streamName baseTsMs ++ rest) streamName).run e =
      .ok baseTsMs e := by
  have hlen := streamHeaderV2Encode_length streamName baseTsMs
  unfold hdrSizeV2 at hlen
  have hmagic : field (streamHeaderV2Encode streamName baseTsMs ++ rest) 0 4 = STREAM_MAGIC := by
    rw [field_front (by omega), streamHeaderV2Encode, field_sealed (by simp)]
    exact field_here _ (by decide)
  have hid : field (streamHeaderV2Encode streamName baseTsMs ++ rest) 8 4 =
      (fnv1a32 streamName).toNat := by
    rw [field_front (by omega), streamHeaderV2Encode, field_sealed (by simp), field_skip (by simp),
      field_skip (by simp), field_skip (by simp)]
    simpa using field_here _ (fnv1a32 streamName).toNat_lt
  have hcrc : crcOk (streamHeaderV2Encode streamName baseTsMs ++ rest) 20 = true := by
    rw [crcOk_front (by omega)]
    exact crcOk_sealed (by simp)
  simp [streamHeaderV2Decode, hmagic, hid, hcrc, streamHeaderV2_base]

end ZephyrDB.Ts
