import ZephyrDB.Ts.Record

/-!
The packed telemetry record of the time-series counters. Its checksum sits in
the middle, and covers every byte around it.
-/

set_option autoImplicit false

namespace ZephyrDB.Ts

open Lib

/-- `zdb_ts_stats_export_t`: behind the checksum stand the counters of `zdb_ts_stats_t`, in their order. -/
structure TsStatsExport where
  version : UInt16
  reserved : UInt16
  crc : UInt32
  stats : TsStats
  deriving DecidableEq

/-- `offsetof(zdb_ts_stats_export_t, crc)`. -/
def crcOff : Nat := 4
def tailOff : Nat := crcOff + 4
/-- `sizeof(zdb_ts_stats_export_t)`. -/
def statsExportSize : Nat := 36

def statsBytes (s : TsStats) : Bytes :=
  leBytes 4 s.recoverRuns.toNat ++ (leBytes 4 s.recoverFailures.toNat ++ (leBytes 8 s.recoverTruncatedBytes.toNat ++
    (leBytes 4 s.crcFailures.toNat ++ (leBytes 4 s.corruptRecords.toNat ++ leBytes 4 s.unsupportedVersions.toNat))))

namespace TsStatsExport

def head (x : TsStatsExport) : Bytes := leBytes 2 x.version.toNat ++ leBytes 2 x.reserved.toNat

/-- The record as it lies in memory. -/
def bytes (x : TsStatsExport) : Bytes := x.head ++ (leBytes 4 x.crc.toNat ++ statsBytes x.stats)

/-- The record that these bytes are. -/
def ofBytes (raw : Bytes) : TsStatsExport where
  version := UInt16.ofNat (field raw 0 2)
  reserved := UInt16.ofNat (field raw 2 2)
  crc := UInt32.ofNat (field raw 4 4)
  stats :=
    { recoverRuns := UInt32.ofNat (field raw 8 4)
      recoverFailures := UInt32.ofNat (field raw 12 4)
      recoverTruncatedBytes := UInt64.ofNat (field raw 16 8)
      crcFailures := UInt32.ofNat (field raw 24 4)
      corruptRecords := UInt32.ofNat (field raw 28 4)
      unsupportedVersions := UInt32.ofNat (field raw 32 4) }

end TsStatsExport

/-- `zdb_ts_stats_export_crc`. -/
def tsStatsExportCrc (x : TsStatsExport) : UInt32 :=
  crc32Update (crc32Update 0 (x.bytes.take crcOff)) (x.bytes.drop tailOff)

/-- `zdb_ts_stats_export`, into a record whose checksum was `stale` before. -/
def tsStatsExport (stats : TsStats) (stale : UInt32) : TsStatsExport :=
  let x : TsStatsExport := { version := 1, reserved := 0, crc := stale, stats := stats }
  { x with crc := tsStatsExportCrc x }

/-- `zdb_ts_stats_export_validate`. -/
def tsStatsExportValidate (x : TsStatsExport) : Status :=
  if x.crc ≠ tsStatsExportCrc x then .ERR_CORRUPT
  else if x.version ≠ 1 then .ERR_UNSUPPORTED
  else .OK

theorem statsBytes_length (s : TsStats) : (statsBytes s).length = 28 := by
  simp [statsBytes]

namespace TsStatsExport
variable (x : TsStatsExport)

theorem head_length : x.head.length = crcOff := by
  simp [head, crcOff]

theorem bytes_length : x.bytes.length = statsExportSize := by
  rw [bytes, List.length_append, List.length_append, head_length, leBytes_length, statsBytes_length]
  rfl

theorem bytes_head : x.bytes.take crcOff = x.head := List.take_left' x.head_length

theorem bytes_tail : x.bytes.drop tailOff = statsBytes x.stats := by
  have hlen : (x.head ++ leBytes 4 x.crc.toNat).length = tailOff := by
    rw [List.length_append, head_length, leBytes_length]
    rfl
  rw [bytes, ← List.append_assoc]
  exact List.drop_left' hlen

theorem field_u16 (n : UInt16) (rest : Bytes) : UInt16.ofNat (field (leBytes 2 n.toNat ++ rest) 0 2) = n := by
  rw [field_here rest n.toNat_lt]
  exact UInt16.ofNat_toNat

theorem field_u32 (n : UInt32) (rest : Bytes) : UInt32.ofNat (field (leBytes 4 n.toNat ++ rest) 0 4) = n := by
  rw [field_here rest n.toNat_lt]
  exact UInt32.ofNat_toNat

theorem field_u64 (n : UInt64) (rest : Bytes) : UInt64.ofNat (field (leBytes 8 n.toNat ++ rest) 0 8) = n := by
  rw [field_here rest n.toNat_lt]
  exact UInt64.ofNat_toNat

theorem ofBytes_bytes : ofBytes x.bytes = x := by
  obtain ⟨version, reserved, crc, ⟨runs, failures, truncated, crcs, corrupt, unsupported⟩⟩ := x
  have hlast : UInt32.ofNat (field (leBytes 4 unsupported.toNat) 0 4) = unsupported := by
    simpa using field_u32 unsupported []
  simp only [ofBytes, bytes, head, statsBytes, List.append_assoc]
  simp [field_skip, field_u16, field_u32, field_u64, hlast]

theorem bytes_ofBytes {raw : Bytes} (h : raw.length = statsExportSize) : (ofBytes raw).bytes = raw := by
  have h36 : raw.length = 36 := h
  have hfield : ∀ off k, field raw off k < 256 ^ k := by
    intro off k
    apply Nat.lt_of_lt_of_le (leNat_lt _)
    apply Nat.pow_le_pow_right (by decide)
    rw [slice_length]
    exact Nat.min_le_left _ _
  have h16 : ∀ off, (UInt16.ofNat (field raw off 2)).toNat = field raw off 2 := fun off =>
    UInt16.toNat_ofNat_of_lt' (hfield off 2)
  have h32 : ∀ off, (UInt32.ofNat (field raw off 4)).toNat = field raw off 4 := fun off =>
    UInt32.toNat_ofNat_of_lt' (hfield off 4)
  have h64 : ∀ off, (UInt64.ofNat (field raw off 8)).toNat = field raw off 8 := fun off =>
    UInt64.toNat_ofNat_of_lt' (hfield off 8)
  have hplace : ∀ off k, off + k ≤ 36 → leBytes k (field raw off k) = slice raw off k := fun off k hk =>
    leBytes_field (h36 ▸ hk)
  have hjoin : slice raw 0 36 = raw := by
    rw [← h36]
    exact slice_all raw
  simp only [ofBytes, bytes, head, statsBytes, h16, h32, h64, hplace, Nat.reduceAdd, Nat.reduceLeDiff]
  calc _ = slice raw 0 2 ++ slice raw 2 2 ++ (slice raw 4 4 ++ (slice raw 8 4 ++ (slice raw 12 4 ++ (slice raw 16 8 ++
        (slice raw 24 4 ++ slice raw 28 8))))) := by rw [slice_split raw 28 4 4]
    _ = slice raw 0 4 ++ slice raw 4 32 := by
      rw [slice_split raw 24 4 8, slice_split raw 16 8 12, slice_split raw 12 4 20, slice_split raw 8 4 24, slice_split raw 4 4 28,
        slice_split raw 0 2 2]
    _ = raw := by rw [slice_split raw 0 4 32, hjoin]

end TsStatsExport

theorem tsStatsExportCrc_eq (x : TsStatsExport) :
    tsStatsExportCrc x = crc32Update (crc32Update 0 x.head) (statsBytes x.stats) := by
  rw [tsStatsExportCrc, x.bytes_head, x.bytes_tail]

theorem tsStatsExport_eq (stats : TsStats) (stale : UInt32) : tsStatsExport stats stale =
    { version := 1, reserved := 0, stats := stats, crc := tsStatsExportCrc (tsStatsExport stats stale) } := by
  have hcrc : tsStatsExportCrc (tsStatsExport stats stale) = (tsStatsExport stats stale).crc :=
    (tsStatsExportCrc_eq _).trans (tsStatsExportCrc_eq ⟨1, 0, stale, stats⟩).symm
  rw [hcrc]
  rfl

theorem validate_export (stats : TsStats) (stale : UInt32) : tsStatsExportValidate (tsStatsExport stats stale) = .OK := by
  have hcrc : (tsStatsExport stats stale).crc = tsStatsExportCrc (tsStatsExport stats stale) :=
    congrArg TsStatsExport.crc (tsStatsExport_eq stats stale)
  unfold tsStatsExportValidate
  rw [if_neg (not_not.mpr hcrc)]
  rfl

theorem validate_ok {x : TsStatsExport} (h : tsStatsExportValidate x = .OK) :
    x.crc = tsStatsExportCrc x ∧ x.version = 1 := by
  unfold tsStatsExportValidate at h
  split at h
  · cases h
  · split at h
    · cases h
    · exact ⟨not_not.mp ‹_›, not_not.mp ‹_›⟩

/-- What is accepted with the reserved field at zero is exactly what an export writes, whatever its checksum was
before; the counters read back. -/
theorem accepted_iff_exported {raw : Bytes} (hlen : raw.length = statsExportSize) (stats : TsStats) :
    (tsStatsExportValidate (TsStatsExport.ofBytes raw) = .OK ∧ (TsStatsExport.ofBytes raw).reserved = 0 ∧
        (TsStatsExport.ofBytes raw).stats = stats) ↔
      ∀ stale, raw = (tsStatsExport stats stale).bytes := by
  constructor
  · rintro ⟨hok, hreserved, hstats⟩ stale
    obtain ⟨hcrc, hversion⟩ := validate_ok hok
    have hsame : TsStatsExport.ofBytes raw = tsStatsExport stats stale := by
      generalize TsStatsExport.ofBytes raw = x at hreserved hstats hcrc hversion ⊢
      obtain ⟨version, reserved, crc, counters⟩ := x
      cases hversion
      cases hreserved
      cases hstats
      have hcrc : crc = tsStatsExportCrc (tsStatsExport counters stale) :=
        hcrc.trans ((tsStatsExportCrc_eq _).trans (tsStatsExportCrc_eq (tsStatsExport counters stale)).symm)
      rw [tsStatsExport_eq, hcrc]
      rfl
    rw [← hsame, TsStatsExport.bytes_ofBytes hlen]
  · intro h
    rw [h 0, TsStatsExport.ofBytes_bytes]
    exact ⟨validate_export stats 0, rfl, rfl⟩

/-- No two counters alike, and all but one above a byte. -/
def sampleStats : TsStats where
  recoverRuns := 0x01020304
  recoverFailures := 5
  recoverTruncatedBytes := 0x060708090A0B0C0D
  crcFailures := 0xFFFFFFFF
  corruptRecords := 0x100
  unsupportedVersions := 0x80000000

theorem sample_accepted : (tsStatsExportValidate (TsStatsExport.ofBytes (tsStatsExport sampleStats 7).bytes) = .OK ∧
      (TsStatsExport.ofBytes (tsStatsExport sampleStats 7).bytes).reserved = 0 ∧
      (TsStatsExport.ofBytes (tsStatsExport sampleStats 7).bytes).stats = sampleStats) ↔
    ∀ stale, (tsStatsExport sampleStats 7).bytes = (tsStatsExport sampleStats stale).bytes :=
  accepted_iff_exported (TsStatsExport.bytes_length _) sampleStats

section Flip
variable {raw : Bytes}

theorem tsStatsExportCrc_ofBytes (h : raw.length = statsExportSize) : tsStatsExportCrc (TsStatsExport.ofBytes raw) =
    crc32Update (crc32Update 0 (slice raw 0 4)) (slice raw 8 28) := by
  have hlen : raw.length = 36 := h
  rw [tsStatsExportCrc, TsStatsExport.bytes_ofBytes h]
  have htail : raw.drop tailOff = slice raw 8 28 := by
    have hrest : (raw.drop tailOff).length = 28 := by
      rw [List.length_drop, hlen]
      rfl
    exact (List.take_of_length_le (Nat.le_of_eq hrest)).symm
  rw [htail]
  rfl

theorem not_corrupt {x : TsStatsExport} : tsStatsExportValidate x ≠ .ERR_CORRUPT ↔ x.crc = tsStatsExportCrc x := by
  unfold tsStatsExportValidate
  split
  · rename_i hne
    exact ⟨fun h => absurd rfl h, fun h => absurd h hne⟩
  · rename_i heq
    refine ⟨fun _ => not_not.mp heq, fun _ => ?_⟩
    split <;> exact fun h => by cases h

/-- A record that is not corrupt is so with any one of its bits flipped, those of the checksum among them. -/
theorem flipped_export_corrupt (hlen : raw.length = statsExportSize)
    (hok : tsStatsExportValidate (TsStatsExport.ofBytes raw) ≠ .ERR_CORRUPT) {i : Nat} (hi : i < statsExportSize)
    (bit : Fin 8) : tsStatsExportValidate (TsStatsExport.ofBytes (flipBit raw i bit)) = .ERR_CORRUPT := by
  have hlen' : (flipBit raw i bit).length = statsExportSize := (flipBit_length raw i bit).trans hlen
  have h36 : raw.length = 36 := hlen
  have hi36 : i < 36 := hi
  have hsize : ∀ off k, off + k ≤ 36 → (slice raw off k).length = k := by
    intro off k hk
    rw [slice_length]
    omega
  by_contra hflip
  have hcrc := not_corrupt.mp hok
  have hcrc' := not_corrupt.mp hflip
  rw [tsStatsExportCrc_ofBytes hlen] at hcrc
  rw [tsStatsExportCrc_ofBytes hlen'] at hcrc'
  have hstored : ∀ raw : Bytes, (TsStatsExport.ofBytes raw).crc = UInt32.ofNat (leNat (slice raw 4 4)) := fun _ => rfl
  rw [hstored] at hcrc hcrc'
  rcases Nat.lt_or_ge i 4 with hhead | hhead
  · have hmid : slice (flipBit raw i bit) 4 4 = slice raw 4 4 := slice_flipBit bit (.inl hhead)
    have htail : slice (flipBit raw i bit) 8 28 = slice raw 8 28 := slice_flipBit bit (.inl (by omega))
    rw [hmid, htail, hcrc, slice_flipBit_inside bit (Nat.zero_le i)] at hcrc'
    have hpart := crc32Update_injective (slice raw 8 28) hcrc'
    exact crc32Update_flipBit bit 0 (by rw [hsize 0 4 (by decide)]; omega) hpart.symm
  · have hfront : slice (flipBit raw i bit) 0 4 = slice raw 0 4 := slice_flipBit bit (.inr (by omega))
    rcases Nat.lt_or_ge i 8 with hmid | hmid
    · have htail : slice (flipBit raw i bit) 8 28 = slice raw 8 28 := slice_flipBit bit (.inl (by omega))
      rw [hfront, htail, ← hcrc, slice_flipBit_inside bit hhead] at hcrc'
      have hlt : ∀ bs : Bytes, bs.length = 4 → leNat bs < 2 ^ 32 := fun bs hbs => by
        have := leNat_lt bs
        rwa [hbs] at this
      have hnat := congrArg UInt32.toNat hcrc'
      rw [UInt32.toNat_ofNat_of_lt' (hlt _ ((flipBit_length _ _ _).trans (hsize 4 4 (by decide)))),
        UInt32.toNat_ofNat_of_lt' (hlt _ (hsize 4 4 (by decide)))] at hnat
      exact leNat_flipBit bit (by rw [hsize 4 4 (by decide)]; omega) hnat
    · have hstays : slice (flipBit raw i bit) 4 4 = slice raw 4 4 := slice_flipBit bit (.inr hmid)
      rw [hfront, hstays, hcrc, slice_flipBit_inside bit hmid] at hcrc'
      exact crc32Update_flipBit bit _ (by rw [hsize 8 28 (by decide)]; omega) hcrc'.symm

theorem sample_flipped : tsStatsExportValidate (TsStatsExport.ofBytes
    (flipBit (tsStatsExport sampleStats 0).bytes 5 3)) = .ERR_CORRUPT := by
  refine flipped_export_corrupt (TsStatsExport.bytes_length _) ?_ (by decide) 3
  rw [TsStatsExport.ofBytes_bytes, validate_export]
  decide

end Flip

end ZephyrDB.Ts
