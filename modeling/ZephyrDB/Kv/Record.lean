import ZephyrDB.Core

/-!
Keys of the key-value store, the ids they are hashed to, and the record format
that keeps the namespace and the key next to the value.
-/

set_option autoImplicit false

namespace ZephyrDB.Kv

open Lib

/-- One entry of the defaults table (`zdb_kv_default_t`); a `none` is a NULL pointer, and for the value
one with a length above zero. -/
structure Default where
  namespaceName : Option CString
  key : Option CString
  value : Option Bytes

/-- The options of the key-value store, and the defaults table of its instance. -/
structure KvCfg where
  maxKeyLen : Nat
  /-- The option's range ends at 128. -/
  maxKeyLen_le : maxKeyLen ≤ 128
  indexMax : Nat
  /-- The option's range ends at 1024. -/
  indexMax_le : indexMax ≤ 1024
  persistIndex : Bool
  zms : Bool
  blockSize : Nat
  defaults : List Default

theorem maxKeyLen_default_le : 48 ≤ 128 := by decide

theorem indexMax_default_le : 128 ≤ 1024 := by decide

/-- `zdb_key_valid`. -/
def keyValid (cfg : KvCfg) (key : CString) : Bool := !key.val.isEmpty && key.val.length ≤ cfg.maxKeyLen

def REC_TAG : UInt8 := 0xDB
def REC_HDR_SIZE : Nat := 3
def INDEX_TAG : UInt8 := 0xD1
def INDEX_VERSION : UInt8 := 1
def INDEX_HDR_SIZE : Nat := 4

/-- `ZDB_KV_INDEX_MAX_BYTES`. -/
def indexMaxBytes (cfg : KvCfg) : Nat := INDEX_HDR_SIZE + 4 * cfg.indexMax

/-- `ZDB_KV_INDEX_REC_ID`. -/
def indexRecId (cfg : KvCfg) : UInt32 := if cfg.zms then 0xFFFFFFFF else 0x0000FFFF

/-- `zdb_fnv1a32_update`. -/
def fnv1a32Update (state : UInt32) (buf : Bytes) : UInt32 :=
  buf.foldl (fun state b => (state ^^^ b.toUInt32) * 0x01000193) state

/-- `zdb_kv_record_id`. -/
def recordId (cfg : KvCfg) (ns key : CString) : UInt32 :=
  let hash := fnv1a32Update (fnv1a32Update (fnv1a32Update 0x811C9DC5 ns.val) [0]) key.val
  let hash := if cfg.zms then hash else hash &&& 0xFFFF
  if hash = 0 ∨ hash = indexRecId cfg then 1 else hash

theorem recordId_ne_index (cfg : KvCfg) (ns key : CString) : recordId cfg ns key ≠ indexRecId cfg := by
  unfold recordId
  dsimp only
  generalize (if cfg.zms then _ else _ : UInt32) = hash
  split
  · unfold indexRecId
    split <;> decide
  · rename_i h
    exact fun heq => h (.inr heq)

theorem recordId_ne_zero (cfg : KvCfg) (ns key : CString) : recordId cfg ns key ≠ 0 := by
  unfold recordId
  dsimp only
  generalize (if cfg.zms then _ else _ : UInt32) = hash
  split
  · decide
  · rename_i h
    exact fun heq => h (.inl heq)

/-- `zdb_kv_record_build`. -/
def recordBuild (ns key : CString) (value : Bytes) : Bytes :=
  REC_TAG :: UInt8.ofNat ns.val.length :: UInt8.ofNat key.val.length :: (ns.val ++ (key.val ++ value))

/-- `enum zdb_kv_rec_check`; a match knows where the value starts. -/
inductive RecCheck where
  | MATCH (valueOff : Nat)
  | MISMATCH
  | FOREIGN
  deriving DecidableEq

def nsLen (buf : Bytes) : Nat := (buf.getD 1 0).toNat
def keyLen (buf : Bytes) : Nat := (buf.getD 2 0).toNat

def headLen (buf : Bytes) : Nat := REC_HDR_SIZE + nsLen buf + keyLen buf

def isRecord (buf : Bytes) : Bool :=
  REC_HDR_SIZE ≤ buf.length && buf.getD 0 0 == REC_TAG && headLen buf ≤ buf.length

/-- `zdb_kv_record_check`. -/
def recordCheck (buf : Bytes) (ns key : CString) : RecCheck :=
  if !isRecord buf then .FOREIGN
  else if nsLen buf ≠ ns.val.length ∨ keyLen buf ≠ key.val.length ∨
      slice buf REC_HDR_SIZE (nsLen buf) ≠ ns.val ∨
      slice buf (REC_HDR_SIZE + nsLen buf) (keyLen buf) ≠ key.val then .MISMATCH
  else .MATCH (headLen buf)

theorem recordBuild_drop (ns key : CString) (value : Bytes) :
    (recordBuild ns key value).drop (REC_HDR_SIZE + ns.val.length + key.val.length) = value := by
  unfold recordBuild REC_HDR_SIZE
  rw [Nat.add_assoc, Nat.add_comm 3]
  simp only [List.drop_succ_cons, ← List.append_assoc]
  exact List.drop_left' (by simp)

section Build
variable {ns key : CString} (value : Bytes) (hns : ns.val.length < 256) (hkey : key.val.length < 256)

theorem recordBuild_length (ns key : CString) (value : Bytes) :
    (recordBuild ns key value).length = REC_HDR_SIZE + ns.val.length + key.val.length + value.length := by
  simp [recordBuild, REC_HDR_SIZE]
  omega

include hns in
theorem nsLen_recordBuild : nsLen (recordBuild ns key value) = ns.val.length := by
  simp [nsLen, recordBuild, Nat.mod_eq_of_lt hns]

include hkey in
theorem keyLen_recordBuild : keyLen (recordBuild ns key value) = key.val.length := by
  simp [keyLen, recordBuild, Nat.mod_eq_of_lt hkey]

include hns hkey

theorem headLen_recordBuild :
    headLen (recordBuild ns key value) = REC_HDR_SIZE + ns.val.length + key.val.length := by
  rw [headLen, nsLen_recordBuild value hns, keyLen_recordBuild value hkey]

theorem isRecord_recordBuild : isRecord (recordBuild ns key value) = true := by
  have htag : (recordBuild ns key value).getD 0 0 = REC_TAG := rfl
  rw [isRecord, htag, headLen_recordBuild value hns hkey, recordBuild_length]
  simp only [beq_self_eq_true, Bool.and_true, Bool.and_eq_true, decide_eq_true_eq]
  omega

omit hkey in
theorem nsSlice_recordBuild :
    slice (recordBuild ns key value) REC_HDR_SIZE (nsLen (recordBuild ns key value)) = ns.val := by
  rw [nsLen_recordBuild value hns]
  exact slice_field [REC_TAG, UInt8.ofNat ns.val.length, UInt8.ofNat key.val.length] ns.val (key.val ++ value)

theorem keySlice_recordBuild :
    slice (recordBuild ns key value) (REC_HDR_SIZE + nsLen (recordBuild ns key value))
      (keyLen (recordBuild ns key value)) = key.val := by
  rw [nsLen_recordBuild value hns, keyLen_recordBuild value hkey]
  have h := slice_field ([REC_TAG, UInt8.ofNat ns.val.length, UInt8.ofNat key.val.length] ++ ns.val) key.val value
  have hlen : ([REC_TAG, UInt8.ofNat ns.val.length, UInt8.ofNat key.val.length] ++ ns.val).length =
      REC_HDR_SIZE + ns.val.length := by
    simp [REC_HDR_SIZE]
    omega
  rw [hlen] at h
  simpa [recordBuild] using h

theorem recordCheck_recordBuild (ns' key' : CString) :
    recordCheck (recordBuild ns key value) ns' key' =
      if ns' = ns ∧ key' = key then .MATCH (REC_HDR_SIZE + ns.val.length + key.val.length) else .MISMATCH := by
  unfold recordCheck
  rw [isRecord_recordBuild value hns hkey, nsSlice_recordBuild value hns,
    keySlice_recordBuild value hns hkey, headLen_recordBuild value hns hkey, nsLen_recordBuild value hns,
    keyLen_recordBuild value hkey]
  simp only [Bool.not_true, Bool.false_eq_true, if_false]
  by_cases h : ns' = ns ∧ key' = key
  · rw [if_pos h, if_neg]
    simp [h.1, h.2]
  · rw [if_neg h, if_pos]
    by_contra hall
    simp only [not_or, not_not] at hall
    exact h ⟨Subtype.ext hall.2.2.1.symm, Subtype.ext hall.2.2.2.symm⟩

end Build

theorem keyValid_iff {cfg : KvCfg} {key : CString} :
    keyValid cfg key = true ↔ key.val ≠ [] ∧ key.val.length ≤ cfg.maxKeyLen := by
  simp [keyValid]

theorem keyValid_lt {cfg : KvCfg} {key : CString} (h : keyValid cfg key = true) : key.val.length < 256 := by
  have hle := (keyValid_iff.mp h).2
  have := cfg.maxKeyLen_le
  omega

theorem getD_take {record : Bytes} {room i : Nat} (h : i < room) : (record.take room).getD i 0 = record.getD i 0 := by
  rw [List.getD_eq_getElem?_getD, List.getElem?_take_of_lt h, ← List.getD_eq_getElem?_getD]

theorem headLen_take {record : Bytes} {room : Nat} (hroom : REC_HDR_SIZE ≤ room) :
    nsLen (record.take room) = nsLen record ∧ keyLen (record.take room) = keyLen record := by
  unfold REC_HDR_SIZE at hroom
  exact ⟨congrArg UInt8.toNat (getD_take (by omega)), congrArg UInt8.toNat (getD_take (by omega))⟩

theorem isRecord_take {record : Bytes} {room : Nat} (hroom : REC_HDR_SIZE ≤ room) :
    isRecord (record.take room) = (isRecord record && decide (headLen record ≤ room)) := by
  obtain ⟨hns, hkey⟩ := @headLen_take record _ hroom
  have htag : (record.take room).getD 0 0 = record.getD 0 0 := getD_take (Nat.lt_of_lt_of_le (by decide) hroom)
  unfold isRecord headLen
  rw [htag, hns, hkey, List.length_take]
  have h1 : (REC_HDR_SIZE ≤ min room record.length) ↔ REC_HDR_SIZE ≤ record.length := by omega
  have h2 : (REC_HDR_SIZE + nsLen record + keyLen record ≤ min room record.length) ↔
      (REC_HDR_SIZE + nsLen record + keyLen record ≤ record.length ∧
        REC_HDR_SIZE + nsLen record + keyLen record ≤ room) := by omega
  simp only [h1, h2, Bool.decide_and, Bool.and_assoc]

theorem recordCheck_take {record : Bytes} {room : Nat} (hroom : REC_HDR_SIZE ≤ room) (ns key : CString) :
    recordCheck (record.take room) ns key =
      if headLen record ≤ room then recordCheck record ns key else .FOREIGN := by
  obtain ⟨hns, hkey⟩ := @headLen_take record _ hroom
  unfold recordCheck
  rw [isRecord_take hroom]
  by_cases hfit : headLen record ≤ room
  · have hsum : REC_HDR_SIZE + nsLen record + keyLen record ≤ room := hfit
    have hhead : headLen (record.take room) = headLen record := by rw [headLen, hns, hkey]; rfl
    rw [if_pos hfit, hns, hkey, hhead, slice_take record (by omega), slice_take record (by omega)]
    simp [hfit]
  · simp [hfit]

/-- These bytes answer for one key and no other, and hold this value for it. -/
structure Frames (buf : Bytes) (ns key : CString) (value : Bytes) : Prop where
  match_iff : ∀ ns' key', (∃ off, recordCheck buf ns' key' = .MATCH off) ↔ ns' = ns ∧ key' = key
  mismatch : ∀ ns' key', ¬ (ns' = ns ∧ key' = key) → recordCheck buf ns' key' = .MISMATCH
  value : ∀ off, recordCheck buf ns key = .MATCH off → buf.drop off = value

theorem frames_take {ns key : CString} (value : Bytes) (hns : ns.val.length < 256) (hkey : key.val.length < 256)
    {n : Nat} (hn : REC_HDR_SIZE + ns.val.length + key.val.length ≤ n) :
    Frames ((recordBuild ns key value).take n) ns key
      (value.take (n - (REC_HDR_SIZE + ns.val.length + key.val.length))) := by
  have hcheck : ∀ ns' key', recordCheck ((recordBuild ns key value).take n) ns' key' =
      if ns' = ns ∧ key' = key then .MATCH (REC_HDR_SIZE + ns.val.length + key.val.length) else .MISMATCH := by
    intro ns' key'
    rw [recordCheck_take (by omega), headLen_recordBuild value hns hkey, if_pos hn]
    exact recordCheck_recordBuild value hns hkey ns' key'
  refine ⟨fun ns' key' => ?_, fun ns' key' hne => ?_, fun off hoff => ?_⟩
  · rw [hcheck]
    split
    · rename_i h
      exact ⟨fun _ => h, fun _ => ⟨_, rfl⟩⟩
    · rename_i h
      exact ⟨fun ⟨_, hm⟩ => (by cases hm), fun hm => absurd hm h⟩
  · rw [hcheck, if_neg hne]
  · rw [hcheck, if_pos ⟨rfl, rfl⟩] at hoff
    rw [← RecCheck.MATCH.inj hoff, List.drop_take, recordBuild_drop]

/-- A record answers for its own key alone, with exactly its value, however far behind the key it is cut;
and no key shares the id of the index or the one a backend may reserve. -/
theorem record_framing (cfg : KvCfg) {ns key : CString} (hns : keyValid cfg ns = true) (hkey : keyValid cfg key = true)
    (value : Bytes) :
    Frames (recordBuild ns key value) ns key value ∧
      (∀ n, REC_HDR_SIZE + ns.val.length + key.val.length ≤ n →
        Frames ((recordBuild ns key value).take n) ns key
          (value.take (n - (REC_HDR_SIZE + ns.val.length + key.val.length)))) ∧
      recordId cfg ns key ≠ 0 ∧ recordId cfg ns key ≠ indexRecId cfg := by
  have hns := keyValid_lt hns
  have hkey := keyValid_lt hkey
  have hroom : REC_HDR_SIZE + ns.val.length + key.val.length ≤ (recordBuild ns key value).length := by
    rw [recordBuild_length]
    omega
  have hwhole := frames_take value hns hkey hroom
  rw [List.take_length, recordBuild_length, Nat.add_sub_cancel_left, List.take_length] at hwhole
  exact ⟨hwhole, fun n hn => frames_take value hns hkey hn, recordId_ne_zero cfg ns key, recordId_ne_index cfg ns key⟩

theorem name_a : (0 : UInt8) ∉ [97] := by decide

theorem name_ab : (0 : UInt8) ∉ [97, 98] := by decide

theorem name_k : (0 : UInt8) ∉ [107] := by decide

theorem name_n : (0 : UInt8) ∉ [110] := by decide

theorem name_b : (0 : UInt8) ∉ [98] := by decide

theorem name_cyx : (0 : UInt8) ∉ [99, 121, 120] := by decide

theorem name_fdb : (0 : UInt8) ∉ [102, 100, 98] := by decide

def nsN : CString := ⟨[110], name_n⟩

def keyA : CString := ⟨[97], name_a⟩

def keyB : CString := ⟨[98], name_b⟩

def keyK : CString := ⟨[107], name_k⟩

def keyAb : CString := ⟨[97, 98], name_ab⟩

/-- On NVS this key and the next have one id. -/
def keyCyx : CString := ⟨[99, 121, 120], name_cyx⟩

def keyFdb : CString := ⟨[102, 100, 98], name_fdb⟩

/-- The defaults of the options, on NVS. -/
def KvCfg.nvs (persistIndex : Bool) (blockSize : Nat) (defaults : List Default) : KvCfg :=
  ⟨48, maxKeyLen_default_le, 128, indexMax_default_le, persistIndex, false, blockSize, defaults⟩

/-- `ab`, `c` and `a`, `bc` run together alike, and each record answers for its own pair only. -/
theorem record_framing_run_together :
    recordCheck (recordBuild ⟨[97, 98], by decide⟩ ⟨[99], by decide⟩ []) ⟨[97], by decide⟩ ⟨[98, 99], by decide⟩ =
      .MISMATCH :=
  (@record_framing ⟨48, by decide, 128, by decide, true, false, 128, []⟩ ⟨[97, 98], by decide⟩ ⟨[99], by decide⟩
    (by decide) (by decide) []).1.mismatch _ _ (by decide)

end ZephyrDB.Kv
