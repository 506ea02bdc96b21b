import ZephyrDB.Kv.Collide

/-!
What a get hands its caller of a record of any length: the record may have been
written by a build whose IO blocks are larger than those of the build that
reads it.
-/

set_option autoImplicit false

namespace ZephyrDB.Kv

open Lib

/-- The caller's buffer after `copied` was put at its start. -/
def handed (outValue copied : Bytes) : Bytes := copied ++ outValue.drop copied.length

/-- What is promised of a get that succeeds: the full length, and that many bytes of the value or as many
as the buffer has. -/
structure Delivers (value outValue copied : Bytes) (outLen : Nat) : Prop where
  length : outLen = value.length
  bytes : (handed outValue copied).take (min outLen outValue.length) = value.take (min outLen outValue.length)

/-- How much of a value of the key a block holds. -/
def blockRoom (cfg : KvCfg) (ns key : CString) : Nat :=
  cfg.blockSize - (REC_HDR_SIZE + ns.val.length + key.val.length)

/-- Why a get of a key does not come to the slot: no free block, or a read that fails. -/
def refusal (cfg : KvCfg) (s : KvSt) (ns key : CString) : Option Status :=
  if s.ioFree = 0 then some .ERR_NOMEM else (s.flash.fault (.read (recordId cfg ns key))).map statusFromErrno

section Get
variable {cfg : KvCfg} {ns key : CString} {s : KvSt}

theorem recordCheck_cut {record : Bytes} (h : ∀ off, recordCheck record ns key ≠ .MATCH off) (room off : Nat) :
    recordCheck (record.take room) ns key ≠ .MATCH off := fun hcut => h off (match_of_take hcut)

theorem recordCheck_held {record : Bytes} {off : Nat} (h : recordCheck record ns key = .MATCH off) (room : Nat) :
    recordCheck (record.take room) ns key = if off ≤ room then .MATCH off else .FOREIGN := by
  obtain ⟨-, -, -, -, -, hhead⟩ := recordCheck_match h
  by_cases hroom : REC_HDR_SIZE ≤ room
  · rw [recordCheck_take hroom, h, hhead]
  · have hshort : ¬ headLen record ≤ room := fun hle => hroom (le_trans (by unfold headLen; omega) hle)
    have hforeign : isRecord (record.take room) = false := by
      have hlen : ¬ REC_HDR_SIZE ≤ (record.take room).length := by
        rw [List.length_take]
        omega
      rw [isRecord, decide_eq_false hlen]
      rfl
    rw [hhead, if_neg hshort, recordCheck, hforeign]
    rfl

/-- What a get of any slot answers: a value whose header the block holds is copied as far as the block and
the buffer go, and its whole length is reported. -/
theorem outcome_kvGet_stored (hkey : keyValid cfg key = true) (capacity : Nat) :
    outcome (kvGet cfg ns key capacity) s =
      match refusal cfg s ns key, stored cfg s.flash.cells (ns, key) with
      | some status, _ => .error status
      | none, none => .error .ERR_NOT_FOUND
      | none, some value =>
        if REC_HDR_SIZE + ns.val.length + key.val.length ≤ cfg.blockSize then
          .ok (value.take (min capacity (blockRoom cfg ns key)), value.length)
        else .error .ERR_NOT_FOUND := by
  by_cases hio : s.ioFree = 0
  · have hrun : (kvGet cfg ns key capacity).run s = .error .ERR_NOMEM s := by
      simp only [kvGet, hkey, Bool.not_true, Bool.false_eq_true, if_false]
      exact run_fails (withBlock_none hio)
    unfold outcome refusal
    rw [hrun, if_pos hio]
  rw [outcome_kvGet hkey hio, refusal, if_neg hio]
  cases s.flash.fault (.read (recordId cfg ns key)) with
  | some err => rfl
  | none =>
    cases hstored : stored cfg s.flash.cells (ns, key) with
    | none =>
      cases hcell : s.flash.cells (recordId cfg ns key) with
      | none => rfl
      | some record =>
        have hnot : ∀ off, recordCheck record ns key ≠ .MATCH off := by
          intro off hmatch
          have hsome : stored cfg s.flash.cells (ns, key) = some (record.drop off) :=
            (@stored_eq_some cfg _ (ns, key) _).mpr ⟨record, off, hcell, hmatch, rfl⟩
          rw [hstored] at hsome
          cases hsome
        dsimp only [Option.map_none]
        split
        · rename_i off hcut
          exact absurd hcut (recordCheck_cut hnot _ off)
        · rfl
    | some value =>
      obtain ⟨record, off, hcell, hmatch, hvalue⟩ := stored_eq_some.mp hstored
      obtain ⟨-, hnsLen, hkeyLen, -, -, hhead⟩ := recordCheck_match hmatch
      have hoff : REC_HDR_SIZE + ns.val.length + key.val.length = off := by
        rw [hhead, headLen, hnsLen, hkeyLen]
      have hheld := recordCheck_held hmatch cfg.blockSize
      have hlen : value.length = record.length - off := by rw [← hvalue, List.length_drop]
      have hcell' : s.flash.cells (recordId cfg ns key) = some record := hcell
      rw [hcell', hoff]
      dsimp only [Option.map_none] at hheld ⊢
      rw [hheld]
      by_cases hfit : off ≤ cfg.blockSize
      · rw [if_pos hfit, if_pos hfit]
        dsimp only
        rw [← hlen, slice, List.drop_take, hvalue, List.take_take, blockRoom, hoff, List.length_take]
        congr 2
        rw [List.take_eq_take_iff]
        omega
      · rw [if_neg hfit, if_neg hfit]

/-- A get that succeeds copies what the block and the buffer have of the value, and reports all of its
length. -/
theorem kvGet_copies {capacity : Nat} {copied value : Bytes} {outLen : Nat}
    (hstored : stored cfg s.flash.cells (ns, key) = some value)
    (h : outcome (kvGet cfg ns key capacity) s = .ok (copied, outLen)) :
    copied = value.take (min capacity (blockRoom cfg ns key)) ∧ outLen = value.length := by
  by_cases hkey : keyValid cfg key = true
  · rw [outcome_kvGet_stored hkey, hstored] at h
    cases href : refusal cfg s ns key with
    | some status =>
      rw [href] at h
      cases h
    | none =>
      rw [href] at h
      dsimp only at h
      split at h
      · exact ⟨(Prod.mk.inj (Except.ok.inj h)).1.symm, (Prod.mk.inj (Except.ok.inj h)).2.symm⟩
      · cases h
  · have hget : kvGet cfg ns key capacity = throw .ERR_INVAL := by simp [kvGet, hkey]
    rw [hget] at h
    cases h

end Get

theorem handed_take {outValue copied : Bytes} {n : Nat} (h : n ≤ copied.length) :
    (handed outValue copied).take n = copied.take n := List.take_append_of_le_length h

theorem handed_rest {outValue copied : Bytes} {n : Nat} (h : copied.length < n) :
    ((handed outValue copied).take n)[copied.length]? = outValue[copied.length]? := by
  rw [List.getElem?_take_of_lt h, handed, List.getElem?_append_right (Nat.le_refl _), Nat.sub_self,
    List.getElem?_drop, Nat.add_zero]

/-- A prefix of the value delivers it into every buffer exactly where nothing that the buffer has room for
is missing. -/
theorem delivers_take_iff (value : Bytes) (room capacity : Nat) :
    (∀ outValue : Bytes, outValue.length = capacity →
      Delivers value outValue (value.take (min capacity room)) value.length) ↔
      min value.length capacity ≤ room := by
  constructor
  · intro h
    by_contra hshort
    have hroom : room < value.length := by omega
    -- a buffer of other bytes shows what was not copied
    have hbytes := (h (List.replicate capacity (value[room] + 1)) List.length_replicate).bytes
    have hcopied : (value.take (min capacity room)).length = room := by
      rw [List.length_take]
      omega
    have hbyte := congrArg (·[room]?) hbytes
    have hrest := @handed_rest (List.replicate capacity (value[room] + 1)) (value.take (min capacity room))
      (min value.length capacity) (by omega)
    rw [hcopied] at hrest
    rw [List.length_replicate, hrest, List.getElem?_replicate_of_lt (by omega), List.getElem?_take_of_lt (by omega),
      List.getElem?_eq_getElem hroom] at hbyte
    exact absurd (Option.some.inj hbyte) (by grind)
  · rintro h outValue rfl
    refine ⟨rfl, ?_⟩
    rw [handed_take (by rw [List.length_take]; omega), List.take_take, List.take_eq_take_iff]
    omega

/-- A get that succeeds delivers what it reports exactly where the block holds as much of the value as the
caller has room for. -/
theorem get_delivers_iff {cfg : KvCfg} {ns key : CString} {s : KvSt} {value : Bytes} {capacity : Nat}
    {copied : Bytes} {outLen : Nat} (hstored : stored cfg s.flash.cells (ns, key) = some value)
    (hget : outcome (kvGet cfg ns key capacity) s = .ok (copied, outLen)) :
    (∀ outValue : Bytes, outValue.length = capacity → Delivers value outValue copied outLen) ↔
      min value.length capacity ≤ blockRoom cfg ns key := by
  obtain ⟨rfl, rfl⟩ := kvGet_copies hstored hget
  exact delivers_take_iff value (blockRoom cfg ns key) capacity

/-- Twelve bytes stored under "k" in "n", read with blocks of 16 bytes. -/
def longRecord : KvCfg × KvSt :=
  (⟨48, maxKeyLen_default_le, 128, indexMax_default_le, false, false, 16, []⟩,
    .boot ⟨fun _ => some (recordBuild ⟨[110], name_n⟩ ⟨[107], name_k⟩ [1, 2, 3, 4, 5, 6, 7, 8, 9, 10, 11, 12]),
      fun _ _ => none, fun _ _ => false, fun _ => 0, []⟩ 1 true)

/-- Eleven of them are in the block, and a caller with room for eleven gets them. -/
theorem held_bytes_delivered :
    Delivers [1, 2, 3, 4, 5, 6, 7, 8, 9, 10, 11, 12] (List.replicate 11 99) [1, 2, 3, 4, 5, 6, 7, 8, 9, 10, 11] 12 :=
  (@get_delivers_iff longRecord.1 ⟨[110], by decide⟩ ⟨[107], by decide⟩ longRecord.2 _ 11 _ 12
    (by decide) (by decide)).mpr (by decide) (List.replicate 11 99) List.length_replicate

/-- A caller with room for twelve is told of twelve bytes and keeps his own last byte. -/
theorem missing_byte_reported :
    ∃ copied outLen, outcome (kvGet longRecord.1 ⟨[110], by decide⟩ ⟨[107], by decide⟩ 12) longRecord.2 =
        .ok (copied, outLen) ∧
      stored longRecord.1 longRecord.2.flash.cells (⟨[110], by decide⟩, ⟨[107], by decide⟩) =
        some [1, 2, 3, 4, 5, 6, 7, 8, 9, 10, 11, 12] ∧
      outLen = 12 ∧ (handed (List.replicate 12 99) copied).take (min outLen 12) = [1, 2, 3, 4, 5, 6, 7, 8, 9, 10, 11, 99] ∧
      ¬ Delivers [1, 2, 3, 4, 5, 6, 7, 8, 9, 10, 11, 12] (List.replicate 12 99) copied outLen := by
  refine ⟨[1, 2, 3, 4, 5, 6, 7, 8, 9, 10, 11], 12, by decide, by decide, rfl, rfl, fun h => ?_⟩
  have hbytes := h.bytes
  cases hbytes

end ZephyrDB.Kv
