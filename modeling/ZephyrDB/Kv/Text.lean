import ZephyrDB.Kv.Spec

/-!
Strings in the key-value store: stored with their terminator, read back into a
buffer whose last byte is kept for one.
-/

set_option autoImplicit false

namespace ZephyrDB.Kv

open Lib

/-- `zdb_kv_set_str`. -/
def kvSetStr (cfg : KvCfg) (ns key : CString) (value : Option CString) : KvM Status Unit := do
  match value with
  | none => throw .ERR_INVAL
  | some str => kvSet cfg ns key (some (str.val ++ [0]))

/-- What `zdb_kv_get_str` hands back: its status, the caller's buffer and `out_len`. -/
structure StrRead where
  status : Status
  outStr : Bytes
  outLen : Nat
  deriving DecidableEq

/-- The length and the terminator that `zdb_kv_get_str` gives what it copied into the buffer. -/
def terminate (outStr : Bytes) (storedLen : Nat) : StrRead :=
  let copied := min storedLen (outStr.length - 1)
  match (outStr.take copied).findIdx? (· == 0) with
  | some i => ⟨.OK, outStr, i⟩
  | none => ⟨.OK, outStr.set copied 0, storedLen⟩

/-- `zdb_kv_get_str` into the buffer `outStr`. -/
def kvGetStr (cfg : KvCfg) (ns key : CString) (outStr : Bytes) : KvM Status StrRead := do
  if outStr.isEmpty then throw .ERR_INVAL
  match ← attempt (kvGet cfg ns key (outStr.length - 1)) with
  | .error rc => return ⟨rc, outStr.set 0 0, 0⟩
  | .ok (bytes, storedLen) => return terminate (bytes ++ outStr.drop bytes.length) storedLen

/-- What is promised of a read of `str` with room for `capacity` bytes. -/
structure StrRead.Exact (r : StrRead) (str : CString) (capacity : Nat) : Prop where
  status : r.status = .OK
  text : r.outStr.take (min str.val.length (capacity - 1) + 1) = str.val.take (capacity - 1) ++ [0]
  length : str.val.length + 1 ≤ capacity → r.outLen = str.val.length
  cut : capacity < r.outLen + 1 ↔ capacity < str.val.length + 1

section Set
variable {cfg : KvCfg} {ns key : CString}

theorem letThrough_of_ok {s : KvSt} {value : Bytes} (hns : keyValid cfg ns = true)
    (h : outcome (kvSet cfg ns key (some value)) s = .ok ()) : LetThrough cfg s ns key value := by
  by_cases hkey : keyValid cfg key = true
  · by_cases hfits : cfg.blockSize < (recordBuild ns key value).length
    · simp only [kvSet, hkey, Bool.not_true, Bool.false_eq_true, if_false, hfits, if_true] at h
      cases h
    · have hfits := Nat.not_lt.mp hfits
      refine ⟨⟨hns, hkey, hfits⟩, fun hio => ?_⟩
      rw [Writable.kvSet ⟨hns, hkey, hfits⟩] at h
      unfold outcome at h
      rw [withBlock_none hio] at h
      cases h
  · simp only [Bool.not_eq_true] at hkey
    simp only [kvSet, hkey, Bool.not_false, if_true] at h
    cases h

theorem kvSet_stores {s : KvSt} {value : Bytes} (hns : keyValid cfg ns = true)
    (h : outcome (kvSet cfg ns key (some value)) s = .ok ()) :
    (post (kvSet cfg ns key (some value)) s).flash.cells (recordId cfg ns key) = some (recordBuild ns key value) := by
  have hlet := letThrough_of_ok hns h
  rw [hlet.toWritable.kvSet, outcome_withBlock hlet.block] at h
  have hgo : preRead cfg s.hold ns key ≠ some .MISMATCH := by
    intro hshown
    unfold outcome at h
    rw [setLocked_collides hshown] at h
    cases h
  have hlanded : writtenStatus cfg s.hold ns key value = .OK := by
    apply @finishSet_ok cfg ns key _ (written cfg s.hold ns key value)
    rw [← h]
    unfold outcome
    rw [setLocked_writes hgo]
  have hwrite : s.flash.fault (.write (recordId cfg ns key)) = none := by
    cases hw : s.flash.fault (.write (recordId cfg ns key)) with
    | none => rfl
    | some err =>
      have hfault := (tracked_confined cfg s.hold ns key).flash.fault_write (recordId_ne_index cfg ns key)
      unfold writtenStatus outcome at hlanded
      rw [IdStore.write_refused _ _ (hfault.trans hw)] at hlanded
      exact absurd hlanded (statusFromErrno_ne_ok err)
  rw [post_kvSet_through hlet]
  have hcells := setLocked_cells cfg s.hold ns key value (recordId_ne_index cfg ns key)
  rw [if_pos ⟨hgo, hwrite⟩, Function.update_self] at hcells
  exact hcells

theorem kvGet_recorded {s : KvSt} {value : Bytes} (hw : Writable cfg ns key value) (hio : s.ioFree ≠ 0)
    (hread : s.flash.fault (.read (recordId cfg ns key)) = none)
    (hcell : s.flash.cells (recordId cfg ns key) = some (recordBuild ns key value)) (capacity : Nat) :
    outcome (kvGet cfg ns key capacity) s = .ok (value.take capacity, value.length) := by
  have hrest : (recordBuild ns key value).length - (REC_HDR_SIZE + ns.val.length + key.val.length) = value.length := by
    rw [recordBuild_length]
    omega
  rw [outcome_kvGet hw.key_valid hio, hread, hcell]
  simp only [List.take_of_length_le hw.fits]
  rw [recordCheck_recordBuild value (keyValid_lt hw.ns_valid) (keyValid_lt hw.key_valid), if_pos ⟨rfl, rfl⟩]
  simp only [hrest, slice, recordBuild_drop]
  congr 2
  rw [List.take_eq_take_iff]
  omega

end Set

section Terminate
variable (str : CString) (outStr : Bytes)

def filled : Bytes :=
  (str.val ++ [0]).take (outStr.length - 1) ++ outStr.drop ((str.val ++ [0]).take (outStr.length - 1)).length

variable {str outStr}

theorem findIdx?_string : str.val.findIdx? (· == 0) = none := by
  rw [List.findIdx?_eq_none_iff]
  intro b hb
  have hne : b ≠ 0 := fun h => str.property (h ▸ hb)
  simpa using hne

theorem filled_length (h : outStr ≠ []) : (filled str outStr).length = outStr.length := by
  have hpos := List.length_pos_of_ne_nil h
  simp [filled]

theorem filled_take {n : Nat} (hn : n ≤ min (str.val.length + 1) (outStr.length - 1)) :
    (filled str outStr).take n = (str.val ++ [0]).take n := by
  unfold filled
  rw [List.take_append_of_le_length (by simpa [and_comm] using hn), List.take_take, Nat.min_eq_left (by omega)]

theorem take_set_succ {bs : Bytes} {n : Nat} (h : n < bs.length) (b : UInt8) :
    (bs.set n b).take (n + 1) = bs.take n ++ [b] := by
  have hlen : (bs.take n).length = n := List.length_take_of_le (by omega)
  rw [List.set_eq_take_append_cons_drop, if_pos h, List.take_append, hlen]
  simp [List.take_take]

theorem terminate_spare (hroom : str.val.length + 1 < outStr.length) :
    terminate (filled str outStr) (str.val.length + 1) = ⟨.OK, filled str outStr, str.val.length⟩ := by
  have hne : outStr ≠ [] := fun h => by simp [h] at hroom
  have hfound : ((filled str outStr).take (str.val.length + 1)).findIdx? (· == 0) = some str.val.length := by
    rw [filled_take (by omega), List.take_of_length_le (by simp), List.findIdx?_append, findIdx?_string]
    simp
  unfold terminate
  rw [filled_length hne, Nat.min_eq_left (by omega)]
  simp only [hfound]

theorem terminate_tight (hne : outStr ≠ []) (hroom : outStr.length ≤ str.val.length + 1) :
    terminate (filled str outStr) (str.val.length + 1) =
      ⟨.OK, (filled str outStr).set (outStr.length - 1) 0, str.val.length + 1⟩ := by
  have hlost : ((filled str outStr).take (outStr.length - 1)).findIdx? (· == 0) = none := by
    have hprefix : (str.val ++ [0]).take (outStr.length - 1) = str.val.take (outStr.length - 1) :=
      List.take_append_of_le_length (by omega)
    rw [filled_take (by omega), hprefix, List.findIdx?_eq_none_iff]
    exact fun b hb => List.findIdx?_eq_none_iff.mp findIdx?_string b (List.mem_of_mem_take hb)
  unfold terminate
  rw [filled_length hne, Nat.min_eq_right (by omega)]
  simp only [hlost]

theorem terminate_text (hne : outStr ≠ []) :
    (terminate (filled str outStr) (str.val.length + 1)).outStr.take (min str.val.length (outStr.length - 1) + 1) =
      str.val.take (outStr.length - 1) ++ [0] := by
  have hpos := List.length_pos_of_ne_nil hne
  by_cases hroom : str.val.length + 1 < outStr.length
  · rw [terminate_spare hroom, Nat.min_eq_left (by omega), List.take_of_length_le (l := str.val) (by omega),
      filled_take (by omega), List.take_of_length_le (by simp)]
  · have hroom := Nat.not_lt.mp hroom
    rw [terminate_tight hne hroom, Nat.min_eq_right (by omega)]
    have hlt : outStr.length - 1 < (filled str outStr).length := by
      rw [filled_length hne]
      omega
    have hcut : (filled str outStr).take (outStr.length - 1) = str.val.take (outStr.length - 1) := by
      rw [filled_take (by omega), List.take_append_of_le_length (by omega)]
    show List.take _ ((filled str outStr).set (outStr.length - 1) 0) = _
    rw [take_set_succ hlt, hcut]

theorem terminate_exact_iff (hne : outStr ≠ []) :
    (terminate (filled str outStr) (str.val.length + 1)).Exact str outStr.length ↔
      outStr.length ≠ str.val.length + 1 := by
  by_cases hroom : str.val.length + 1 < outStr.length
  · have htext := @terminate_text str outStr hne
    rw [terminate_spare hroom] at htext ⊢
    exact ⟨fun _ => by omega, fun _ => ⟨rfl, htext, fun _ => rfl, Iff.rfl⟩⟩
  · have hroom := Nat.not_lt.mp hroom
    have htext := @terminate_text str outStr hne
    rw [terminate_tight hne hroom] at htext ⊢
    constructor
    · intro h heq
      have hlen := h.length (by omega)
      simp at hlen
    · intro hother
      refine ⟨rfl, htext, fun hfits => by omega, ?_⟩
      simp only
      omega

end Terminate

theorem outcome_kvGetStr {cfg : KvCfg} {ns key str : CString} {s t : KvSt} {outStr : Bytes}
    (hns : keyValid cfg ns = true) (hset : outcome (kvSetStr cfg ns key (some str)) s = .ok ())
    (hcell : t.flash.cells (recordId cfg ns key) =
      (post (kvSetStr cfg ns key (some str)) s).flash.cells (recordId cfg ns key))
    (hio : t.ioFree ≠ 0) (hread : t.flash.fault (.read (recordId cfg ns key)) = none) (hne : outStr ≠ []) :
    outcome (kvGetStr cfg ns key outStr) t = .ok (terminate (filled str outStr) (str.val.length + 1)) := by
  have hlet : LetThrough cfg s ns key (str.val ++ [0]) := letThrough_of_ok hns hset
  have hrecord := hcell.trans (kvSet_stores hns hset)
  have hget := kvGet_recorded hlet.toWritable hio hread hrecord (outStr.length - 1)
  unfold kvGetStr
  rw [List.isEmpty_eq_false_iff.mpr hne]
  refine (outcome_then (run_attempt _ t)).trans ?_
  rw [hget, List.length_append]
  rfl

/-- A string that was stored, read back from any later state in which its record still stands. -/
theorem get_str_exact_iff {cfg : KvCfg} {ns key str : CString} {s t : KvSt} {outStr : Bytes}
    (hns : keyValid cfg ns = true) (hset : outcome (kvSetStr cfg ns key (some str)) s = .ok ())
    (hcell : t.flash.cells (recordId cfg ns key) =
      (post (kvSetStr cfg ns key (some str)) s).flash.cells (recordId cfg ns key))
    (hio : t.ioFree ≠ 0) (hread : t.flash.fault (.read (recordId cfg ns key)) = none) (hne : outStr ≠ []) :
    (∃ r, outcome (kvGetStr cfg ns key outStr) t = .ok r ∧ r.Exact str outStr.length) ↔
      outStr.length ≠ str.val.length + 1 := by
  rw [outcome_kvGetStr hns hset hcell hio hread hne, ← terminate_exact_iff hne]
  constructor
  · rintro ⟨r, hr, hexact⟩
    cases hr
    exact hexact
  · intro hexact
    exact ⟨_, rfl, hexact⟩

/-- "a" under "k", with a backend that refuses nothing. -/
def stringStored : KvSt :=
  post (kvSetStr (.nvs true 128 []) nsN keyK (some ⟨[97], name_a⟩)) (.boot (.blank fun _ _ => none) 2 true)

/-- It is read into three bytes. -/
theorem short_string_exact :
    ∃ r, outcome (kvGetStr (.nvs true 128 []) nsN keyK [0, 0, 0]) stringStored = .ok r ∧ r.Exact ⟨[97], name_a⟩ 3 :=
  (get_str_exact_iff (by decide) (by decide) rfl (by decide) (by decide) (by decide)).mpr (by decide)

/-- It is read into two bytes: it fits, and the length reported is two. -/
theorem fitting_string_overstated :
    outcome (kvSetStr (.nvs true 128 []) nsN keyK (some ⟨[97], name_a⟩)) (.boot (.blank fun _ _ => none) 2 true) = .ok () ∧
      outcome (kvGetStr (.nvs true 128 []) nsN keyK [0, 0]) stringStored = .ok ⟨.OK, [97, 0], 2⟩ ∧
      ¬ StrRead.Exact ⟨.OK, [97, 0], 2⟩ ⟨[97], name_a⟩ 2 := by
  refine ⟨by decide, by decide, fun h => ?_⟩
  have hlen := h.length (by decide)
  cases hlen

end ZephyrDB.Kv
