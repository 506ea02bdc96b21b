import Mathlib.Logic.Function.Basic
import ZephyrDB.Lib.LittleEndian

/-!
CRC-32 with the reflected IEEE polynomial, and the incremental form that
folds a message in piece by piece.
-/

set_option autoImplicit false

namespace Lib

def crcBit (c : UInt32) : UInt32 :=
  if c &&& 1 = 1 then (c >>> 1) ^^^ 0xEDB88320 else c >>> 1

def crcByte (c : UInt32) (b : UInt8) : UInt32 :=
  crcBit (crcBit (crcBit (crcBit (crcBit (crcBit (crcBit (crcBit (c ^^^ b.toUInt32))))))))

def crc32Update (crc : UInt32) (bs : Bytes) : UInt32 := ~~~(bs.foldl crcByte (~~~crc))

def crc32 (bs : Bytes) : UInt32 := crc32Update 0 bs

@[simp] theorem crc32Update_nil (crc : UInt32) : crc32Update crc [] = crc := by
  simp [crc32Update]

theorem crc32Update_append (crc : UInt32) (xs ys : Bytes) :
    crc32Update crc (xs ++ ys) = crc32Update (crc32Update crc xs) ys := by
  simp [crc32Update]

/-- The check value of the polynomial: the digest of the nine digits. -/
example : crc32 [49, 50, 51, 52, 53, 54, 55, 56, 57] = 0xCBF43926 := by decide +kernel

theorem odd_iff (c : UInt32) : c &&& 1 = 1 ↔ c.toBitVec.getLsbD 0 = true := by
  rw [← UInt32.toBitVec_inj, UInt32.toBitVec_and]
  constructor
  · intro h
    have hbit := congrArg (fun v : BitVec 32 => v.getLsbD 0) h
    simpa using hbit
  · intro h
    apply BitVec.eq_of_getLsbD_eq
    intro i hi
    cases i with
    | zero => simpa using h
    | succ i => simp [BitVec.getLsbD_one]

theorem crcBit_getLsbD (c : UInt32) (i : Nat) : (crcBit c).toBitVec.getLsbD i =
    (c.toBitVec.getLsbD (i + 1) ^^ (c.toBitVec.getLsbD 0 && (0xEDB88320#32).getLsbD i)) := by
  unfold crcBit
  by_cases h : c &&& 1 = 1
  · rw [if_pos h, (odd_iff c).mp h]
    simp [BitVec.getLsbD_ushiftRight, Nat.add_comm 1 i]
  · rw [if_neg h, Bool.eq_false_iff.mpr fun ho => h ((odd_iff c).mpr ho)]
    simp [BitVec.getLsbD_ushiftRight, Nat.add_comm 1 i]

theorem crcBit_injective : Function.Injective crcBit := by
  intro c d h
  have hbits : ∀ i, (crcBit c).toBitVec.getLsbD i = (crcBit d).toBitVec.getLsbD i := fun i => by rw [h]
  have hlow : c.toBitVec.getLsbD 0 = d.toBitVec.getLsbD 0 := by
    have htop := hbits 31
    rw [crcBit_getLsbD, crcBit_getLsbD] at htop
    simpa using htop
  apply UInt32.toBitVec_inj.mp
  apply BitVec.eq_of_getLsbD_eq
  intro i _
  cases i with
  | zero => exact hlow
  | succ i =>
    have hnext := hbits i
    rw [crcBit_getLsbD, crcBit_getLsbD, hlow] at hnext
    simpa using hnext

theorem crcByte_injective (b : UInt8) : Function.Injective fun c => crcByte c b := by
  intro c d h
  unfold crcByte at h
  iterate 8 replace h := crcBit_injective h
  exact UInt32.xor_left_inj _ |>.mp h

theorem crcByte_byte (c : UInt32) : Function.Injective (crcByte c) := by
  intro b d h
  unfold crcByte at h
  iterate 8 replace h := crcBit_injective h
  exact UInt8.toUInt32_inj.mp ((UInt32.xor_right_inj _).mp h)

theorem foldl_crcByte_injective (bs : Bytes) : Function.Injective fun c : UInt32 => bs.foldl crcByte c := by
  induction bs with
  | nil => exact fun c d h => h
  | cons b bs ih => exact fun c d h => crcByte_injective b (ih h)

theorem crc32Update_injective (bs : Bytes) : Function.Injective fun crc => crc32Update crc bs := by
  intro c d h
  exact UInt32.not_inj.mp (foldl_crcByte_injective bs (UInt32.not_inj.mp h))

theorem crc32Update_byte (crc : UInt32) (xs ys : Bytes) {b b' : UInt8}
    (h : crc32Update crc (xs ++ b :: ys) = crc32Update crc (xs ++ b' :: ys)) : b = b' := by
  rw [crc32Update_append, crc32Update_append] at h
  have hmid := UInt32.not_inj.mp h
  rw [List.foldl_cons, List.foldl_cons] at hmid
  exact crcByte_byte _ (foldl_crcByte_injective ys hmid)

/-- A byte string with one bit the other way. -/
def flipBit (bs : Bytes) (i : Nat) (bit : Fin 8) : Bytes := bs.modify i fun b => b ^^^ (1 <<< UInt8.ofNat bit.val)

section FlipBit
variable (bs : Bytes) (i : Nat) (bit : Fin 8)

@[simp] theorem flipBit_length : (flipBit bs i bit).length = bs.length := List.length_modify _ _ _

theorem flipped_ne (b : UInt8) : b ^^^ (1 <<< UInt8.ofNat bit.val) ≠ b := by
  intro h
  have hmask : ∀ bit : Fin 8, (1 : UInt8) <<< UInt8.ofNat bit.val ≠ 0 := by decide
  refine hmask bit ((UInt8.xor_right_inj b).mp ?_)
  rw [h, UInt8.xor_zero]

variable {bs i}

theorem flipBit_append_left {ys : Bytes} (h : i < bs.length) : flipBit (bs ++ ys) i bit = flipBit bs i bit ++ ys := by
  induction bs generalizing i with
  | nil => exact absurd h (Nat.not_lt_zero i)
  | cons b bs ih =>
    cases i with
    | zero => rfl
    | succ i => exact congrArg (b :: ·) (ih (Nat.lt_of_succ_lt_succ h))

theorem flipBit_append_right {xs : Bytes} (h : xs.length ≤ i) : flipBit (xs ++ bs) i bit = xs ++ flipBit bs (i - xs.length) bit := by
  induction xs generalizing i with
  | nil => rfl
  | cons x xs ih =>
    cases i with
    | zero => exact absurd h (Nat.not_succ_le_zero _)
    | succ i =>
      have hi := Nat.le_of_succ_le_succ h
      rw [List.length_cons, Nat.add_sub_add_right]
      exact congrArg (x :: ·) (ih hi)

theorem slice_flipBit {off len : Nat} (h : i < off ∨ off + len ≤ i) : slice (flipBit bs i bit) off len = slice bs off len := by
  unfold slice flipBit
  apply List.ext_getElem?
  intro j
  rw [List.getElem?_take, List.getElem?_take]
  split
  · have hne : i ≠ off + j := by omega
    rw [List.getElem?_drop, List.getElem?_drop, List.getElem?_modify]
    simp [hne]
  · rfl

theorem slice_flipBit_inside {off len : Nat} (hlo : off ≤ i) :
    slice (flipBit bs i bit) off len = flipBit (slice bs off len) (i - off) bit := by
  unfold slice flipBit
  apply List.ext_getElem?
  intro j
  rw [List.getElem?_take, List.getElem?_modify, List.getElem?_take]
  split
  · rw [List.getElem?_drop, List.getElem?_drop, List.getElem?_modify]
    have heq : (i = off + j) = (i - off = j) := propext ⟨fun h => by omega, fun h => by omega⟩
    simp only [heq]
  · simp

theorem flipBit_split (h : i < bs.length) : ∃ xs b ys, bs = xs ++ b :: ys ∧ xs.length = i ∧
    flipBit bs i bit = xs ++ (b ^^^ (1 <<< UInt8.ofNat bit.val)) :: ys :=
  ⟨bs.take i, bs[i], bs.drop (i + 1), by rw [← List.drop_eq_getElem_cons h, List.take_append_drop],
    by rw [List.length_take]; omega, List.modify_eq_take_cons_drop h⟩

theorem crc32Update_flipBit (crc : UInt32) (h : i < bs.length) : crc32Update crc (flipBit bs i bit) ≠ crc32Update crc bs := by
  obtain ⟨xs, b, ys, hsplit, -, hflip⟩ := flipBit_split bit h
  rw [hflip, hsplit]
  exact fun heq => flipped_ne bit b (crc32Update_byte crc xs ys heq)

theorem leNat_flipBit (h : i < bs.length) : leNat (flipBit bs i bit) ≠ leNat bs := by
  intro heq
  have hback := leBytes_leNat (flipBit bs i bit)
  rw [heq, flipBit_length, leBytes_leNat] at hback
  obtain ⟨xs, b, ys, hsplit, -, hflip⟩ := flipBit_split bit h
  rw [hflip] at hback
  nth_rewrite 1 [hsplit] at hback
  exact flipped_ne bit b (List.cons.inj (List.append_cancel_left hback)).1.symm

end FlipBit

end Lib
