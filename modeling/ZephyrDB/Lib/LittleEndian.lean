import Mathlib.Data.List.Basic
import Mathlib.Tactic.Ring

/-!
Byte strings and fixed-width little-endian integers, as packed C structures
lay them out. Nothing here knows about a particular record format.
-/

set_option autoImplicit false

namespace Lib

abbrev Bytes := List UInt8

/-- The `k` low base-256 digits of `n`, least significant first. -/
def leBytes : Nat → Nat → Bytes
  | 0, _ => []
  | k + 1, n => UInt8.ofNat n :: leBytes k (n / 256)

def leNat : Bytes → Nat
  | [] => 0
  | b :: bs => b.toNat + 256 * leNat bs

@[simp] theorem leBytes_length (k n : Nat) : (leBytes k n).length = k := by
  induction k generalizing n with
  | zero => rfl
  | succ k ih => simp [leBytes, ih]

theorem leNat_leBytes (k n : Nat) : leNat (leBytes k n) = n % 256 ^ k := by
  induction k generalizing n with
  | zero => simp [leBytes, leNat, Nat.mod_one]
  | succ k ih =>
    have hb : (UInt8.ofNat n).toNat = n % 256 := by simp
    rw [leBytes, leNat, ih, hb, Nat.pow_succ, Nat.mul_comm (256 ^ k) 256, Nat.mod_mul]

theorem leNat_leBytes_of_lt {k n : Nat} (h : n < 256 ^ k) : leNat (leBytes k n) = n := by
  rw [leNat_leBytes, Nat.mod_eq_of_lt h]

theorem leNat_lt (bs : Bytes) : leNat bs < 256 ^ bs.length := by
  induction bs with
  | nil => simp [leNat]
  | cons b bs ih =>
    have hb := b.toNat_lt
    simp only [leNat, List.length_cons, Nat.pow_succ]
    omega

theorem leBytes_leNat (bs : Bytes) : leBytes bs.length (leNat bs) = bs := by
  induction bs with
  | nil => rfl
  | cons b bs ih =>
    have hb := b.toNat_lt
    have hlow : UInt8.ofNat (b.toNat + 256 * leNat bs) = b := by
      apply UInt8.toNat_inj.mp
      rw [UInt8.toNat_ofNat']
      omega
    have hhigh : (b.toNat + 256 * leNat bs) / 256 = leNat bs := by omega
    simp only [List.length_cons, leNat, leBytes, hlow, hhigh, ih]

/-- `len` bytes from offset `off`, fewer where the string ends. -/
def slice (bs : Bytes) (off len : Nat) : Bytes := (bs.drop off).take len

theorem slice_length (bs : Bytes) (off len : Nat) :
    (slice bs off len).length = min len (bs.length - off) := by
  simp [slice]

theorem slice_append_right (xs ys : Bytes) (off len : Nat) (h : xs.length ≤ off) :
    slice (xs ++ ys) off len = slice ys (off - xs.length) len := by
  simp [slice, List.drop_append, List.drop_eq_nil_of_le h]

theorem slice_append_left (xs ys : Bytes) (off len : Nat) (h : off + len ≤ xs.length) :
    slice (xs ++ ys) off len = slice xs off len := by
  simp only [slice]
  rw [List.drop_append_of_le_length (by omega), List.take_append_of_le_length (by simp; omega)]

theorem slice_field (xs f ys : Bytes) : slice (xs ++ (f ++ ys)) xs.length f.length = f := by
  simp [slice]

theorem slice_take (bs : Bytes) {off len room : Nat} (h : off + len ≤ room) :
    slice (bs.take room) off len = slice bs off len := by
  unfold slice
  rw [List.drop_take, List.take_take, Nat.min_eq_left (by omega)]

@[simp] theorem slice_all (bs : Bytes) : slice bs 0 bs.length = bs := by simp [slice]

theorem slice_zero_append (f ys : Bytes) : slice (f ++ ys) 0 f.length = f := by
  simpa using slice_field [] f ys

theorem slice_eq_nil_of_le (bs : Bytes) (off len : Nat) (h : bs.length ≤ off) :
    slice bs off len = [] := by
  simp [slice, List.drop_eq_nil_of_le h]

theorem slice_flatMap {α : Type} {enc : α → Bytes} {n : Nat} {xs : List α} (h : ∀ x ∈ xs, (enc x).length = n)
    {j : Nat} (hj : j < xs.length) : slice (xs.flatMap enc) (j * n) n = enc xs[j] := by
  induction xs generalizing j with
  | nil => cases hj
  | cons x xs ih =>
    have hx := h x (by simp)
    rw [List.flatMap_cons]
    cases j with
    | zero => simpa [hx] using slice_zero_append (enc x) (xs.flatMap enc)
    | succ j =>
      have hoff : (j + 1) * n - (enc x).length = j * n := by
        rw [hx, Nat.add_mul, Nat.one_mul, Nat.add_sub_cancel]
      rw [slice_append_right _ _ _ _ (by rw [hx, Nat.add_mul]; omega), hoff,
        ih (fun y hy => h y (by simp [hy])) (by simpa using hj)]
      rfl

/-- `memcpy` into a buffer at an offset. -/
def writeAt (buf : Bytes) (off : Nat) (bs : Bytes) : Bytes :=
  buf.take off ++ bs ++ buf.drop (off + bs.length)

theorem writeAt_take (buf : Bytes) (off : Nat) (bs : Bytes) (h : off ≤ buf.length) :
    (writeAt buf off bs).take (off + bs.length) = buf.take off ++ bs := by
  have hl : (buf.take off ++ bs).length = off + bs.length := by simp [h]
  rw [writeAt, ← hl, List.take_left]

theorem writeAt_length (buf : Bytes) (off : Nat) (bs : Bytes) (h : off + bs.length ≤ buf.length) :
    (writeAt buf off bs).length = buf.length := by
  simp [writeAt]
  omega

theorem writeAt_end (buf bs : Bytes) : writeAt buf buf.length bs = buf ++ bs := by
  simp [writeAt]

@[simp] theorem writeAt_nil (bs : Bytes) : writeAt [] 0 bs = bs := by simp [writeAt]

end Lib
