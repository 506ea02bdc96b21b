import Mathlib.Data.List.TakeWhile
import ZephyrDB.Lib.LittleEndian

/-!
Zero-padded decimal printing (`%0Nu`) and width-limited scanning (`%Nu`).
Printing pads to at least the width; scanning reads at most the width, skips
leading white space and accepts a sign. The two are inverse on the numbers
that fit the width, and only there.
-/

set_option autoImplicit false

namespace Lib

def isDigit (c : UInt8) : Bool := 48 ≤ c && c ≤ 57

/-- `isspace` in the C locale. -/
def isSpace (c : UInt8) : Bool := c = 32 || (9 ≤ c && c ≤ 13)

def digitChar (d : Nat) : UInt8 := UInt8.ofNat (48 + d)

def digitVal (c : UInt8) : Nat := c.toNat - 48

/-- Decimal digits, most significant first, with enough fuel for `n + 1` of them. -/
def decDigits : Nat → Nat → Bytes
  | 0, _ => []
  | fuel + 1, n => if n < 10 then [digitChar n] else decDigits fuel (n / 10) ++ [digitChar (n % 10)]

def decimal (n : Nat) : Bytes := decDigits (n + 1) n

/-- `snprintf("%0<width>u")`. -/
def printPadded (width n : Nat) : Bytes :=
  List.replicate (width - (decimal n).length) 48 ++ decimal n

def decValue (ds : Bytes) : Nat := ds.foldl (fun acc c => 10 * acc + digitVal c) 0

def scanRun (width : Nat) (bs : Bytes) : Option Nat :=
  match (bs.take width).takeWhile isDigit with
  | [] => none
  | d :: ds => some (decValue (d :: ds))

/-- `sscanf("%<width>u")` into a 32-bit unsigned: the sign counts towards the width. -/
def scanUnsigned (width : Nat) (bs : Bytes) : Option Nat :=
  match bs.dropWhile isSpace with
  | 45 :: rest => (scanRun (width - 1) rest).map fun v => (2 ^ 32 - v) % 2 ^ 32
  | 43 :: rest => scanRun (width - 1) rest
  | rest => scanRun width rest

theorem digitChar_isDigit {d : Nat} (h : d < 10) : isDigit (digitChar d) = true := by
  revert d; decide

theorem digitVal_digitChar {d : Nat} (h : d < 10) : digitVal (digitChar d) = d := by
  revert d; decide

theorem isDigit_not_space {c : UInt8} (h : isDigit c = true) : isSpace c = false := by
  simp only [isDigit, isSpace, Bool.and_eq_true, decide_eq_true_eq, UInt8.le_iff_toNat_le,
    Bool.or_eq_false_iff, decide_eq_false_iff_not, Bool.and_eq_false_iff] at h ⊢
  have h48 : (48 : UInt8).toNat = 48 := rfl
  have h13 : (13 : UInt8).toNat = 13 := rfl
  refine ⟨?_, Or.inr (by omega)⟩
  rintro rfl
  have h32 : (32 : UInt8).toNat = 32 := rfl
  omega

theorem decDigits_digits (fuel n : Nat) : ∀ c ∈ decDigits fuel n, isDigit c = true := by
  induction fuel generalizing n with
  | zero => simp [decDigits]
  | succ fuel ih =>
    intro c hc
    rw [decDigits] at hc
    split at hc
    · rename_i hn
      rw [List.mem_singleton] at hc
      exact hc ▸ digitChar_isDigit hn
    · rcases List.mem_append.mp hc with hc | hc
      · exact ih _ c hc
      · rw [List.mem_singleton] at hc
        exact hc ▸ digitChar_isDigit (Nat.mod_lt _ (by decide))

theorem decValue_append (xs : Bytes) (c : UInt8) :
    decValue (xs ++ [c]) = 10 * decValue xs + digitVal c := by
  simp [decValue]

theorem decValue_decDigits {fuel n : Nat} (h : n < fuel) : decValue (decDigits fuel n) = n := by
  induction fuel generalizing n with
  | zero => omega
  | succ fuel ih =>
    rw [decDigits]
    split
    · rename_i hn
      simp [decValue, digitVal_digitChar hn]
    · rw [decValue_append, ih (by omega), digitVal_digitChar (Nat.mod_lt _ (by decide))]
      omega

theorem decDigits_ne_nil {fuel n : Nat} (h : n < fuel) : decDigits fuel n ≠ [] := by
  cases fuel with
  | zero => omega
  | succ fuel => rw [decDigits]; split <;> simp

theorem decDigits_length_le {k fuel n : Nat} (hk : 0 < k) (h : n < 10 ^ k) :
    (decDigits fuel n).length ≤ k := by
  induction fuel generalizing k n with
  | zero => simp [decDigits]
  | succ fuel ih =>
    rw [decDigits]
    split
    · simp only [List.length_singleton]; omega
    · rename_i hn
      obtain ⟨j, rfl⟩ : ∃ j, k = j + 1 := ⟨k - 1, by omega⟩
      rw [Nat.pow_succ] at h
      have hj : 0 < j := by
        rcases Nat.eq_zero_or_pos j with rfl | hj
        · simp at h; omega
        · exact hj
      have := ih hj (by omega : n / 10 < 10 ^ j)
      simp only [List.length_append, List.length_singleton]
      omega

theorem printPadded_digits (width n : Nat) : ∀ c ∈ printPadded width n, isDigit c = true := by
  intro c hc
  rcases List.mem_append.mp hc with hc | hc
  · rw [List.eq_of_mem_replicate hc]; decide
  · exact decDigits_digits _ _ c hc

theorem decValue_replicate_zero (k : Nat) (ds : Bytes) :
    decValue (List.replicate k 48 ++ ds) = decValue ds := by
  induction k with
  | zero => rfl
  | succ k ih =>
    rw [List.replicate_succ, List.cons_append, ← ih]
    simp [decValue, digitVal]

theorem decValue_printPadded (width n : Nat) : decValue (printPadded width n) = n := by
  rw [printPadded, decValue_replicate_zero, decimal, decValue_decDigits (by omega)]

theorem printPadded_injective {width a b : Nat} (h : printPadded width a = printPadded width b) :
    a = b := by
  rw [← decValue_printPadded width a, h, decValue_printPadded]

theorem printPadded_ne_nil (width n : Nat) : printPadded width n ≠ [] := by
  simp [printPadded, decimal, decDigits_ne_nil]

theorem printPadded_length {width n : Nat} (hw : 0 < width) (h : n < 10 ^ width) :
    (printPadded width n).length = width := by
  have := @decDigits_length_le _ (n + 1) _ hw h
  simp only [printPadded, decimal, List.length_append, List.length_replicate]
  omega

theorem scanUnsigned_digit {width : Nat} {c : UInt8} (h : isDigit c = true) (rest : Bytes) :
    scanUnsigned width (c :: rest) = scanRun width (c :: rest) := by
  have hs : (c :: rest).dropWhile isSpace = c :: rest := by
    rw [List.dropWhile_cons, isDigit_not_space h]; rfl
  have h45 : c ≠ 45 := by rintro rfl; simp [isDigit] at h
  have h43 : c ≠ 43 := by rintro rfl; simp [isDigit] at h
  unfold scanUnsigned
  rw [hs]
  split
  · rename_i heq; exact absurd (List.cons.inj heq).1 h45
  · rename_i heq; exact absurd (List.cons.inj heq).1 h43
  · rfl

theorem digitVal_lt {c : UInt8} (h : isDigit c = true) : digitVal c < 10 := by
  simp only [isDigit, Bool.and_eq_true, decide_eq_true_eq, UInt8.le_iff_toNat_le] at h
  have h57 : c.toNat ≤ 57 := h.2
  unfold digitVal
  omega

theorem decValue_lt {ds : Bytes} (h : ∀ c ∈ ds, isDigit c = true) : decValue ds < 10 ^ ds.length := by
  suffices hacc : ∀ acc, ds.foldl (fun acc c => 10 * acc + digitVal c) acc < (acc + 1) * 10 ^ ds.length by
    simpa [decValue] using hacc 0
  induction ds with
  | nil => simp
  | cons c ds ih =>
    intro acc
    have hc := digitVal_lt (h c (by simp))
    have hrest := ih (fun d hd => h d (by simp [hd])) (10 * acc + digitVal c)
    rw [List.foldl_cons, List.length_cons, Nat.pow_succ]
    apply hrest.trans_le
    calc (10 * acc + digitVal c + 1) * 10 ^ ds.length
        ≤ ((acc + 1) * 10) * 10 ^ ds.length := Nat.mul_le_mul_right _ (by omega)
      _ = (acc + 1) * (10 ^ ds.length * 10) := by rw [Nat.mul_assoc, Nat.mul_comm 10]

theorem scanRun_lt {width v : Nat} {bs : Bytes} (h : scanRun width bs = some v) : v < 10 ^ width := by
  unfold scanRun at h
  split at h
  · cases h
  · rename_i d ds heq
    have hd : ∀ c ∈ d :: ds, isDigit c = true := by
      intro c hc
      rw [← heq] at hc
      exact List.mem_takeWhile_imp hc
    have hlen : (d :: ds).length ≤ width := by
      rw [← heq]
      exact (List.takeWhile_prefix _).length_le.trans (List.length_take_le _ _)
    cases h
    exact (decValue_lt hd).trans_le (Nat.pow_le_pow_right (by decide) hlen)

theorem scan_printPadded {width n : Nat} (hw : 0 < width) (h : n < 10 ^ width) (rest : Bytes) :
    scanUnsigned width (printPadded width n ++ rest) = some n := by
  have hl := printPadded_length hw h
  have hd := printPadded_digits width n
  have hv := decValue_printPadded width n
  generalize printPadded width n = ds at hl hd hv
  cases ds with
  | nil => simp at hl; omega
  | cons d ds =>
    rw [List.cons_append, scanUnsigned_digit (hd d (by simp)), scanRun, ← List.cons_append,
      ← hl, List.take_left, List.takeWhile_eq_self_iff.mpr hd]
    simp [hv]

/-- A character that is neither digit, sign nor space ends the scan, so what follows it
cannot turn a failed scan into a successful one or the reverse. -/
theorem scan_stop {c : UInt8} (hd : isDigit c = false) (hs : isSpace c = false) (h45 : c ≠ 45)
    (h43 : c ≠ 43) (width : Nat) (xs rest : Bytes) :
    scanUnsigned width (xs ++ c :: rest) = scanUnsigned width xs := by
  have hrun : ∀ (w : Nat) (ys : Bytes), scanRun w (ys ++ c :: rest) = scanRun w ys := by
    intro w ys
    have ht : ((ys ++ c :: rest).take w).takeWhile isDigit = (ys.take w).takeWhile isDigit := by
      induction ys generalizing w with
      | nil => cases w <;> simp [hd]
      | cons y ys ih =>
        cases w with
        | zero => simp
        | succ w => simp only [List.cons_append, List.take_succ_cons, List.takeWhile_cons, ih]
    rw [scanRun, scanRun, ht]
  have hdrop : (xs ++ c :: rest).dropWhile isSpace = xs.dropWhile isSpace ++ c :: rest := by
    induction xs with
    | nil => simp [hs]
    | cons x xs ih =>
      simp only [List.cons_append, List.dropWhile_cons, ih]
      split <;> rfl
  unfold scanUnsigned
  rw [hdrop]
  generalize xs.dropWhile isSpace = ys
  match ys with
  | [] =>
    have := hrun width []
    simp only [List.nil_append] at this ⊢
    split
    · rename_i heq; exact absurd (List.cons.inj heq).1 h45
    · rename_i heq; exact absurd (List.cons.inj heq).1 h43
    · exact this
  | y :: ys =>
    by_cases hy : y = 45
    · subst hy; simp [hrun]
    · by_cases hy' : y = 43
      · subst hy'; simp [hrun]
      · have := hrun width (y :: ys)
        simp only [List.cons_append] at this ⊢
        split
        · rename_i heq; exact absurd (List.cons.inj heq).1 hy
        · rename_i heq; exact absurd (List.cons.inj heq).1 hy'
        · split
          · rename_i heq; exact absurd (List.cons.inj heq).1 hy
          · rename_i heq; exact absurd (List.cons.inj heq).1 hy'
          · exact this

/-- Five digits are printed in full and scanned back as their first four. -/
example : printPadded 4 10000 = [49, 48, 48, 48, 48] ∧
    scanUnsigned 4 (printPadded 4 10000) = some 1000 := by decide

end Lib
