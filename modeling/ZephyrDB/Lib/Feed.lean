import Mathlib.Data.List.TakeWhile

/-!
What a reader has ahead of it: a list of items, some of which a call steps over
and some of which it reports, one report a call.
-/

set_option autoImplicit false

namespace Lib

variable {ε α : Type}

/-- A list in stretches of `r` elements; the last one may be shorter. -/
def chunks (r : Nat) (xs : List α) : List (List α) :=
  if _h : r = 0 ∨ xs = [] then [] else xs.take r :: chunks r (xs.drop r)
termination_by xs.length
decreasing_by
  rw [not_or] at _h
  have hpos := List.length_pos_iff.mpr _h.2
  rw [List.length_drop]
  omega

@[simp] theorem chunks_nil (r : Nat) : chunks r ([] : List α) = [] := by
  rw [chunks, dif_pos (.inr rfl)]

theorem chunks_cons {r : Nat} (hr : 0 < r) {xs : List α} (hx : xs ≠ []) :
    chunks r xs = xs.take r :: chunks r (xs.drop r) := by
  rw [chunks, dif_neg (not_or.mpr ⟨Nat.pos_iff_ne_zero.mp hr, hx⟩)]

theorem chunks_append {r : Nat} (hr : 0 < r) {xs : List α} (hx : xs.length = r) (ys : List α) :
    chunks r (xs ++ ys) = xs :: chunks r ys := by
  have hne : xs ++ ys ≠ [] := by
    intro h
    rw [List.append_eq_nil_iff] at h
    rw [h.1] at hx
    exact Nat.pos_iff_ne_zero.mp hr hx.symm
  rw [chunks_cons hr hne, List.take_left' hx, List.drop_left' hx]

theorem chunks_snoc {r m : Nat} (hr : 0 < r) {xs : List α} (hx : (m + 1) * r ≤ xs.length) :
    chunks r (xs.take ((m + 1) * r)) = chunks r (xs.take (m * r)) ++ [(xs.drop (m * r)).take r] := by
  induction m generalizing xs with
  | zero =>
    have hlen : (xs.take r).length = r := by
      rw [List.length_take, Nat.min_eq_left (by simpa using hx)]
    have hone := chunks_append hr hlen []
    simp only [List.append_nil, chunks_nil] at hone
    simpa using hone
  | succ m ih =>
    have hsucc : ∀ n, (n + 1) * r = r + n * r := fun n => by rw [Nat.add_mul, Nat.one_mul, Nat.add_comm]
    have hhead : (xs.take r).length = r := by
      rw [List.length_take, Nat.min_eq_left]
      rw [hsucc] at hx
      omega
    have hsplit : ∀ n, xs.take (r + n) = xs.take r ++ (xs.drop r).take n := fun n => List.take_add
    have hrest : (m + 1) * r ≤ (xs.drop r).length := by
      rw [hsucc] at hx
      rw [List.length_drop]
      omega
    rw [hsucc (m + 1), hsplit, chunks_append hr hhead, ih hrest, hsucc m, hsplit, chunks_append hr hhead,
      List.cons_append, List.drop_drop]

theorem chunks_take {r : Nat} (hr : 0 < r) {n : Nat} {xs : List α} (h : n * r ≤ xs.length) :
    chunks r (xs.take (n * r)) = (chunks r xs).take n := by
  induction n generalizing xs with
  | zero => simp
  | succ n ih =>
    have hsucc : (n + 1) * r = r + n * r := by rw [Nat.add_mul, Nat.one_mul, Nat.add_comm]
    rw [hsucc] at h ⊢
    have hne : xs ≠ [] := List.length_pos_iff.mp (by omega)
    have hhead : (xs.take r).length = r := by
      rw [List.length_take, Nat.min_eq_left (by omega)]
    rw [List.take_add, chunks_append hr hhead, chunks_cons hr hne, List.take_succ_cons, ih (by
      rw [List.length_drop]
      omega)]

theorem chunks_append_mul {r n : Nat} (hr : 0 < r) {xs : List α} (hx : xs.length = n * r) (ys : List α) :
    chunks r (xs ++ ys) = chunks r xs ++ chunks r ys := by
  induction n generalizing xs with
  | zero =>
    rw [Nat.zero_mul, List.length_eq_zero_iff] at hx
    rw [hx, chunks_nil, List.nil_append, List.nil_append]
  | succ n ih =>
    rw [Nat.succ_mul] at hx
    have hhead : (xs.take r).length = r := by
      rw [List.length_take]
      omega
    have hrest : (xs.drop r).length = n * r := by
      rw [List.length_drop]
      omega
    have hsplit : ∀ zs, chunks r (xs.take r ++ zs) = xs.take r :: chunks r zs := chunks_append hr hhead
    rw [← List.take_append_drop r xs, List.append_assoc, hsplit, hsplit, ih hrest, List.cons_append]

theorem chunks_range {r n : Nat} (hr : 0 < r) {xs : List α} (h : n * r ≤ xs.length) :
    chunks r (xs.take (n * r)) = (List.range n).map fun j => (xs.drop (j * r)).take r := by
  induction n with
  | zero => simp
  | succ n ih =>
    have hle : n * r ≤ xs.length := (Nat.mul_le_mul_right r n.le_succ).trans h
    rw [chunks_snoc hr h, ih hle, List.range_succ, List.map_append]
    rfl

theorem length_of_mem_chunks {r n : Nat} (hr : 0 < r) {xs : List α} (hx : xs.length = n * r) :
    ∀ c ∈ chunks r xs, c.length = r := by
  have hall := chunks_range hr hx.ge
  rw [← hx, List.take_length] at hall
  intro c hc
  rw [hall] at hc
  obtain ⟨j, hj, rfl⟩ := List.mem_map.mp hc
  have hend : (j + 1) * r ≤ n * r := Nat.mul_le_mul_right r (List.mem_range.mp hj)
  rw [Nat.succ_mul] at hend
  rw [List.length_take, List.length_drop]
  omega

theorem chunks_flatMap {β : Type} {r : Nat} (hr : 0 < r) {enc : β → List α} {xs : List β}
    (h : ∀ x ∈ xs, (enc x).length = r) : chunks r (xs.flatMap enc) = xs.map enc := by
  induction xs with
  | nil => simp
  | cons x xs ih =>
    rw [List.flatMap_cons, chunks_append hr (h x List.mem_cons_self), List.map_cons,
      ih fun y hy => h y (List.mem_cons_of_mem x hy)]

theorem chunks_exact {r n : Nat} (hr : 0 < r) {xs : List α} (hlen : xs.length = n * r) :
    (chunks r xs).length = n ∧ ∀ raw ∈ chunks r xs, raw.length = r := by
  induction n generalizing xs with
  | zero =>
    rw [Nat.zero_mul] at hlen
    rw [List.length_eq_zero_iff.mp hlen, chunks_nil]
    exact ⟨rfl, fun _ hraw => nomatch hraw⟩
  | succ n ih =>
    rw [Nat.succ_mul] at hlen
    have hne : xs ≠ [] := by
      rintro rfl
      rw [List.length_nil] at hlen
      omega
    obtain ⟨hcount, heach⟩ := @ih (xs.drop r) (by rw [List.length_drop]; omega)
    rw [chunks_cons hr hne, List.length_cons, hcount]
    refine ⟨rfl, fun raw hraw => ?_⟩
    rcases List.mem_cons.mp hraw with rfl | hraw
    · rw [List.length_take]
      omega
    · exact heach raw hraw

theorem length_chunks_le {r : Nat} (xs : List α) : (chunks r xs).length ≤ xs.length := by
  fun_induction chunks r xs with
  | case1 xs h => exact Nat.zero_le _
  | case2 xs h ih =>
    rw [not_or] at h
    have hpos := List.length_pos_iff.mpr h.2
    rw [List.length_drop] at ih
    rw [List.length_cons]
    omega

/-- Something to step over, something that fails the call that meets it, or something to hand out. -/
abbrev Item (ε α : Type) := Option (Except ε α)

def report (pass : α → Bool) : Item ε α → Option (Except ε α)
  | none => none
  | some (.error r) => some (.error r)
  | some (.ok a) => if pass a then some (.ok a) else none

def reports (pass : α → Bool) (items : List (Item ε α)) : List (Except ε α) := items.filterMap (report pass)

def firstReport (pass : α → Bool) : List (Item ε α) → Option (Except ε α × List (Item ε α))
  | [] => none
  | item :: rest =>
    match report pass item with
    | some r => some (r, rest)
    | none => firstReport pass rest

/-- What `n` calls report that have these reports to make and `stop` when there are no more. -/
def callsOver (stop : ε) : List (Except ε α) → Nat → List (Except ε α)
  | _, 0 => []
  | [], n + 1 => .error stop :: callsOver stop [] n
  | r :: rs, n + 1 => r :: callsOver stop rs n

section Reports
variable {pass : α → Bool}

theorem reports_of_first {items rest : List (Item ε α)} {r : Except ε α} (h : firstReport pass items = some (r, rest)) :
    reports pass items = r :: reports pass rest := by
  induction items with
  | nil => cases h
  | cons item items ih =>
    unfold firstReport at h
    split at h
    · rename_i r' hr
      cases h
      rw [reports, List.filterMap_cons_some hr]
      rfl
    · rename_i hr
      rw [reports, List.filterMap_cons_none hr]
      exact ih h

theorem reports_of_none {items : List (Item ε α)} (h : firstReport pass items = none) : reports pass items = [] := by
  induction items with
  | nil => rfl
  | cons item items ih =>
    unfold firstReport at h
    split at h
    · cases h
    · rename_i hr
      rw [reports, List.filterMap_cons_none hr]
      exact ih h

def foundItem (x : α) : Item ε α := some (.ok x)

theorem reports_items (xs : List α) : reports pass (xs.map (foundItem (ε := ε))) = (xs.filter pass).map .ok := by
  induction xs with
  | nil => rfl
  | cons x xs ih =>
    rw [List.map_cons, reports, List.filterMap_cons, List.filter_cons]
    by_cases hx : pass x = true
    · rw [if_pos hx, List.map_cons, ← ih]
      simp [report, foundItem, hx, reports]
    · rw [if_neg hx, ← ih]
      simp [report, foundItem, hx, reports]

theorem firstReport_mem {items rest : List (Item ε α)} {r : Except ε α}
    (h : firstReport pass items = some (r, rest)) : ∃ front, items = front ++ some r :: rest := by
  induction items with
  | nil => cases h
  | cons item items ih =>
    unfold firstReport at h
    split at h
    · rename_i r' hr
      cases h
      refine ⟨[], ?_⟩
      cases item with
      | none => cases hr
      | some x =>
        cases x with
        | error e =>
          cases hr
          rfl
        | ok a =>
          rw [report] at hr
          split at hr
          · cases hr
            rfl
          · cases hr
    · obtain ⟨front, hfront⟩ := ih h
      exact ⟨item :: front, by rw [hfront]; rfl⟩

theorem firstReport_append {xs : List (Item ε α)} (ys : List (Item ε α)) :
    firstReport pass (xs ++ ys) =
      match firstReport pass xs with
      | some (r, rest) => some (r, rest ++ ys)
      | none => firstReport pass ys := by
  induction xs with
  | nil => rfl
  | cons item xs ih =>
    rw [List.cons_append, firstReport, firstReport]
    cases report pass item with
    | some r => rfl
    | none => exact ih

end Reports

def handed : List (Item ε α) → List α
  | [] => []
  | none :: items => handed items
  | some (.ok a) :: items => a :: handed items
  | some (.error _) :: _ => []

theorem handed_of_first {pass : α → Bool} (hall : ∀ a, pass a = true) (items : List (Item ε α)) :
    handed items = match firstReport pass items with
      | none => []
      | some (.ok a, rest) => a :: handed rest
      | some (.error _, _) => [] := by
  induction items with
  | nil => rfl
  | cons item items ih =>
    rw [firstReport]
    cases item with
    | none => exact ih
    | some r =>
      cases r with
      | error e => rfl
      | ok a =>
        rw [report, if_pos (hall a)]
        rfl

/-- The item is handed out. -/
def found : Item ε α → Bool
  | some (.ok _) => true
  | _ => false

theorem handed_split (items : List (Item ε α)) :
    handed items = handed (items.takeWhile found) ++ handed (items.dropWhile found) := by
  induction items with
  | nil => rfl
  | cons item items ih =>
    cases item with
    | none => rfl
    | some r =>
      cases r with
      | error e => rfl
      | ok a =>
        rw [List.takeWhile_cons_of_pos rfl, List.dropWhile_cons_of_pos rfl]
        exact congrArg (a :: ·) ih

def Failing (item : Item ε α) : Prop := ∃ r, item = some (.error r)

theorem handed_ne_nil_iff (items : List (Item ε α)) :
    handed items ≠ [] ↔ ∃ (j : Nat) (a : α), items[j]? = some (some (.ok a)) ∧
      ∀ l < j, ∀ item : Item ε α, items[l]? = some item → ¬ Failing item := by
  induction items with
  | nil =>
    constructor
    · exact fun h => absurd rfl h
    · rintro ⟨j, a, hj, -⟩
      cases hj
  | cons item items ih =>
    cases item with
    | none =>
      rw [show handed ((none : Item ε α) :: items) = handed items from rfl, ih]
      constructor
      · rintro ⟨j, a, hj, hbefore⟩
        refine ⟨j + 1, a, hj, fun l hl item hitem => ?_⟩
        cases l with
        | zero =>
          cases hitem
          rintro ⟨r, hr⟩
          cases hr
        | succ l => exact hbefore l (Nat.lt_of_succ_lt_succ hl) item hitem
      · rintro ⟨j, a, hj, hbefore⟩
        cases j with
        | zero => cases hj
        | succ j => exact ⟨j, a, hj, fun l hl item hitem => hbefore (l + 1) (Nat.succ_lt_succ hl) item hitem⟩
    | some r =>
      cases r with
      | ok a => exact ⟨fun _ => ⟨0, a, rfl, fun _ hl => absurd hl (Nat.not_lt_zero _)⟩, fun _ => List.cons_ne_nil _ _⟩
      | error e =>
        constructor
        · exact fun h => absurd rfl h
        · rintro ⟨j, a, hj, hbefore⟩
          cases j with
          | zero => cases hj
          | succ j => exact absurd ⟨e, rfl⟩ (hbefore 0 (Nat.succ_pos _) _ rfl)

def HandedBehind (items : List (Item ε α)) : Prop :=
  ∃ (i j : Nat) (a : α), i < j ∧ items[i]? = some none ∧ items[j]? = some (some (.ok a)) ∧
    ∀ l < j, ∀ item : Item ε α, items[l]? = some item → ¬ Failing item

theorem handedBehind_found (a : α) (items : List (Item ε α)) :
    HandedBehind (some (.ok a) :: items) ↔ HandedBehind items := by
  constructor
  · rintro ⟨i, j, b, hij, hi, hj, hbefore⟩
    cases i with
    | zero => cases hi
    | succ i =>
      cases j with
      | zero => cases hij
      | succ j =>
        exact ⟨i, j, b, Nat.lt_of_succ_lt_succ hij, hi, hj, fun l hl item hitem =>
          hbefore (l + 1) (Nat.succ_lt_succ hl) item hitem⟩
  · rintro ⟨i, j, b, hij, hi, hj, hbefore⟩
    refine ⟨i + 1, j + 1, b, Nat.succ_lt_succ hij, hi, hj, fun l hl item hitem => ?_⟩
    cases l with
    | zero =>
      cases hitem
      rintro ⟨r, hr⟩
      cases hr
    | succ l => exact hbefore l (Nat.lt_of_succ_lt_succ hl) item hitem

/-- What follows the items that are handed out from the front hands out nothing more, unless it begins with one
that is stepped over. -/
theorem handed_behind_iff (items : List (Item ε α)) :
    handed (items.dropWhile found) ≠ [] ↔ HandedBehind items := by
  induction items with
  | nil => exact ⟨fun h => absurd rfl h, fun ⟨_, _, _, _, hi, _⟩ => nomatch hi⟩
  | cons item items ih =>
    cases item with
    | none =>
      rw [List.dropWhile_cons_of_neg (by exact Bool.false_ne_true), handed_ne_nil_iff]
      constructor
      · rintro ⟨j, a, hj, hbefore⟩
        cases j with
        | zero => cases hj
        | succ j => exact ⟨0, j + 1, a, Nat.succ_pos j, rfl, hj, hbefore⟩
      · rintro ⟨i, j, a, -, -, hj, hbefore⟩
        exact ⟨j, a, hj, hbefore⟩
    | some r =>
      cases r with
      | ok a => rw [List.dropWhile_cons_of_pos rfl, ih, handedBehind_found]
      | error e =>
        constructor
        · exact fun h => absurd rfl h
        · rintro ⟨i, j, a, hij, -, -, hbefore⟩
          exact absurd ⟨e, rfl⟩ (hbefore 0 (by omega) _ rfl)

end Lib
