import Mathlib.Data.List.Nodup

/-!
A walk along a list by position, while elements are appended and erased: which
elements it has come past, and which stay in the list for as long as it lasts.
-/

set_option autoImplicit false

namespace Lib

variable {α : Type}

/-- The list, the position of the walk, the elements it has handed out, and those that have stayed. -/
structure Walk (α : Type) where
  items : List α
  position : Nat
  seen : List α
  stays : α → Prop

/-- Nothing is handed out twice, and what stays is handed out or still ahead. -/
structure Walk.Exact (w : Walk α) : Prop where
  nodup : w.items.Nodup
  once : w.seen.Nodup
  behind : ∀ a ∈ w.seen, a ∉ w.items.drop w.position
  reached : ∀ a, w.stays a → a ∈ w.seen ∨ a ∈ w.items.drop w.position

theorem mem_drop_split {l : List α} {a : α} {m n : Nat} (h : a ∈ l.drop m) :
    a ∈ l.drop n ∨ ∃ j, m ≤ j ∧ j < n ∧ l[j]? = some a := by
  obtain ⟨i, hi⟩ := List.mem_iff_getElem?.mp h
  rw [List.getElem?_drop] at hi
  by_cases hn : m + i < n
  · exact .inr ⟨m + i, Nat.le_add_right m i, hn, hi⟩
  · refine .inl (List.mem_iff_getElem?.mpr ⟨m + i - n, ?_⟩)
    rw [List.getElem?_drop, Nat.add_sub_cancel' (Nat.not_lt.mp hn)]
    exact hi

section Exact
variable {w : Walk α}

theorem Walk.Exact.mono (h : w.Exact) {stays : α → Prop} (hs : ∀ a, stays a → w.stays a) :
    ({ w with stays := stays } : Walk α).Exact :=
  ⟨h.nodup, h.once, h.behind, fun a ha => h.reached a (hs a ha)⟩

theorem Walk.Exact.skip (h : w.Exact) {n : Nat} (hn : w.position ≤ n)
    (hover : ∀ j a, w.position ≤ j → j < n → w.items[j]? = some a → ¬ w.stays a) :
    ({ w with position := n } : Walk α).Exact := by
  refine ⟨h.nodup, h.once, fun a ha hmem => h.behind a ha ?_, fun a ha => ?_⟩
  · exact (List.drop_sublist_drop_left w.items hn).subset hmem
  · rcases h.reached a ha with hseen | hahead
    · exact .inl hseen
    · refine .inr ((mem_drop_split hahead).resolve_right ?_)
      rintro ⟨j, hj, hjn, hget⟩
      exact hover j a hj hjn hget ha

theorem Walk.Exact.take (h : w.Exact) {a : α} (ha : w.items[w.position]? = some a) :
    ({ w with position := w.position + 1, seen := w.seen ++ [a] } : Walk α).Exact := by
  have hdrop : w.items.drop w.position = a :: w.items.drop (w.position + 1) := by
    obtain ⟨hlt, rfl⟩ := List.getElem?_eq_some_iff.mp ha
    exact List.drop_eq_getElem_cons hlt
  have hnew : a ∉ w.seen := fun hmem => h.behind a hmem (by simp [hdrop])
  have hrest : (a :: w.items.drop (w.position + 1)).Nodup := hdrop ▸ (List.drop_sublist _ _).nodup h.nodup
  refine ⟨h.nodup, ?_, fun b hb hmem => ?_, fun b hb => ?_⟩
  · exact List.nodup_append'.mpr ⟨h.once, List.nodup_singleton a, by simpa using hnew⟩
  · rcases List.mem_append.mp hb with hb | hb
    · exact h.behind b hb (hdrop ▸ List.mem_cons_of_mem a hmem)
    · rw [List.mem_singleton.mp hb] at hmem
      exact (List.nodup_cons.mp hrest).1 hmem
  · rcases h.reached b hb with hseen | hahead
    · exact .inl (List.mem_append_left _ hseen)
    · rw [hdrop, List.mem_cons] at hahead
      rcases hahead with rfl | hahead
      · exact .inl (by simp)
      · exact .inr hahead

theorem Walk.Exact.append (h : w.Exact) {a : α} (hnew : a ∉ w.items) (hseen : a ∈ w.seen → w.items.length < w.position) :
    ({ w with items := w.items ++ [a] } : Walk α).Exact := by
  have hdrop : (w.items ++ [a]).drop w.position = w.items.drop w.position ++ [a].drop (w.position - w.items.length) :=
    List.drop_append
  refine ⟨?_, h.once, fun b hb hmem => ?_, fun b hb => ?_⟩
  · exact List.nodup_append'.mpr ⟨h.nodup, List.nodup_singleton a, by simpa using hnew⟩
  · rw [hdrop, List.mem_append] at hmem
    rcases hmem with hmem | hmem
    · exact h.behind b hb hmem
    · obtain rfl := List.mem_singleton.mp (List.mem_of_mem_drop hmem)
      have hpast := hseen hb
      rw [List.drop_eq_nil_of_le (by simp; omega)] at hmem
      cases hmem
  · rw [hdrop]
    exact (h.reached b hb).imp_right (List.mem_append_left _)

theorem Walk.Exact.erase (h : w.Exact) {i : Nat} {a : α} (hi : w.items[i]? = some a) (hgone : ¬ w.stays a)
    (hnext : i < w.position → ∀ b, w.items[w.position]? = some b → ¬ w.stays b) :
    ({ w with items := w.items.eraseIdx i } : Walk α).Exact := by
  have hsub : (w.items.eraseIdx i).Sublist w.items := List.eraseIdx_sublist _ _
  refine ⟨hsub.nodup h.nodup, h.once, fun b hb hmem => h.behind b hb ?_, fun b hb => ?_⟩
  · obtain ⟨j, hj⟩ := List.mem_iff_getElem?.mp hmem
    rw [List.getElem?_drop, List.getElem?_eraseIdx] at hj
    refine List.mem_iff_getElem?.mpr ?_
    split at hj
    · exact ⟨j, by rw [List.getElem?_drop]; exact hj⟩
    · exact ⟨j + 1, by rw [List.getElem?_drop]; exact hj⟩
  · rcases h.reached b hb with hseen | hahead
    · exact .inl hseen
    · refine .inr ?_
      obtain ⟨j, hj⟩ := List.mem_iff_getElem?.mp hahead
      rw [List.getElem?_drop] at hj
      refine List.mem_iff_getElem?.mpr ?_
      by_cases hbefore : w.position + j < i
      · exact ⟨j, by rw [List.getElem?_drop, List.getElem?_eraseIdx_of_lt hbefore]; exact hj⟩
      · -- the element itself has gone, and the next one of a walk that is past it does not stay
        have hne : w.position + j ≠ i := by
          intro heq
          rw [heq, hi] at hj
          obtain rfl := Option.some.inj hj
          exact hgone hb
        have hpos : j ≠ 0 := by
          rintro rfl
          exact hnext (by omega) b hj hb
        refine ⟨j - 1, ?_⟩
        have hstep : w.position + (j - 1) + 1 = w.position + j := by omega
        have hge : i ≤ w.position + (j - 1) := by omega
        rw [List.getElem?_drop, List.getElem?_eraseIdx_of_ge hge, hstep]
        exact hj

end Exact

end Lib
