import Mathlib.Data.List.Basic

/-!
A log kept as segments behind a staging buffer.

Items enter the buffer, are written to the newest segment together, and stay
there. A segment has a format that every item in it fits; a new segment may
choose another. The oldest segments may be given up, and only whole ones:
`gone` is what was in them and `kept` is the rest, which is always a suffix of
`all` that was ever pushed.
-/

set_option autoImplicit false

namespace Lib

variable {φ α : Type}

/-- Items of one format; one that does not fit cannot be in it. -/
structure Seg (fits : φ → α → Prop) where
  format : φ
  items : List α
  ok : ∀ x ∈ items, fits format x

/-- `past` counts from segment 0, those given up included; segments from `lo` on are retained. -/
structure SegLog (fits : φ → α → Prop) where
  past : List (Seg fits)
  cur : Seg fits
  lo : Nat
  buf : List α
  lo_le : lo ≤ past.length
  buf_ok : ∀ x ∈ buf, fits cur.format x

namespace SegLog

variable {fits : φ → α → Prop}

def seg (L : SegLog fits) (k : Nat) : Seg fits := L.past.getD k L.cur

def all (L : SegLog fits) : List α := L.past.flatMap Seg.items ++ (L.cur.items ++ L.buf)

def gone (L : SegLog fits) : List α := (L.past.take L.lo).flatMap Seg.items

def kept (L : SegLog fits) : List α := (L.past.drop L.lo).flatMap Seg.items ++ (L.cur.items ++ L.buf)

/-- The retained items without the buffered ones. -/
def stored (L : SegLog fits) : List α := (L.past.drop L.lo).flatMap Seg.items ++ L.cur.items

def empty (f : φ) : SegLog fits := ⟨[], ⟨f, [], by simp⟩, 0, [], Nat.le_refl 0, by simp⟩

/-- Move the buffer to the newest segment. -/
def write (L : SegLog fits) : SegLog fits where
  past := L.past
  cur := ⟨L.cur.format, L.cur.items ++ L.buf, by
    intro x hx
    rcases List.mem_append.mp hx with h | h
    · exact L.cur.ok x h
    · exact L.buf_ok x h⟩
  lo := L.lo
  buf := []
  lo_le := L.lo_le
  buf_ok := by simp

/-- Seal the newest segment and retain those from `lo` on. -/
def start (L : SegLog fits) (f : φ) (lo : Nat) (h : lo ≤ L.past.length) : SegLog fits where
  past := L.past ++ [L.cur]
  cur := ⟨f, [], by simp⟩
  lo := lo
  buf := []
  lo_le := by simp; omega
  buf_ok := by simp

/-- Give up the segments below `lo`. -/
def advance (L : SegLog fits) (lo : Nat) (h : lo ≤ L.past.length) : SegLog fits where
  past := L.past
  cur := L.cur
  lo := lo
  buf := L.buf
  lo_le := h
  buf_ok := L.buf_ok

def lose (L : SegLog fits) : SegLog fits where
  past := L.past
  cur := L.cur
  lo := L.lo
  buf := []
  lo_le := L.lo_le
  buf_ok := by simp

def push (L : SegLog fits) (x : α) (h : fits L.cur.format x) : SegLog fits where
  past := L.past
  cur := L.cur
  lo := L.lo
  buf := L.buf ++ [x]
  lo_le := L.lo_le
  buf_ok := by
    intro y hy
    rcases List.mem_append.mp hy with hy | hy
    · exact L.buf_ok y hy
    · rw [List.mem_singleton.mp hy]; exact h

@[simp] theorem write_buf (L : SegLog fits) : L.write.buf = [] := rfl
@[simp] theorem write_past (L : SegLog fits) : L.write.past = L.past := rfl
@[simp] theorem write_lo (L : SegLog fits) : L.write.lo = L.lo := rfl
@[simp] theorem write_format (L : SegLog fits) : L.write.cur.format = L.cur.format := rfl
@[simp] theorem write_items (L : SegLog fits) : L.write.cur.items = L.cur.items ++ L.buf := rfl
@[simp] theorem start_buf (L : SegLog fits) (f : φ) (lo : Nat) (h : lo ≤ L.past.length) :
    (L.start f lo h).buf = [] := rfl
@[simp] theorem start_past (L : SegLog fits) (f : φ) (lo : Nat) (h : lo ≤ L.past.length) :
    (L.start f lo h).past = L.past ++ [L.cur] := rfl
@[simp] theorem start_lo (L : SegLog fits) (f : φ) (lo : Nat) (h : lo ≤ L.past.length) :
    (L.start f lo h).lo = lo := rfl
@[simp] theorem start_format (L : SegLog fits) (f : φ) (lo : Nat) (h : lo ≤ L.past.length) :
    (L.start f lo h).cur.format = f := rfl
@[simp] theorem start_items (L : SegLog fits) (f : φ) (lo : Nat) (h : lo ≤ L.past.length) :
    (L.start f lo h).cur.items = [] := rfl
@[simp] theorem advance_buf (L : SegLog fits) (lo : Nat) (h : lo ≤ L.past.length) :
    (L.advance lo h).buf = L.buf := rfl
@[simp] theorem advance_past (L : SegLog fits) (lo : Nat) (h : lo ≤ L.past.length) :
    (L.advance lo h).past = L.past := rfl
@[simp] theorem advance_cur (L : SegLog fits) (lo : Nat) (h : lo ≤ L.past.length) :
    (L.advance lo h).cur = L.cur := rfl
@[simp] theorem advance_lo (L : SegLog fits) (lo : Nat) (h : lo ≤ L.past.length) :
    (L.advance lo h).lo = lo := rfl
@[simp] theorem lose_buf (L : SegLog fits) : L.lose.buf = [] := rfl
@[simp] theorem lose_past (L : SegLog fits) : L.lose.past = L.past := rfl
@[simp] theorem lose_cur (L : SegLog fits) : L.lose.cur = L.cur := rfl
@[simp] theorem lose_lo (L : SegLog fits) : L.lose.lo = L.lo := rfl
@[simp] theorem push_buf (L : SegLog fits) (x : α) (h : fits L.cur.format x) :
    (L.push x h).buf = L.buf ++ [x] := rfl
@[simp] theorem push_past (L : SegLog fits) (x : α) (h : fits L.cur.format x) :
    (L.push x h).past = L.past := rfl
@[simp] theorem push_lo (L : SegLog fits) (x : α) (h : fits L.cur.format x) :
    (L.push x h).lo = L.lo := rfl
@[simp] theorem push_cur (L : SegLog fits) (x : α) (h : fits L.cur.format x) :
    (L.push x h).cur = L.cur := rfl

theorem seg_past (L : SegLog fits) {k : Nat} (h : k < L.past.length) : L.seg k = L.past[k] := by
  simp [seg, h]

theorem seg_cur (L : SegLog fits) : L.seg L.past.length = L.cur := by
  simp [seg]

theorem seg_start (L : SegLog fits) (f : φ) (lo : Nat) (h : lo ≤ L.past.length) {k : Nat}
    (hk : k ≤ L.past.length) : (L.start f lo h).seg k = L.seg k := by
  rcases Nat.lt_or_eq_of_le hk with hk | rfl
  · rw [seg_past _ (by simp; omega), seg_past L hk]
    simp [hk]
  · rw [seg_past _ (by simp), seg_cur]
    simp

theorem seg_write_past (L : SegLog fits) {k : Nat} (hk : k < L.past.length) :
    L.write.seg k = L.seg k := by
  rw [seg_past _ (by simpa using hk), seg_past L hk]
  rfl

@[simp] theorem all_write (L : SegLog fits) : L.write.all = L.all := by simp [all]

@[simp] theorem all_push (L : SegLog fits) (x : α) (h : fits L.cur.format x) :
    (L.push x h).all = L.all ++ [x] := by
  simp [all]

theorem all_start (L : SegLog fits) (f : φ) (lo : Nat) (h : lo ≤ L.past.length) (hb : L.buf = []) :
    (L.start f lo h).all = L.all := by
  simp [all, hb]

theorem gone_append_kept (L : SegLog fits) : L.gone ++ L.kept = L.all := by
  unfold gone kept all
  rw [← List.append_assoc, ← List.flatMap_append, List.take_append_drop]

end SegLog

end Lib
