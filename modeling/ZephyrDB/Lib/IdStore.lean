import Mathlib.Data.List.Chain
import Mathlib.Logic.Function.Basic
import ZephyrDB.Lib.LittleEndian
import ZephyrDB.Lib.FileSystem

/-!
A store of byte strings under numeric ids, behind operations that may fail.

Each operation either does its work or fails with an error and leaves the store
alone; whether it fails may depend on how often it was made before. A write of
the bytes that are already stored may report that it moved none.
-/

set_option autoImplicit false

namespace Lib

/-- A read, a write or a delete of one record. -/
inductive IdOp where
  | read (id : UInt32)
  | write (id : UInt32)
  | delete (id : UInt32)
  deriving DecidableEq

abbrev Cells := UInt32 → Option Bytes

structure IdStore where
  cells : Cells
  /-- Whether and how the operation fails when it is made for the n-th time. -/
  faults : IdOp → Nat → Option Errno
  /-- Whether the n-th write of an id reports zero where it finds its bytes stored already. -/
  terse : UInt32 → Nat → Bool
  /-- How often each operation has been made. -/
  made : IdOp → Nat
  /-- The contents before each change, latest first. -/
  past : List Cells

namespace IdStore

/-- An empty store, of which this becomes of the operations. -/
def blank (faults : IdOp → Nat → Option Errno) : IdStore where
  cells _ := none
  faults := faults
  terse _ _ := false
  made _ := 0
  past := []

/-- Whether and how the operation fails when it is made now. -/
def fault (s : IdStore) (op : IdOp) : Option Errno := s.faults op (s.made op)

def count (s : IdStore) (op : IdOp) : IdStore :=
  { s with made := Function.update s.made op (s.made op + 1) }

theorem made_count_of_ne (s : IdStore) {op op' : IdOp} (h : op' ≠ op) : (s.count op).made op' = s.made op' :=
  Function.update_of_ne h _ _

theorem made_le_count (s : IdStore) (op op' : IdOp) : s.made op' ≤ (s.count op).made op' := by
  by_cases h : op' = op
  · subst h
    simp [count]
  · exact (made_count_of_ne s h).ge

def put (s : IdStore) (id : UInt32) (bs : Option Bytes) : IdStore :=
  { s with cells := Function.update s.cells id bs, past := s.cells :: s.past }

/-- No operation fails. -/
def Sound (s : IdStore) : Prop := ∀ op n, s.faults op n = none

/-- No read and no write fails; a delete may. -/
def Answers (s : IdStore) : Prop := ∀ id n, s.faults (.read id) n = none ∧ s.faults (.write id) n = none

theorem Sound.answers {s : IdStore} (h : s.Sound) : s.Answers := fun _ n => ⟨h _ n, h _ n⟩

theorem Answers.read {s : IdStore} (h : s.Answers) (id : UInt32) : s.fault (.read id) = none := (h id _).1

theorem Answers.write {s : IdStore} (h : s.Answers) (id : UInt32) : s.fault (.write id) = none := (h id _).2

/-- Read a record: its full length, and as much of it as `capacity` holds. -/
def read (id : UInt32) (capacity : Nat) : EStateM Errno IdStore (Nat × Bytes) := fun s =>
  match s.fault (.read id) with
  | some err => .error err (s.count (.read id))
  | none =>
    match s.cells id with
    | none => .error .ENOENT (s.count (.read id))
    | some bs => .ok (bs.length, bs.take capacity) (s.count (.read id))

/-- Write a record and report how many bytes were moved. -/
def write (id : UInt32) (bs : Bytes) : EStateM Errno IdStore Nat := fun s =>
  match s.fault (.write id) with
  | some err => .error err (s.count (.write id))
  | none =>
    if s.cells id = some bs ∧ s.terse id (s.made (.write id)) = true then .ok 0 (s.count (.write id))
    else .ok bs.length ((s.count (.write id)).put id (some bs))

/-- Delete a record, present or not. -/
def delete (id : UInt32) : EStateM Errno IdStore Unit := fun s =>
  match s.fault (.delete id) with
  | some err => .error err (s.count (.delete id))
  | none => .ok () ((s.count (.delete id)).put id none)

section Op
variable (s : IdStore) (id : UInt32)

@[simp] theorem post_read (capacity : Nat) : post (read id capacity) s = s.count (.read id) := by
  unfold post EStateM.run read
  cases s.fault (.read id) with
  | some err => rfl
  | none => cases s.cells id <;> rfl

theorem outcome_read (capacity : Nat) : outcome (read id capacity) s =
    match s.fault (.read id) with
    | some err => .error err
    | none => ((s.cells id).map fun bs => (bs.length, bs.take capacity)).elim (.error .ENOENT) .ok := by
  unfold outcome EStateM.run read
  cases s.fault (.read id) with
  | some err => rfl
  | none => cases s.cells id <;> rfl

theorem write_refused {err : Errno} (h : s.fault (.write id) = some err) (bs : Bytes) :
    (write id bs).run s = .error err (s.count (.write id)) := by
  show write id bs s = _
  simp only [write, h]

theorem write_accepted (h : s.fault (.write id) = none) (bs : Bytes) :
    ∃ n t, (write id bs).run s = .ok n t ∧ t.cells = Function.update s.cells id (some bs) ∧
      t.faults = s.faults ∧ t.terse = s.terse ∧ t.made = (s.count (.write id)).made ∧
      (t.past = s.past ∧ t.cells = s.cells ∨ t.past = s.cells :: s.past) ∧
      (n = bs.length ∨ (n = 0 ∧ s.cells id = some bs)) := by
  by_cases hsame : s.cells id = some bs ∧ s.terse id (s.made (.write id)) = true
  · refine ⟨0, s.count (.write id), ?_, ?_, rfl, rfl, rfl, .inl ⟨rfl, rfl⟩, .inr ⟨rfl, hsame.1⟩⟩
    · show write id bs s = _
      simp only [write, h, if_pos hsame]
    · rw [← hsame.1, Function.update_eq_self]
      rfl
  · refine ⟨bs.length, (s.count (.write id)).put id (some bs), ?_, rfl, rfl, rfl, rfl, .inr rfl, .inl rfl⟩
    show write id bs s = _
    simp only [write, h, if_neg hsame]

theorem made_delete_write (j : UInt32) (bs : Bytes) :
    (post (write id bs) s).made (.delete j) = s.made (.delete j) := by
  have hcount : (s.count (.write id)).made (.delete j) = s.made (.delete j) := made_count_of_ne s (by simp)
  cases h : s.fault (.write id) with
  | some err => rw [post_of_error (write_refused s id h bs), hcount]
  | none =>
    obtain ⟨n, t, hrun, -, -, -, hmade, -, -⟩ := write_accepted s id h bs
    rw [post_of_run hrun, hmade, hcount]

theorem delete_refused {err : Errno} (h : s.fault (.delete id) = some err) :
    (delete id).run s = .error err (s.count (.delete id)) := by
  show delete id s = _
  simp only [delete, h]

theorem delete_accepted (h : s.fault (.delete id) = none) :
    (delete id).run s = .ok () ((s.count (.delete id)).put id none) := by
  show delete id s = _
  simp only [delete, h]

end Op

/-- These cells, the same behaviour, and only contents that satisfy `P` on the way. -/
structure Leads (P : Cells → Prop) (s : IdStore) (cells : Cells) (t : IdStore) : Prop where
  cells : t.cells = cells
  passed : ∃ new, t.past = new ++ s.past ∧ ∀ c ∈ new, P c
  faults : t.faults = s.faults
  terse : t.terse = s.terse

section Leads
variable {P : Cells → Prop}

theorem Leads.refl (s : IdStore) : Leads P s s.cells s := ⟨rfl, ⟨[], rfl, by simp⟩, rfl, rfl⟩

theorem Leads.trans {s t u : IdStore} {c d : Cells} (h : Leads P s c t) (k : Leads P t d u) :
    Leads P s d u := by
  obtain ⟨old, hold, hp⟩ := h.passed
  obtain ⟨new, hnew, hq⟩ := k.passed
  refine ⟨k.cells, ⟨new ++ old, by rw [hnew, hold, List.append_assoc], ?_⟩, k.faults.trans h.faults,
    k.terse.trans h.terse⟩
  intro c hc
  rcases List.mem_append.mp hc with hc | hc
  · exact hq c hc
  · exact hp c hc

theorem Leads.sound {s t : IdStore} {c : Cells} (h : Leads P s c t) (hs : s.Sound) : t.Sound := by
  intro op n
  rw [h.faults]
  exact hs op n

theorem leads_count (s : IdStore) (op : IdOp) : Leads P s s.cells (s.count op) :=
  ⟨rfl, ⟨[], rfl, by simp⟩, rfl, rfl⟩

end Leads

section Sound
variable {s : IdStore} (hs : s.Sound)
include hs

theorem fault_none (op : IdOp) : s.fault op = none := hs op _

theorem read_present {id : UInt32} {bs : Bytes} (h : s.cells id = some bs) (capacity : Nat) :
    (read id capacity).run s = .ok (bs.length, bs.take capacity) (s.count (.read id)) := by
  show read id capacity s = _
  simp only [read, fault_none hs, h]

theorem read_absent {id : UInt32} (h : s.cells id = none) (capacity : Nat) :
    (read id capacity).run s = .error .ENOENT (s.count (.read id)) := by
  show read id capacity s = _
  simp only [read, fault_none hs, h]

theorem write_ok {P : Cells → Prop} (hp : P s.cells) (id : UInt32) (bs : Bytes) :
    ∃ n t, (write id bs).run s = .ok n t ∧ Leads P s (Function.update s.cells id (some bs)) t ∧
      (n = bs.length ∨ (n = 0 ∧ s.cells id = some bs)) := by
  obtain ⟨n, t, hrun, hcells, hfaults, hterse, -, hpast, hn⟩ := write_accepted s id (fault_none hs _) bs
  refine ⟨n, t, hrun, ⟨hcells, ?_, hfaults, hterse⟩, hn⟩
  rcases hpast with ⟨hpast, -⟩ | hpast
  · exact ⟨[], hpast, by simp⟩
  · exact ⟨[s.cells], hpast, by simpa using hp⟩

end Sound

/-- The contents on the way are those of `s` outside `P`, and those of `s` are among them where they have
changed since. -/
def Remembers (P : UInt32 → Prop) (s t : IdStore) : Prop :=
  ∃ new, t.past = new ++ s.past ∧ (∀ c ∈ new, ∀ id, ¬ P id → c id = s.cells id) ∧
    (t.cells = s.cells ∨ s.cells ∈ new)

/-- Outside `P` nothing has changed and no write was made. -/
structure Within (P : UInt32 → Prop) (s t : IdStore) : Prop where
  cells : ∀ id, ¬ P id → t.cells id = s.cells id
  made : ∀ id, ¬ P id → t.made (.write id) = s.made (.write id)
  grows : ∀ op, s.made op ≤ t.made op
  faults : t.faults = s.faults
  terse : t.terse = s.terse
  remembers : Remembers P s t

theorem Within.refl (P : UInt32 → Prop) (s : IdStore) : Within P s s :=
  ⟨fun _ _ => rfl, fun _ _ => rfl, fun _ => Nat.le_refl _, rfl, rfl, [], rfl, by simp, .inl rfl⟩

theorem Within.trans {P : UInt32 → Prop} {s t u : IdStore} (h : Within P s t) (k : Within P t u) : Within P s u := by
  refine ⟨fun id hid => (k.cells id hid).trans (h.cells id hid), fun id hid => (k.made id hid).trans (h.made id hid),
    fun op => (h.grows op).trans (k.grows op), k.faults.trans h.faults, k.terse.trans h.terse, ?_⟩
  obtain ⟨old, hold, hbefore, ha⟩ := h.remembers
  obtain ⟨new, hnew, hafter, hb⟩ := k.remembers
  refine ⟨new ++ old, by rw [hnew, hold, List.append_assoc], fun c hc id hid => ?_, ?_⟩
  · rcases List.mem_append.mp hc with hc | hc
    · exact (hafter c hc id hid).trans (h.cells id hid)
    · exact hbefore c hc id hid
  · rcases ha with ha | ha
    · rw [← ha]
      exact hb.imp_right (List.mem_append_left _)
    · exact .inr (List.mem_append_right _ ha)

theorem within_chains (P : UInt32 → Prop) : Chains (Within P) := ⟨Within.refl P, Within.trans⟩

theorem Within.answers {P : UInt32 → Prop} {s t : IdStore} (h : Within P s t) (hs : s.Answers) : t.Answers := by
  intro id n
  rw [h.faults]
  exact hs id n

theorem Within.fault_write {P : UInt32 → Prop} {s t : IdStore} (h : Within P s t) {id : UInt32}
    (hid : ¬ P id) : t.fault (.write id) = s.fault (.write id) := by
  unfold IdStore.fault
  rw [h.faults, h.made id hid]

section Within
variable {P : UInt32 → Prop} (s : IdStore)

theorem remembers_count (op : IdOp) : Remembers P s (s.count op) := ⟨[], rfl, by simp, .inl rfl⟩

theorem remembers_put (op : IdOp) (id : UInt32) (bs : Option Bytes) : Remembers P s ((s.count op).put id bs) :=
  ⟨[s.cells], rfl, by simp, .inr (by simp)⟩

theorem keeps_read (id : UInt32) (capacity : Nat) : Keeps (Within P) (read id capacity) s := by
  unfold Keeps
  rw [post_read]
  exact ⟨fun _ _ => rfl, fun j _ => made_count_of_ne s (by simp), made_le_count s _, rfl, rfl, remembers_count s _⟩

theorem within_count {id : UInt32} (hid : P id) : Within P s (s.count (.write id)) := by
  refine ⟨fun _ _ => rfl, fun j hj => made_count_of_ne s ?_, made_le_count s _, rfl, rfl, remembers_count s _⟩
  rintro ⟨rfl⟩
  exact hj hid

theorem keeps_write {id : UInt32} (hid : P id) (bs : Bytes) : Keeps (Within P) (write id bs) s := by
  have hcount := within_count s hid
  unfold Keeps
  cases h : s.fault (.write id) with
  | some err =>
    unfold post
    rw [write_refused s id h]
    exact hcount
  | none =>
    obtain ⟨n, t, hrun, hcells, hfaults, hterse, hmade, hpast, -⟩ := write_accepted s id h bs
    rw [post_of_run hrun]
    refine ⟨fun j hj => ?_, fun j hj => ?_, fun op => hmade ▸ made_le_count s _ op, hfaults, hterse, ?_⟩
    · have hne : j ≠ id := fun heq => hj (heq ▸ hid)
      rw [hcells, Function.update_of_ne hne]
    · rw [hmade]
      exact hcount.made j hj
    · rcases hpast with ⟨hpast, hsame⟩ | hpast
      · exact ⟨[], hpast, by simp, .inl hsame⟩
      · exact ⟨[s.cells], hpast, by simp, .inr (by simp)⟩

theorem keeps_delete {id : UInt32} (hid : P id) : Keeps (Within P) (delete id) s := by
  have hmade : ∀ j, (s.count (.delete id)).made (.write j) = s.made (.write j) := fun j =>
    made_count_of_ne s (by simp)
  unfold Keeps
  cases h : s.fault (.delete id) with
  | some err =>
    unfold post
    rw [delete_refused s id h]
    exact ⟨fun _ _ => rfl, fun j _ => hmade j, made_le_count s _, rfl, rfl, remembers_count s _⟩
  | none =>
    rw [post_of_run (delete_accepted s id h)]
    refine ⟨fun j hj => ?_, fun j _ => hmade j, made_le_count s _, rfl, rfl, remembers_put s _ _ _⟩
    have hne : j ≠ id := fun heq => hj (heq ▸ hid)
    exact Function.update_of_ne hne _ _

end Within

/-- From the contents of `s` to those of `t` each change is one that `R` allows. -/
def Trail (R : Cells → Cells → Prop) (s t : IdStore) : Prop :=
  ∃ new before, t.past = new ++ s.past ∧ t.cells :: new = before ++ [s.cells] ∧
    (t.cells :: new).IsChain fun c b => R b c

section Trail
variable {R : Cells → Cells → Prop} {s t u : IdStore}

theorem trail_still (hcells : t.cells = s.cells) (hpast : t.past = s.past) : Trail R s t :=
  ⟨[], [], hpast, by rw [hcells]; rfl, .singleton _⟩

theorem Trail.trans (h : Trail R s t) (k : Trail R t u) : Trail R s u := by
  obtain ⟨old, before, hold, hfirst, hchain⟩ := h
  obtain ⟨new, between, hnew, hmid, hchain'⟩ := k
  have hall : u.cells :: (new ++ old) = between ++ t.cells :: old := by
    rw [← List.cons_append, hmid, List.append_assoc]
    rfl
  refine ⟨new ++ old, between ++ before, by rw [hnew, hold, List.append_assoc], ?_, ?_⟩
  · rw [hall, hfirst, List.append_assoc]
  · rw [hall, List.isChain_split, ← hmid]
    exact ⟨hchain', hchain⟩

theorem Trail.all {P : Cells → Prop} (hR : ∀ c c', R c c' → P c') (h : Trail R s t) (hs : P s.cells) :
    ∃ new, t.past = new ++ s.past ∧ ∀ c ∈ t.cells :: new, P c := by
  obtain ⟨new, before, hpast, hall, hchain⟩ := h
  refine ⟨new, hpast, ?_⟩
  rw [hall] at hchain ⊢
  clear hall
  induction before with
  | nil => simpa using hs
  | cons c before ih =>
    rw [List.cons_append, List.isChain_cons] at hchain
    rw [List.cons_append, List.forall_mem_cons]
    refine ⟨?_, ih hchain.2⟩
    cases before with
    | nil => exact hR s.cells c (hchain.1 s.cells rfl)
    | cons b before => exact hR b c (hchain.1 b rfl)

theorem Leads.trail {cells : Cells} {P : UInt32 → Prop} (h : Leads (· = s.cells) s cells t) (hw : Within P s t)
    (hrefl : R s.cells s.cells) (hr : R s.cells cells) : Trail R s t := by
  obtain ⟨new, hnew, -, hkept⟩ := hw.remembers
  obtain ⟨new', hnew', hpassed⟩ := h.passed
  obtain rfl : new' = new := List.append_cancel_right (hnew'.symm.trans hnew)
  have hall : new' = List.replicate new'.length s.cells := List.eq_replicate_iff.mpr ⟨rfl, hpassed⟩
  rcases hn : new'.length with _ | n
  · obtain rfl := List.length_eq_zero_iff.mp hn
    exact trail_still (hkept.resolve_right (by simp)) hnew
  · rw [hn] at hall
    refine ⟨new', t.cells :: List.replicate n s.cells, hnew, ?_, ?_⟩
    · rw [hall, List.replicate_succ', List.cons_append]
    · refine List.IsChain.cons ?_ fun c hc => ?_
      · rw [hall]
        exact List.isChain_replicate_of_rel _ hrefl
      · rw [hpassed c (List.mem_of_mem_head? hc), h.cells]
        exact hr

end Trail

end IdStore

end Lib
