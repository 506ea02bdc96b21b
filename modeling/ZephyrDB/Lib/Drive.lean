import Mathlib.Logic.Function.Basic
import ZephyrDB.Lib.FileSystem

/-!
A file store that keeps what a file is rewritten with aside until it is closed:
only a close that succeeds commits it. One file is open for writing at a time,
every call may fail, and whether opening a file that is not there leaves an
empty entry is up to the store.
-/

set_option autoImplicit false

namespace Lib

structure Drive where
  /-- What is committed. -/
  files : Path → Option Bytes
  /-- What the open file has been given. -/
  draft : Bytes
  /-- Whether opening a file that is not there makes an empty entry. -/
  creates : Bool
  faults : Nat → Fault
  tick : Nat

abbrev DriveM (ε α : Type) := EStateM ε Drive α

/-- All of `len` bytes are moved. -/
def Fault.Moves (f : Fault) (len : Nat) : Prop :=
  match f with
  | .none => True
  | .short n => len ≤ n
  | .fail _ _ => False

namespace Drive

def fault (d : Drive) : Fault := d.faults d.tick

def next (d : Drive) : Drive := { d with tick := d.tick + 1 }

/-- No call that fails reports that the file is missing. -/
def Candid (d : Drive) : Prop := ∀ n k, d.faults n ≠ .fail .ENOENT k

/-- A file is opened and given `len` bytes, and then the close fails. -/
def Loses (d : Drive) (len : Nat) : Prop :=
  ¬ (d.faults d.tick).Fails ∧ (d.faults (d.tick + 1)).Moves len ∧ (d.faults (d.tick + 2)).Fails

/-- A file is opened and `len` bytes are asked for; neither call fails or stops early. -/
def ReadsWhole (d : Drive) (len : Nat) : Prop :=
  ¬ (d.faults d.tick).Fails ∧ (d.faults (d.tick + 1)).Moves len

/-- A call that leaves the files alone, such as closing one that was read. -/
def call : DriveM Errno Unit := fun d =>
  match d.fault with
  | .fail err _ => .error err d.next
  | _ => .ok () d.next

/-- `fs_open` with `FS_O_CREATE | FS_O_WRITE | FS_O_TRUNC`. -/
def openNew (p : Path) : DriveM Errno Unit := do
  call
  modify fun d =>
    { d with
      draft := []
      files := if d.creates && (d.files p).isNone then Function.update d.files p (some []) else d.files }

/-- `fs_write` to the file that is open; reports how many bytes were written. -/
def write (bs : Bytes) : DriveM Errno Nat := fun d =>
  match d.fault with
  | .none => .ok bs.length { d.next with draft := d.draft ++ bs }
  | .short n => .ok (min n bs.length) { d.next with draft := d.draft ++ bs.take n }
  | .fail err n => .error err { d.next with draft := d.draft ++ bs.take n }

/-- `fs_close` of the file that was written. -/
def commit (p : Path) : DriveM Errno Unit := do
  call
  modify fun d => { d with files := Function.update d.files p (some d.draft) }

def rewrite (p : Path) (bs : Bytes) : DriveM Errno Nat := do
  openNew p
  let wr ← attempt (write bs)
  let _ ← attempt (ε := Errno) (commit p)
  rethrow wr

/-- `fs_open` with `FS_O_READ`. -/
def openOld (p : Path) : DriveM Errno Unit := do
  call
  if ((← get).files p).isNone then throw .ENOENT

/-- `fs_read` of at most `len` bytes from the start. -/
def read (p : Path) (len : Nat) : DriveM Errno Bytes := fun d =>
  match d.fault with
  | .none => .ok (slice ((d.files p).getD []) 0 len) d.next
  | .short n => .ok (slice ((d.files p).getD []) 0 (min n len)) d.next
  | .fail err _ => .error err d.next

def fetch (p : Path) (len : Nat) : DriveM Errno Bytes := do
  openOld p
  let rd ← attempt (read p len)
  let _ ← attempt (ε := Errno) call
  rethrow rd

/-- `fs_unlink`. -/
def unlink (p : Path) : DriveM Errno Unit := do
  call
  if ((← get).files p).isNone then throw .ENOENT
  modify fun d => { d with files := Function.update d.files p none }

structure After (n : Nat) (files : Path → Option Bytes) (d d' : Drive) : Prop where
  files : d'.files = files
  creates : d'.creates = d.creates
  faults : d'.faults = d.faults
  tick : d'.tick = d.tick + n

theorem After.trans {m n : Nat} {files files' : Path → Option Bytes} {a b c : Drive} (h : After m files a b)
    (k : After n files' b c) : After (m + n) files' a c :=
  ⟨k.files, k.creates.trans h.creates, k.faults.trans h.faults, by rw [k.tick, h.tick, Nat.add_assoc]⟩

/-- The files once an open for writing has succeeded. -/
def opened (d : Drive) (p : Path) : Path → Option Bytes :=
  if d.creates && (d.files p).isNone then Function.update d.files p (some []) else d.files

section Calls
variable (d : Drive)

theorem after_next : After 1 d.files d d.next := ⟨rfl, rfl, rfl, rfl⟩

theorem call_yields : Yields call d (fun _ d' => ¬ d.fault.Fails ∧ After 1 d.files d d' ∧ d'.draft = d.draft)
    fun err d' => (∃ n, d.fault = .fail err n) ∧ After 1 d.files d d' := by
  unfold Yields EStateM.run call
  cases h : d.fault with
  | none => exact ⟨by simp [Fault.Fails], after_next d, rfl⟩
  | short n => exact ⟨by simp [Fault.Fails], after_next d, rfl⟩
  | fail err n => exact ⟨⟨n, rfl⟩, after_next d⟩

theorem openNew_yields (p : Path) : Yields (openNew p) d
    (fun _ d' => ¬ d.fault.Fails ∧ After 1 (d.opened p) d d' ∧ d'.draft = [])
    fun _ d' => After 1 d.files d d' := by
  refine yields_bind ((call_yields d).imp (fun _ _ h => h) fun _ _ h => h.2) fun _ d' ⟨hf, hd, _⟩ => ?_
  refine yields_of_run rfl ⟨hf, ⟨?_, hd.creates, hd.faults, hd.tick⟩, rfl⟩
  unfold opened
  rw [← hd.files, ← hd.creates]

theorem write_yields (bs : Bytes) : Yields (write bs) d
    (fun n d' => After 1 d.files d d' ∧ (n = bs.length → d.fault.Moves bs.length ∧ d'.draft = d.draft ++ bs))
    fun _ d' => After 1 d.files d d' := by
  unfold Yields EStateM.run write
  cases h : d.fault with
  | none => exact ⟨⟨rfl, rfl, rfl, rfl⟩, fun _ => ⟨trivial, rfl⟩⟩
  | short n =>
    refine ⟨⟨rfl, rfl, rfl, rfl⟩, fun hn => ?_⟩
    have hle : bs.length ≤ n := by
      rw [← hn]
      exact Nat.min_le_left _ _
    exact ⟨hle, by rw [List.take_of_length_le hle]⟩
  | fail err n => exact ⟨rfl, rfl, rfl, rfl⟩

theorem commit_yields (p : Path) : Yields (commit p) d
    (fun _ d' => After 1 (Function.update d.files p (some d.draft)) d d')
    fun _ d' => d.fault.Fails ∧ After 1 d.files d d' := by
  refine yields_bind ((call_yields d).imp (fun _ _ h => h) fun r _ h => ⟨⟨r, h.1⟩, h.2⟩) fun _ d' ⟨_, hd, hdraft⟩ => ?_
  refine yields_of_run rfl ⟨?_, hd.creates, hd.faults, hd.tick⟩
  rw [← hd.files, ← hdraft]

theorem openOld_yields (p : Path) : Yields (openOld p) d
    (fun _ d' => After 1 d.files d d' ∧ d.files p ≠ none)
    fun err d' => After 1 d.files d d' ∧ ((∃ n, d.fault = .fail err n) ∨ d.files p = none) := by
  refine yields_bind ((call_yields d).imp (fun _ _ h => h) fun _ _ h => ⟨h.2, .inl h.1⟩) fun _ d' ⟨_, hd, _⟩ => ?_
  apply yields_get_bind
  rw [hd.files]
  cases hp : d.files p with
  | none => exact yields_throw ⟨hd, .inr rfl⟩
  | some bs => exact yields_pure ⟨hd, by simp⟩

theorem read_yields (p : Path) (len : Nat) : Yields (read p len) d
    (fun raw d' => After 1 d.files d d' ∧ (d.fault.Moves len ∨ raw.length = len →
      raw = slice ((d.files p).getD []) 0 len))
    fun err d' => After 1 d.files d d' ∧ ∃ n, d.fault = .fail err n := by
  unfold Yields EStateM.run read
  cases h : d.fault with
  | none => exact ⟨after_next d, fun _ => rfl⟩
  | short n =>
    refine ⟨after_next d, ?_⟩
    rintro (hmoves | hlen)
    · rw [Nat.min_eq_right hmoves]
    · have hle : len ≤ min n len :=
        calc len = (slice ((d.files p).getD []) 0 (min n len)).length := hlen.symm
          _ ≤ min n len := List.length_take_le _ _
      rw [Nat.le_antisymm (Nat.min_le_right _ _) hle]
  | fail err n => exact ⟨after_next d, n, rfl⟩

theorem unlink_yields (p : Path) : Yields (unlink p) d
    (fun _ d' => After 1 (Function.update d.files p none) d d')
    fun err d' => After 1 d.files d d' ∧ ((∃ n, d.fault = .fail err n) ∨ d.files p = none) := by
  refine yields_bind ((call_yields d).imp (fun _ _ h => h) fun _ _ h => ⟨h.2, .inl h.1⟩) fun _ d' ⟨_, hd, _⟩ => ?_
  apply yields_get_bind
  rw [hd.files]
  cases hp : d.files p with
  | none => exact yields_throw ⟨hd, .inr rfl⟩
  | some bs =>
    refine yields_of_run rfl ⟨?_, hd.creates, hd.faults, hd.tick⟩
    rw [← hd.files]

structure Apart (p : Path) (d d' : Drive) : Prop where
  files : ∀ q, q ≠ p → d'.files q = d.files q
  faults : d'.faults = d.faults

theorem After.apart {n : Nat} {d d' : Drive} (h : After n d.files d d') (p : Path) : Apart p d d' :=
  ⟨fun q _ => by rw [h.files], h.faults⟩

theorem After.apart_update {n : Nat} {d d' : Drive} {p : Path} {bs : Option Bytes}
    (h : After n (Function.update d.files p bs) d d') : Apart p d d' :=
  ⟨fun q hq => by rw [h.files, Function.update_of_ne hq], h.faults⟩

theorem opened_apart {p q : Path} (hq : q ≠ p) : d.opened p q = d.files q := by
  unfold opened
  split
  · exact Function.update_of_ne hq _ _
  · rfl

theorem rewrite_yields (p : Path) (bs : Bytes) : Yields (rewrite p bs) d
    (fun n d' => Apart p d d' ∧
      (n = bs.length → (d.Loses bs.length ∧ d'.files = d.opened p) ∨ d'.files p = some bs))
    fun _ d' => Apart p d d' := by
  have hopened : ∀ {n d'}, After n (d.opened p) d d' → Apart p d d' := fun h =>
    ⟨fun q hq => by rw [h.files, opened_apart d hq], h.faults⟩
  refine yields_bind ((openNew_yields d p).imp (fun _ _ h => h) fun _ _ h => h.apart p) fun _ d₁ ⟨hopen, h₁, hempty⟩ => ?_
  apply yields_bind (yields_attempt (write_yields d₁ bs))
  intro wr d₂ h₂
  -- Whether or not the write went through, the file is closed.
  have hwrite : After 2 (d.opened p) d d₂ ∧
      (wr = .ok bs.length → (d.faults (d.tick + 1)).Moves bs.length ∧ d₂.draft = bs) := by
    have hfault : d₁.fault = d.faults (d.tick + 1) := by
      unfold fault
      rw [h₁.faults, h₁.tick]
    cases wr with
    | ok n =>
      refine ⟨h₁.trans (h₁.files ▸ h₂.1), fun hn => ?_⟩
      obtain ⟨hmoves, hdraft⟩ := h₂.2 (Except.ok.inj hn)
      rw [hempty, List.nil_append] at hdraft
      exact ⟨hfault ▸ hmoves, hdraft⟩
    | error err => exact ⟨h₁.trans (h₁.files ▸ h₂), nofun⟩
  obtain ⟨h₂, hfull⟩ := hwrite
  apply yields_bind (yields_attempt (commit_yields d₂ p))
  intro closed d₃ h₃
  have hclose : Apart p d d₃ ∧
      (wr = .ok bs.length → (d.Loses bs.length ∧ d₃.files = d.opened p) ∨ d₃.files p = some bs) := by
    cases closed with
    | ok _ =>
      refine ⟨⟨fun q hq => ?_, h₃.faults.trans h₂.faults⟩, fun hn => .inr ?_⟩
      · rw [h₃.files, Function.update_of_ne hq, h₂.files, opened_apart d hq]
      · rw [h₃.files, Function.update_self, (hfull hn).2]
    | error err =>
      have h₃' := h₂.trans (h₂.files ▸ h₃.2)
      refine ⟨hopened h₃', fun hn => .inl ⟨⟨hopen, (hfull hn).1, ?_⟩, h₃'.files⟩⟩
      have hfails := h₃.1
      unfold fault at hfails
      rwa [h₂.faults, h₂.tick] at hfails
  cases wr with
  | ok n => exact yields_pure ⟨hclose.1, fun hn => hclose.2 (congrArg _ hn)⟩
  | error err => exact yields_throw hclose.1

theorem fetch_yields (hc : d.Candid) (p : Path) (len : Nat) : Yields (fetch p len) d
    (fun raw d' => d'.files = d.files ∧ d'.faults = d.faults ∧ ∃ bs, d.files p = some bs ∧
      (d.ReadsWhole len ∨ raw.length = len → raw = slice bs 0 len))
    fun err d' => d'.files = d.files ∧ d'.faults = d.faults ∧ (err = .ENOENT → d.files p = none) := by
  have hhonest : ∀ {k n}, d.faults k ≠ .fail .ENOENT n := fun {k n} => hc k n
  refine yields_bind ((openOld_yields d p).imp (fun _ _ h => h) fun err d₁ h₁ => ⟨h₁.1.files, h₁.1.faults, ?_⟩)
    fun _ d₁ ⟨h₁, hp⟩ => ?_
  · rintro rfl
    rcases h₁.2 with ⟨n, hfault⟩ | hnone
    · exact absurd hfault hhonest
    · exact hnone
  obtain ⟨bs, hbs⟩ := Option.ne_none_iff_exists'.mp hp
  have hfault : d₁.fault = d.faults (d.tick + 1) := by
    unfold fault
    rw [h₁.faults, h₁.tick]
  apply yields_bind (yields_attempt (read_yields d₁ p len))
  intro rd d₂ h₂
  have hread : After 2 d.files d d₂ ∧
      match rd with
      | .ok raw => d.ReadsWhole len ∨ raw.length = len → raw = slice bs 0 len
      | .error err => err ≠ .ENOENT := by
    cases rd with
    | ok raw =>
      refine ⟨h₁.trans (h₁.files ▸ h₂.1), fun hwhole => ?_⟩
      have hraw := h₂.2 (hwhole.imp_left fun h => hfault ▸ h.2)
      rwa [h₁.files, hbs] at hraw
    | error err =>
      refine ⟨h₁.trans (h₁.files ▸ h₂.1), ?_⟩
      rintro rfl
      obtain ⟨n, hn⟩ := h₂.2
      rw [hfault] at hn
      exact hhonest hn
  obtain ⟨h₂, hrd⟩ := hread
  apply yields_bind (yields_attempt (call_yields d₂))
  intro closed d₃ h₃
  have hend : d₃.files = d.files ∧ d₃.faults = d.faults := by
    cases closed with
    | ok _ => exact ⟨h₃.2.1.files.trans h₂.files, h₃.2.1.faults.trans h₂.faults⟩
    | error err => exact ⟨h₃.2.files.trans h₂.files, h₃.2.faults.trans h₂.faults⟩
  cases rd with
  | ok raw => exact yields_pure ⟨hend.1, hend.2, bs, hbs, hrd⟩
  | error err => exact yields_throw ⟨hend.1, hend.2, fun herr => absurd herr hrd⟩

end Calls

section Clean
variable {d : Drive} (hc : ∀ n, d.faults n = .none)
include hc

theorem run_call : call.run d = .ok () d.next := by
  show call d = _
  simp only [call, fault, hc]

theorem run_write (bs : Bytes) : (write bs).run d = .ok bs.length { d.next with draft := d.draft ++ bs } := by
  show write bs d = _
  simp only [write, fault, hc]

theorem run_read (p : Path) (len : Nat) : (read p len).run d = .ok (slice ((d.files p).getD []) 0 len) d.next := by
  show read p len d = _
  simp only [read, fault, hc]

theorem run_rewrite (p : Path) (bs : Bytes) :
    ∃ d', (rewrite p bs).run d = .ok bs.length d' ∧ d'.files = Function.update d.files p (some bs) := by
  have hopen : (openNew p).run d = .ok () { d.next with draft := [], files := d.opened p } := run_then (run_call hc) rfl
  have hwrite := run_write (d := { d.next with draft := [], files := d.opened p }) hc bs
  have hcommit : (commit p).run { d with tick := d.tick + 1 + 1, draft := [] ++ bs, files := d.opened p } = .ok () _ :=
    run_then (run_call hc) rfl
  refine ⟨_, run_then hopen (run_then (run_attempt_ok hwrite) (run_then (run_attempt_ok hcommit) rfl)), ?_⟩
  funext q
  by_cases hq : q = p
  · subst hq
    show Function.update (d.opened q) q (some ([] ++ bs)) q = _
    rw [Function.update_self, Function.update_self, List.nil_append]
  · show Function.update (d.opened p) p _ q = _
    rw [Function.update_of_ne hq, Function.update_of_ne hq, opened_apart d hq]

theorem run_fetch (p : Path) (len : Nat) :
    (∃ bs d', d.files p = some bs ∧ (fetch p len).run d = .ok (slice bs 0 len) d' ∧ d'.files = d.files) ∨
      ∃ d', d.files p = none ∧ (fetch p len).run d = .error .ENOENT d' ∧ d'.files = d.files := by
  cases hp : d.files p with
  | none =>
    refine .inr ⟨d.next, rfl, run_fails (run_then (run_call hc) ?_), rfl⟩
    show (if (d.files p).isNone then _ else _ : DriveM Errno Unit).run d.next = _
    rw [hp]
    rfl
  | some bs =>
    have hopen : (openOld p).run d = .ok () d.next := by
      apply run_then (run_call hc)
      show (if (d.files p).isNone then _ else _ : DriveM Errno Unit).run d.next = _
      rw [hp]
      rfl
    have hread := run_read (d := d.next) hc p len
    rw [show d.next.files p = some bs from hp, Option.getD_some] at hread
    exact .inl ⟨bs, _, rfl, run_then hopen (run_then (run_attempt_ok hread)
      (run_then (run_attempt_ok (run_call (d := d.next.next) hc)) rfl)), rfl⟩

theorem run_unlink (p : Path) :
    (∃ d', d.files p ≠ none ∧ (unlink p).run d = .ok () d' ∧ d'.files = Function.update d.files p none) ∨
      ∃ d', d.files p = none ∧ (unlink p).run d = .error .ENOENT d' ∧ d'.files = d.files := by
  cases hp : d.files p with
  | none =>
    refine .inr ⟨d.next, rfl, run_then (run_call hc) ?_, rfl⟩
    show (if (d.files p).isNone then _ else _ : DriveM Errno Unit).run d.next = _
    rw [hp]
    rfl
  | some bs =>
    refine .inl ⟨{ d.next with files := Function.update d.files p none }, nofun, run_then (run_call hc) ?_, rfl⟩
    show (if (d.files p).isNone then _ else _ : DriveM Errno Unit).run d.next = _
    rw [hp]
    rfl

end Clean

end Drive

end Lib
