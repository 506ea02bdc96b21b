import Mathlib.Data.List.AList
import ZephyrDB.Lib.LittleEndian
import ZephyrDB.Lib.Effect

/-!
A flat file store behind an API whose every call may fail.

The environment holds the files, an outcome for each numbered call, and a
component `side` of any type that the calls leave alone. A program that is run
against arbitrary `faults` meets every failure pattern; one run in a clean
environment meets none. Directories hold nothing of their own here: an entry
exists exactly when a file of that path does.
-/

set_option autoImplicit false

namespace Lib

abbrev Path := Bytes

abbrev Files := AList (fun _ : Path => Bytes)

inductive Errno where
  | EINVAL | ENOMEM | ENOENT | EBUSY | ETIMEDOUT | ENOTSUP | EEXIST | EIO | ENAMETOOLONG | EAGAIN
  | ENOSPC
  deriving DecidableEq, Repr

/-- What becomes of one call: it does its work; it moves at most `n` bytes (or list entries) and
reports that count; or it reports an error, having moved `n` bytes. -/
inductive Fault where
  | none
  | short (n : Nat)
  | fail (err : Errno) (n : Nat)
  deriving DecidableEq, Repr

structure Env (κ : Type) where
  files : Files
  faults : Nat → Fault
  tick : Nat
  /-- Whether an open handle sees bytes that another handle appended after it was opened. -/
  shared : Bool
  /-- The bytes each write has moved so far, latest first; nothing reads it. -/
  written : List (Path × Bytes)
  side : κ

/-- Which file holds what. -/
def Files.look (F : Files) : Path → Option Bytes := fun p => F.lookup p

theorem Files.look_insert (F : Files) (p : Path) (bs : Bytes) :
    Files.look (F.insert p bs) = Function.update F.look p (some bs) := by
  funext q
  by_cases h : q = p
  · subst h
    simp [Files.look]
  · simp [Files.look, AList.lookup_insert_ne h, h]

theorem Files.look_erase (F : Files) (p : Path) :
    Files.look (F.erase p) = Function.update F.look p none := by
  funext q
  by_cases h : q = p
  · subst h
    simp [Files.look]
  · simp [Files.look, AList.lookup_erase_ne h, h]

theorem Files.mem_keys {F : Files} {p : Path} : p ∈ F.keys ↔ (F.look p).isSome := by
  unfold Files.look
  rw [AList.lookup_isSome]
  exact AList.mem_keys.symm

abbrev Io (κ ε α : Type) := EStateM ε (Env κ) α

namespace Env

variable {κ : Type}

def Clean (e : Env κ) : Prop := ∀ n, e.faults n = Fault.none

def fault (e : Env κ) : Fault := e.faults e.tick

def next (e : Env κ) : Env κ := { e with tick := e.tick + 1 }

def setFiles (e : Env κ) (F : Files) : Env κ := { e with files := F }

def wrote (e : Env κ) (p : Path) (bs : Bytes) : Env κ := { e with written := (p, bs) :: e.written }

def contents (e : Env κ) (p : Path) : Bytes := (e.files.lookup p).getD []

/-- What a handle opened when the file held `size` bytes can read. -/
def visible (e : Env κ) (p : Path) (size : Nat) : Bytes :=
  if e.shared then e.contents p else (e.contents p).take size

def modify (e : Env κ) (p : Path) (f : Bytes → Bytes) : Env κ :=
  match e.files.lookup p with
  | some bs => e.setFiles (e.files.insert p (f bs))
  | none => e

@[simp] theorem next_files (e : Env κ) : e.next.files = e.files := rfl
@[simp] theorem next_faults (e : Env κ) : e.next.faults = e.faults := rfl
@[simp] theorem next_shared (e : Env κ) : e.next.shared = e.shared := rfl
@[simp] theorem next_side (e : Env κ) : e.next.side = e.side := rfl
@[simp] theorem next_contents (e : Env κ) (p : Path) : e.next.contents p = e.contents p := rfl
@[simp] theorem setFiles_files (e : Env κ) (F : Files) : (e.setFiles F).files = F := rfl
@[simp] theorem setFiles_faults (e : Env κ) (F : Files) : (e.setFiles F).faults = e.faults := rfl
@[simp] theorem setFiles_shared (e : Env κ) (F : Files) : (e.setFiles F).shared = e.shared := rfl
@[simp] theorem setFiles_side (e : Env κ) (F : Files) : (e.setFiles F).side = e.side := rfl
@[simp] theorem wrote_files (e : Env κ) (p : Path) (bs : Bytes) : (e.wrote p bs).files = e.files := rfl
@[simp] theorem next_written (e : Env κ) : e.next.written = e.written := rfl
@[simp] theorem setFiles_written (e : Env κ) (F : Files) : (e.setFiles F).written = e.written := rfl

def look (e : Env κ) : Path → Option Bytes := e.files.look

theorem lookup_eq (e : Env κ) (p : Path) : e.files.lookup p = e.look p := rfl

theorem contents_eq (e : Env κ) (p : Path) : e.contents p = (e.look p).getD [] := rfl

@[simp] theorem look_next (e : Env κ) : e.next.look = e.look := rfl

theorem look_insert (e : Env κ) (p : Path) (bs : Bytes) :
    (e.setFiles (e.files.insert p bs)).look = Function.update e.look p (some bs) :=
  Files.look_insert e.files p bs

theorem look_erase (e : Env κ) (p : Path) :
    (e.setFiles (e.files.erase p)).look = Function.update e.look p none :=
  Files.look_erase e.files p

@[simp] theorem clean_next (e : Env κ) : e.next.Clean ↔ e.Clean := Iff.rfl
@[simp] theorem clean_setFiles (e : Env κ) (F : Files) : (e.setFiles F).Clean ↔ e.Clean := Iff.rfl

end Env

open Env

variable {κ : Type}

/-- A call that does nothing to the files: opening a directory, seeking, closing, queueing work,
taking a block from a slab. -/
def call : Io κ Errno Unit := fun e =>
  match e.fault with
  | .fail err _ => .error err e.next
  | _ => .ok () e.next

/-- `fs_open` with `FS_O_CREATE` and `FS_O_TRUNC` as given. -/
def fsOpen (p : Path) (create trunc : Bool) : Io κ Errno Unit := do
  call
  let e ← get
  match e.files.lookup p with
  | some _ => if trunc then set (e.setFiles (e.files.insert p []))
  | none => if create then set (e.setFiles (e.files.insert p [])) else throw .ENOENT

/-- `fs_read` of at most `len` bytes at an offset of the file's current contents. -/
def fsRead (p : Path) (off len : Nat) : Io κ Errno Bytes := fun e =>
  match e.fault with
  | .none => .ok (slice (e.contents p) off len) e.next
  | .short n => .ok (slice (e.contents p) off (min n len)) e.next
  | .fail err _ => .error err e.next

/-- `fs_read` through a handle that was opened when the file held `size` bytes. -/
def fsReadHandle (p : Path) (size off len : Nat) : Io κ Errno Bytes := fun e =>
  match e.fault with
  | .none => .ok (slice (e.visible p size) off len) e.next
  | .short n => .ok (slice (e.visible p size) off (min n len)) e.next
  | .fail err _ => .error err e.next

/-- `fs_write` at an offset; reports how many bytes were written. -/
def fsWrite (p : Path) (off : Nat) (bs : Bytes) : Io κ Errno Nat := fun e =>
  match e.fault with
  | .none => .ok bs.length ((e.next.modify p fun old => writeAt old off bs).wrote p bs)
  | .short n =>
    .ok (min n bs.length) ((e.next.modify p fun old => writeAt old off (bs.take n)).wrote p (bs.take n))
  | .fail err n =>
    .error err ((e.next.modify p fun old => writeAt old off (bs.take n)).wrote p (bs.take n))

/-- `fs_write` through a handle opened with `FS_O_APPEND`. -/
def fsAppend (p : Path) (bs : Bytes) : Io κ Errno Nat := do
  fsWrite p ((← get).contents p).length bs

def fsTruncate (p : Path) (len : Nat) : Io κ Errno Unit := do
  call
  modify fun e => e.modify p (·.take len)

def fsUnlink (p : Path) : Io κ Errno Unit := do
  call
  let e ← get
  if p ∈ e.files then set (e.setFiles (e.files.erase p)) else throw .ENOENT

/-- `fs_rename`, replacing the destination; a file system that refuses to is a call that fails. -/
def fsRename (old new : Path) : Io κ Errno Unit := do
  call
  let e ← get
  match e.files.lookup old with
  | some bs => set (e.setFiles ((e.files.erase old).insert new bs))
  | none => throw .ENOENT

/-- `fs_rename` on a file system that may refuse to replace an existing file. -/
def fsMove (replaces : Bool) (old new : Path) : Io κ Errno Unit := do
  let e ← get
  if !replaces && (e.files.lookup new).isSome then
    call
    throw .EEXIST
  else fsRename old new

/-- `fs_stat`: the size. -/
def fsStat (p : Path) : Io κ Errno Nat := do
  call
  match (← get).files.lookup p with
  | some bs => pure bs.length
  | none => throw .ENOENT

/-- The name of a path's entry in a directory, when it is one. -/
def entryName (dir p : Path) : Option Bytes :=
  if (dir ++ [47]).isPrefixOf p then
    let name := p.drop (dir.length + 1)
    if name.isEmpty || name.contains 47 then none else some name
  else none

/-- `fs_opendir` and the `fs_readdir` loop to its end or to its first error. -/
def fsList (dir : Path) : Io κ Errno (List Bytes) := fun e =>
  match e.fault with
  | .none => .ok (e.files.keys.filterMap (entryName dir)) e.next
  | .short n => .ok ((e.files.keys.filterMap (entryName dir)).take n) e.next
  | .fail err _ => .error err e.next

def subdirName (dir p : Path) : Option Bytes :=
  if (dir ++ [47]).isPrefixOf p then
    let rest := p.drop (dir.length + 1)
    let name := rest.takeWhile (· != 47)
    if name.isEmpty || name.length == rest.length then none else some name
  else none

/-- `fs_opendir` and the `fs_readdir` loop, keeping the directories. -/
def fsListDirs (dir : Path) : Io κ Errno (List Bytes) := fun e =>
  match e.fault with
  | .none => .ok (e.files.keys.filterMap (subdirName dir)).dedup e.next
  | .short n => .ok ((e.files.keys.filterMap (subdirName dir)).dedup.take n) e.next
  | .fail err _ => .error err e.next

theorem entryName_eq_some {dir p name : Bytes} :
    entryName dir p = some name ↔ p = dir ++ 47 :: name ∧ name ≠ [] ∧ (47 : UInt8) ∉ name := by
  unfold entryName
  constructor
  · intro h
    split at h
    · rename_i hp
      obtain ⟨rest, rfl⟩ := List.isPrefixOf_iff_prefix.mp hp
      have hdrop : (dir ++ [47] ++ rest).drop (dir.length + 1) = rest := by
        rw [List.drop_append_of_le_length (by simp)]
        simp
      simp only [hdrop] at h
      split at h
      · cases h
      · rename_i hn
        cases h
        simp only [Bool.or_eq_true, List.isEmpty_iff, List.contains_iff_mem, not_or] at hn
        exact ⟨by simp, hn.1, hn.2⟩
    · cases h
  · rintro ⟨rfl, hn, hs⟩
    have hp : (dir ++ [47]).isPrefixOf (dir ++ 47 :: name) = true :=
      List.isPrefixOf_iff_prefix.mpr ⟨name, by simp⟩
    have hdrop : (dir ++ 47 :: name).drop (dir.length + 1) = name := by
      rw [show dir ++ 47 :: name = dir ++ [47] ++ name by simp,
        List.drop_append_of_le_length (by simp)]
      simp
    simp [hp, hdrop, hn, hs]

theorem subdirName_inside {dir name : Bytes} (rest : Bytes) (hne : name ≠ []) (hslash : (47 : UInt8) ∉ name) :
    subdirName dir (dir ++ 47 :: (name ++ 47 :: rest)) = some name := by
  have hp : (dir ++ [47]).isPrefixOf (dir ++ 47 :: (name ++ 47 :: rest)) = true :=
    List.isPrefixOf_iff_prefix.mpr ⟨name ++ 47 :: rest, by simp⟩
  have hdrop : (dir ++ 47 :: (name ++ 47 :: rest)).drop (dir.length + 1) = name ++ 47 :: rest := by
    rw [show dir ++ 47 :: (name ++ 47 :: rest) = dir ++ [47] ++ (name ++ 47 :: rest) by simp,
      List.drop_append_of_le_length (by simp)]
    simp
  have htake : (name ++ 47 :: rest).takeWhile (· != 47) = name := by
    rw [List.takeWhile_append_of_pos fun b hb => by
      have hb : b ≠ 47 := fun h => hslash (h ▸ hb)
      simpa using hb]
    simp
  unfold subdirName
  rw [if_pos hp]
  dsimp only
  rw [hdrop, htake, if_neg]
  simp [hne]

/-- Nothing outside `P` has changed. -/
structure Within (P : Path → Prop) (e e' : Env κ) : Prop where
  lookup : ∀ p, ¬ P p → e'.files.lookup p = e.files.lookup p
  faults : e'.faults = e.faults
  shared : e'.shared = e.shared
  written : e.written <:+ e'.written

theorem within_chains (P : Path → Prop) : Chains (Within (κ := κ) P) where
  refl _ := ⟨fun _ _ => rfl, rfl, rfl, List.suffix_rfl⟩
  trans h k := ⟨fun p hp => (k.lookup p hp).trans (h.lookup p hp), k.faults.trans h.faults,
    k.shared.trans h.shared, h.written.trans k.written⟩

theorem Within.clean {P : Path → Prop} {e e' : Env κ} (h : Within P e e') (hc : e.Clean) : e'.Clean := by
  intro n
  rw [h.faults]
  exact hc n

theorem Within.mono {P Q : Path → Prop} {e e' : Env κ} (h : Within P e e') (hPQ : ∀ p, P p → Q p) : Within Q e e' :=
  ⟨fun p hp => h.lookup p fun hP => hp (hPQ p hP), h.faults, h.shared, h.written⟩

section Within
variable {P : Path → Prop}

theorem within_next (e : Env κ) : Within P e e.next := ⟨fun _ _ => rfl, rfl, rfl, List.suffix_rfl⟩

theorem within_wrote (e : Env κ) (p : Path) (bs : Bytes) : Within P e (e.wrote p bs) :=
  ⟨fun _ _ => rfl, rfl, rfl, List.suffix_cons _ _⟩

theorem within_insert (e : Env κ) {p : Path} (bs : Bytes) (hp : P p) :
    Within P e (e.setFiles (e.files.insert p bs)) :=
  ⟨fun _ hq => AList.lookup_insert_ne (fun h => hq (h ▸ hp)), rfl, rfl, List.suffix_rfl⟩

theorem within_modify (e : Env κ) {p : Path} (f : Bytes → Bytes) (hp : P p) :
    Within P e (e.modify p f) := by
  unfold Env.modify
  split
  · exact within_insert e _ hp
  · exact (within_chains P).refl e

theorem within_erase (e : Env κ) {p : Path} (hp : P p) :
    Within P e (e.setFiles (e.files.erase p)) :=
  ⟨fun _ hq => AList.lookup_erase_ne (fun h => hq (h ▸ hp)), rfl, rfl, List.suffix_rfl⟩

theorem keeps_modify {ε : Type} {e : Env κ} {f : Env κ → Env κ} (h : Within P e (f e)) :
    Keeps (Within P) (modify f : Io κ ε Unit) e := h

theorem keeps_call (e : Env κ) : Keeps (Within P) call e := by
  unfold Keeps post EStateM.run call
  cases e.fault <;> exact within_next e

theorem keeps_fsRead (p : Path) (off len : Nat) (e : Env κ) : Keeps (Within P) (fsRead p off len) e := by
  unfold Keeps post EStateM.run fsRead
  cases e.fault <;> exact within_next e

theorem keeps_fsReadHandle (p : Path) (size off len : Nat) (e : Env κ) :
    Keeps (Within P) (fsReadHandle p size off len) e := by
  unfold Keeps post EStateM.run fsReadHandle
  cases e.fault <;> exact within_next e

theorem keeps_fsList (dir : Path) (e : Env κ) : Keeps (Within P) (fsList dir) e := by
  unfold Keeps post EStateM.run fsList
  cases e.fault <;> exact within_next e

theorem keeps_fsWrite {p : Path} (hp : P p) (off : Nat) (bs : Bytes) (e : Env κ) :
    Keeps (Within P) (fsWrite p off bs) e := by
  unfold Keeps post EStateM.run fsWrite
  cases e.fault <;>
    exact (within_chains P).trans (within_next e)
      ((within_chains P).trans (within_modify e.next _ hp) (within_wrote _ p _))

theorem keeps_fsOpen {p : Path} (hp : P p) (create trunc : Bool) (e : Env κ) :
    Keeps (Within P) (fsOpen p create trunc) e := by
  apply keeps_bind (within_chains P) (keeps_call e)
  intro _ t _
  apply keeps_get_bind
  split
  · split
    · exact within_insert t _ hp
    · exact keeps_pure (within_chains P) _ t
  · split
    · exact within_insert t _ hp
    · exact keeps_throw (within_chains P) _ t

theorem keeps_fsOpen_read (p : Path) (e : Env κ) : Keeps (Within P) (fsOpen p false false) e := by
  apply keeps_bind (within_chains P) (keeps_call e)
  intro _ t _
  apply keeps_get_bind
  split
  · exact keeps_pure (within_chains P) _ t
  · exact keeps_throw (within_chains P) _ t

theorem keeps_fsAppend {p : Path} (hp : P p) (bs : Bytes) (e : Env κ) :
    Keeps (Within P) (fsAppend p bs) e :=
  keeps_get_bind (keeps_fsWrite hp _ bs e)

theorem keeps_fsTruncate {p : Path} (hp : P p) (len : Nat) (e : Env κ) :
    Keeps (Within P) (fsTruncate p len) e :=
  keeps_bind (within_chains P) (keeps_call e) fun _ t _ => keeps_modify (within_modify t _ hp)

theorem keeps_fsUnlink {p : Path} (hp : P p) (e : Env κ) : Keeps (Within P) (fsUnlink p) e := by
  apply keeps_bind (within_chains P) (keeps_call e)
  intro _ t _
  apply keeps_get_bind
  split
  · exact within_erase t hp
  · exact keeps_throw (within_chains P) _ t

theorem keeps_fsRename {old new : Path} (ho : P old) (hn : P new) (e : Env κ) :
    Keeps (Within P) (fsRename old new) e := by
  apply keeps_bind (within_chains P) (keeps_call e)
  intro _ t _
  apply keeps_get_bind
  split
  · rename_i bs h
    exact (within_chains P).trans (within_erase t ho) (within_insert _ bs hn)
  · exact keeps_throw (within_chains P) _ t

theorem keeps_fsMove (replaces : Bool) {old new : Path} (ho : P old) (hn : P new) (e : Env κ) :
    Keeps (Within P) (fsMove replaces old new) e := by
  apply keeps_get_bind
  split
  · apply keeps_bind (within_chains P) (keeps_call e)
    intro _ t _
    exact keeps_throw (within_chains P) _ t
  · exact keeps_fsRename ho hn e

theorem keeps_fsStat (p : Path) (e : Env κ) : Keeps (Within P) (fsStat p) e := by
  apply keeps_bind (within_chains P) (keeps_call e)
  intro _ t _
  apply keeps_get_bind
  split
  · exact keeps_pure (within_chains P) _ t
  · exact keeps_throw (within_chains P) _ t

end Within

section Side

theorem fixes_call : Fixes Env.side (call (κ := κ)) := fun e => by
  unfold post EStateM.run call
  cases e.fault <;> rfl

theorem modify_side (e : Env κ) (p : Path) (f : Bytes → Bytes) : (e.modify p f).side = e.side := by
  unfold Env.modify
  split <;> rfl

theorem fixes_fsRead (p : Path) (off len : Nat) : Fixes Env.side (fsRead (κ := κ) p off len) := fun e => by
  unfold post EStateM.run fsRead
  cases e.fault <;> rfl

theorem fixes_fsList (dir : Path) : Fixes Env.side (fsList (κ := κ) dir) := fun e => by
  unfold post EStateM.run fsList
  cases e.fault <;> rfl

theorem fixes_fsWrite (p : Path) (off : Nat) (bs : Bytes) : Fixes Env.side (fsWrite (κ := κ) p off bs) := fun e => by
  unfold post EStateM.run fsWrite
  cases e.fault <;> exact modify_side e.next p _

theorem fixes_fsOpen (p : Path) (create trunc : Bool) : Fixes Env.side (fsOpen (κ := κ) p create trunc) := by
  apply fixes_bind fixes_call
  intro _ e
  rw [post_get_bind]
  split
  · cases trunc <;> rfl
  · cases create <;> rfl

theorem fixes_fsTruncate (p : Path) (len : Nat) : Fixes Env.side (fsTruncate (κ := κ) p len) :=
  fixes_bind fixes_call fun _ => fixes_modify fun e => modify_side e p _

theorem fixes_fsStat (p : Path) : Fixes Env.side (fsStat (κ := κ) p) := by
  apply fixes_bind fixes_call
  intro _
  apply fixes_bind fixes_get
  intro e
  split
  · exact fixes_pure _
  · exact fixes_throw _

theorem fixes_fsRename (old new : Path) : Fixes Env.side (fsRename (κ := κ) old new) := by
  apply fixes_bind fixes_call
  intro _ e
  rw [post_get_bind]
  split <;> rfl

theorem fixes_fsReadHandle (p : Path) (size off len : Nat) :
    Fixes Env.side (fsReadHandle (κ := κ) p size off len) := fun e => by
  unfold post EStateM.run fsReadHandle
  cases e.fault <;> rfl

theorem fixes_fsAppend (p : Path) (bs : Bytes) : Fixes Env.side (fsAppend (κ := κ) p bs) :=
  fixes_bind fixes_get fun _ => fixes_fsWrite p _ bs

theorem fixes_fsUnlink (p : Path) : Fixes Env.side (fsUnlink (κ := κ) p) := by
  apply fixes_bind fixes_call
  intro _ e
  rw [post_get_bind]
  split <;> rfl

end Side

structure Drift (e e' : Env κ) : Prop where
  clean : e.Clean
  same : e' = { e with tick := e'.tick }

theorem Drift.clean' {e e' : Env κ} (h : Drift e e') : e'.Clean := by
  rw [h.same]
  exact h.clean

section Drift

theorem clean_modify {e : Env κ} (hc : e.Clean) (p : Path) (f : Bytes → Bytes) : (e.modify p f).Clean := by
  unfold Env.modify
  cases e.files.lookup p <;> exact hc

theorem drift_modify {e : Env κ} (hc : e.Clean) (m n : Nat) (p : Path) (f : Bytes → Bytes) :
    Drift (Env.modify { e with tick := m } p f) (Env.modify { e with tick := n } p f) := by
  refine ⟨clean_modify (e := { e with tick := m }) hc p f, ?_⟩
  unfold Env.modify
  dsimp only
  cases e.files.lookup p <;> rfl

theorem agrees_drift {ε α : Type} {m : Io κ ε α}
    (h : ∀ (e : Env κ) (n : Nat), e.Clean → outcome m e = outcome m { e with tick := n } ∧
      Drift (post m e) (post m { e with tick := n })) : Agrees Drift m := by
  rintro e e' ⟨hc, hee⟩
  rw [hee]
  exact h e _ hc

theorem drift_call : Agrees Drift (call (κ := κ)) :=
  agrees_drift fun e n hc => by
    simp only [outcome, post, EStateM.run, call, Env.fault, hc _]
    exact ⟨trivial, hc, rfl⟩

theorem drift_fsRead (p : Path) (off len : Nat) : Agrees Drift (fsRead (κ := κ) p off len) :=
  agrees_drift fun e n hc => by
    simp only [outcome, post, EStateM.run, fsRead, Env.fault, hc _]
    exact ⟨rfl, hc, rfl⟩

theorem drift_fsList (dir : Path) : Agrees Drift (fsList (κ := κ) dir) :=
  agrees_drift fun e n hc => by
    simp only [outcome, post, EStateM.run, fsList, Env.fault, hc _]
    exact ⟨trivial, hc, rfl⟩

theorem drift_fsWrite (p : Path) (off : Nat) (bs : Bytes) : Agrees Drift (fsWrite (κ := κ) p off bs) :=
  agrees_drift fun e n hc => by
    simp only [outcome, post, EStateM.run, fsWrite, Env.fault, hc _]
    have hd := drift_modify hc (e.tick + 1) (n + 1) p fun old => writeAt old off bs
    exact ⟨trivial, hd.clean, congrArg (fun d => d.wrote p bs) hd.same⟩

theorem drift_fsAppend (p : Path) (bs : Bytes) : Agrees Drift (fsAppend (κ := κ) p bs) := by
  apply agrees_get_bind
  intro e e' hee
  refine ⟨fsWrite p (e.contents p).length bs, rfl, ?_, drift_fsWrite p _ bs⟩
  rw [hee.same]
  rfl

theorem drift_fsOpen (p : Path) (create trunc : Bool) : Agrees Drift (fsOpen (κ := κ) p create trunc) := by
  apply agrees_bind drift_call
  intro _
  apply agrees_drift
  intro e n hc
  rw [outcome_get_bind, outcome_get_bind, post_get_bind, post_get_bind]
  cases e.files.lookup p with
  | some _ => cases trunc <;> exact ⟨rfl, hc, rfl⟩
  | none => cases create <;> exact ⟨rfl, hc, rfl⟩

theorem drift_fsUnlink (p : Path) : Agrees Drift (fsUnlink (κ := κ) p) := by
  apply agrees_bind drift_call
  intro _
  apply agrees_drift
  intro e n hc
  rw [outcome_get_bind, outcome_get_bind, post_get_bind, post_get_bind]
  by_cases hp : p ∈ e.files
  · rw [if_pos hp, if_pos hp]
    exact ⟨rfl, hc, rfl⟩
  · rw [if_neg hp, if_neg hp]
    exact ⟨rfl, hc, rfl⟩

theorem drift_fsRename (old new : Path) : Agrees Drift (fsRename (κ := κ) old new) := by
  apply agrees_bind drift_call
  intro _
  apply agrees_drift
  intro e n hc
  rw [outcome_get_bind, outcome_get_bind, post_get_bind, post_get_bind]
  cases e.files.lookup old <;> exact ⟨rfl, hc, rfl⟩

theorem drift_fsStat (p : Path) : Agrees Drift (fsStat (κ := κ) p) := by
  apply agrees_bind drift_call
  intro _
  apply agrees_drift
  intro e n hc
  rw [outcome_get_bind, outcome_get_bind, post_get_bind, post_get_bind]
  cases e.files.lookup p <;> exact ⟨rfl, hc, rfl⟩

end Drift

/-- One world after another: these files, the same faults and the same kind of handles. -/
structure Leads (e : Env κ) (look : Path → Option Bytes) (e' : Env κ) : Prop where
  look : e'.look = look
  faults : e'.faults = e.faults
  shared : e'.shared = e.shared
  written : e.written <:+ e'.written

theorem Leads.clean {e e' : Env κ} {look : Path → Option Bytes} (h : Leads e look e') (hc : e.Clean) :
    e'.Clean := by
  intro n
  rw [h.faults]
  exact hc n

theorem Leads.refl (e : Env κ) : Leads e e.look e := ⟨rfl, rfl, rfl, List.suffix_rfl⟩

theorem Leads.trans {e e' e'' : Env κ} {look look' : Path → Option Bytes} (h : Leads e look e')
    (k : Leads e' look' e'') : Leads e look' e'' :=
  ⟨k.look, k.faults.trans h.faults, k.shared.trans h.shared, h.written.trans k.written⟩

theorem leads_of_within {e e' : Env κ} (h : Within (fun _ => False) e e') : Leads e e.look e' :=
  ⟨funext fun p => h.lookup p id, h.faults, h.shared, h.written⟩

theorem Leads.within {P : Path → Prop} {e e' : Env κ} {p : Path} {bs : Option Bytes} (hp : P p)
    (h : Leads e (Function.update e.look p bs) e') : Within P e e' := by
  refine ⟨fun q hq => ?_, h.faults, h.shared, h.written⟩
  have hne : q ≠ p := fun heq => hq (heq ▸ hp)
  rw [lookup_eq, lookup_eq, h.look, Function.update_of_ne hne]

section Clean
variable {e : Env κ} (hc : e.Clean)
include hc

theorem call_ok : ∃ e', (call (κ := κ)).run e = .ok () e' ∧ Leads e e.look e' := by
  refine ⟨e.next, ?_, rfl, rfl, rfl, List.suffix_rfl⟩
  show call e = _
  simp [call, fault, hc e.tick]

theorem fsOpen_existing {p : Path} {bs : Bytes} (create : Bool) (h : e.look p = some bs) :
    ∃ e', (fsOpen p create false).run e = .ok () e' ∧ Leads e e.look e' := by
  obtain ⟨e₁, h₁, l₁⟩ := call_ok hc
  have hp : e₁.files.lookup p = some bs := by rw [lookup_eq, l₁.look, h]
  exact ⟨e₁, by simp [fsOpen, h₁, hp], l₁⟩

theorem fsOpen_missing {p : Path} (trunc : Bool) (h : e.look p = none) :
    ∃ e', (fsOpen p false trunc).run e = .error .ENOENT e' ∧ Leads e e.look e' := by
  obtain ⟨e₁, h₁, l₁⟩ := call_ok hc
  have hp : e₁.files.lookup p = none := by rw [lookup_eq, l₁.look, h]
  exact ⟨e₁, by simp [fsOpen, h₁, hp], l₁⟩

theorem fsOpen_create {p : Path} (trunc : Bool) (h : e.look p = none) :
    ∃ e', (fsOpen p true trunc).run e = .ok () e' ∧ Leads e (Function.update e.look p (some [])) e' := by
  obtain ⟨e₁, h₁, l₁⟩ := call_ok hc
  have hp : e₁.files.lookup p = none := by rw [lookup_eq, l₁.look, h]
  refine ⟨e₁.setFiles (e₁.files.insert p []), by simp [fsOpen, h₁, hp], ?_, l₁.faults, l₁.shared, l₁.written⟩
  rw [look_insert, l₁.look]

theorem fsOpen_truncate (p : Path) :
    ∃ e', (fsOpen p true true).run e = .ok () e' ∧ Leads e (Function.update e.look p (some [])) e' := by
  obtain ⟨e₁, h₁, l₁⟩ := call_ok hc
  refine ⟨e₁.setFiles (e₁.files.insert p []), ?_, ?_, l₁.faults, l₁.shared, l₁.written⟩
  · cases hp : e₁.files.lookup p <;> simp [fsOpen, h₁, hp]
  · rw [look_insert, l₁.look]

theorem fsRead_ok (p : Path) (off len : Nat) :
    ∃ e', (fsRead p off len).run e = .ok (slice ((e.look p).getD []) off len) e' ∧
      Leads e e.look e' := by
  refine ⟨e.next, ?_, rfl, rfl, rfl, List.suffix_rfl⟩
  show fsRead p off len e = _
  simp [fsRead, fault, hc e.tick, contents_eq]

theorem fsReadHandle_ok (p : Path) (size off len : Nat) :
    ∃ e', (fsReadHandle p size off len).run e = .ok (slice (e.visible p size) off len) e' ∧
      Leads e e.look e' := by
  refine ⟨e.next, ?_, rfl, rfl, rfl, List.suffix_rfl⟩
  show fsReadHandle p size off len e = _
  simp [fsReadHandle, fault, hc e.tick]

theorem fsWrite_ok {p : Path} {old : Bytes} (off : Nat) (bs : Bytes) (h : e.look p = some old) :
    ∃ e', (fsWrite p off bs).run e = .ok bs.length e' ∧
      Leads e (Function.update e.look p (some (writeAt old off bs))) e' := by
  refine ⟨(e.next.setFiles (e.next.files.insert p (writeAt old off bs))).wrote p bs, ?_, look_insert _ _ _,
    rfl, rfl, List.suffix_cons _ _⟩
  show fsWrite p off bs e = _
  have hp : e.files.lookup p = some old := h
  simp [fsWrite, fault, Env.modify, hc e.tick, hp]

theorem fsAppend_ok {p : Path} {old : Bytes} (bs : Bytes) (h : e.look p = some old) :
    ∃ e', (fsAppend p bs).run e = .ok bs.length e' ∧
      Leads e (Function.update e.look p (some (old ++ bs))) e' := by
  have hold : e.contents p = old := by rw [contents_eq, h, Option.getD_some]
  obtain ⟨e₁, h₁, l₁⟩ := fsWrite_ok hc old.length bs h
  rw [writeAt_end] at l₁
  exact ⟨e₁, by simp [fsAppend, hold, h₁], l₁⟩

theorem fsTruncate_ok {p : Path} {old : Bytes} (len : Nat) (h : e.look p = some old) :
    ∃ e', (fsTruncate p len).run e = .ok () e' ∧
      Leads e (Function.update e.look p (some (old.take len))) e' := by
  obtain ⟨e₁, h₁, l₁⟩ := call_ok hc
  have hp : e₁.files.lookup p = some old := by rw [lookup_eq, l₁.look, h]
  refine ⟨e₁.setFiles (e₁.files.insert p (old.take len)), ?_, ?_, l₁.faults, l₁.shared, l₁.written⟩
  · simp [fsTruncate, h₁, Env.modify, hp]
  · rw [look_insert, l₁.look]

theorem fsStat_existing {p : Path} {bs : Bytes} (h : e.look p = some bs) :
    ∃ e', (fsStat p).run e = .ok bs.length e' ∧ Leads e e.look e' := by
  obtain ⟨e₁, h₁, l₁⟩ := call_ok hc
  have hp : e₁.files.lookup p = some bs := by rw [lookup_eq, l₁.look, h]
  exact ⟨e₁, by simp [fsStat, h₁, hp], l₁⟩

theorem fsStat_missing {p : Path} (h : e.look p = none) :
    ∃ e', (fsStat p).run e = .error .ENOENT e' ∧ Leads e e.look e' := by
  obtain ⟨e₁, h₁, l₁⟩ := call_ok hc
  have hp : e₁.files.lookup p = none := by rw [lookup_eq, l₁.look, h]
  exact ⟨e₁, by simp [fsStat, h₁, hp], l₁⟩

theorem fsUnlink_existing {p : Path} {bs : Bytes} (h : e.look p = some bs) :
    ∃ e', (fsUnlink p).run e = .ok () e' ∧ Leads e (Function.update e.look p none) e' := by
  obtain ⟨e₁, h₁, l₁⟩ := call_ok hc
  have hm : p ∈ e₁.files := AList.lookup_isSome.mp (by rw [lookup_eq, l₁.look, h]; rfl)
  refine ⟨e₁.setFiles (e₁.files.erase p), by simp [fsUnlink, h₁, hm], ?_, l₁.faults, l₁.shared, l₁.written⟩
  rw [look_erase, l₁.look]

theorem fsUnlink_missing {p : Path} (h : e.look p = none) :
    ∃ e', (fsUnlink p).run e = .error .ENOENT e' ∧ Leads e e.look e' := by
  obtain ⟨e₁, h₁, l₁⟩ := call_ok hc
  have hm : p ∉ e₁.files := by
    rw [← AList.lookup_isSome, lookup_eq, l₁.look, h]
    simp
  exact ⟨e₁, by simp [fsUnlink, h₁, hm], l₁⟩

theorem fsRename_existing {old new : Path} {bs : Bytes} (h : e.look old = some bs) :
    ∃ e', (fsRename old new).run e = .ok () e' ∧
      Leads e (Function.update (Function.update e.look old none) new (some bs)) e' := by
  obtain ⟨e₁, h₁, l₁⟩ := call_ok hc
  have hp : e₁.files.lookup old = some bs := by rw [lookup_eq, l₁.look, h]
  refine ⟨e₁.setFiles ((e₁.files.erase old).insert new bs), by simp [fsRename, h₁, hp], ?_,
    l₁.faults, l₁.shared, l₁.written⟩
  show Files.look ((e₁.files.erase old).insert new bs) = _
  rw [Files.look_insert, Files.look_erase]
  exact congrArg (fun f => Function.update (Function.update f old none) new (some bs)) l₁.look

theorem fsList_ok (dir : Path) :
    ∃ e', (fsList dir).run e = .ok (e.files.keys.filterMap (entryName dir)) e' ∧ Leads e e.look e' := by
  refine ⟨e.next, ?_, rfl, rfl, rfl, List.suffix_rfl⟩
  show fsList dir e = _
  simp [fsList, fault, hc e.tick]

end Clean

def Fault.Fails (f : Fault) : Prop := ∃ err n, f = .fail err n

instance : DecidablePred Fault.Fails
  | .none => isFalse fun ⟨_, _, h⟩ => nomatch h
  | .short _ => isFalse fun ⟨_, _, h⟩ => nomatch h
  | .fail err n => isTrue ⟨err, n, rfl⟩

structure Spent (e : Env κ) (look : Path → Option Bytes) (e' : Env κ) : Prop extends Leads e look e' where
  tick : e'.tick = e.tick + 1
  side : e'.side = e.side

section Faulty
variable (e : Env κ)

theorem spent_next : Spent e e.look e.next := ⟨⟨rfl, rfl, rfl, List.suffix_rfl⟩, rfl, rfl⟩

theorem call_yields : Yields (call (κ := κ)) e (fun _ e' => ¬ e.fault.Fails ∧ Spent e e.look e')
    fun err e' => (∃ n, e.fault = .fail err n) ∧ Spent e e.look e' := by
  unfold Yields EStateM.run call
  cases h : e.fault with
  | none => exact ⟨by simp [Fault.Fails], spent_next e⟩
  | short n => exact ⟨by simp [Fault.Fails], spent_next e⟩
  | fail err n => exact ⟨⟨n, rfl⟩, spent_next e⟩

theorem fsOpen_truncate_yields (p : Path) : Yields (fsOpen p true true) e
    (fun _ e' => ¬ e.fault.Fails ∧ Spent e (Function.update e.look p (some [])) e')
    fun err e' => (∃ n, e.fault = .fail err n) ∧ Spent e e.look e' := by
  refine yields_bind (call_yields e) fun _ e' ⟨hf, hs⟩ => yields_get_bind ?_
  have hset : Spent e (Function.update e.look p (some [])) (e'.setFiles (e'.files.insert p [])) :=
    ⟨⟨by rw [look_insert, hs.look], hs.faults, hs.shared, hs.written⟩, hs.tick, hs.side⟩
  split <;> exact ⟨hf, hset⟩

theorem fsOpen_create_yields (p : Path) : Yields (fsOpen p true false) e
    (fun _ e' => ¬ e.fault.Fails ∧ Spent e (Function.update e.look p (some (e.contents p))) e')
    fun err e' => (∃ n, e.fault = .fail err n) ∧ Spent e e.look e' := by
  refine yields_bind (call_yields e) fun _ e' ⟨hf, hs⟩ => yields_get_bind ?_
  have hp : e'.files.lookup p = e.look p := congrFun hs.look p
  split
  · rename_i bs hbs
    have hsame : Function.update e.look p (some (e.contents p)) = e.look := by
      rw [contents_eq, ← hp, hbs, Option.getD_some, Function.update_eq_self_iff, ← hp, hbs]
    rw [hsame]
    exact ⟨hf, hs⟩
  · rename_i hnone
    rw [contents_eq, ← hp, hnone]
    exact ⟨hf, ⟨by rw [look_insert, hs.look]; rfl, hs.faults, hs.shared, hs.written⟩, hs.tick, hs.side⟩

theorem fsStat_yields (p : Path) : Yields (fsStat p) e
    (fun size e' => size = (e.contents p).length ∧ Spent e e.look e')
    fun err e' => ((∃ n, e.fault = .fail err n) ∨ (e.look p = none ∧ err = .ENOENT)) ∧ Spent e e.look e' := by
  refine yields_bind ((call_yields e).imp (fun _ _ h => h) fun _ _ h => ⟨.inl h.1, h.2⟩) fun _ e' ⟨_, hs⟩ => ?_
  apply yields_get_bind
  have hp : e'.files.lookup p = e.look p := congrFun hs.look p
  split
  · rename_i bs hbs
    refine yields_pure ⟨?_, hs⟩
    rw [contents_eq, ← hp, hbs, Option.getD_some]
  · rename_i hnone
    exact yields_throw ⟨.inr ⟨hp.symm.trans hnone, rfl⟩, hs⟩

theorem spent_write {p : Path} {old : Bytes} (h : e.look p = some old) (off : Nat) (bs : Bytes) :
    Spent e (Function.update e.look p (some (writeAt old off bs)))
      ((e.next.modify p fun old => writeAt old off bs).wrote p bs) := by
  have hp : e.next.files.lookup p = some old := h
  unfold Env.modify
  rw [hp]
  exact ⟨⟨look_insert _ _ _, rfl, rfl, List.suffix_cons _ _⟩, rfl, rfl⟩

theorem fsWrite_moves {p : Path} {old : Bytes} (h : e.look p = some old) (off : Nat) (bs : Bytes) :
    Yields (fsWrite p off bs) e
      (fun w e' => (e.fault = .none ∧ w = bs.length ∨ ∃ n, e.fault = .short n ∧ w = min n bs.length) ∧
        Spent e (Function.update e.look p (some (writeAt old off (bs.take w)))) e')
      fun err e' => ∃ n, e.fault = .fail err n ∧
        Spent e (Function.update e.look p (some (writeAt old off (bs.take n)))) e' := by
  unfold Yields EStateM.run fsWrite
  cases hf : e.fault with
  | none =>
    refine ⟨.inl ⟨rfl, rfl⟩, ?_⟩
    rw [List.take_length]
    exact spent_write e h off bs
  | short n =>
    refine ⟨.inr ⟨n, rfl, rfl⟩, ?_⟩
    rw [← List.take_eq_take_min]
    exact spent_write e h off (bs.take n)
  | fail err n => exact ⟨n, rfl, spent_write e h off (bs.take n)⟩

theorem fsWrite_yields {p : Path} {old : Bytes} (h : e.look p = some old) (off : Nat) (bs : Bytes) :
    Yields (fsWrite p off bs) e
      (fun w e' => ¬ e.fault.Fails ∧ w ≤ bs.length ∧
        Spent e (Function.update e.look p (some (writeAt old off (bs.take w)))) e')
      fun err e' => ∃ n, e.fault = .fail err n ∧
        Spent e (Function.update e.look p (some (writeAt old off (bs.take n)))) e' := by
  refine (fsWrite_moves e h off bs).imp (fun w e' hw => ?_) fun _ _ hf => hf
  obtain ⟨⟨hf, rfl⟩ | ⟨n, hf, rfl⟩, hs⟩ := hw
  · exact ⟨by simp [hf, Fault.Fails], Nat.le_refl _, hs⟩
  · exact ⟨by simp [hf, Fault.Fails], Nat.min_le_right _ _, hs⟩

theorem fsAppend_yields {p : Path} {old : Bytes} (h : e.look p = some old) (bs : Bytes) :
    Yields (fsAppend p bs) e
      (fun w e' => ¬ e.fault.Fails ∧ w ≤ bs.length ∧ Spent e (Function.update e.look p (some (old ++ bs.take w))) e')
      fun err e' => ∃ n, e.fault = .fail err n ∧ Spent e (Function.update e.look p (some (old ++ bs.take n))) e' := by
  have hold : e.contents p = old := by rw [contents_eq, h, Option.getD_some]
  have hw := fsWrite_yields e h old.length bs
  simp only [writeAt_end] at hw
  apply yields_get_bind
  rw [hold]
  exact hw

theorem fsAppend_idle {p : Path} {old : Bytes} (h : e.look p = some old) (bs : Bytes)
    (hidle : (∃ err, e.fault = .fail err 0) ∨ e.fault = .short 0) : Yields (fsAppend p bs) e
      (fun w e' => w = 0 ∧ e.fault = .short 0 ∧ Spent e e.look e')
      fun err e' => e.fault = .fail err 0 ∧ Spent e e.look e' := by
  have hspent := spent_write e h (e.contents p).length []
  have hold : e.contents p = old := by rw [contents_eq, h, Option.getD_some]
  have hsame : Function.update e.look p (some (writeAt old (e.contents p).length [])) = e.look := by
    rw [hold, writeAt_end, List.append_nil, Function.update_eq_self_iff, h]
  rw [hsame] at hspent
  apply yields_get_bind
  unfold Yields EStateM.run fsWrite
  rcases hidle with ⟨err, hf⟩ | hf
  · rw [hf]
    exact ⟨rfl, hspent⟩
  · rw [hf]
    exact ⟨Nat.zero_min _, rfl, hspent⟩

theorem fsUnlink_yields (p : Path) : Yields (fsUnlink p) e
    (fun _ e' => ¬ e.fault.Fails ∧ e.look p ≠ none ∧ Spent e (Function.update e.look p none) e')
    fun err e' => ((∃ n, e.fault = .fail err n) ∨ (¬ e.fault.Fails ∧ e.look p = none ∧ err = .ENOENT)) ∧
      Spent e e.look e' := by
  refine yields_bind ((call_yields e).imp (fun _ _ h => h) fun _ _ h => ⟨.inl h.1, h.2⟩) fun _ e' ⟨hf, hs⟩ => ?_
  apply yields_get_bind
  have hmem : p ∈ e'.files ↔ e.look p ≠ none := by
    rw [← AList.lookup_isSome, lookup_eq, hs.look, Option.isSome_iff_ne_none]
  split
  · rename_i hp
    exact ⟨hf, hmem.mp hp, ⟨by rw [look_erase, hs.look], hs.faults, hs.shared, hs.written⟩, hs.tick, hs.side⟩
  · rename_i hp
    exact ⟨.inr ⟨hf, by_contra fun hn => hp (hmem.mpr hn), rfl⟩, hs⟩

theorem fsRename_yields (old new : Path) : Yields (fsRename old new) e
    (fun _ e' => ¬ e.fault.Fails ∧ ∃ bs, e.look old = some bs ∧
      Spent e (Function.update (Function.update e.look old none) new (some bs)) e')
    fun err e' => ((∃ n, e.fault = .fail err n) ∨ (e.look old = none ∧ err = .ENOENT)) ∧ Spent e e.look e' := by
  refine yields_bind ((call_yields e).imp (fun _ _ h => h) fun _ _ h => ⟨.inl h.1, h.2⟩) fun _ e' ⟨hf, hs⟩ => ?_
  apply yields_get_bind
  split
  · rename_i bs hp
    rw [lookup_eq, hs.look] at hp
    refine ⟨hf, bs, hp, ⟨?_, hs.faults, hs.shared, hs.written⟩, hs.tick, hs.side⟩
    show Files.look ((e'.files.erase old).insert new bs) = _
    rw [Files.look_insert, Files.look_erase]
    exact congrArg (fun f => Function.update (Function.update f old none) new (some bs)) hs.look
  · rename_i hp
    rw [lookup_eq, hs.look] at hp
    exact ⟨.inr ⟨hp, rfl⟩, hs⟩

theorem fsMove_yields (replaces : Bool) (old new : Path) : Yields (fsMove replaces old new) e
    (fun _ e' => ¬ e.fault.Fails ∧ ∃ bs, e.look old = some bs ∧
      Spent e (Function.update (Function.update e.look old none) new (some bs)) e')
    fun err e' => ((∃ n, e.fault = .fail err n) ∨ (e.look old = none ∧ err = .ENOENT) ∨
      (¬ e.fault.Fails ∧ replaces = false ∧ e.look new ≠ none ∧ err = .EEXIST)) ∧ Spent e e.look e' := by
  apply yields_get_bind
  split
  · rename_i hrefused
    have hrefused : replaces = false ∧ e.look new ≠ none := by
      simpa [lookup_eq, Option.isSome_iff_ne_none] using hrefused
    apply yields_bind ((call_yields e).imp (fun _ _ h => h) fun _ _ h => ⟨.inl h.1, h.2⟩)
    intro _ e' h
    exact ⟨.inr (.inr ⟨h.1, hrefused.1, hrefused.2, rfl⟩), h.2⟩
  · exact (fsRename_yields e old new).imp (fun _ _ h => h) fun _ _ h => ⟨h.1.imp_right .inl, h.2⟩

end Faulty

end Lib
