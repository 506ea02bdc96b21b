import ZephyrDB.Ts.Run
import ZephyrDB.Ts.Log

/-!
What an application can tell of an instance when nothing fails: which streams
are open and how often, which handle is bound to which, and one log per stream.
The calls answer from this alone; no byte, file or slot field is left in it.
-/

set_option autoImplicit false

namespace ZephyrDB.Ts

open Lib

def segRecords (g : Seg Format.fits) : List (Bytes × Sample) :=
  g.items.map fun sample => (g.format.encode sample, sample)

namespace Log

def bufRecords (L : Log) : List (Bytes × Sample) :=
  L.buf.map fun sample => (L.cur.format.encode sample, sample)

/-- What there is to read, oldest first. -/
def records (L : Log) : List (Bytes × Sample) :=
  (L.past.drop L.lo).flatMap segRecords ++ (segRecords L.cur ++ bufRecords L)

theorem segRecords_samples (g : Seg Format.fits) : (segRecords g).map Prod.snd = g.items := by
  simp [segRecords, Function.comp_def]

theorem records_samples (L : Log) : (records L).map Prod.snd = L.kept := by
  have hseg : ∀ gs : List (Seg Format.fits), (gs.flatMap segRecords).map Prod.snd = gs.flatMap Seg.items := by
    intro gs
    induction gs with
    | nil => rfl
    | cons g gs ih => rw [List.flatMap_cons, List.map_append, ih, segRecords_samples, List.flatMap_cons]
  have hbuf : (bufRecords L).map Prod.snd = L.buf := by simp [bufRecords, Function.comp_def]
  rw [records, List.map_append, List.map_append, hseg, segRecords_samples, hbuf, SegLog.kept]

end Log

/-- What a cursor with this window and predicate yields of a record. -/
def admits (window : Window) (predicate : Option (Bytes → Bool)) (r : Bytes × Sample) : Bool :=
  windowMatch window r.2.tsMs && (match predicate with | none => true | some p => p r.1)

def view (window : Window) (predicate : Option (Bytes → Bool)) (descending : Bool) (L : Log) :
    List (Bytes × Sample) :=
  let found := (Log.records L).filter (admits window predicate)
  if descending then found.reverse else found

/-- What `n` steps over the records report: each of them once, then `ZDB_ERR_NOT_FOUND` for ever. -/
def walkOf : List (Bytes × Sample) → Nat → List (Except Status (Bytes × Sample))
  | _, 0 => []
  | [], n + 1 => .error .ERR_NOT_FOUND :: walkOf [] n
  | r :: rs, n + 1 => .ok r :: walkOf rs n

structure Store where
  running : Bool
  table : List (Option (Bytes × Nat))
  pending : Bool
  handles : Nat → Option Bytes
  logs : Bytes → Log

namespace Store

def find (A : Store) (name : Bytes) : Option Nat := A.table.findIdx? fun key => key.map Prod.fst == some name

def vacant (A : Store) : Option Nat := A.table.findIdx? Option.isNone

def users (A : Store) (i : Nat) : Nat := ((A.table.getD i none).map Prod.snd).getD 0

def setKey (A : Store) (i : Nat) (key : Option (Bytes × Nat)) : Store := { A with table := A.table.set i key }

def bind (A : Store) (h : Nat) (name : Option Bytes) : Store :=
  { A with handles := Function.update A.handles h name }

def setLog (A : Store) (name : Bytes) (L : Log) : Store := { A with logs := Function.update A.logs name L }

def setPending (A : Store) (pending : Bool) : Store := { A with pending := pending }

def restart (cfg : Cfg) (A : Store) (running : Bool) : Store where
  running := running
  table := List.replicate cfg.maxStreams none
  pending := false
  handles := A.handles
  logs name := (A.logs name).lose

def openStream (cfg : Cfg) (A : Store) (h : Nat) (name : Bytes) : Status × Store :=
  if !streamNameValid cfg name || !A.running then (.ERR_INVAL, A)
  else
    match A.find name with
    | some i =>
      let count := A.users i
      (.OK, (A.setKey i (some (name, if count < 255 then count + 1 else count))).bind h (some name))
    | none =>
      match A.vacant with
      | none => (.ERR_BUSY, A)
      | some i => (.OK, (A.setKey i (some (name, 1))).bind h (some name))

def drainLog (cfg : Cfg) (A : Store) (name : Bytes) : Store := A.setLog name (Log.drain cfg (A.logs name))

def closeDrain (cfg : Cfg) (A : Store) (name : Bytes) : Store :=
  match A.find name with
  | none => A
  | some i => if A.users i ≤ 1 then A.drainLog cfg name else A

def release (A : Store) (name : Bytes) : Store :=
  match A.find name with
  | none => A
  | some i => A.setKey i (if A.users i > 1 then some (name, A.users i - 1) else none)

def close (cfg : Cfg) (A : Store) (h : Nat) : Store :=
  match A.handles h with
  | none => A
  | some name => ((A.closeDrain cfg name).release name).bind h none

def nudge (cfg : Cfg) (A : Store) (name : Bytes) : Store :=
  if Log.noRoom cfg (A.logs name) then A.setPending true else A

def append (cfg : Cfg) (A : Store) (h : Nat) (samples : List Sample) : Status × Store :=
  match A.handles h with
  | none => (.ERR_INVAL, A)
  | some name =>
    if samples.isEmpty || !A.running || (A.find name).isNone then (.ERR_INVAL, A)
    else if cfg.ingestCapacity < (A.logs name).recSize then (.ERR_NOMEM, A)
    else (.OK, (A.setLog name (samples.foldl (Log.append cfg) (A.logs name))).nudge cfg name)

def flushAsync (A : Store) (h : Nat) : Status × Store :=
  if (A.handles h).isNone || !A.running then (.ERR_INVAL, A)
  else if A.pending then (.ERR_BUSY, A)
  else (.OK, A.setPending true)

def drainSlot (cfg : Cfg) (A : Store) (i : Nat) : Store :=
  match A.table.getD i none with
  | some (name, _) => A.drainLog cfg name
  | none => A

def drainSlots (cfg : Cfg) (A : Store) (is : List Nat) : Store := is.foldl (drainSlot cfg) A

def drainAll (cfg : Cfg) (A : Store) : Store := A.drainSlots cfg (List.range A.table.length)

def flushSync (cfg : Cfg) (A : Store) (h : Nat) : Status × Store :=
  if (A.handles h).isNone then (.ERR_INVAL, A)
  else if !A.running then (.ERR_INTERNAL, A)
  else (.OK, (A.drainAll cfg).setPending false)

def readable (cfg : Cfg) (A : Store) (h : Nat) : Option Bytes :=
  match A.handles h with
  | none => none
  | some name => if A.running && (!cfg.segmented || (A.find name).isSome) then some name else none

def points (A : Store) (name : Bytes) (window : Window) : Nat :=
  (view window none false (A.logs name)).length % 2 ^ 32

end Store

/-- Make a call. -/
def Store.step (cfg : Cfg) (A : Store) : Op → Reply × Store
  | .init => (⟨.OK, .none⟩, A.restart cfg true)
  | .deinit => (⟨.OK, .none⟩, A.restart cfg false)
  | .open h name => (⟨(A.openStream cfg h name).1, .none⟩, (A.openStream cfg h name).2)
  | .close h => (⟨.OK, .none⟩, A.close cfg h)
  | .append h sample => (⟨(A.append cfg h [sample]).1, .none⟩, (A.append cfg h [sample]).2)
  | .batch h samples => (⟨(A.append cfg h samples).1, .none⟩, (A.append cfg h samples).2)
  | .flushAsync h => (⟨(A.flushAsync h).1, .none⟩, (A.flushAsync h).2)
  | .flushSync h => (⟨(A.flushSync cfg h).1, .none⟩, (A.flushSync cfg h).2)
  | .drain => (⟨.OK, .none⟩, if A.pending then (A.drainAll cfg).setPending false else A)
  | .recover h =>
    match A.readable cfg h with
    | none => (⟨.ERR_INVAL, .none⟩, A)
    | some _ => (⟨.OK, .points 0⟩, A)
  | .count h window =>
    match A.readable cfg h with
    | none => (⟨.ERR_INVAL, .none⟩, A)
    | some name => (⟨.OK, .points (A.points name window)⟩, A)
  | .cursor h window predicate descending n =>
    match A.readable cfg h with
    | none => (⟨.ERR_INVAL, .none⟩, A)
    | some name => (⟨.OK, .walk (walkOf (view window predicate descending (A.logs name)) n)⟩, A)

end ZephyrDB.Ts
