import ZephyrDB.Ts.Aggregate
import ZephyrDB.Ts.Contract

/-!
What the answers of a stream do not depend on: the way its samples are counted,
what happens to other streams and when buffers are written out, and whether
streams are recovered when they are opened. A restart costs what is buffered.
-/

set_option autoImplicit false

namespace ZephyrDB.Ts

open Lib

section Aggregate
variable {cfg : Cfg} {N U : Bytes → Prop} {a : App} {A : Store} {h : Nat} {name : Bytes}

end Aggregate

namespace Log

end Log

section Bystander
variable {cfg : Cfg} {N U : Bytes → Prop} {a : App} {A : Store} {name : Bytes}

/-- A stream has nothing in its buffer. -/
def Flushed (a : App) (name : Bytes) : Prop := ∀ i, a.slotFind name = some i → (a.slotAt i).ingestUsed = 0

end Bystander

section Restart
variable {cfg : Cfg} {N U : Bytes → Prop} {a : App} {A : Store} {name : Bytes}

end Restart

section Runs
variable {cfg : Cfg} {N : Bytes → Prop} {e : Sys} {ops more : List Op} {h h' : Nat} {name : Bytes}

theorem Bounded.split (ops : List Op) {a : App} (hb : Bounded cfg a (ops ++ more)) :
    Bounded cfg a ops ∧ Bounded cfg (run cfg a ops) more := by
  induction ops generalizing a with
  | nil => exact ⟨trivial, hb⟩
  | cons op ops ih =>
    obtain ⟨hhead, hrest⟩ := hb
    obtain ⟨hops, hmore⟩ := ih hrest
    exact ⟨⟨hhead, hops⟩, hmore⟩

theorem Uniform.run (ops : List Op) {A : Store} (hu : Uniform cfg N A) : Uniform cfg N (A.run cfg ops) := by
  induction ops generalizing A with
  | nil => exact hu
  | cons op ops ih => exact ih (hu.step op)

theorem Orderly.split (ho : Orderly cfg N e (ops ++ more)) : Orderly cfg N e ops ∧
    Regular cfg N Unknown (run cfg (App.boot e) ops) ((Store.fresh cfg).run cfg ops) more := by
  obtain ⟨hops, hmore⟩ := ho.bounded.split ops
  have hfirst : Orderly cfg N e ops :=
    ⟨ho.auto, ho.family, ho.unwritten, fun h n hm => ho.opens h n (List.mem_append_left more hm), hops⟩
  exact ⟨hfirst, regular_uniform ho.auto ho.family more hfirst.world ((Uniform.fresh cfg N).run ops)
    (fun h n hm => ho.opens h n (List.mem_append_right ops hm)) hmore⟩

end Runs

def Cfg.recovering (cfg : Cfg) (b : Bool) : Cfg := { cfg with autoRecoverOnOpen := b }

def Anyone : Bytes → Prop := fun _ => True

/-- The slot of the stream that a handle is on, if there is one, has been scanned. -/
def App.knows (a : App) (h : Nat) : Bool :=
  match (a.handles h).bind a.slotFind with
  | none => true
  | some i => (a.slotAt i).segsScanned

/-- The slot of a segmented stream has been scanned before a call needs what it knows of the files: an append with
delta encoding needs the version and the base of the newest segment, an unbounded count the segment window. -/
def Informed (cfg : Cfg) (a : App) : Op → Prop
  | .append h _ | .batch h _ => cfg.delta = true → a.knows h = true
  | .count h window => cfg.segmented = true → windowIsUnbounded window = true → a.knows h = true
  | _ => True

instance (cfg : Cfg) (a : App) (op : Op) : Decidable (Informed cfg a op) := by
  cases op <;> unfold Informed <;> infer_instance

def StaysInformed (cfg : Cfg) : App → List Op → Prop
  | _, [] => True
  | a, op :: ops => Informed cfg a op ∧ StaysInformed cfg (step cfg a op).2 ops

instance decidableStaysInformed (cfg : Cfg) : ∀ (a : App) (ops : List Op), Decidable (StaysInformed cfg a ops)
  | _, [] => .isTrue trivial
  | a, op :: ops =>
    have := decidableStaysInformed cfg (step cfg a op).2 ops
    inferInstanceAs (Decidable (Informed cfg a op ∧ StaysInformed cfg (step cfg a op).2 ops))

/-- Storage that works and holds what a log of each stream of the family comes to, the newest segment in the
build's record version. -/
structure Stocked (cfg : Cfg) (N : Bytes → Prop) (e : Sys) (logs : Bytes → Log) : Prop where
  clean : e.Clean
  stored : ∀ name, N name → Stored cfg name (logs name) e.look
  shut : ∀ name, N name → (logs name).buf = []
  bound : ∀ name, N name → (logs name).past.length < 10000
  version : ∀ name, N name → (logs name).recSize = (buildFormat cfg 0).recSize

def Store.stocked (cfg : Cfg) (logs : Bytes → Log) : Store := { Store.fresh cfg with logs := logs }

section Informed
variable {cfg : Cfg} {N U : Bytes → Prop} {a : App} {A : Store} {e : Sys} {logs : Bytes → Log}

theorem Stocked.world (h : Stocked cfg N e logs) : World cfg N U (App.boot e) (Store.stocked cfg logs) where
  clean := h.clean
  running := rfl
  table := rfl
  pending := rfl
  handles := rfl
  bound _ _ hh := by cases hh
  mine _ hi := by cases hi
  rep _ hi := by cases hi
  unique _ _ hi := by cases hi
  stored name hN _ := ⟨h.stored name hN, h.shut name hN, h.bound name hN⟩
  informed _ _ hi := by cases hi

theorem format_v1 (hd : cfg.delta = false) {L : Log} (h : L.recSize = (buildFormat cfg 0).recSize) : L.cur.format = .v1 := by
  rw [buildFormat, hd, if_neg Bool.false_ne_true, Log.recSize, ← Format.version_eq_iff] at h
  cases hf : L.cur.format with
  | v1 => rfl
  | v2 baseTsMs =>
    rw [hf] at h
    exact absurd h (by simp [Format.version, STREAM_VERSION, STREAM_VERSION_V2])

theorem scanned_of_knows {h i : Nat} {name : Bytes} (hk : a.knows h = true) (hh : a.handles h = some name)
    (hi : a.slotFind name = some i) : (a.slotAt i).segsScanned = true := by
  rwa [App.knows, hh, Option.bind_some, hi] at hk

theorem permitted_informed (hW : World cfg N Anyone a A) (hu : Uniform cfg N A) (op : Op)
    (hopen : ∀ h name, op = .open h name → N name) (hinf : Informed cfg a op) : Permitted cfg N Anyone a A op := by
  have hingest : ∀ h samples, (cfg.delta = true → a.knows h = true) → Ingests cfg a A h samples := by
    intro h samples hscan name i hh hi
    have hrec := hu name (hW.bound h name hh)
    refine ⟨?_, ?_, Log.steadyAll_uniform samples hrec⟩
    · intro _ hno
      cases hd : cfg.delta with
      | false => exact format_v1 hd hrec
      | true =>
        rw [scanned_of_knows (hscan hd) hh hi] at hno
        cases hno
    · intro hle
      rw [hrec] at hle
      exact hle
  cases op with
  | «open» h name => exact ⟨hopen h name rfl, .inr trivial⟩
  | append h sample => exact hingest h [sample] hinf
  | batch h samples => exact hingest h samples hinf
  | count h window => exact fun hs hw name i hh hi => scanned_of_knows (hinf hs hw) hh hi
  | init => trivial
  | deinit => trivial
  | close h => trivial
  | flushAsync h => trivial
  | flushSync h => trivial
  | drain => trivial
  | recover h => trivial
  | cursor h window predicate descending n => trivial

theorem regular_informed (hF : Family cfg N) (ops : List Op) (hW : World cfg N Anyone a A) (hu : Uniform cfg N A)
    (hopen : OpensOnly N ops) (hinf : StaysInformed cfg a ops) (hb : Bounded cfg a ops) :
    Regular cfg N Anyone a A ops := by
  induction ops generalizing a A with
  | nil => trivial
  | cons op ops ih =>
    have hp := permitted_informed hW hu op (fun h name hop => hopen h name (hop ▸ List.mem_cons_self)) hinf.1
    obtain ⟨-, hW'⟩ := step_refines hF hW op hp hb.1
    exact ⟨hp, hb.1, ih hW' (hu.step op) (fun h name hm => hopen h name (List.mem_cons_of_mem op hm)) hinf.2 hb.2⟩

theorem Store.replies_recovering (b : Bool) (ops : List Op) (A : Store) :
    A.replies (cfg.recovering b) ops = A.replies cfg ops := by
  have hstep : ∀ (A : Store) (op : Op), A.step (cfg.recovering b) op = A.step cfg op := by
    intro A op
    cases op <;> rfl
  induction ops generalizing A with
  | nil => rfl
  | cons op ops ih => rw [Store.replies, Store.replies, hstep, ih]

/-- Auto-recovery on open changes no reply of any run in which, without it, each slot is scanned before a call
needs what it knows. -/
theorem recovery_is_silent (hF : Family cfg N) (he : Stocked cfg N e logs) {ops : List Op} (hopen : OpensOnly N ops)
    (hinf : StaysInformed (cfg.recovering false) (App.boot e) ops)
    (hb : ∀ b, Bounded (cfg.recovering b) (App.boot e) ops) :
    replies (cfg.recovering true) (App.boot e) ops = replies (cfg.recovering false) (App.boot e) ops := by
  have hF' : ∀ b, Family (cfg.recovering b) N := fun _ => ⟨hF.admissible, hF.separate⟩
  have he' : ∀ b, Stocked (cfg.recovering b) N e logs := fun b =>
    ⟨he.clean, fun name hN => (by
      cases he.stored name hN with
      | files h => exact .files ⟨h.file, h.window, h.single⟩
      | absent hpast hitems hformat hnone hscan => exact .absent hpast hitems hformat hnone hscan
      | legacy hs hpast hformat hfile hscan => exact .legacy hs hpast hformat hfile hscan), he.shut, he.bound, he.version⟩
  have hu : ∀ b, Uniform (cfg.recovering b) N (Store.stocked (cfg.recovering b) logs) := fun _ => he.version
  have hauto : (cfg.recovering true).autoRecoverOnOpen = true := rfl
  have hon := regular_uniform hauto (hF' true) ops (he' true).world (hu true) hopen (hb true)
  have hoff := regular_informed (hF' false) ops (he' false).world (hu false) hopen hinf (hb false)
  rw [(run_refines (hF' true) ops (he' true).world hon).1, (run_refines (hF' false) ops (he' false).world hoff).1]
  exact (Store.replies_recovering true ops (Store.stocked cfg logs)).trans
    (Store.replies_recovering false ops (Store.stocked cfg logs)).symm

theorem stocked_blank (cfg : Cfg) (N : Bytes → Prop) :
    Stocked cfg N (Sys.blank fun _ => false) fun _ => SegLog.empty (buildFormat cfg 0) where
  clean _ := rfl
  stored _ _ := .absent rfl rfl rfl rfl fun _ p v hp => by cases hp
  shut _ _ := rfl
  bound _ _ := show (0 : Nat) < 10000 by decide
  version _ _ := rfl

/-- A stream rolls and is closed; it is opened again, read, appended to and counted, and once more after a restart. -/
def readFirst : List Op := [.open 0 [65], .cursor 0 Window.all none false 1, .batch 0 manySamples, .close 0, .open 0 [65],
  .cursor 0 Window.all none true 40, .append 0 ⟨4294967296, 2⟩, .count 0 Window.all, .deinit, .init, .open 1 [65],
  .recover 1, .append 1 ⟨5, 3⟩, .count 1 Window.all, .cursor 1 Window.all none false 40]

theorem read_first_alike : replies ((Cfg.small true true true 64).recovering true) App.virgin readFirst =
    replies ((Cfg.small true true true 64).recovering false) App.virgin readFirst := by
  apply recovery_is_silent (family_small true true true) (stocked_blank _ _)
  · intro h name hm
    simp only [readFirst, List.mem_cons, Op.open.injEq, reduceCtorEq, List.not_mem_nil, or_false, false_or] at hm
    exact hm.elim And.right fun hm => hm.elim And.right And.right
  · decide +kernel
  · intro b
    exact bounded_of_keepsLow readFirst (by revert b; decide +kernel)

def pointsTold : Reply → Option Nat
  | ⟨.OK, .points n⟩ => some n
  | _ => none

/-- A stream of two segments is closed, opened and counted. -/
def countFirst : List Op := [.open 0 [65], .batch 0 manySamples, .close 0, .open 0 [65], .count 0 Window.all]

/-- Without auto-recovery the count after a reopening takes the stream for one of a single segment. -/
theorem unscanned_count_short : replies ((Cfg.small true false true 64).recovering true) App.virgin countFirst ≠
    replies ((Cfg.small true false true 64).recovering false) App.virgin countFirst := by
  have hcount : (replies ((Cfg.small true false true 64).recovering true) App.virgin countFirst).map pointsTold ≠
      (replies ((Cfg.small true false true 64).recovering false) App.virgin countFirst).map pointsTold := by
    decide +kernel
  intro hsame
  exact hcount (congrArg (List.map pointsTold) hsame)

end Informed

end ZephyrDB.Ts
