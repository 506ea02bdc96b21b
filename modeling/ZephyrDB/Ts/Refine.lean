import ZephyrDB.Ts.Queries
import ZephyrDB.Ts.Retain

/-!
The calls against the store, over whole runs: an application that represents a
store gives every reply that the store gives, and represents it afterwards.
-/

set_option autoImplicit false

namespace ZephyrDB.Ts

open Lib

/-- The replies of a run of calls. -/
def replies (cfg : Cfg) : App → List Op → List Reply
  | _, [] => []
  | a, op :: ops => (step cfg a op).1 :: replies cfg (step cfg a op).2 ops

namespace Store

def run (cfg : Cfg) (A : Store) (ops : List Op) : Store := ops.foldl (fun A op => (A.step cfg op).2) A

def replies (cfg : Cfg) : Store → List Op → List Reply
  | _, [] => []
  | A, op :: ops => (A.step cfg op).1 :: replies cfg (A.step cfg op).2 ops

end Store

def Permitted (cfg : Cfg) (N U : Bytes → Prop) (a : App) (A : Store) : Op → Prop
  | .open _ name => N name ∧ (cfg.autoRecoverOnOpen = true ∨ U name)
  | .append h sample => Ingests cfg a A h [sample]
  | .batch h samples => Ingests cfg a A h samples
  | .count h window => Counts cfg a h window
  | _ => True

/-- The call brings no scanned slot to a segment number of five digits; closing is judged before it gives the
slot up. -/
def StaysBelow (cfg : Cfg) (a : App) : Op → Prop
  | .close h => ∀ name, a.handles h = some name → Below (post (closeFlush cfg name) a)
  | .append h sample => Below (step cfg a (.append h sample)).2
  | .batch h samples => Below (step cfg a (.batch h samples)).2
  | .flushSync h => Below (step cfg a (.flushSync h)).2
  | .drain => Below (step cfg a .drain).2
  | _ => True

def Regular (cfg : Cfg) (N U : Bytes → Prop) : App → Store → List Op → Prop
  | _, _, [] => True
  | a, A, op :: ops =>
    Permitted cfg N U a A op ∧ StaysBelow cfg a op ∧ Regular cfg N U (step cfg a op).2 (A.step cfg op).2 ops

section Refine
variable {cfg : Cfg} {N U : Bytes → Prop} {a : App} {A : Store}

theorem step_refines (hF : Family cfg N) (hW : World cfg N U a A) (op : Op) (hp : Permitted cfg N U a A op)
    (hb : StaysBelow cfg a op) :
    (step cfg a op).1 = (A.step cfg op).1 ∧ World cfg N U (step cfg a op).2 (A.step cfg op).2 := by
  cases op with
  | init => exact init_spec hW
  | deinit => exact deinit_spec hW
  | «open» h name => exact open_spec hF hW hp.1 h hp.2
  | close h => exact close_spec hF hW h hb
  | append h sample => exact append_spec hF hW hp hb
  | batch h samples => exact batch_spec hF hW hp hb
  | flushAsync h => exact flushAsync_spec hW h
  | flushSync h => exact flushSync_spec hF hW h hb
  | drain => exact drain_spec hF hW hb
  | recover h => exact recover_spec hF hW h
  | count h window => exact count_spec hF hW h window hp
  | cursor h window predicate descending n => exact cursor_spec hF hW h window predicate descending n

theorem run_refines (hF : Family cfg N) (ops : List Op) (hW : World cfg N U a A) (hr : Regular cfg N U a A ops) :
    replies cfg a ops = A.replies cfg ops ∧ World cfg N U (run cfg a ops) (A.run cfg ops) := by
  induction ops generalizing a A with
  | nil => exact ⟨rfl, hW⟩
  | cons op ops ih =>
    obtain ⟨hp, hb, hrest⟩ := hr
    obtain ⟨hreply, hW'⟩ := step_refines hF hW op hp hb
    obtain ⟨hreplies, hend⟩ := ih hW' hrest
    exact ⟨by rw [replies, Store.replies, hreply, hreplies], hend⟩

end Refine

def Unknown : Bytes → Prop := fun _ => False

/-- The newest segment of every stream has the build's record size. -/
def Uniform (cfg : Cfg) (N : Bytes → Prop) (A : Store) : Prop :=
  ∀ name, N name → (A.logs name).recSize = (buildFormat cfg 0).recSize

/-- A call keeps below the bound in every state of a run. -/
def Bounded (cfg : Cfg) : App → List Op → Prop
  | _, [] => True
  | a, op :: ops => StaysBelow cfg a op ∧ Bounded cfg (step cfg a op).2 ops

/-- The streams that a run opens are of the family. -/
def OpensOnly (N : Bytes → Prop) (ops : List Op) : Prop := ∀ h name, Op.open h name ∈ ops → N name

namespace Log

theorem steady_uniform {cfg : Cfg} {L : Log} (h : L.recSize = (buildFormat cfg 0).recSize) (sample : Sample) :
    Steady cfg L sample := by
  intro _ _
  rcases drain_recSize cfg L with hd | hd
  · exact hd
  · exact hd.trans h.symm

theorem append_uniform {cfg : Cfg} {L : Log} (h : L.recSize = (buildFormat cfg 0).recSize) (sample : Sample) :
    (append cfg L sample).recSize = (buildFormat cfg 0).recSize := by
  rcases append_recSize cfg L sample with ha | ha
  · exact ha.trans h
  · exact ha

theorem steadyAll_uniform {cfg : Cfg} (samples : List Sample) {L : Log} (h : L.recSize = (buildFormat cfg 0).recSize) :
    SteadyAll cfg L samples := by
  induction samples generalizing L with
  | nil => trivial
  | cons sample samples ih => exact ⟨steady_uniform h sample, ih (append_uniform h sample)⟩

theorem drain_uniform {cfg : Cfg} {L : Log} (h : L.recSize = (buildFormat cfg 0).recSize) :
    (drain cfg L).recSize = (buildFormat cfg 0).recSize := by
  rcases drain_recSize cfg L with hd | hd
  · exact hd.trans h
  · exact hd

end Log
section Uniform
variable {cfg : Cfg} {N : Bytes → Prop} {a : App} {A : Store}

theorem Uniform.step (h : Uniform cfg N A) (op : Op) : Uniform cfg N (A.step cfg op).2 := by
  intro name hN
  cases hop : op.restarts with
  | false =>
    exact Store.step_keeps (P := fun L => Log.recSize L = (buildFormat cfg 0).recSize)
      (fun _ hL => Log.drain_uniform hL) (fun _ sample hL => Log.append_uniform hL sample) hop (h name hN)
  | true =>
    cases op <;> cases hop
    · exact h name hN
    · exact h name hN

theorem permitted_uniform (hauto : cfg.autoRecoverOnOpen = true) (hW : World cfg N Unknown a A) (hu : Uniform cfg N A)
    (op : Op) (hopen : ∀ h name, op = .open h name → N name) : Permitted cfg N Unknown a A op := by
  have hscan : cfg.segmented = true → ∀ name i, a.slotFind name = some i → (a.slotAt i).segsScanned = true := by
    intro hs name i hi
    exact (hW.informed hs i (slotFind_some hi).1).resolve_right id
  have hingest : ∀ h samples, Ingests cfg a A h samples := by
    intro h samples name i hh hi
    have hrec := hu name (hW.bound h name hh)
    refine ⟨fun hs hno => ?_, fun hle => ?_, Log.steadyAll_uniform samples hrec⟩
    · rw [hscan hs name i hi] at hno
      cases hno
    · rw [hrec] at hle
      exact hle
  cases op with
  | «open» h name => exact ⟨hopen h name rfl, .inl hauto⟩
  | append h sample => exact hingest h [sample]
  | batch h samples => exact hingest h samples
  | count h window => exact fun hs _ name i _ hi => hscan hs name i hi
  | init => trivial
  | deinit => trivial
  | close h => trivial
  | flushAsync h => trivial
  | flushSync h => trivial
  | drain => trivial
  | recover h => trivial
  | cursor h window predicate descending n => trivial

theorem regular_uniform (hauto : cfg.autoRecoverOnOpen = true) (hF : Family cfg N) (ops : List Op)
    (hW : World cfg N Unknown a A) (hu : Uniform cfg N A) (hopen : OpensOnly N ops) (hb : Bounded cfg a ops) :
    Regular cfg N Unknown a A ops := by
  induction ops generalizing a A with
  | nil => trivial
  | cons op ops ih =>
    have hp := permitted_uniform hauto hW hu op fun h name hop => hopen h name (hop ▸ List.mem_cons_self)
    obtain ⟨-, hW'⟩ := step_refines hF hW op hp hb.1
    exact ⟨hp, hb.1, ih hW' (hu.step op) (fun h name hm => hopen h name (List.mem_cons_of_mem op hm)) hb.2⟩

theorem uniform_refines (hauto : cfg.autoRecoverOnOpen = true) (hF : Family cfg N) (ops : List Op)
    (hW : World cfg N Unknown a A) (hu : Uniform cfg N A) (hopen : OpensOnly N ops) (hb : Bounded cfg a ops) :
    replies cfg a ops = A.replies cfg ops ∧ World cfg N Unknown (run cfg a ops) (A.run cfg ops) :=
  run_refines hF ops hW (regular_uniform hauto hF ops hW hu hopen hb)

end Uniform

/-- Storage that works and holds nothing of the family's streams. -/
structure Unwritten (cfg : Cfg) (N : Bytes → Prop) (e : Sys) : Prop where
  clean : e.Clean
  single : ∀ name, N name → e.look (streamPath cfg name) = none
  segments : ∀ name, N name → ∀ p v, (e.look p).isSome → ¬ Scans cfg name p v

/-- A store that has just been set up. -/
def Store.fresh (cfg : Cfg) : Store where
  running := true
  table := List.replicate cfg.maxStreams none
  pending := false
  handles := fun _ => none
  logs := fun _ => SegLog.empty (buildFormat cfg 0)

theorem World.boot {cfg : Cfg} {N U : Bytes → Prop} {e : Sys} (h : Unwritten cfg N e) :
    World cfg N U (App.boot e) (Store.fresh cfg) where
  clean := h.clean
  running := rfl
  table := rfl
  pending := rfl
  handles := rfl
  bound _ _ hh := by cases hh
  mine _ hi := by cases hi
  rep _ hi := by cases hi
  unique _ _ hi := by cases hi
  stored name hN _ :=
    ⟨.absent rfl rfl rfl (h.single name hN) fun _ p v hp => h.segments name hN p v hp, rfl,
      show (0 : Nat) < 10000 by decide⟩
  informed _ _ hi := by cases hi

theorem Uniform.fresh (cfg : Cfg) (N : Bytes → Prop) : Uniform cfg N (Store.fresh cfg) := fun _ _ => rfl

end ZephyrDB.Ts
