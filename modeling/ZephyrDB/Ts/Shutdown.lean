import ZephyrDB.Ts.Alone

/-!
Runs with shutdowns in them. Shutting an instance down frees the ingest
buffers as they are; a stream that has nothing in its buffer whenever that
happens loses nothing by it.
-/

set_option autoImplicit false

namespace ZephyrDB.Ts

open Lib

/-- Whenever a run shuts the instance down or sets it up, the stream has nothing in its buffer. -/
def ShutsFlushed (cfg : Cfg) (name : Bytes) : App → List Op → Prop
  | _, [] => True
  | a, op :: ops => (op.restarts = true → Flushed a name) ∧ ShutsFlushed cfg name (step cfg a op).2 ops

instance decidableFlushed (a : App) (name : Bytes) : Decidable (Flushed a name) :=
  match h : a.slotFind name with
  | none => .isTrue fun i hi => by rw [h] at hi; cases hi
  | some j =>
    decidable_of_iff ((a.slotAt j).ingestUsed = 0)
      ⟨fun hused i hi => by rw [h] at hi; cases hi; exact hused, fun hflushed => hflushed j h⟩

instance decidableShutsFlushed (cfg : Cfg) (name : Bytes) :
    ∀ (a : App) (ops : List Op), Decidable (ShutsFlushed cfg name a ops)
  | _, [] => .isTrue trivial
  | a, op :: ops =>
    have := decidableShutsFlushed cfg name (step cfg a op).2 ops
    inferInstanceAs (Decidable ((op.restarts = true → Flushed a name) ∧ ShutsFlushed cfg name (step cfg a op).2 ops))

namespace Log

/-- Segments are given up only to keep as many as configured. -/
def Rolled (cfg : Cfg) (L : Log) : Prop :=
  0 < L.lo → cfg.rollover = true ∧ L.past.length + 1 - L.lo = cfg.maxSegments

section Rolled
variable {cfg : Cfg} {L : Log}

end Rolled

end Log

section Shut
variable {cfg : Cfg} {N U : Bytes → Prop} {a : App} {A : Store} {name : Bytes}

end Shut

section Shutdown
variable {cfg : Cfg} {N : Bytes → Prop} {e : Sys} {ops : List Op} {hd : Nat} {name : Bytes}

end Shutdown

end ZephyrDB.Ts
