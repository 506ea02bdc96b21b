import ZephyrDB.Lib.Ledger
import ZephyrDB.Ts.World
import ZephyrDB.Ts.Batch
import ZephyrDB.Ts.Eventing

/-!
The events add up. Within a locked section what has been published and what
is owed grow by what storage did; the unlock publishes all that is owed, so
that between calls nothing is.
-/

set_option autoImplicit false

namespace ZephyrDB.Ts.Eventing

open Lib

/-- The counter that events of a type publish. -/
def Owed.bytes (o : Owed) : TsEventType → Nat
  | .FLUSH => o.flushBytes
  | .ROLLOVER => o.discardedBytes

/-- What storage did of which events of a type tell: the buffers written, and the dropped segments of
which storage told the size. -/
def Done.bytes (d : Done) : TsEventType → Nat
  | .FLUSH => d.flushes.sum
  | .ROLLOVER => ((d.discards.filter (·.sized)).map (·.size)).sum

/-- The byte count of an event that is meant for its type. -/
def TsEvent.bytes (e : TsEvent) : TsEventType → Nat
  | .FLUSH => e.flushedBytes
  | .ROLLOVER => e.truncatedBytes

/-- The sum of `flushed_bytes` over the flush events, or of `truncated_bytes` over the rollover events. -/
def published (k : TsEventType) (events : List TsEvent) : Nat :=
  ((events.filter (·.type = k)).map (·.bytes k)).sum

@[simp] theorem Owed.bytes_zero (k : TsEventType) : Owed.zero.bytes k = 0 := by
  cases k <;> rfl

@[simp] theorem Owed.bytes_add (o p : Owed) (k : TsEventType) : (o.add p).bytes k = o.bytes k + p.bytes k := by
  cases k <;> rfl

theorem published_cons (k : TsEventType) (e : TsEvent) (events : List TsEvent) :
    published k (e :: events) = (if e.type = k then e.bytes k else 0) + published k events := by
  unfold published
  by_cases h : e.type = k
  · rw [List.filter_cons_of_pos (by simpa using h), List.map_cons, List.sum_cons, if_pos h]
  · rw [List.filter_cons_of_neg (by simpa using h), if_neg h, Nat.zero_add]

def Earns (s t : Noted SlotSt SlotNotes) : Prop :=
  ∀ k, Balanced (fun s : Noted SlotSt SlotNotes => s.notes.owed.bytes k) (fun s => s.notes.done.bytes k) s t

theorem earns_chains : Chains Earns where
  refl s _ := balanced_refl _ _ s
  trans h k j := (h j).trans (k j)

theorem earns_of_notes {s t : Noted SlotSt SlotNotes} (h : t.notes = s.notes) : Earns s t := fun k =>
  .of_same (congrArg (·.owed.bytes k) h) (congrArg (·.done.bytes k) h)

theorem run_note {ε σ ν : Type} (f : ν → ν) (s : Noted σ ν) :
    (note f : EStateM ε (Noted σ ν) Unit).run s = .ok () { s with notes := f s.notes } := rfl

theorem run_onSys_attempt {ε α : Type} (m : EStateM Errno Sys α) (s : Noted SlotSt SlotNotes) :
    (silent (onSys (attempt m)) : SlotM ε (Except Errno α)).run s =
      .ok (outcome m s.st.env) { s with st := { s.st with env := post m s.st.env } } :=
  run_zoom (run_zoom (run_attempt m s.st.env))

theorem earns_dropped {size : Nat} {info : Except Errno Nat} {removed : Bool}
    (hinfo : ∀ n, info = .ok n → n = size) {s t : Noted SlotSt SlotNotes}
    (ht : t.notes = (owe (sizeOwed info) s.notes).dropped ⟨size, info.isOk, removed⟩) : Earns s t := by
  intro k
  have hdone : t.notes.done.bytes k = s.notes.done.bytes k + (sizeOwed info).bytes k := by
    rw [ht]
    cases info with
    | error err => cases k <;> rfl
    | ok n =>
      rw [hinfo n rfl]
      cases k with
      | FLUSH => rfl
      | ROLLOVER => exact Nat.add_comm size _
  have howed : t.notes.owed.bytes k = s.notes.owed.bytes k + (sizeOwed info).bytes k := by
    rw [ht]
    exact Owed.bytes_add _ _ k
  show t.notes.owed.bytes k + s.notes.done.bytes k = s.notes.owed.bytes k + t.notes.done.bytes k
  rw [hdone, howed]
  omega

theorem discardFile_notes (segPath : Path) (s : Noted SlotSt SlotNotes) : ∃ (info : Except Errno Nat) (removed : Bool),
    (∀ n, info = .ok n → n = (s.st.env.contents segPath).length) ∧
    (post (discardFile segPath) s).notes =
      (owe (sizeOwed info) s.notes).dropped ⟨(s.st.env.contents segPath).length, info.isOk, removed⟩ := by
  have hstill : ∀ (x : Except Errno Unit) (u : Noted SlotSt SlotNotes), post (rethrow x : SlotM Errno Unit) u = u :=
    fun x u => by cases x <;> rfl
  refine ⟨outcome (fsStat segPath) s.st.env, (outcome (fsUnlink segPath) (post (fsStat segPath) s.st.env)).isOk,
    fun n hn => ?_, ?_⟩
  · exact ((fsStat_yields s.st.env segPath).run_ok (run_of_outcome hn)).1
  · unfold discardFile
    rw [post_get_bind, post_then (run_onSys_attempt _ s), post_then (run_note _ _), post_then (run_onSys_attempt _ _),
      post_then (run_note _ _), hstill]

structure Rolls (R : Noted SlotSt SlotNotes → Noted SlotSt SlotNotes → Prop) : Prop where
  chains : Chains R
  same : ∀ s t, t.notes = s.notes → R s t
  discard : ∀ segPath, Always R (discardFile segPath)

section Rolls
variable {R : Noted SlotSt SlotNotes → Noted SlotSt SlotNotes → Prop} (hR : Rolls R)
include hR

theorem Rolls.silent {ε α : Type} (m : Ts.SlotM ε α) : Always R (silent m : SlotM ε α) := fun s =>
  hR.same _ _ (fixes_silent m s)

theorem Rolls.discardSegments (cfg : Cfg) (n : Nat) : Always R (discardSegments cfg n) := by
  induction n with
  | zero => exact always_pure hR.chains ()
  | succ n ih =>
    unfold Eventing.discardSegments
    apply always_bind hR.chains (hR.silent _)
    intro slot
    refine always_ite ?_ (always_pure hR.chains ())
    apply always_bind hR.chains (always_rethrow hR.chains _)
    intro segPath
    apply always_bind hR.chains (hR.discard segPath)
    intro _
    apply always_bind hR.chains (hR.silent _)
    intro _
    exact ih

theorem Rolls.startSegment (cfg : Cfg) (baseTsMs : UInt64) : Always R (startSegment cfg baseTsMs) := by
  unfold Eventing.startSegment openSegment
  apply always_bind hR.chains (hR.silent _)
  intro _
  apply always_bind hR.chains (hR.silent _)
  intro slot
  apply always_bind hR.chains (always_rethrow hR.chains _)
  intro segPath
  refine always_bind hR.chains (hR.silent _) fun (version, baseTs) => ?_
  apply always_bind hR.chains (hR.silent _)
  intro _
  exact always_ite (hR.discardSegments cfg _) (always_pure hR.chains ())

theorem Rolls.rollSegmentIfFull (cfg : Cfg) : Always R (rollSegmentIfFull cfg) :=
  always_bind hR.chains (hR.silent _) fun slot =>
    always_ite (hR.startSegment cfg slot.segBaseTsMs) (always_pure hR.chains ())

end Rolls

theorem earns_rolls : Rolls Earns where
  chains := earns_chains
  same _ _ := earns_of_notes
  discard segPath s := by
    obtain ⟨info, removed, hinfo, hnotes⟩ := discardFile_notes segPath s
    exact earns_dropped hinfo hnotes

theorem flush_rolls : Rolls fun s t => t.notes.owed.flushBytes = s.notes.owed.flushBytes where
  chains := fixes_chains fun s : Noted SlotSt SlotNotes => s.notes.owed.flushBytes
  same _ _ h := congrArg (·.owed.flushBytes) h
  discard segPath s := by
    obtain ⟨info, removed, _, hnotes⟩ := discardFile_notes segPath s
    have howed := congrArg (·.owed.flushBytes) hnotes
    cases info <;> exact howed

theorem earns_noteFlush {ε : Type} (n : Nat) :
    Always Earns (note fun notes => owe ⟨n, 0⟩ (notes.flushed n) : SlotM ε Unit) := by
  intro s k
  cases k with
  | FLUSH =>
    show (s.notes.owed.flushBytes + n) + s.notes.done.flushes.sum = _ + (n + s.notes.done.flushes.sum)
    exact Nat.add_assoc _ _ _
  | ROLLOVER => rfl

theorem earns_flushBufferLocked (cfg : Cfg) : Always Earns (flushBufferLocked cfg) := by
  unfold flushBufferLocked
  apply always_bind earns_chains (earns_rolls.silent _)
  intro slot
  apply always_guard earns_chains
  split
  · exact always_throw earns_chains _
  · refine always_ite ?_ (always_pure earns_chains ())
    apply always_bind earns_chains (earns_rolls.silent _)
    intro _
    apply always_bind earns_chains (earns_noteFlush _)
    intro _
    exact always_ite (earns_rolls.rollSegmentIfFull cfg) (always_pure earns_chains ())

theorem flushBufferLocked_owes (cfg : Cfg) (s : Noted SlotSt SlotNotes) : Yields (flushBufferLocked cfg) s
    (fun _ t => t.notes.owed.flushBytes = s.notes.owed.flushBytes + s.st.slot.ingestUsed) fun _ _ => True := by
  have hslot : (silent getSlot : SlotM Errno StreamCtx).run s = .ok s.st.slot s := rfl
  apply yields_then hslot
  apply yields_guard (fun _ => trivial)
  intro _
  split
  · exact yields_throw trivial
  · rename_i buf _
    split
    · refine yields_bind (P := fun _ t => t.notes = s.notes)
        (((fixes_silent _).yields s).imp (fun _ _ h => h) fun _ _ _ => trivial) fun _ t ht => ?_
      apply yields_then (run_note _ t)
      have howed : t.notes.owed.flushBytes + s.st.slot.ingestUsed = s.notes.owed.flushBytes + s.st.slot.ingestUsed := by
        rw [ht]
      split
      · exact ((flush_rolls.rollSegmentIfFull cfg).yields _).imp (fun _ u hu => hu.trans howed) fun _ _ _ => trivial
      · exact yields_pure howed
    · rename_i hused
      rw [not_not.mp hused]
      exact yields_pure rfl

theorem earns_toStatus {α : Type} {m : SlotM Errno α} (h : Always Earns m) : Always Earns (toStatus m) :=
  always_adaptExcept _ h

theorem earns_rebaseRecord (cfg : Cfg) (sample : Sample) : Always Earns (rebaseRecord cfg sample) := by
  unfold rebaseRecord
  apply always_guard earns_chains
  apply always_bind earns_chains (earns_toStatus (earns_flushBufferLocked cfg))
  intro _
  apply always_bind earns_chains (earns_toStatus (earns_rolls.startSegment cfg _))
  intro _
  apply always_bind earns_chains (earns_rolls.silent _)
  intro slot
  split
  · exact always_throw earns_chains _
  · apply always_bind earns_chains (earns_rolls.silent _)
    intro _
    exact always_pure earns_chains _

theorem earns_encodeRecord (cfg : Cfg) (sample : Sample) (recSize : Nat) :
    Always Earns (encodeRecord cfg sample recSize) := by
  unfold encodeRecord
  apply always_bind earns_chains (earns_rolls.silent _)
  intro slot
  split
  · apply always_bind earns_chains (earns_rolls.silent _)
    intro _
    exact always_pure earns_chains _
  · exact earns_rebaseRecord cfg sample

theorem earns_appendRecord (cfg : Cfg) (sample : Sample) : Always Earns (appendRecord cfg sample) := by
  unfold appendRecord
  apply always_bind earns_chains (earns_rolls.silent _)
  intro slot
  apply always_guard earns_chains
  refine always_ite ?_ (earns_encodeRecord cfg sample _)
  apply always_bind earns_chains (earns_toStatus (earns_flushBufferLocked cfg))
  intro _
  exact earns_encodeRecord cfg sample _

theorem earns_appendRecords (cfg : Cfg) (samples : List Sample) : Always Earns (appendRecords cfg samples) := by
  induction samples with
  | nil => exact always_pure earns_chains ()
  | cons sample samples ih => exact always_bind earns_chains (earns_appendRecord cfg sample) fun _ => ih

def due (k : TsEventType) (s : Noted App Books) : Nat :=
  owing (fun i => (s.notes.owed i).bytes k) (slots s.st) + s.notes.releasedOwed.bytes k

/-- What listeners have been told or are owed. -/
def told (k : TsEventType) (s : Noted App Books) : Nat := published k s.notes.events + due k s

structure Accounts (s t : Noted App Books) : Prop where
  size : streamsSize t.st = streamsSize s.st
  beyond : ∀ i, slots s.st ≤ i → t.notes.owed i = s.notes.owed i
  idle : s.st.tsCtx = none → t.notes.releasedOwed = s.notes.releasedOwed
  balanced : ∀ k, Balanced (told k) (fun s => s.notes.done.bytes k) s t

theorem Accounts.slots {s t : Noted App Books} (h : Accounts s t) : slots t.st = slots s.st :=
  congrArg (·.getD 0) h.size

theorem streamsSize_none {a : App} : streamsSize a = none ↔ a.tsCtx = none := Option.map_eq_none_iff

theorem accounts_chains : Chains Accounts where
  refl s := ⟨rfl, fun _ _ => rfl, fun _ => rfl, fun _ => balanced_refl _ _ s⟩
  trans {a b c} h k := by
    refine ⟨k.size.trans h.size, fun i hi => ?_, fun hnone => ?_, fun j => (h.balanced j).trans (k.balanced j)⟩
    · exact (k.beyond i (h.slots ▸ hi)).trans (h.beyond i hi)
    · have hnone' : b.st.tsCtx = none := streamsSize_none.mp (h.size.trans (streamsSize_none.mpr hnone))
      exact (k.idle hnone').trans (h.idle hnone)

theorem due_congr {s t : Noted App Books} (k : TsEventType) (hsize : streamsSize t.st = streamsSize s.st)
    (howed : t.notes.owed = s.notes.owed) (hreleased : t.notes.releasedOwed = s.notes.releasedOwed) :
    due k t = due k s := by
  unfold due slots
  rw [hsize, howed, hreleased]

theorem accounts_silent {ε α : Type} {m : Ts.AppM ε α} (h : Fixes streamsSize m) :
    Always Accounts (silent m : AppM ε α) := by
  intro s
  have hnotes : (post (silent m : AppM ε α) s).notes = s.notes := fixes_silent m s
  have hsize : streamsSize (post (silent m : AppM ε α) s).st = streamsSize s.st := by
    unfold silent
    rw [post_zoom]
    exact h s.st
  refine ⟨hsize, fun i _ => by rw [hnotes], fun _ => by rw [hnotes], fun k => .of_same ?_ (by rw [hnotes])⟩
  unfold told
  rw [hnotes, due_congr k hsize (by rw [hnotes]) (by rw [hnotes])]

theorem streamsSize_setSlot (a : App) (i : Nat) (slot : StreamCtx) (e : Sys) :
    streamsSize { a.setSlot i slot with env := e } = streamsSize a := by
  unfold streamsSize App.setSlot
  cases a.tsCtx with
  | none => rfl
  | some ctx => exact congrArg some (List.length_set ..)

theorem owing_setOwed (owed : Nat → Owed) {i n : Nat} (hi : i < n) (o : Owed) (k : TsEventType) :
    owing (fun j => (Function.update owed i o j).bytes k) n + (owed i).bytes k =
      owing (fun j => (owed j).bytes k) n + o.bytes k := by
  have hcomp : (fun j => (Function.update owed i o j).bytes k) =
      Function.update (fun j => (owed j).bytes k) i (o.bytes k) := by
    funext j
    exact Function.apply_update (fun _ (o : Owed) => o.bytes k) owed i o j
  rw [hcomp]
  exact owing_update hi (o.bytes k)

theorem accounts_onSlot {ε α : Type} {m : SlotM ε α} (hm : Always Earns m) {s : Noted App Books} {i : Nat}
    (hi : i < slots s.st) : Keeps Accounts (onSlot i m) s := by
  unfold Keeps onSlot
  rw [post_zoom]
  set p := post m ⟨⟨s.st.slotAt i, s.st.env⟩, s.notes.page i⟩ with hp
  have hsize := streamsSize_setSlot s.st i p.st.slot p.st.env
  have hne : ∀ j, slots s.st ≤ j → j ≠ i := fun j hj hji => by omega
  refine ⟨hsize, fun j hj => Function.update_of_ne (hne j hj) _ _, fun _ => rfl, fun k => ?_⟩
  have hearn : p.notes.owed.bytes k + s.notes.done.bytes k = (s.notes.owed i).bytes k + p.notes.done.bytes k := hm _ k
  have howing := owing_setOwed s.notes.owed hi p.notes.owed k
  have hslots : slots { s.st.setSlot i p.st.slot with env := p.st.env } = slots s.st := congrArg (·.getD 0) hsize
  show published k s.notes.events + (owing _ (slots _) + _) + s.notes.done.bytes k =
    published k s.notes.events + (owing _ _ + _) + p.notes.done.bytes k
  rw [hslots]
  simp only [Books.setPage]
  omega

theorem slotFind_lt {a : App} {name : Bytes} {i : Nat} (h : a.slotFind name = some i) : i < slots a := by
  obtain ⟨ctx, hc, hlt⟩ := hasSlot_of_inUse (slotFind_some h).1
  unfold slots streamsSize
  rw [hc]
  exact hlt

theorem Taken.add_bytes (t : Taken) (o : Owed) (name : Bytes) (k : TsEventType) :
    (t.add o name).owed.bytes k = t.owed.bytes k + o.bytes k := by
  unfold Taken.add
  split
  · rename_i h
    rw [h, Owed.bytes_zero, Nat.add_zero]
  · exact Owed.bytes_add _ _ k

theorem takeSlots_bytes (a : App) (b : Books) (n : Nat) (k : TsEventType) :
    (takeSlots a b n).owed.bytes k = owing (fun i => (b.owed i).bytes k) n := by
  induction n with
  | zero => exact Owed.bytes_zero k
  | succ n ih => rw [takeSlots, Taken.add_bytes, ih, owing_succ]

theorem published_publish (b : Books) (t : Taken) (k : TsEventType) :
    published k (b.publish t).events = published k b.events + t.owed.bytes k := by
  have hemit : ∀ b : Books, ∀ e : TsEvent, published k (b.emit e).events =
      published k b.events + if e.type = k then e.bytes k else 0 := fun b e => by
    show published k (e :: b.events) = _
    rw [published_cons, Nat.add_comm]
  unfold Books.publish
  cases k <;> dsimp only <;> split <;> split <;> simp [hemit, TsEvent.bytes, Owed.bytes] <;> omega

@[simp] theorem publish_owed (b : Books) (t : Taken) : (b.publish t).owed = b.owed := by
  unfold Books.publish
  dsimp only
  split <;> split <;> rfl

@[simp] theorem publish_releasedOwed (b : Books) (t : Taken) : (b.publish t).releasedOwed = b.releasedOwed := by
  unfold Books.publish
  dsimp only
  split <;> split <;> rfl

@[simp] theorem publish_done (b : Books) (t : Taken) : (b.publish t).done = b.done := by
  unfold Books.publish
  dsimp only
  split <;> split <;> rfl

/-- The instance after `zdb_unlock_common`. -/
def unlocked (s : Noted App Books) : Noted App Books :=
  { s with notes := (s.notes.taken s.st).publish (takeDeferredEvents s.st s.notes) }

theorem unlocked_none {s : Noted App Books} (h : s.st.tsCtx = none) : unlocked s = s := by
  unfold unlocked takeDeferredEvents Books.taken
  rw [h]
  rfl

theorem unlocked_events {s : Noted App Books} (h : s.st.tsCtx ≠ none) (k : TsEventType) :
    published k (unlocked s).notes.events = told k s := by
  have hctx : ¬ s.st.tsCtx.isNone := by simpa using h
  unfold unlocked told due
  rw [published_publish]
  unfold takeDeferredEvents Books.taken
  rw [if_neg hctx, if_neg hctx, Taken.add_bytes, takeSlots_bytes]

theorem unlocked_owed (s : Noted App Books) (i : Nat) :
    (unlocked s).notes.owed i = if i < slots s.st then .zero else s.notes.owed i := by
  unfold unlocked Books.taken
  rw [publish_owed]
  split
  · rename_i h
    have hslots : slots s.st = 0 := by
      unfold slots
      rw [streamsSize_none.mpr (Option.isNone_iff_eq_none.mp h)]
      rfl
    rw [hslots, if_neg (Nat.not_lt_zero i)]
  · rfl

theorem unlocked_released {s : Noted App Books} (h : s.st.tsCtx ≠ none) : (unlocked s).notes.releasedOwed = .zero := by
  have hctx : ¬ s.st.tsCtx.isNone := by simpa using h
  unfold unlocked Books.taken
  rw [publish_releasedOwed, if_neg hctx]

theorem unlocked_done (s : Noted App Books) : (unlocked s).notes.done = s.notes.done := by
  unfold unlocked Books.taken
  rw [publish_done]
  split <;> rfl

/-- Between calls nothing is owed, and what listeners have been told is what storage did. -/
structure Quiet (s : Noted App Books) : Prop where
  owed : ∀ i, s.notes.owed i = .zero
  released : s.notes.releasedOwed = .zero
  square : ∀ k, published k s.notes.events = s.notes.done.bytes k

theorem Quiet.due {s : Noted App Books} (h : Quiet s) (k : TsEventType) : due k s = 0 := by
  unfold Eventing.due
  rw [owing_zero fun i _ => by rw [h.owed, Owed.bytes_zero], h.released, Owed.bytes_zero]

theorem unlocked_settles {t : Noted App Books} (hbeyond : ∀ i, slots t.st ≤ i → t.notes.owed i = .zero)
    (hidle : t.st.tsCtx = none → t.notes.releasedOwed = .zero) :
    (∀ i, (unlocked t).notes.owed i = .zero) ∧ (unlocked t).notes.releasedOwed = .zero ∧
      ∀ k, published k (unlocked t).notes.events = told k t := by
  have howed : ∀ i, (unlocked t).notes.owed i = .zero := fun i => by
    rw [unlocked_owed]
    split
    · rfl
    · rename_i hi
      exact hbeyond i (Nat.not_lt.mp hi)
  refine ⟨howed, ?_⟩
  cases hctx : t.st.tsCtx with
  | none =>
    have hslots : slots t.st = 0 := by
      unfold slots
      rw [streamsSize_none.mpr hctx]
      rfl
    rw [unlocked_none hctx]
    refine ⟨hidle hctx, fun k => ?_⟩
    unfold told due
    rw [hslots, hidle hctx, Owed.bytes_zero]
    rfl
  | some ctx =>
    have hsome : t.st.tsCtx ≠ none := by simp [hctx]
    exact ⟨unlocked_released hsome, unlocked_events hsome⟩

theorem Quiet.unlocked {s t : Noted App Books} (h : Quiet s) (hst : Accounts s t) : Quiet (unlocked t) := by
  have hidle : t.st.tsCtx = none → t.notes.releasedOwed = .zero := fun hnone => by
    rw [hst.idle (streamsSize_none.mp (hst.size.symm.trans (streamsSize_none.mpr hnone))), h.released]
  obtain ⟨howed, hreleased, hevents⟩ := unlocked_settles
    (fun i hi => (hst.beyond i (hst.slots ▸ hi)).trans (h.owed i)) hidle
  refine ⟨howed, hreleased, fun k => ?_⟩
  rw [hevents, unlocked_done]
  refine (hst.balanced k).square ?_
  show published k s.notes.events + Eventing.due k s = _
  rw [h.due, h.square]
  rfl

theorem quiet_chains : Chains (Preserves Quiet) := preserves_chains Quiet

theorem quiet_of_notes {s t : Noted App Books} (hs : Quiet s) (h : t.notes = s.notes) : Quiet t :=
  ⟨fun i => by rw [h, hs.owed], by rw [h, hs.released], fun k => by rw [h, hs.square]⟩

theorem quiet_silent {ε α : Type} (m : Ts.AppM ε α) : Always (Preserves Quiet) (silent m : AppM ε α) :=
  fun s hs => quiet_of_notes hs (fixes_silent m s)

theorem quiet_locked {ε α : Type} {m : AppM ε α} {s : Noted App Books} (hm : Keeps Accounts m s) :
    Keeps (Preserves Quiet) (locked m) s := by
  intro hs
  have hrun : post (locked m) s = unlocked (post m s) :=
    (post_then (run_attempt m s)).trans ((post_then rfl).trans (by cases outcome m s <;> rfl))
  rw [hrun]
  exact hs.unlocked hm

theorem quiet_reads {ε α : Type} (m : Ts.AppM ε α) : Always (Preserves Quiet) (locked (silent m) : AppM ε α) := by
  apply always_bind quiet_chains (always_attempt (quiet_silent m))
  intro result
  refine always_bind quiet_chains (fun s hs => ?_) fun _ => always_rethrow quiet_chains result
  exact hs.unlocked (accounts_chains.refl s)

theorem quiet_get {ε α : Type} {f : Noted App Books → AppM ε α} (h : ∀ s, Keeps (Preserves Quiet) (f s) s) :
    Always (Preserves Quiet) (get >>= f) := fun s => keeps_get_bind (h s)

theorem quiet_tsCtxGetOrAlloc (cfg : Cfg) (onNull : Status) : Always (Preserves Quiet) (tsCtxGetOrAlloc cfg onNull) := by
  apply quiet_get
  intro s
  apply keeps_bind quiet_chains (quiet_silent _ s)
  intro _ t _
  split
  · exact fun ht => ⟨fun _ => rfl, rfl, ht.square⟩
  · exact keeps_pure quiet_chains _ t

theorem quiet_slotClaim (cfg : Cfg) (name : Bytes) : Always (Preserves Quiet) (slotClaim cfg name) := by
  apply quiet_get
  intro s
  dsimp only
  split
  · split
    · exact quiet_silent _ s
    · rename_i i _
      refine keeps_bind quiet_chains (fun hs => ⟨fun j => ?_, hs.released, hs.square⟩) fun _ t _ => quiet_silent _ t
      show Function.update s.notes.owed i Owed.zero j = _
      by_cases hji : j = i
      · rw [hji, Function.update_self]
      · rw [Function.update_of_ne hji, hs.owed]
  · exact quiet_silent _ s

theorem quiet_tsOpen (cfg : Cfg) (h : Nat) (name : Bytes) : Always (Preserves Quiet) (tsOpen cfg h name) := by
  unfold tsOpen
  apply always_guard quiet_chains
  apply always_bind quiet_chains (always_get quiet_chains)
  intro s
  apply always_guard quiet_chains
  apply always_bind quiet_chains (quiet_tsCtxGetOrAlloc cfg _)
  intro _
  apply always_bind quiet_chains (quiet_silent _)
  intro _
  apply always_when quiet_chains (fun _ => quiet_silent _)
  apply always_bind quiet_chains (quiet_slotClaim cfg name)
  intro _
  apply always_bind quiet_chains (quiet_silent _)
  intro _
  exact always_ite (quiet_silent _) (always_pure quiet_chains ())

theorem accounts_release {s : Noted App Books} {i : Nat} (hi : i < slots s.st) (name : Bytes) :
    Accounts s { s with notes := (s.notes.rescue i name).wipeSlot i } := by
  have hne : ∀ j, slots s.st ≤ j → j ≠ i := fun j hj hji => by omega
  refine ⟨rfl, fun j hj => ?_, fun hnone => ?_, fun k => ?_⟩
  · show Function.update (s.notes.rescue i name).owed i _ j = _
    rw [Function.update_of_ne (hne j hj)]
    unfold Books.rescue
    split <;> rfl
  · unfold slots at hi
    rw [streamsSize_none.mpr hnone] at hi
    exact absurd hi (Nat.not_lt_zero i)
  · have howing := owing_setOwed s.notes.owed hi .zero k
    rw [Owed.bytes_zero] at howing
    show published k (s.notes.rescue i name).events + (owing (fun j =>
        (Function.update (s.notes.rescue i name).owed i Owed.zero j).bytes k) (slots s.st) +
        (s.notes.rescue i name).releasedOwed.bytes k) + s.notes.done.bytes k =
      published k s.notes.events + (owing (fun j => (s.notes.owed j).bytes k) (slots s.st) +
        s.notes.releasedOwed.bytes k) + (s.notes.rescue i name).done.bytes k
    unfold Books.rescue
    split
    · rename_i hzero
      rw [hzero, Owed.bytes_zero] at howing
      omega
    · simp only [Owed.bytes_add]
      omega

theorem accounts_slotRelease {s : Noted App Books} {i : Nat} (hi : i < slots s.st) :
    Keeps Accounts (slotRelease i) s := by
  have hfixes : Fixes streamsSize (Ts.slotRelease i) := fixes_modify fun a => by
    dsimp only
    split <;> exact streamsSize_setSlot a i _ a.env
  apply keeps_get_bind
  dsimp only
  split
  · unfold Keeps
    rw [post_then (run_note _ _), post_then (run_note _ _)]
    exact accounts_chains.trans (accounts_release hi _) (accounts_silent hfixes _)
  · exact accounts_silent hfixes s

theorem accounts_closeFlush (cfg : Cfg) (name : Bytes) : Always Accounts (closeFlush cfg name) := by
  refine fun s => keeps_get_bind ?_
  dsimp only
  split
  · exact keeps_pure accounts_chains () s
  · rename_i i hfind
    split
    · exact keeps_adaptExcept _ (accounts_onSlot (earns_flushBufferLocked cfg) (slotFind_lt hfind))
    · exact keeps_pure accounts_chains () s

theorem accounts_closeLocked (cfg : Cfg) (name : Bytes) : Always Accounts (closeLocked cfg name) := by
  refine fun s => keeps_bind accounts_chains (keeps_attempt (accounts_closeFlush cfg name s)) fun status t _ => ?_
  apply keeps_get_bind
  split
  · exact keeps_rethrow accounts_chains status t
  · rename_i i hfind
    apply keeps_bind accounts_chains (accounts_slotRelease (slotFind_lt hfind))
    intro _ u _
    exact keeps_rethrow accounts_chains status u

theorem quiet_tsClose (cfg : Cfg) (h : Nat) : Always (Preserves Quiet) (tsClose cfg h) := by
  apply quiet_get
  intro s
  split
  · exact keeps_pure quiet_chains () s
  · rename_i name _
    refine keeps_get_bind (keeps_bind quiet_chains (keeps_attempt ?_) fun status t _ => ?_)
    · split
      · exact quiet_locked (accounts_closeLocked cfg name s)
      · exact keeps_pure quiet_chains () s
    · apply keeps_bind quiet_chains (quiet_silent _ t)
      intro _ u _
      exact keeps_rethrow quiet_chains status u

theorem streamsSize_setPending (a : App) (pending : Bool) : streamsSize (a.setPending pending) = streamsSize a := by
  unfold streamsSize App.setPending
  cases a.tsCtx <;> rfl

theorem fixes_submitFlush : Fixes streamsSize submitFlush := by
  apply fixes_bind fixes_get
  intro a
  apply fixes_guard
  apply fixes_bind (fixes_modify fun a => streamsSize_setPending a true)
  intro _
  exact fixes_zoom (g := fun _ => ()) (fun _ => rfl) fun _ _ _ => rfl

theorem quiet_tsFlushAsync (cfg : Cfg) (h : Nat) : Always (Preserves Quiet) (tsFlushAsync cfg h) := by
  apply quiet_get
  intro s
  refine always_guard quiet_chains (r := Status.ERR_INVAL) ?_ s
  apply always_bind quiet_chains (quiet_tsCtxGetOrAlloc cfg _)
  intro _
  apply always_bind quiet_chains (fun t => quiet_locked (accounts_silent fixes_submitFlush t))
  intro rc
  split
  · exact always_pure quiet_chains ()
  · apply always_bind quiet_chains (quiet_silent _)
    intro _
    exact always_throw quiet_chains _

theorem quiet_appendFlush (cfg : Cfg) (h i recSize : Nat) : Always (Preserves Quiet) (appendFlush cfg h i recSize) := by
  apply quiet_get
  intro s
  dsimp only
  split
  · apply keeps_bind quiet_chains (keeps_attempt (quiet_tsFlushAsync cfg h s))
    intro rc t _
    split
    · exact keeps_pure quiet_chains () t
    · exact keeps_pure quiet_chains () t
    · exact keeps_throw quiet_chains _ t
  · exact keeps_pure quiet_chains () s

theorem quiet_tsAppendI64 (cfg : Cfg) (h : Nat) (sample : Sample) :
    Always (Preserves Quiet) (tsAppendI64 cfg h sample) := by
  apply quiet_get
  intro s
  split
  · exact keeps_throw quiet_chains _ s
  · apply keeps_bind quiet_chains (quiet_tsCtxGetOrAlloc cfg _ s)
    intro _ t _
    apply keeps_get_bind
    split
    · exact keeps_throw quiet_chains _ t
    · rename_i i hfind
      refine keeps_bind quiet_chains (quiet_locked ?_) fun recSize u _ => quiet_appendFlush cfg h i recSize u
      exact accounts_onSlot (earns_appendRecord cfg sample) (slotFind_lt hfind)

theorem accounts_batchLocked (cfg : Cfg) (name : Bytes) (samples : List Sample) :
    Always Accounts (batchLocked cfg name samples) := by
  refine fun s => keeps_get_bind ?_
  split
  · exact keeps_throw accounts_chains _ s
  · rename_i i hfind
    refine keeps_bind accounts_chains ?_ fun _ t _ => keeps_pure accounts_chains i t
    exact accounts_onSlot (earns_appendRecords cfg samples) (slotFind_lt hfind)

theorem quiet_tsAppendBatchI64 (cfg : Cfg) (h : Nat) (samples : List Sample) :
    Always (Preserves Quiet) (tsAppendBatchI64 cfg h samples) := by
  apply quiet_get
  intro s
  split
  · exact keeps_throw quiet_chains _ s
  · rename_i name _
    refine always_guard quiet_chains ?_ s
    apply always_bind quiet_chains (quiet_tsCtxGetOrAlloc cfg _)
    intro _
    apply always_bind quiet_chains (fun t => quiet_locked (accounts_batchLocked cfg name samples t))
    intro i
    apply quiet_get
    intro u
    dsimp only
    split
    · apply keeps_bind quiet_chains (keeps_attempt (quiet_tsFlushAsync cfg h u))
      intro _ v _
      exact keeps_pure quiet_chains _ v
    · exact keeps_pure quiet_chains _ u

/-- The bytes of events of a type that the drain is to report itself. -/
def Drained.bytes (d : Drained) : TsEventType → Nat
  | .FLUSH => d.flushedBytes
  | .ROLLOVER => 0

/-- The same as `Accounts`, with what the drain has taken over. -/
structure Drains (x y : Noted App Books × Drained) : Prop where
  size : streamsSize y.1.st = streamsSize x.1.st
  beyond : ∀ i, slots x.1.st ≤ i → y.1.notes.owed i = x.1.notes.owed i
  idle : x.1.st.tsCtx = none → y.1.notes.releasedOwed = x.1.notes.releasedOwed
  balanced : ∀ k, Balanced (fun x : Noted App Books × Drained => told k x.1 + x.2.bytes k)
    (fun x => x.1.notes.done.bytes k) x y

theorem Drains.refl (x : Noted App Books × Drained) : Drains x x :=
  ⟨rfl, fun _ _ => rfl, fun _ => rfl, fun _ => balanced_refl _ _ x⟩

theorem Drains.slots {x y : Noted App Books × Drained} (h : Drains x y) : slots y.1.st = slots x.1.st :=
  congrArg (·.getD 0) h.size

theorem Drains.trans {x y z : Noted App Books × Drained} (h : Drains x y) (k : Drains y z) : Drains x z := by
  refine ⟨k.size.trans h.size, fun i hi => ?_, fun hnone => ?_, fun j => (h.balanced j).trans (k.balanced j)⟩
  · exact (k.beyond i (h.slots ▸ hi)).trans (h.beyond i hi)
  · have hnone' : y.1.st.tsCtx = none := streamsSize_none.mp (h.size.trans (streamsSize_none.mpr hnone))
    exact (k.idle hnone').trans (h.idle hnone)

theorem Accounts.drains {s t : Noted App Books} {d d' : Drained} (h : Accounts s t) (hd : ∀ k, d'.bytes k = d.bytes k) :
    Drains (s, d) (t, d') := by
  refine ⟨h.size, h.beyond, h.idle, fun k => ?_⟩
  have hk : told k t + s.notes.done.bytes k = told k s + t.notes.done.bytes k := h.balanced k
  show told k t + d'.bytes k + s.notes.done.bytes k = told k s + d.bytes k + t.notes.done.bytes k
  rw [hd k]
  omega

theorem drains_clearFlush {t : Noted App Books} {d : Drained} {i pending : Nat} (hi : i < slots t.st) (name : Bytes)
    (howed : (t.notes.owed i).flushBytes = pending) :
    Drains (t, d) ({ t with notes := t.notes.clearFlush i }, d.flush pending name) := by
  have hne : ∀ j, slots t.st ≤ j → j ≠ i := fun j hj hji => by omega
  refine ⟨rfl, fun j hj => Function.update_of_ne (hne j hj) _ _, fun _ => rfl, fun k => ?_⟩
  have howing := owing_setOwed t.notes.owed hi { t.notes.owed i with flushBytes := 0 } k
  show published k t.notes.events + (owing (fun j =>
      (Function.update t.notes.owed i { t.notes.owed i with flushBytes := 0 } j).bytes k) (slots t.st) +
      t.notes.releasedOwed.bytes k) + (d.flush pending name).bytes k + t.notes.done.bytes k =
    published k t.notes.events + (owing (fun j => (t.notes.owed j).bytes k) (slots t.st) +
      t.notes.releasedOwed.bytes k) + d.bytes k + t.notes.done.bytes k
  cases k with
  | FLUSH =>
    simp only [Owed.bytes, Drained.bytes, Drained.flush] at howing ⊢
    omega
  | ROLLOVER =>
    simp only [Owed.bytes, Drained.bytes] at howing ⊢
    omega

theorem drains_flushSlot (cfg : Cfg) {s : Noted App Books} {i : Nat} (d : Drained) (hi : i < slots s.st)
    (hclear : (s.notes.owed i).flushBytes = 0) : Yields (flushSlot cfg i d) s
    (fun d' t => Drains (s, d) (t, d') ∧ ∀ j, j ≠ i → t.notes.owed j = s.notes.owed j) fun _ _ => False := by
  apply yields_get_bind
  dsimp only
  split
  · have hacc := accounts_onSlot (earns_flushBufferLocked cfg) (s := s) hi
    have hother : ∀ j, j ≠ i → (post (onSlot i (flushBufferLocked cfg)) s).notes.owed j = s.notes.owed j :=
      fun j hj => by
        unfold onSlot
        rw [post_zoom]
        exact Function.update_of_ne hj _ _
    apply yields_then (run_attempt _ s)
    cases hrun : outcome (onSlot i (flushBufferLocked cfg)) s with
    | error err => exact yields_pure ⟨hacc.drains fun k => by cases k <;> rfl, hother⟩
    | ok _ =>
      refine yields_then (run_note _ _) (yields_pure ⟨?_, fun j hj => ?_⟩)
      · have howed : ((post (onSlot i (flushBufferLocked cfg)) s).notes.owed i).flushBytes = (s.st.slotAt i).ingestUsed := by
          unfold onSlot at hrun ⊢
          rw [outcome_zoom] at hrun
          rw [post_zoom]
          have h := (flushBufferLocked_owes cfg _).run_ok (run_of_outcome hrun)
          show ((Function.update s.notes.owed i _) i).flushBytes = _
          rw [Function.update_self, h]
          show (s.notes.owed i).flushBytes + _ = _
          rw [hclear, Nat.zero_add]
        have hi' : i < slots (post (onSlot i (flushBufferLocked cfg)) s).st := hacc.slots ▸ hi
        exact (hacc.drains fun _ => rfl).trans (drains_clearFlush hi' _ howed)
      · exact (Function.update_of_ne hj _ _).trans (hother j hj)
  · exact yields_pure ⟨Drains.refl _, fun _ _ => rfl⟩

theorem drains_flushSlots (cfg : Cfg) (is : List Nat) (hnodup : is.Nodup) {s : Noted App Books} (d : Drained)
    (hlt : ∀ i ∈ is, i < slots s.st) (hclear : ∀ i ∈ is, (s.notes.owed i).flushBytes = 0) :
    Yields (flushSlots cfg is d) s (fun d' t => Drains (s, d) (t, d')) fun _ _ => False := by
  induction is generalizing s d with
  | nil => exact yields_pure (Drains.refl _)
  | cons i rest ih =>
    rw [List.forall_mem_cons] at hlt hclear
    rw [List.nodup_cons] at hnodup
    refine yields_bind (drains_flushSlot cfg d hlt.1 hclear.1) fun d₁ t ⟨ht, hother⟩ => ?_
    refine (ih hnodup.2 d₁ (fun j hj => ?_) fun j hj => ?_).imp (fun _ _ h => ht.trans h) fun _ _ h => h
    · rw [ht.slots]
      exact hlt.2 j hj
    · rw [hother j fun hji => hnodup.1 (hji ▸ hj)]
      exact hclear.2 j hj

theorem published_report (d : Drained) (b : Books) (k : TsEventType) :
    published k (b.report d).events = published k b.events + d.bytes k := by
  unfold Books.report
  split
  · show published k (_ :: b.events) = _
    rw [published_cons, Nat.add_comm]
    cases k <;> rfl
  · rename_i h
    have hzero : d.flushedBytes = 0 := by omega
    cases k with
    | FLUSH => exact (congrArg (published .FLUSH b.events + ·) hzero).symm
    | ROLLOVER => rfl

theorem report_owed (d : Drained) (b : Books) : (b.report d).owed = b.owed := by
  unfold Books.report
  split <;> rfl

theorem report_releasedOwed (d : Drained) (b : Books) : (b.report d).releasedOwed = b.releasedOwed := by
  unfold Books.report
  split <;> rfl

theorem report_done (d : Drained) (b : Books) : (b.report d).done = b.done := by
  unfold Books.report
  split <;> rfl

theorem quiet_drained {s t : Noted App Books} {d : Drained} (hs : Quiet s) (ht : Drains (s, .none) (t, d)) :
    Quiet { unlocked t with notes := (unlocked t).notes.report d } := by
  obtain ⟨howed, hreleased, hevents⟩ := unlocked_settles (t := t)
    (fun i hi => (ht.beyond i (ht.slots ▸ hi)).trans (hs.owed i)) fun hnone =>
      (ht.idle (streamsSize_none.mp (ht.size.symm.trans (streamsSize_none.mpr hnone)))).trans hs.released
  refine ⟨fun i => ?_, (report_releasedOwed d _).trans hreleased, fun k => ?_⟩
  · exact (congrFun (report_owed d _) i).trans (howed i)
  · have hsquare : told k t + d.bytes k = t.notes.done.bytes k := by
      refine (ht.balanced k).square ?_
      show published k s.notes.events + due k s + Drained.bytes .none k = _
      rw [hs.due, hs.square]
      cases k <;> rfl
    show published k ((unlocked t).notes.report d).events = ((unlocked t).notes.report d).done.bytes k
    rw [published_report, report_done, hevents, unlocked_done, hsquare]

theorem quiet_flushWorkHandler (cfg : Cfg) : Always (Preserves Quiet) (flushWorkHandler cfg) := by
  apply quiet_get
  intro s
  split
  · intro hs
    have hdrain := drains_flushSlots cfg (List.range (slots s.st)) List.nodup_range (s := s) .none
      (fun i hi => List.mem_range.mp hi) fun i _ => by rw [hs.owed]; rfl
    refine Yields.post (Q := Quiet) (yields_bind (hdrain.imp (fun _ _ h => h) fun _ _ h => h.elim) fun d t ht => ?_)
    have hsize : Fixes streamsSize (modify fun a => a.setPending false : Ts.AppM Status Unit) :=
      fixes_modify fun a => streamsSize_setPending a false
    have hpending : Accounts t { t with st := t.st.setPending false } := accounts_silent hsize t
    exact quiet_drained hs (ht.trans (hpending.drains fun _ => rfl))
  · exact keeps_pure quiet_chains () s

theorem quiet_tsFlushSync (cfg : Cfg) (h : Nat) : Always (Preserves Quiet) (tsFlushSync cfg h) := by
  apply quiet_get
  intro s
  refine always_guard quiet_chains ?_ s
  apply always_bind quiet_chains (quiet_tsCtxGetOrAlloc cfg _)
  intro _
  apply always_bind quiet_chains (always_attempt (quiet_tsFlushAsync cfg h))
  intro rc
  split
  · exact quiet_flushWorkHandler cfg
  · exact quiet_flushWorkHandler cfg
  · exact always_throw quiet_chains _

theorem quiet_step (cfg : Cfg) (s : Noted App Books) (op : Op) (hs : Quiet s) : Quiet (step cfg s op).2 := by
  cases op with
  | init => exact ⟨fun _ => rfl, rfl, fun k => by cases k <;> rfl⟩
  | deinit => exact ⟨fun _ => rfl, rfl, hs.square⟩
  | «open» h name => exact quiet_tsOpen cfg h name s hs
  | close h => exact quiet_tsClose cfg h s hs
  | append h sample => exact quiet_tsAppendI64 cfg h sample s hs
  | batch h samples => exact quiet_tsAppendBatchI64 cfg h samples s hs
  | flushAsync h => exact quiet_tsFlushAsync cfg h s hs
  | flushSync h => exact quiet_tsFlushSync cfg h s hs
  | drain => exact quiet_flushWorkHandler cfg s hs
  | recover h => exact quiet_silent _ s hs
  | count h window => exact quiet_reads (tsQueryCount cfg h window) s hs
  | cursor h window predicate descending n => exact quiet_reads (queryCursor cfg h window predicate descending n) s hs

theorem quiet_run (cfg : Cfg) (ops : List Op) {s : Noted App Books} (hs : Quiet s) : Quiet (run cfg s ops) := by
  induction ops generalizing s with
  | nil => exact hs
  | cons op ops ih => exact ih (quiet_step cfg s op hs)

theorem quiet_blank (a : App) : Quiet ⟨a, .blank⟩ := ⟨fun _ => rfl, rfl, fun k => by cases k <;> rfl⟩

/-- Between calls, the flush events published since `zdb_init` carry the bytes of the buffers that were written
and closed, whatever storage does. -/
theorem flush_events_add_up (cfg : Cfg) (a : App) (ops : List Op) :
    let s := run cfg ⟨a, .blank⟩ ops
    ((s.notes.events.filter (·.type = .FLUSH)).map (·.flushedBytes)).sum = s.notes.done.flushes.sum :=
  (quiet_run cfg ops (quiet_blank a)).square .FLUSH

/-- The bytes of the segment files that rollover removed. -/
def Done.removedBytes (d : Done) : Nat := ((d.discards.filter (·.removed)).map (·.size)).sum

def Discard.Agrees (d : Discard) : Prop := d.size = 0 ∨ d.sized = d.removed

instance : DecidablePred Discard.Agrees := fun _ => inferInstanceAs (Decidable (_ ∨ _))

theorem removedBytes_of_agrees {ds : List Discard} (h : ∀ d ∈ ds, d.Agrees) :
    ((ds.filter (·.removed)).map (·.size)).sum = ((ds.filter (·.sized)).map (·.size)).sum := by
  induction ds with
  | nil => rfl
  | cons d ds ih =>
    rw [List.forall_mem_cons] at h
    have hds := ih h.2
    rcases h.1 with hsize | hsame
    · cases hs : d.sized <;> cases hr : d.removed <;> simp [hs, hr, hsize, hds]
    · cases hr : d.removed <;> simp [hsame, hr, hds]

/-- The call as a step. -/
def Calls (cfg : Cfg) (s : Noted App Books) (op : Op) (t : Noted App Books) : Prop := t = (step cfg s op).2

/-- The `fs_stat` and the `fs_unlink` of each segment that rollover goes to drop, up to the end of this call,
answer alike. -/
def StorageAgrees (cfg : Cfg) (s : Noted App Books) (op : Op) : Prop :=
  ∀ d ∈ (step cfg s op).2.notes.done.discards, d.Agrees

instance (cfg : Cfg) (s : Noted App Books) (op : Op) : Decidable (StorageAgrees cfg s op) := List.decidableBAll ..

/-- Between calls, the rollover events published since `zdb_init` carry the bytes of the segment files that were
removed, where storage sizes the files that it removes and no others. -/
theorem rollover_events_add_up {cfg : Cfg} {a : App} {ops : List Op} {s : Noted App Books}
    (hrun : Steps (Guarded (StorageAgrees cfg) (Calls cfg)) ⟨a, .blank⟩ ops s) :
    ((s.notes.events.filter (·.type = .ROLLOVER)).map (·.truncatedBytes)).sum = s.notes.done.removedBytes := by
  have hkept : Quiet s ∧ ∀ d ∈ s.notes.done.discards, d.Agrees := by
    refine hrun.keeps (I := fun s => Quiet s ∧ ∀ d ∈ s.notes.done.discards, d.Agrees) (fun s op t hs hstep => ?_)
      ⟨quiet_blank a, nofun⟩
    obtain ⟨hagrees, rfl⟩ := hstep
    exact ⟨quiet_step cfg s op hs.1, hagrees⟩
  exact (hkept.1.square .ROLLOVER).trans (removedBytes_of_agrees hkept.2).symm

/-- An instance in whose directory stream `"A"` has the segments 0 and 1, without records. -/
def twoSegments (bad : Nat → Bool) : App :=
  let cfg := Cfg.small true false true 280
  App.boot { Sys.blank bad with
    files := [(⟨segmentPath cfg [65] 0, Format.v1.header [65]⟩ : (_ : Path) × Bytes),
      ⟨segmentPath cfg [65] 1, Format.v1.header [65]⟩].toAList }

/-- A full buffer is written out, and segment 0 dropped for it. -/
theorem oldest_dropped : ∃ s,
    Steps (Guarded (StorageAgrees (Cfg.small true false true 280)) (Calls (Cfg.small true false true 280)))
      ⟨twoSegments fun _ => false, .blank⟩ [.open 0 [65], .batch 0 twelve] s ∧
    s.notes.done.discards = [⟨16, true, true⟩] ∧
    ((s.notes.events.filter (·.type = .ROLLOVER)).map (·.truncatedBytes)).sum = s.notes.done.removedBytes := by
  have hrun : ∃ s,
      Steps (Guarded (StorageAgrees (Cfg.small true false true 280)) (Calls (Cfg.small true false true 280)))
        ⟨twoSegments fun _ => false, .blank⟩ [.open 0 [65], .batch 0 twelve] s ∧
      s.notes.done.discards = [⟨16, true, true⟩] :=
    ⟨_, .cons ⟨by decide +kernel, rfl⟩ (.single ⟨by decide +kernel, rfl⟩), by decide +kernel⟩
  obtain ⟨s, hsteps, hdiscards⟩ := hrun
  exact ⟨s, hsteps, hdiscards, rollover_events_add_up hsteps⟩

/-- The `fs_unlink` of segment 0 fails: its bytes are told as truncated, and the file is still there. -/
theorem refused_unlink_told :
    let s := run (Cfg.small true false true 280) ⟨twoSegments fun n => n == 23, .blank⟩ [.open 0 [65], .batch 0 twelve]
    ((s.notes.events.filter (·.type = .ROLLOVER)).map (·.truncatedBytes)).sum = 16 ∧
      s.notes.done.removedBytes = 0 := by
  decide +kernel

end ZephyrDB.Ts.Eventing
