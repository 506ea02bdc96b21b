import ZephyrDB.Ts.Opening

/-!
Who holds what: the claims that opening and closing streams make on the slots
and the ingest blocks. No other program touches them, whatever fails on the way,
nor does one break what a slot or a cursor always keeps to.
-/

set_option autoImplicit false

namespace ZephyrDB.Ts

open Lib

def slotTag (slot : StreamCtx) : Option (Bytes × Nat) × Bool := (slotKey slot, slot.ingestBuf.isSome)

def App.claims (cfg : Cfg) (a : App) : List (Option (Bytes × Nat) × Bool) :=
  match a.tsCtx with
  | some ctx => ctx.streams.map slotTag
  | none => List.replicate cfg.maxStreams (none, false)

/-- The ingest blocks that are allocated. -/
def App.blocks (cfg : Cfg) (a : App) : Nat := (a.claims cfg).countP Prod.snd

def App.held (cfg : Cfg) (a : App) : List (Option (Bytes × Nat) × Bool) × (Nat → Option Bytes) × Bool :=
  (a.claims cfg, a.handles, a.cfgSet)

def SlotSt.tag (s : SlotSt) : Option (Bytes × Nat) × Bool := slotTag s.slot

section Claims
variable {cfg : Cfg} {a b : App}

theorem claims_table (cfg : Cfg) (a : App) : (a.claims cfg).map Prod.fst = a.table cfg := by
  unfold App.claims App.table
  cases a.tsCtx with
  | none => simp
  | some ctx => simp [slotTag, Function.comp_def]

theorem claims_getD (cfg : Cfg) (a : App) (i : Nat) :
    (a.claims cfg).getD i (none, false) = slotTag (a.slotAt i) := by
  unfold App.claims
  cases hc : a.tsCtx with
  | none =>
    rw [slotAt_zero hc]
    by_cases hi : i < cfg.maxStreams <;> simp [List.getD, hi, slotTag, slotKey, StreamCtx.zero]
  | some ctx =>
    rw [slotAt_some hc]
    by_cases hi : i < ctx.streams.length <;> simp [List.getD, hi, slotTag, slotKey, StreamCtx.zero]

theorem claims_setSlot (cfg : Cfg) (a : App) (i : Nat) (slot : StreamCtx) :
    (a.setSlot i slot).claims cfg = if a.tsCtx.isSome then (a.claims cfg).set i (slotTag slot) else a.claims cfg := by
  unfold App.claims App.setSlot
  cases a.tsCtx <;> simp [List.map_set]

theorem claims_setSlot_self (cfg : Cfg) (a : App) {i : Nat} {slot : StreamCtx}
    (h : slotTag slot = slotTag (a.slotAt i)) : (a.setSlot i slot).claims cfg = a.claims cfg := by
  rw [claims_setSlot]
  split
  · rw [h, ← claims_getD cfg a i]
    by_cases hi : i < (a.claims cfg).length
    · rw [List.getD_eq_getElem _ _ hi, List.set_getElem_self]
    · exact List.set_eq_of_length_le (by omega)
  · rfl

end Claims

section Slot
variable {cfg : Cfg}

def StreamCtx.Consistent (slot : StreamCtx) : Prop :=
  (slot.segVersion = 0 ∧ slot.segRecSize = 0) ∨ slot.segRecSize = recSizeFor slot.segVersion

theorem consistent_size {slot : StreamCtx} (h : slot.Consistent) :
    slotRecSize cfg slot = recSizeFor (slotVersion cfg slot) := by
  unfold slotRecSize slotVersion
  cases cfg.segmented with
  | false => rfl
  | true =>
    rcases h with ⟨hv, hr⟩ | hr
    · rw [hv, hr]
      rfl
    · have hpos := recSizeFor_pos slot.segVersion
      by_cases hv : slot.segVersion = 0
      · rw [hr, hv]
        rfl
      · simp [hr, hv, Nat.pos_iff_ne_zero.mp hpos]

structure Gentle (slot slot' : StreamCtx) : Prop where
  tag : slotTag slot' = slotTag slot
  capacity : slot'.ingestCapacity = slot.ingestCapacity
  block : slot'.ingestBuf.map List.length = slot.ingestBuf.map List.length
  format : slot.Consistent → slot'.Consistent

theorem Gentle.refl (slot : StreamCtx) : Gentle slot slot := ⟨rfl, rfl, rfl, id⟩

theorem Gentle.trans {a b c : StreamCtx} (h : Gentle a b) (k : Gentle b c) : Gentle a c :=
  ⟨k.tag.trans h.tag, k.capacity.trans h.capacity, k.block.trans h.block, fun hc => k.format (h.format hc)⟩

def SlotSt.Gentle (s t : SlotSt) : Prop := Ts.Gentle s.slot t.slot

theorem gentle_chains : Chains SlotSt.Gentle := ⟨fun s => Gentle.refl s.slot, Gentle.trans⟩

theorem gentle_onSys {ε α : Type} (m : EStateM ε Sys α) : Always SlotSt.Gentle (onSys m) := fun s => by
  unfold Keeps onSys
  rw [post_zoom]
  exact Gentle.refl s.slot

theorem gentle_getSlot {ε : Type} : Always SlotSt.Gentle (getSlot (ε := ε)) := fun s => Gentle.refl s.slot

theorem gentle_updSlot {ε : Type} {f : StreamCtx → StreamCtx} (h : ∀ slot, Gentle slot (f slot)) :
    Always SlotSt.Gentle (updSlot (ε := ε) f) := fun s => h s.slot

theorem gentle_setFormat (slot : StreamCtx) (version : Nat) (baseTsMs : UInt64) :
    Gentle slot (slot.setFormat version baseTsMs) := ⟨rfl, rfl, rfl, fun _ => .inr rfl⟩

theorem gentle_store (slot : StreamCtx) (raw : Bytes) (recSize : Nat) : Gentle slot (slot.store raw recSize) := by
  refine ⟨?_, rfl, ?_, id⟩
  · unfold slotTag slotKey StreamCtx.store
    rw [Option.isSome_map]
  · unfold StreamCtx.store
    cases slot.ingestBuf with
    | none => rfl
    | some buf =>
      simp only [Option.map_some, List.length_take, writeAt, List.length_append, List.length_drop]
      congr 1
      omega

theorem gentle_learnNewest (name : Bytes) (lowest highest : Nat) :
    Always SlotSt.Gentle (learnNewest cfg name lowest highest) := by
  refine always_bind gentle_chains (gentle_updSlot fun _ => ⟨rfl, rfl, rfl, id⟩) fun _ => ?_
  apply always_bind gentle_chains (always_rethrow gentle_chains _)
  intro segPath
  apply always_bind gentle_chains (gentle_onSys _)
  intro vb
  apply always_bind gentle_chains (gentle_updSlot fun slot => gentle_setFormat slot _ _)
  intro _
  apply always_bind gentle_chains (gentle_onSys _)
  intro size
  apply gentle_updSlot
  intro _
  exact ⟨rfl, rfl, rfl, id⟩

theorem gentle_scanSegments : Always SlotSt.Gentle (scanSegments cfg) := by
  apply always_bind gentle_chains gentle_getSlot
  intro slot
  apply always_ite (always_pure gentle_chains _)
  dsimp only
  apply always_guard gentle_chains
  apply always_bind gentle_chains (gentle_onSys _)
  intro entries
  refine always_ite ?_ (gentle_learnNewest _ _ _)
  apply always_bind gentle_chains (gentle_onSys _)
  intro _
  exact gentle_learnNewest _ _ _

theorem gentle_discardSegments (n : Nat) : Always SlotSt.Gentle (discardSegments cfg n) := by
  induction n with
  | zero => exact always_pure gentle_chains ()
  | succ n ih =>
    apply always_bind gentle_chains gentle_getSlot
    intro slot
    split
    · apply always_bind gentle_chains (always_rethrow gentle_chains _)
      intro segPath
      exact always_bind gentle_chains (gentle_onSys _) fun _ => always_bind gentle_chains (gentle_updSlot fun _ => ⟨rfl, rfl, rfl, id⟩) fun _ => ih
    · exact always_pure gentle_chains ()

theorem gentle_startSegment (baseTsMs : UInt64) : Always SlotSt.Gentle (startSegment cfg baseTsMs) := by
  refine always_bind gentle_chains (gentle_updSlot fun _ => ⟨rfl, rfl, rfl, id⟩) fun _ => ?_
  apply always_bind gentle_chains gentle_getSlot
  intro slot
  apply always_bind gentle_chains (always_rethrow gentle_chains _)
  intro segPath
  apply always_bind gentle_chains (gentle_onSys _)
  intro vb
  apply always_bind gentle_chains (gentle_updSlot fun slot => gentle_setFormat slot _ _)
  intro _
  split
  · exact gentle_discardSegments _
  · exact always_pure gentle_chains ()

theorem gentle_rollSegmentIfFull : Always SlotSt.Gentle (rollSegmentIfFull cfg) := by
  apply always_bind gentle_chains gentle_getSlot
  intro slot
  split
  · exact gentle_startSegment _
  · exact always_pure gentle_chains ()

theorem gentle_activePath : Always SlotSt.Gentle (activePath cfg) := by
  unfold activePath
  split
  · apply always_bind gentle_chains (always_adaptExcept _ gentle_scanSegments)
    intro _
    apply always_bind gentle_chains gentle_getSlot
    intro slot
    exact always_rethrow gentle_chains _
  · apply always_bind gentle_chains gentle_getSlot
    intro slot
    exact always_rethrow gentle_chains _

theorem gentle_writeBuffer (buf : Bytes) (used : Nat) : Always SlotSt.Gentle (writeBuffer cfg buf used) := by
  apply always_bind gentle_chains gentle_activePath
  intro path
  apply always_bind gentle_chains (gentle_onSys _)
  intro _
  apply always_bind gentle_chains (gentle_onSys _)
  intro wr
  dsimp only
  apply always_guard gentle_chains
  apply always_bind gentle_chains (gentle_onSys _)
  intro _
  apply gentle_updSlot
  intro _
  exact ⟨rfl, rfl, rfl, id⟩

theorem gentle_flushBufferLocked : Always SlotSt.Gentle (flushBufferLocked cfg) := by
  apply always_bind gentle_chains gentle_getSlot
  intro slot
  split
  · exact always_guard gentle_chains (always_throw gentle_chains _)
  · refine always_guard gentle_chains (always_ite ?_ (always_pure gentle_chains _))
    apply always_bind gentle_chains (gentle_writeBuffer _ _)
    intro _
    exact always_ite gentle_rollSegmentIfFull (always_pure gentle_chains _)

theorem gentle_rebaseRecord (sample : Sample) : Always SlotSt.Gentle (rebaseRecord cfg sample) := by
  unfold rebaseRecord
  apply always_guard gentle_chains
  apply always_bind gentle_chains (always_adaptExcept _ gentle_flushBufferLocked)
  intro _
  apply always_bind gentle_chains (always_adaptExcept _ (gentle_startSegment _))
  intro _
  apply always_bind gentle_chains gentle_getSlot
  intro slot
  split
  · exact always_throw gentle_chains _
  · apply always_bind gentle_chains (gentle_updSlot fun slot => gentle_store slot _ _)
    intro _
    exact always_pure gentle_chains _

theorem gentle_encodeRecord (sample : Sample) (recSize : Nat) :
    Always SlotSt.Gentle (encodeRecord cfg sample recSize) := by
  apply always_bind gentle_chains gentle_getSlot
  intro slot
  split
  · apply always_bind gentle_chains (gentle_updSlot fun slot => gentle_store slot _ _)
    intro _
    exact always_pure gentle_chains _
  · exact gentle_rebaseRecord sample

theorem gentle_appendRecord (sample : Sample) : Always SlotSt.Gentle (appendRecord cfg sample) := by
  apply always_bind gentle_chains gentle_getSlot
  intro slot
  refine always_guard gentle_chains (always_ite ?_ (gentle_encodeRecord _ _))
  apply always_bind gentle_chains (always_adaptExcept _ gentle_flushBufferLocked)
  intro _
  exact gentle_encodeRecord _ _

theorem gentle_appendRecords (samples : List Sample) : Always SlotSt.Gentle (appendRecords cfg samples) := by
  induction samples with
  | nil => exact always_pure gentle_chains ()
  | cons sample samples ih => exact always_bind gentle_chains (gentle_appendRecord sample) fun _ => ih

end Slot

section Calls
variable {cfg : Cfg}

structure Settles (cfg : Cfg) (a b : App) : Prop where
  held : b.held cfg = a.held cfg
  slots : ∀ i, Gentle (a.slotAt i) (b.slotAt i)

theorem settles_chains (cfg : Cfg) : Chains (Settles cfg) :=
  ⟨fun a => ⟨rfl, fun i => Gentle.refl (a.slotAt i)⟩,
    fun h k => ⟨k.held.trans h.held, fun i => (h.slots i).trans (k.slots i)⟩⟩

theorem Settles.of_slotAt {a b : App} (h : b.held cfg = a.held cfg) (hs : ∀ i, b.slotAt i = a.slotAt i) :
    Settles cfg a b :=
  ⟨h, fun i => (hs i).symm ▸ Gentle.refl (a.slotAt i)⟩

theorem Settles.of_streams {a b : App} (h : b.held cfg = a.held cfg)
    (hs : b.tsCtx.map TsCoreCtx.streams = a.tsCtx.map TsCoreCtx.streams) : Settles cfg a b := by
  refine .of_slotAt h fun i => ?_
  unfold App.slotAt
  cases ha : a.tsCtx <;> cases hb : b.tsCtx <;> simp_all

theorem always_held {ε α : Type} {m : AppM ε α} (h : Always (Settles cfg) m) : Fixes (App.held cfg) m :=
  fun a => (h a).held

theorem settles_onEnv {ε α : Type} (m : EStateM ε Sys α) : Always (Settles cfg) (onEnv m) := fun a => by
  unfold Keeps onEnv
  rw [post_zoom]
  exact .of_slotAt rfl fun _ => rfl

theorem run_onSlot {ε α : Type} {m : SlotM ε α} {a : App} {i : Nat} {x : α} {t : SlotSt}
    (h : m.run ⟨a.slotAt i, a.env⟩ = .ok x t) : (onSlot i m).run a = .ok x { a.setSlot i t.slot with env := t.env } :=
  run_zoom h

theorem run_onSlot_error {ε α : Type} {m : SlotM ε α} {a : App} {i : Nat} {r : ε} {t : SlotSt}
    (h : m.run ⟨a.slotAt i, a.env⟩ = .error r t) : (onSlot i m).run a = .error r { a.setSlot i t.slot with env := t.env } :=
  run_zoom_error h

theorem held_setSlot (a : App) {i : Nat} {slot : StreamCtx} (h : slotTag slot = slotTag (a.slotAt i)) (e : Sys) :
    App.held cfg { a.setSlot i slot with env := e } = a.held cfg := by
  have hclaims := claims_setSlot_self cfg a h
  exact congrArg (fun cs => (cs, a.handles, a.cfgSet)) hclaims

theorem settles_onSlot {ε α : Type} {m : SlotM ε α} (i : Nat) (hm : Always SlotSt.Gentle m) :
    Always (Settles cfg) (onSlot i m) :=
  always_zoom hm fun a s hs => by
    refine ⟨held_setSlot a hs.tag s.env, fun j => ?_⟩
    show Gentle (a.slotAt j) ((a.setSlot i s.slot).slotAt j)
    by_cases hi : HasSlot a i
    · rw [slotAt_setSlot hi]
      split
      · rename_i hj
        exact hj ▸ hs
      · exact Gentle.refl _
    · rw [setSlot_beyond hi]
      exact Gentle.refl _

theorem settles_getApp {ε : Type} : Always (Settles cfg) (get : AppM ε App) := always_get (settles_chains cfg)

theorem settles_setPending {ε : Type} (b : Bool) :
    Always (Settles cfg) (modify fun a => a.setPending b : AppM ε Unit) := by
  apply always_modify
  intro a
  refine .of_streams ?_ ?_
  · unfold App.held App.claims App.setPending
    cases a.tsCtx <;> rfl
  · unfold App.setPending
    cases a.tsCtx <;> rfl

theorem settles_newCtx {a : App} (h : a.tsCtx = none) :
    Settles cfg a { a with tsCtx := some ⟨List.replicate cfg.maxStreams StreamCtx.zero, false, false⟩ } := by
  refine .of_slotAt ?_ fun i => ?_
  · simp [App.held, App.claims, h, slotTag, slotKey, StreamCtx.zero]
  · rw [slotAt_zero h]
    by_cases hi : i < cfg.maxStreams <;> simp [App.slotAt, List.getD, hi]

theorem settles_tsCtxGetOrAlloc (onNull : Status) : Always (Settles cfg) (tsCtxGetOrAlloc cfg onNull) := by
  intro a
  apply keeps_get_bind
  dsimp only
  split
  · exact (settles_chains cfg).refl a
  · cases hctx : a.tsCtx with
    | some ctx => exact (settles_chains cfg).refl a
    | none =>
      apply keeps_bind (settles_chains cfg) (settles_onEnv _ a)
      intro _ b hb
      apply settles_newCtx
      rcases hm : (orFail onNull call : Zdb Unit).run a.env with ⟨_, e⟩ | ⟨_, e⟩
      · rw [run_onEnv hm] at hb
        cases hb
        exact hctx
      · rw [onEnv, run_zoom_error hm] at hb
        cases hb

theorem settles_ensureStreamDir : Always (Settles cfg) (ensureStreamDir cfg) := by
  have hready : Always (Settles cfg) (modify fun a =>
      { a with tsCtx := a.tsCtx.map fun ctx => { ctx with tsDirReady := true } } : AppM Errno Unit) := by
    refine always_modify fun a => .of_streams ?_ ?_
    · unfold App.held App.claims
      cases a.tsCtx <;> rfl
    · show (a.tsCtx.map _).map _ = _
      cases a.tsCtx <;> rfl
  apply always_bind (settles_chains cfg) settles_getApp
  intro a
  refine always_ite ?_ (always_pure (settles_chains cfg) _)
  apply always_guard (settles_chains cfg)
  apply always_bind (settles_chains cfg) (settles_onEnv _)
  intro r
  split
  · exact hready
  · apply always_bind (settles_chains cfg) (always_throw (settles_chains cfg) _)
    intro _
    exact hready
  · exact hready

theorem settles_tsFlushAsync (h : Nat) : Always (Settles cfg) (tsFlushAsync cfg h) := by
  apply always_bind (settles_chains cfg) settles_getApp
  intro a
  apply always_guard (settles_chains cfg)
  apply always_bind (settles_chains cfg) (settles_tsCtxGetOrAlloc _)
  intro _
  apply always_bind (settles_chains cfg) settles_getApp
  intro b
  apply always_guard (settles_chains cfg)
  apply always_bind (settles_chains cfg) (settles_setPending true)
  intro _
  apply always_bind (settles_chains cfg) (settles_onEnv _)
  intro r
  split
  · exact always_pure (settles_chains cfg) _
  · apply always_bind (settles_chains cfg) (settles_setPending false)
    intro _
    exact always_throw (settles_chains cfg) _

theorem settles_appendFlush (h i recSize : Nat) : Always (Settles cfg) (appendFlush cfg h i recSize) := by
  apply always_bind (settles_chains cfg) settles_getApp
  intro a
  refine always_ite ?_ (always_pure (settles_chains cfg) _)
  apply always_bind (settles_chains cfg) (always_attempt (settles_tsFlushAsync h))
  intro r
  split
  · exact always_pure (settles_chains cfg) _
  · exact always_pure (settles_chains cfg) _
  · exact always_throw (settles_chains cfg) _

theorem settles_tsAppendI64 (h : Nat) (sample : Sample) : Always (Settles cfg) (tsAppendI64 cfg h sample) := by
  apply always_bind (settles_chains cfg) settles_getApp
  intro a
  split
  · exact always_throw (settles_chains cfg) _
  apply always_bind (settles_chains cfg) (settles_tsCtxGetOrAlloc _)
  intro _
  apply always_bind (settles_chains cfg) settles_getApp
  intro b
  split
  · exact always_throw (settles_chains cfg) _
  · apply always_bind (settles_chains cfg) (settles_onSlot _ (gentle_appendRecord sample))
    intro recSize
    exact settles_appendFlush _ _ _

theorem settles_tsAppendBatchI64 (h : Nat) (samples : List Sample) :
    Always (Settles cfg) (tsAppendBatchI64 cfg h samples) := by
  apply always_bind (settles_chains cfg) settles_getApp
  intro a
  split
  · exact always_throw (settles_chains cfg) _
  apply always_guard (settles_chains cfg)
  apply always_bind (settles_chains cfg) (settles_tsCtxGetOrAlloc _)
  intro _
  apply always_bind (settles_chains cfg) settles_getApp
  intro b
  split
  · exact always_throw (settles_chains cfg) _
  · apply always_bind (settles_chains cfg) (settles_onSlot _ (gentle_appendRecords samples))
    intro _
    apply always_bind (settles_chains cfg) settles_getApp
    intro c
    exact always_ite (always_bind (settles_chains cfg) (always_attempt (settles_tsFlushAsync h)) fun _ => always_pure (settles_chains cfg) _) (always_pure (settles_chains cfg) _)

theorem settles_flushSlots (is : List Nat) : Always (Settles cfg) (flushSlots cfg is) := by
  induction is with
  | nil => exact always_pure (settles_chains cfg) ()
  | cons i is ih =>
    refine always_bind (settles_chains cfg) (always_bind (settles_chains cfg) settles_getApp fun a => ?_) fun _ => ih
    exact always_ite (always_bind (settles_chains cfg) (always_attempt (settles_onSlot _ gentle_flushBufferLocked)) fun _ => always_pure (settles_chains cfg) _)
      (always_pure (settles_chains cfg) _)

theorem settles_flushWorkHandler : Always (Settles cfg) (flushWorkHandler cfg) := by
  apply always_bind (settles_chains cfg) settles_getApp
  intro a
  refine always_ite ?_ (always_pure (settles_chains cfg) _)
  apply always_bind (settles_chains cfg) (always_bind (settles_chains cfg) settles_getApp fun b => settles_flushSlots _)
  intro _
  exact settles_setPending false

theorem settles_tsFlushSync (h : Nat) : Always (Settles cfg) (tsFlushSync cfg h) := by
  apply always_bind (settles_chains cfg) settles_getApp
  intro a
  apply always_guard (settles_chains cfg)
  apply always_bind (settles_chains cfg) (settles_tsCtxGetOrAlloc _)
  intro _
  apply always_bind (settles_chains cfg) (always_attempt (settles_tsFlushAsync h))
  intro r
  split
  · exact settles_flushWorkHandler
  · exact settles_flushWorkHandler
  · exact always_throw (settles_chains cfg) _

theorem settles_recoverPath (name : Bytes) : Always (Settles cfg) (recoverPath cfg name) := by
  refine always_ite ?_ ?_
  · apply always_bind (settles_chains cfg) (settles_tsCtxGetOrAlloc _)
    intro _
    apply always_bind (settles_chains cfg) settles_getApp
    intro a
    split
    · exact always_throw (settles_chains cfg) _
    · exact always_adaptExcept _ (settles_onSlot _ gentle_activePath)
  · apply always_bind (settles_chains cfg) settles_getApp
    intro a
    exact always_guard (settles_chains cfg) (always_rethrow (settles_chains cfg) _)

theorem settles_recoverStream (name : Bytes) : Always (Settles cfg) (recoverStream cfg name) := by
  apply always_bind (settles_chains cfg) (settles_onEnv _)
  intro _
  apply always_bind (settles_chains cfg) (always_attempt (always_bind (settles_chains cfg) (settles_recoverPath name) fun path => settles_onEnv _))
  intro r
  split
  · exact always_pure (settles_chains cfg) _
  · apply always_bind (settles_chains cfg) (settles_onEnv _)
    intro _
    apply always_bind (settles_chains cfg) (settles_onEnv _)
    intro _
    exact always_throw (settles_chains cfg) _

theorem settles_openRecover (name : Bytes) : Always (Settles cfg) (openRecover cfg name) := by
  apply always_bind (settles_chains cfg) (always_attempt (settles_recoverStream name))
  intro r
  split
  · apply always_bind (settles_chains cfg) (settles_onEnv _)
    intro _
    exact always_throw (settles_chains cfg) _
  · exact always_ite (always_bind (settles_chains cfg) (settles_onEnv _) fun _ => always_throw (settles_chains cfg) _) (always_pure (settles_chains cfg) _)

theorem settles_closeFlush (name : Bytes) : Always (Settles cfg) (closeFlush cfg name) := by
  apply always_bind (settles_chains cfg) settles_getApp
  intro a
  split
  · exact always_pure (settles_chains cfg) _
  · exact always_ite (always_adaptExcept _ (settles_onSlot _ gentle_flushBufferLocked)) (always_pure (settles_chains cfg) _)

structure CurSt.Browses (cfg : Cfg) (s t : CurSt) : Prop where
  app : Settles cfg s.app t.app
  staged : s.cur.layout.recSize ≤ recSizeV1 → t.cur.layout.recSize ≤ recSizeV1

theorem browses_chains (cfg : Cfg) : Chains (CurSt.Browses cfg) :=
  ⟨fun s => ⟨(settles_chains cfg).refl s.app, id⟩,
    fun h k => ⟨(settles_chains cfg).trans h.app k.app, fun hs => k.staged (h.staged hs)⟩⟩

theorem browses_updCur {ε : Type} {f : CursorCtx → CursorCtx}
    (h : ∀ c, c.layout.recSize ≤ recSizeV1 → (f c).layout.recSize ≤ recSizeV1) :
    Always (CurSt.Browses cfg) (updCur (ε := ε) f) :=
  fun s => ⟨(settles_chains cfg).refl s.app, h s.cur⟩

theorem browses_getCur {ε : Type} : Always (CurSt.Browses cfg) (get : CurM ε CurSt) := always_get (browses_chains cfg)

theorem browses_onApp {ε α : Type} {m : AppM ε α} (hm : Always (Settles cfg) m) : Always (CurSt.Browses cfg) (onApp m) :=
  always_zoom hm fun _ _ h => ⟨h, id⟩

theorem browses_onCurEnv {ε α : Type} (m : EStateM ε Sys α) : Always (CurSt.Browses cfg) (onCurEnv m) :=
  browses_onApp (settles_onEnv m)

theorem browses_seekTo (off : Nat) : Always (CurSt.Browses cfg) (seekTo off) := by
  apply always_bind (browses_chains cfg) browses_getCur
  intro s
  apply always_bind (browses_chains cfg) browses_getCur
  intro t
  apply always_guard (browses_chains cfg)
  apply always_bind (browses_chains cfg) (browses_onCurEnv _)
  intro _
  apply browses_updCur
  intro _
  exact id

theorem browses_cursorOpenFile (path : Path) : Always (CurSt.Browses cfg) (cursorOpenFile path) := by
  refine always_bind (browses_chains cfg) (browses_updCur fun _ => id) fun _ => always_bind (browses_chains cfg) (browses_onCurEnv _) fun _ => ?_
  apply always_bind (browses_chains cfg) browses_getCur
  intro s
  apply browses_updCur
  intro _
  exact id

theorem yields_cursorLearnLayout (path : Path) (e : Sys) :
    Yields (cursorLearnLayout path) e (fun layout _ => layout.recSize = recSizeV1 ∨ layout.recSize = recSizeV2)
      fun _ _ => True := by
  unfold cursorLearnLayout
  apply yields_bind (yields_any _ e)
  intro _ e₁ _
  apply yields_bind (yields_any _ e₁)
  intro r e₂ _
  have hv1 : Yields (pure FileLayout.v1 : Zdb FileLayout) e₂
      (fun layout _ => layout.recSize = recSizeV1 ∨ layout.recSize = recSizeV2) fun _ _ => True :=
    yields_pure (.inl rfl)
  cases r with
  | error r => exact hv1
  | ok raw =>
    dsimp only
    split
    · exact hv1
    · split
      · exact hv1
      · split
        · exact yields_throw trivial
        · exact yields_pure (.inr rfl)

theorem browses_cursorLearn (path : Path) : Always (CurSt.Browses cfg) (cursorLearn path) := by
  apply always_bind (browses_chains cfg) (browses_updCur fun _ _ => Nat.le_refl _)
  intro _ s
  apply keeps_bind (browses_chains cfg) (browses_onCurEnv _ s)
  intro layout t ht
  refine browses_updCur (fun _ _ => ?_) t
  obtain ⟨a, ha, -⟩ := of_run_zoom ht
  obtain ⟨e, he, -⟩ := of_run_zoom ha
  rcases (yields_cursorLearnLayout path s.app.env).run_ok he with hv1 | hv2
  · exact Nat.le_of_eq hv1
  · rw [hv2]
    decide

theorem browses_cursorLearnSize : Always (CurSt.Browses cfg) cursorLearnSize :=
  always_bind (browses_chains cfg) (browses_onCurEnv _) fun _ => browses_updCur fun _ => id

theorem browses_cursorOpenSegment (seq : Nat) : Always (CurSt.Browses cfg) (cursorOpenSegment cfg seq) := by
  have hseek : Always (CurSt.Browses cfg) (do
      toStatus (seekTo (← get).cur.fileOffset) : CurM Status Unit) :=
    always_bind (browses_chains cfg) browses_getCur fun s => always_adaptExcept _ (browses_seekTo _)
  refine always_bind (browses_chains cfg) (browses_updCur fun _ => id) fun _ => always_bind (browses_chains cfg) browses_getCur fun s => ?_
  apply always_bind (browses_chains cfg) (always_rethrow (browses_chains cfg) _)
  intro path
  apply always_bind (browses_chains cfg) (browses_cursorOpenFile _)
  intro _
  refine always_bind (browses_chains cfg) (browses_updCur fun _ => id) fun _ => always_bind (browses_chains cfg) (browses_cursorLearn _) fun _ => ?_
  apply always_bind (browses_chains cfg) browses_getCur
  intro t
  refine always_ite ?_ (always_bind (browses_chains cfg) (browses_updCur fun _ => id) fun _ => hseek)
  exact always_bind (browses_chains cfg) browses_cursorLearnSize fun _ => always_bind (browses_chains cfg) (browses_updCur fun _ => id) fun _ => hseek

theorem browses_cursorNextSegment (n : Nat) : Always (CurSt.Browses cfg) (cursorNextSegment cfg n) := by
  induction n with
  | zero => exact always_throw (browses_chains cfg) _
  | succ n ih =>
    apply always_bind (browses_chains cfg) browses_getCur
    intro s
    apply always_guard (browses_chains cfg)
    apply always_bind (browses_chains cfg) (always_attempt (browses_cursorOpenSegment _))
    intro r
    split
    · exact always_pure (browses_chains cfg) _
    · exact always_bind (browses_chains cfg) (browses_updCur fun _ => id) fun _ => ih

theorem browses_cursorRead : Always (CurSt.Browses cfg) cursorRead := by
  apply always_bind (browses_chains cfg) browses_getCur
  intro s
  dsimp only
  split
  · exact always_throw (browses_chains cfg) _
  · exact always_bind (browses_chains cfg) (browses_onCurEnv _) fun raw => always_bind (browses_chains cfg) (browses_updCur fun _ => id) fun _ => always_pure (browses_chains cfg) _

theorem browses_cursorReadHere : Always (CurSt.Browses cfg) cursorReadHere := by
  apply always_bind (browses_chains cfg) browses_getCur
  intro s
  refine always_ite (always_ite (always_pure (browses_chains cfg) _) ?_) browses_cursorRead
  refine always_bind (browses_chains cfg) (browses_updCur fun _ => id) fun _ => ?_
  apply always_bind (browses_chains cfg) (always_adaptExcept _ (browses_seekTo _))
  intro _
  exact browses_cursorRead

theorem browses_cursorReadFileRecord (n : Nat) : Always (CurSt.Browses cfg) (cursorReadFileRecord cfg n) := by
  induction n with
  | zero => exact always_throw (browses_chains cfg) _
  | succ n ih =>
    apply always_bind (browses_chains cfg) browses_getCur
    intro s
    apply always_guard (browses_chains cfg)
    apply always_bind (browses_chains cfg) browses_cursorReadHere
    intro raw
    refine always_ite (always_guard (browses_chains cfg) ?_) (always_ite (always_throw (browses_chains cfg) _) (always_ite ?_ ?_))
    · apply always_bind (browses_chains cfg) (always_adaptExcept _ (browses_cursorNextSegment _))
      intro _
      exact ih
    · apply always_bind (browses_chains cfg) (always_adaptExcept _ (browses_seekTo _))
      intro _
      exact always_pure (browses_chains cfg) _
    · exact always_bind (browses_chains cfg) (browses_updCur fun _ => id) fun _ => always_pure (browses_chains cfg) _

theorem browses_cursorNextFile (n : Nat) : Always (CurSt.Browses cfg) (cursorNextFile cfg n) := by
  induction n with
  | zero => exact always_pure (browses_chains cfg) _
  | succ n ih =>
    apply always_bind (browses_chains cfg) browses_getCur
    intro s
    apply always_ite (always_pure (browses_chains cfg) _)
    apply always_bind (browses_chains cfg) (always_attempt (browses_cursorReadFileRecord _))
    intro r
    split
    · exact always_bind (browses_chains cfg) (browses_updCur fun _ => id) fun _ => always_pure (browses_chains cfg) _
    · exact always_throw (browses_chains cfg) _
    · apply always_bind (browses_chains cfg) browses_getCur
      intro t
      apply always_bind (browses_chains cfg) (browses_onCurEnv _)
      intro r
      split
      · exact ih
      · exact always_throw (browses_chains cfg) _
      · exact always_ite (always_bind (browses_chains cfg) (browses_updCur fun _ => id) fun _ => always_pure (browses_chains cfg) _) ih

theorem browses_cursorNextBuf (slot : StreamCtx) (buf : Bytes) (n : Nat) :
    Always (CurSt.Browses cfg) (cursorNextBuf cfg slot buf n) := by
  induction n with
  | zero => exact always_throw (browses_chains cfg) _
  | succ n ih =>
    apply always_bind (browses_chains cfg) browses_getCur
    intro s
    apply always_guard (browses_chains cfg)
    apply always_bind (browses_chains cfg) (browses_onCurEnv _)
    intro r
    split
    · exact always_bind (browses_chains cfg) (browses_updCur fun _ => id) fun _ => ih
    · exact always_throw (browses_chains cfg) _
    · exact always_bind (browses_chains cfg) (browses_updCur fun _ => id) fun _ =>
        always_ite (always_bind (browses_chains cfg) (browses_updCur fun _ => id) fun _ => always_pure (browses_chains cfg) _) ih

theorem browses_cursorNextRam : Always (CurSt.Browses cfg) (cursorNextRam cfg) := by
  apply always_bind (browses_chains cfg) (browses_onApp (settles_tsCtxGetOrAlloc _))
  intro _
  apply always_bind (browses_chains cfg) browses_getCur
  intro s
  split
  · exact always_throw (browses_chains cfg) _
  · dsimp only
    split
    · exact always_throw (browses_chains cfg) _
    · exact browses_cursorNextBuf _ _ _

theorem browses_cursorNext : Always (CurSt.Browses cfg) (cursorNext cfg) := by
  refine always_bind (browses_chains cfg) browses_getCur fun s => always_ite ?_ ?_
  · apply always_bind (browses_chains cfg) (always_attempt browses_cursorNextRam)
    intro r
    split
    · exact always_pure (browses_chains cfg) _
    · apply always_bind (browses_chains cfg) (browses_cursorNextFile _)
      intro found
      split
      · exact always_pure (browses_chains cfg) _
      · exact always_throw (browses_chains cfg) _
    · exact always_throw (browses_chains cfg) _
  · apply always_bind (browses_chains cfg) (browses_cursorNextFile _)
    intro found
    split
    · exact always_pure (browses_chains cfg) _
    · exact browses_cursorNextRam

theorem browses_cursorReset : Always (CurSt.Browses cfg) cursorReset :=
  always_bind (browses_chains cfg) (browses_updCur fun _ => id) fun _ => always_bind (browses_chains cfg) browses_getCur fun _ => always_ite
    (always_bind (browses_chains cfg) browses_getCur fun _ => always_adaptExcept _ (browses_seekTo _)) (always_pure (browses_chains cfg) _)

theorem browses_cursorOpenStream (name : Bytes) : Always (CurSt.Browses cfg) (cursorOpenStream cfg name) := by
  apply always_bind (browses_chains cfg) (always_rethrow (browses_chains cfg) _)
  intro path
  apply always_bind (browses_chains cfg) (browses_cursorOpenFile _)
  intro _
  apply always_bind (browses_chains cfg) (browses_cursorLearn _)
  intro _
  apply always_bind (browses_chains cfg) browses_cursorLearnSize
  intro _
  exact always_bind (browses_chains cfg) (browses_updCur fun _ => id) fun _ => always_bind (browses_chains cfg) browses_getCur fun s => always_adaptExcept _ (browses_seekTo _)

theorem browses_cursorWalk (n : Nat) : Always (CurSt.Browses cfg) (cursorWalk cfg n) := by
  induction n with
  | zero => exact always_pure (browses_chains cfg) _
  | succ n ih =>
    apply always_bind (browses_chains cfg) (always_attempt browses_cursorNext)
    intro r
    apply always_bind (browses_chains cfg) ih
    intro rs
    exact always_pure (browses_chains cfg) _

theorem browses_countScan (n points : Nat) : Always (CurSt.Browses cfg) (countScan cfg n points) := by
  induction n generalizing points with
  | zero => exact always_pure (browses_chains cfg) _
  | succ n ih =>
    apply always_bind (browses_chains cfg) (always_attempt browses_cursorNext)
    intro r
    split
    · exact always_pure (browses_chains cfg) _
    · exact always_throw (browses_chains cfg) _
    · exact ih _

theorem settles_withCursor {ε α : Type} {m : CurM ε α} (c : CursorCtx) (hm : Always (CurSt.Browses cfg) m) :
    Always (Settles cfg) (withCursor c m) := fun a => by
  have h := hm ⟨c, a⟩
  unfold Keeps at h ⊢
  cases hrun : m.run ⟨c, a⟩ with
  | ok x s =>
    rw [post_of_run hrun] at h
    rw [post_of_run (run_withCursor hrun)]
    exact h.app
  | error r s =>
    rw [post_of_error hrun] at h
    rw [post_of_error (run_withCursor_error hrun)]
    exact h.app

theorem settles_cursorOpenDir (h : Nat) (window : Window) (predicate : Option (Bytes → Bool)) (descending : Bool) :
    Always (Settles cfg) (cursorOpenDir cfg h window predicate descending) := by
  apply always_bind (settles_chains cfg) settles_getApp
  intro a
  split
  · exact always_throw (settles_chains cfg) _
  rename_i name _
  have hwindow : Always (Settles cfg) (cursorWindow cfg name) := by
    apply always_bind (settles_chains cfg) (settles_tsCtxGetOrAlloc _)
    intro _
    apply always_bind (settles_chains cfg) settles_getApp
    intro b
    split
    · exact always_throw (settles_chains cfg) _
    · apply always_bind (settles_chains cfg) (always_adaptExcept _ (settles_onSlot _ gentle_scanSegments))
      intro _
      apply always_bind (settles_chains cfg) settles_getApp
      intro _
      exact always_pure (settles_chains cfg) _
  apply always_guard (settles_chains cfg)
  apply always_when (settles_chains cfg) (fun _ => settles_onEnv _)
  refine always_bind (settles_chains cfg) (settles_onEnv _) fun _ => always_ite ?_ ?_
  · apply always_bind (settles_chains cfg) hwindow
    intro w
    refine always_bind (settles_chains cfg) (settles_withCursor _ ?_) fun p => always_pure (settles_chains cfg) _
    apply always_bind (browses_chains cfg) (browses_cursorOpenSegment _)
    intro _
    exact browses_cursorReset
  · refine always_bind (settles_chains cfg) (settles_withCursor _ ?_) fun p => always_pure (settles_chains cfg) _
    apply always_bind (browses_chains cfg) (browses_cursorOpenStream _)
    intro _
    exact browses_cursorReset

theorem settles_queryCursor (h : Nat) (window : Window) (predicate : Option (Bytes → Bool)) (descending : Bool)
    (n : Nat) : Always (Settles cfg) (queryCursor cfg h window predicate descending n) :=
  always_bind (settles_chains cfg) (settles_cursorOpenDir _ _ _ _) fun _ =>
    always_bind (settles_chains cfg) (settles_withCursor _ (browses_cursorWalk n)) fun _ => always_pure (settles_chains cfg) _

theorem settles_tsCountAll (name : Bytes) : Always (Settles cfg) (tsCountAll cfg name) := by
  refine always_bind (settles_chains cfg) settles_getApp fun a => always_guard (settles_chains cfg) (always_ite ?_ ?_)
  · split
    · apply always_bind (settles_chains cfg) (always_throw (settles_chains cfg) _)
      intro _
      exact always_pure (settles_chains cfg) _
    · apply always_bind (settles_chains cfg) (settles_onEnv _)
      intro _
      exact always_pure (settles_chains cfg) _
  · apply always_bind (settles_chains cfg) (settles_onEnv _)
    intro _
    exact always_pure (settles_chains cfg) _

theorem settles_tsQueryCount (h : Nat) (window : Window) : Always (Settles cfg) (tsQueryCount cfg h window) := by
  apply always_bind (settles_chains cfg) settles_getApp
  intro a
  split
  · exact always_throw (settles_chains cfg) _
  · apply always_ite (settles_tsCountAll _)
    apply always_bind (settles_chains cfg) (settles_cursorOpenDir _ _ _ _)
    intro _
    apply always_bind (settles_chains cfg) settles_getApp
    intro _
    apply always_bind (settles_chains cfg) (settles_withCursor _ (browses_countScan _ _))
    intro _
    exact always_pure (settles_chains cfg) _

end Calls

end ZephyrDB.Ts
