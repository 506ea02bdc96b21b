import ZephyrDB.Ts.Lifetime
import ZephyrDB.Ts.Tail

/-!
The buffers that records and headers pass through: the ingest block of a slot,
the cache of a cursor, and the arrays on the stack of the calls that read files.
-/

set_option autoImplicit false

namespace ZephyrDB.Ts

open Lib

/-- Bytes that are put into a buffer of `room` bytes. -/
structure Access where
  offset : Nat
  length : Nat
  room : Nat
  deriving DecidableEq

def Access.Fits (x : Access) : Prop := x.offset + x.length ≤ x.room

instance (x : Access) : Decidable x.Fits := inferInstanceAs (Decidable (x.offset + x.length ≤ x.room))

def rebasePlace (cfg : Cfg) (sample : Sample) : SlotM Status (Bytes × Nat) := do
  if !cfg.segmented then throw .ERR_INVAL
  toStatus (flushBufferLocked cfg)
  toStatus (startSegment cfg sample.tsMs)
  let slot ← getSlot
  match slotEncode cfg slot sample with
  | none => throw .ERR_INVAL
  | some raw => return (raw, slotRecSize cfg slot)

def encodePlace (cfg : Cfg) (sample : Sample) (recSize : Nat) : SlotM Status (Bytes × Nat) := do
  let slot ← getSlot
  match slotEncode cfg slot sample with
  | some raw => return (raw, recSize)
  | none => rebasePlace cfg sample

def appendPlace (cfg : Cfg) (sample : Sample) : SlotM Status (Bytes × Nat) := do
  let slot ← getSlot
  let recSize := slotRecSize cfg slot
  if slot.ingestCapacity < recSize || slot.ingestBuf.isNone then throw .ERR_NOMEM
  if slot.ingestCapacity < slot.ingestUsed + recSize then toStatus (flushBufferLocked cfg)
  encodePlace cfg sample recSize

section Place
variable {cfg : Cfg}

theorem rebaseRecord_eq (sample : Sample) : rebaseRecord cfg sample = (do
    let place ← rebasePlace cfg sample
    updSlot fun s => s.store place.1 place.2
    return place.2) := by
  unfold rebaseRecord rebasePlace
  dsimp only
  split
  · rfl
  · simp only [bind_assoc]
    apply congrArg _
    apply funext
    intro _
    apply congrArg _
    apply funext
    intro _
    apply congrArg _
    apply funext
    intro slot
    cases slotEncode cfg slot sample <;> rfl

theorem encodeRecord_eq (sample : Sample) (recSize : Nat) : encodeRecord cfg sample recSize = (do
    let place ← encodePlace cfg sample recSize
    updSlot fun s => s.store place.1 place.2
    return place.2) := by
  unfold encodeRecord encodePlace
  simp only [bind_assoc]
  apply congrArg _
  apply funext
  intro slot
  cases slotEncode cfg slot sample with
  | none => exact rebaseRecord_eq sample
  | some raw => rfl

theorem appendRecord_eq (sample : Sample) : appendRecord cfg sample = (do
    let place ← appendPlace cfg sample
    updSlot fun s => s.store place.1 place.2
    return place.2) := by
  unfold appendRecord appendPlace
  simp only [bind_assoc]
  apply congrArg _
  apply funext
  intro slot
  split
  · rfl
  · split
    · simp only [bind_assoc, encodeRecord_eq]
    · exact encodeRecord_eq sample _

theorem run_appendRecord_ok {sample : Sample} {s t : SlotSt} {raw : Bytes} {recSize : Nat}
    (h : (appendPlace cfg sample).run s = .ok (raw, recSize) t) :
    (appendRecord cfg sample).run s = .ok recSize ⟨t.slot.store raw recSize, t.env⟩ := by
  rw [appendRecord_eq]
  exact run_then h rfl

theorem run_appendRecord_error {sample : Sample} {s t : SlotSt} {r : Status}
    (h : (appendPlace cfg sample).run s = .error r t) : (appendRecord cfg sample).run s = .error r t := by
  rw [appendRecord_eq]
  exact run_fails h

end Place

def encodeAccess (slot : StreamCtx) (raw : Bytes) : Access := ⟨slot.ingestUsed, raw.length, slot.ingestCapacity⟩

/-- The encodes that appending the samples makes, in order, each with the slot it finds. -/
def encodes (cfg : Cfg) : List Sample → SlotSt → List (StreamCtx × Bytes)
  | [], _ => []
  | sample :: samples, s =>
    match (appendPlace cfg sample).run s with
    | .ok (raw, recSize) t => (t.slot, raw) :: encodes cfg samples ⟨t.slot.store raw recSize, t.env⟩
    | .error _ _ => []

def encodesBy (cfg : Cfg) (h : Nat) (samples : List Sample) (a : App) : List (StreamCtx × Bytes) :=
  match a.handles h with
  | none => []
  | some name =>
    match (tsCtxGetOrAlloc cfg .ERR_INVAL).run a with
    | .error _ _ => []
    | .ok _ b =>
      match b.slotFind name with
      | none => []
      | some i => encodes cfg samples ⟨b.slotAt i, b.env⟩

/-- The check of the block that an append makes on entry. -/
def StreamCtx.roomy (cfg : Cfg) (slot : StreamCtx) : Bool := slotRecSize cfg slot ≤ slot.ingestCapacity

def Formatted (a : App) : Prop := ∀ i, (a.slotAt i).Consistent

section Used
variable {cfg : Cfg}

def SlotSt.used (s : SlotSt) : Nat := s.slot.ingestUsed

theorem used_onSys {ε α : Type} (m : EStateM ε Sys α) : Fixes SlotSt.used (onSys m) := fun s => by
  unfold onSys
  rw [post_zoom]
  rfl

theorem used_updSlot {ε : Type} {f : StreamCtx → StreamCtx} (h : ∀ slot, (f slot).ingestUsed = slot.ingestUsed) :
    Fixes SlotSt.used (updSlot (ε := ε) f) := fun s => h s.slot

theorem used_getSlot {ε : Type} : Fixes SlotSt.used (getSlot (ε := ε)) := fun _ => rfl

theorem used_discardSegments (n : Nat) : Fixes SlotSt.used (discardSegments cfg n) := by
  induction n with
  | zero => exact fixes_pure ()
  | succ n ih =>
    apply fixes_bind used_getSlot
    intro slot
    split
    · apply fixes_bind (fixes_rethrow _)
      intro segPath
      apply fixes_bind (used_onSys _)
      intro _
      exact fixes_bind (used_updSlot fun _ => rfl) fun _ => ih
    · exact fixes_pure ()

theorem used_startSegment (baseTsMs : UInt64) : Fixes SlotSt.used (startSegment cfg baseTsMs) := by
  refine fixes_bind (used_updSlot fun _ => rfl) fun _ => fixes_bind used_getSlot fun slot => ?_
  apply fixes_bind (fixes_rethrow _)
  intro segPath
  apply fixes_bind (used_onSys _)
  intro vb
  refine fixes_bind (used_updSlot fun _ => rfl) fun _ => ?_
  split
  · exact used_discardSegments _
  · exact fixes_pure ()

theorem used_rollSegmentIfFull : Fixes SlotSt.used (rollSegmentIfFull cfg) := by
  apply fixes_bind used_getSlot
  intro slot
  split
  · exact used_startSegment _
  · exact fixes_pure ()

theorem writeBuffer_empties (buf : Bytes) (used : Nat) (s : SlotSt) :
    Yields (writeBuffer cfg buf used) s (fun _ t => t.slot.ingestUsed = 0) fun _ _ => True := by
  unfold writeBuffer
  apply yields_bind (yields_any _ s)
  intro path t _
  apply yields_bind (yields_any _ t)
  intro _ u _
  apply yields_bind (yields_any _ u)
  intro wr v _
  dsimp only
  apply yields_guard (fun _ => trivial)
  intro _
  apply yields_bind (yields_any _ v)
  intro _ w _
  exact yields_of_run rfl rfl

theorem flushBufferLocked_empties (s : SlotSt) :
    Yields (flushBufferLocked cfg) s (fun _ t => t.slot.ingestUsed = 0) fun _ _ => True := by
  unfold flushBufferLocked
  refine yields_bind (P := fun slot t => slot = s.slot ∧ t = s) (yields_of_run rfl ⟨rfl, rfl⟩) ?_
  rintro slot t ⟨rfl, rfl⟩
  split
  · apply yields_guard (fun _ => trivial)
    intro _
    exact trivial
  · rename_i buf _
    apply yields_guard (fun _ => trivial)
    intro _
    split
    · apply yields_bind (writeBuffer_empties _ _ _)
      intro _ u hu
      have hroll : Fixes SlotSt.used (if cfg.segmented then rollSegmentIfFull cfg else pure ()) :=
        fixes_ite used_rollSegmentIfFull (fixes_pure ())
      exact (hroll.yields u).imp (fun _ v hv => hv.trans hu) fun _ _ _ => trivial
    · rename_i hused
      exact yields_pure (not_not.mp hused)

end Used

section Encodes
variable {cfg : Cfg} {sample : Sample}

structure Staged (cfg : Cfg) (slot : StreamCtx) (raw : Bytes) : Prop where
  format : slot.Consistent
  length : raw.length = slotRecSize cfg slot
  place : slot.ingestUsed + raw.length ≤ slot.ingestCapacity ∨ slot.ingestUsed = 0

theorem Staged.fits_iff {slot : StreamCtx} {raw : Bytes} (h : Staged cfg slot raw) :
    (encodeAccess slot raw).Fits ↔ slot.roomy cfg = true := by
  have hlength := h.length
  simp only [Access.Fits, encodeAccess, StreamCtx.roomy, decide_eq_true_eq]
  rcases h.place with hroom | hempty <;> omega

theorem slotEncode_length {slot : StreamCtx} {raw : Bytes} (hs : slot.Consistent)
    (h : slotEncode cfg slot sample = some raw) : raw.length = slotRecSize cfg slot := by
  rw [consistent_size hs]
  exact recordEncodeAs_length h

theorem flushed_clear {s : SlotSt} (hs : s.slot.Consistent) :
    Yields (toStatus (flushBufferLocked cfg)) s (fun _ t => t.slot.ingestUsed = 0 ∧ t.slot.Consistent)
      fun _ _ => True := by
  apply yields_adaptExcept _
  exact ((flushBufferLocked_empties s).and (gentle_flushBufferLocked.yields s)).imp
    (fun _ _ ht => ⟨ht.1, ht.2.format hs⟩) fun _ _ _ => trivial

theorem started_clear {s : SlotSt} (hu : s.slot.ingestUsed = 0) (hs : s.slot.Consistent) (baseTsMs : UInt64) :
    Yields (toStatus (startSegment cfg baseTsMs)) s (fun _ t => t.slot.ingestUsed = 0 ∧ t.slot.Consistent)
      fun _ _ => True := by
  apply yields_adaptExcept _
  exact (((used_startSegment baseTsMs).yields s).and ((gentle_startSegment baseTsMs).yields s)).imp
    (fun _ _ ht => ⟨ht.1.trans hu, ht.2.format hs⟩) fun _ _ _ => trivial

theorem getSlot_yields (s : SlotSt) {ε : Type} {E : ε → SlotSt → Prop} :
    Yields (getSlot (ε := ε)) s (fun slot t => slot = s.slot ∧ t = s) E := yields_of_run rfl ⟨rfl, rfl⟩

theorem rebasePlace_staged {s : SlotSt} (hs : s.slot.Consistent) :
    Yields (rebasePlace cfg sample) s (fun place t => Staged cfg t.slot place.1) fun _ _ => True := by
  unfold rebasePlace
  apply yields_guard (fun _ => trivial)
  intro _
  apply yields_bind (flushed_clear hs)
  intro _ t ht
  apply yields_bind (started_clear ht.1 ht.2 _)
  intro _ u hu
  apply yields_bind (getSlot_yields u)
  rintro slot v ⟨rfl, rfl⟩
  cases henc : slotEncode cfg v.slot sample with
  | none => trivial
  | some raw => exact yields_pure ⟨hu.2, slotEncode_length hu.2 henc, .inr hu.1⟩

theorem encodePlace_staged {s : SlotSt} (hs : s.slot.Consistent) (recSize : Nat)
    (hroom : s.slot.ingestUsed + slotRecSize cfg s.slot ≤ s.slot.ingestCapacity ∨ s.slot.ingestUsed = 0) :
    Yields (encodePlace cfg sample recSize) s (fun place t => Staged cfg t.slot place.1) fun _ _ => True := by
  apply yields_bind (getSlot_yields s)
  rintro slot t ⟨rfl, rfl⟩
  cases henc : slotEncode cfg t.slot sample with
  | none => exact rebasePlace_staged hs
  | some raw =>
    have hlength := slotEncode_length hs henc
    exact yields_pure ⟨hs, hlength, hlength ▸ hroom⟩

theorem appendPlace_staged {s : SlotSt} (hs : s.slot.Consistent) :
    Yields (appendPlace cfg sample) s (fun place t => Staged cfg t.slot place.1) fun _ _ => True := by
  apply yields_bind (getSlot_yields s)
  rintro slot t ⟨rfl, rfl⟩
  apply yields_guard (fun _ => trivial)
  intro _
  dsimp only
  split
  · apply yields_bind (flushed_clear hs)
    intro _ u hu
    exact encodePlace_staged hu.2 _ (.inr hu.1)
  · rename_i hroom
    exact encodePlace_staged hs _ (.inl (Nat.not_lt.mp hroom))

theorem encodes_staged {samples : List Sample} {s : SlotSt} (hs : s.slot.Consistent) :
    ∀ p ∈ encodes cfg samples s, Staged cfg p.1 p.2 := by
  induction samples generalizing s with
  | nil => exact nofun
  | cons sample samples ih =>
    unfold encodes
    have hplace := @appendPlace_staged cfg sample s hs
    cases hrun : (appendPlace cfg sample).run s with
    | error r t => exact nofun
    | ok place t =>
      have ht := hplace.run_ok hrun
      intro p hp
      rcases List.mem_cons.mp hp with rfl | hrest
      · exact ht
      · exact ih (s := ⟨t.slot.store place.1 place.2, t.env⟩) ((gentle_store t.slot _ _).format ht.format) p hrest

theorem encodes_appendRecords (samples : List Sample) (s : SlotSt) :
    Yields (appendRecords cfg samples) s (fun _ _ => (encodes cfg samples s).length = samples.length)
      fun _ _ => (encodes cfg samples s).length < samples.length := by
  induction samples generalizing s with
  | nil => exact yields_pure rfl
  | cons sample samples ih =>
    unfold encodes
    cases hplace : (appendPlace cfg sample).run s with
    | error r t => exact yields_fails (run_appendRecord_error hplace) (Nat.succ_pos _)
    | ok place t =>
      refine yields_then (run_appendRecord_ok hplace) ((ih ⟨t.slot.store place.1 place.2, t.env⟩).imp ?_ ?_)
      · exact fun _ _ h => congrArg (· + 1) h
      · exact fun _ _ h => Nat.succ_lt_succ h

theorem encodesBy_staged {h : Nat} {samples : List Sample} {a : App} (ha : Formatted a) :
    ∀ p ∈ encodesBy cfg h samples a, Staged cfg p.1 p.2 := by
  unfold encodesBy
  cases a.handles h with
  | none => exact nofun
  | some name =>
    have hctx := (@settles_tsCtxGetOrAlloc cfg .ERR_INVAL).yields a
    cases hrun : (tsCtxGetOrAlloc cfg .ERR_INVAL).run a with
    | error r b => exact nofun
    | ok x b =>
      dsimp only
      cases b.slotFind name with
      | none => exact nofun
      | some i =>
        have hb := (hctx.run_ok hrun).slots i
        exact encodes_staged (s := ⟨b.slotAt i, b.env⟩) (hb.format (ha i))

end Encodes

section Formats
variable {a b : App}

theorem consistent_zero : StreamCtx.zero.Consistent := .inl ⟨rfl, rfl⟩

theorem formatted_settles {cfg : Cfg} (h : Settles cfg a b) (ha : Formatted a) : Formatted b :=
  fun i => (h.slots i).format (ha i)

theorem formatted_of_slotAt (h : ∀ i, b.slotAt i = a.slotAt i) (ha : Formatted a) : Formatted b :=
  fun i => (h i).symm ▸ ha i

theorem formatted_noCtx (h : a.tsCtx = none) : Formatted a := fun i => by
  rw [slotAt_zero h]
  exact consistent_zero

theorem formatted_setSlot (ha : Formatted a) (i : Nat) {slot : StreamCtx} (hs : slot.Consistent) :
    Formatted (a.setSlot i slot) := by
  by_cases hi : HasSlot a i
  · intro j
    rw [slotAt_setSlot hi]
    split
    · exact hs
    · exact ha j
  · rwa [setSlot_beyond hi]

theorem formatted_always (cfg : Cfg) {ε α : Type} {m : AppM ε α} (h : Always (Settles cfg) m) : Always (Preserves Formatted) m :=
  fun a => formatted_settles (h a)

theorem formatted_slotClaim (cfg : Cfg) (name : Bytes) : Always (Preserves Formatted) (slotClaim cfg name) := by
  have hR := preserves_chains Formatted
  refine fun a => keeps_get_bind ?_
  cases hfind : a.slotFind name with
  | some i =>
    intro ha
    have hs := ha i
    exact formatted_setSlot ha i (show StreamCtx.Consistent { a.slotAt i with openCount := countUp (a.slotAt i).openCount } from hs)
  | none =>
    dsimp only
    cases a.tsCtx.bind fun ctx => ctx.streams.findIdx? fun slot => !slot.inUse with
    | none => exact keeps_throw hR _ a
    | some i =>
      have hwiped : StreamCtx.Consistent { StreamCtx.zero with name := name, ingestCapacity := cfg.ingestCapacity } :=
        consistent_zero
      have hfresh : (StreamCtx.fresh cfg name).Consistent := consistent_zero
      refine keeps_bind hR (fun ha => formatted_setSlot ha i hwiped) fun _ b _ => ?_
      apply keeps_bind hR (formatted_always cfg (settles_onEnv _) b)
      intro _ c _
      exact fun hc => formatted_setSlot hc i hfresh

theorem formatted_openClaim (cfg : Cfg) (h : Nat) (name : Bytes) : Always (Preserves Formatted) (openClaim cfg h name) := by
  have hR := preserves_chains Formatted
  unfold openClaim
  apply always_guard hR
  apply always_bind hR (always_get hR)
  intro a
  apply always_guard hR
  apply always_bind hR (formatted_always cfg (settles_tsCtxGetOrAlloc _))
  intro _
  apply always_bind hR (formatted_always cfg (always_adaptExcept _ settles_ensureStreamDir))
  intro _
  apply always_when hR (fun _ => formatted_always cfg (settles_onEnv _))
  apply always_bind hR (formatted_slotClaim cfg name)
  intro _
  apply always_modify
  intro _
  apply formatted_of_slotAt
  intro _
  exact rfl

theorem formatted_slotRelease (i : Nat) : Always (Preserves Formatted) (slotRelease i) := by
  apply always_modify
  intro a ha
  have hs := ha i
  dsimp only
  split
  · exact formatted_setSlot ha i (show StreamCtx.Consistent { a.slotAt i with openCount := (a.slotAt i).openCount - 1 } from hs)
  · exact formatted_setSlot ha i consistent_zero

theorem formatted_tsClose (cfg : Cfg) (h : Nat) : Always (Preserves Formatted) (tsClose cfg h) := by
  have hR := preserves_chains Formatted
  apply always_bind hR (always_get hR)
  intro a
  split
  · exact always_pure hR _
  apply always_bind hR (always_attempt (formatted_always cfg (settles_closeFlush _)))
  intro status
  have hunbind : Always (Preserves Formatted) (do
      modify fun a => a.bind h none
      rethrow status : AppM Status Unit) :=
    always_bind hR (always_modify fun _ => formatted_of_slotAt fun _ => rfl) fun _ => always_rethrow hR status
  apply always_bind hR (always_get hR)
  intro b
  split
  · exact hunbind
  · apply always_bind hR (formatted_slotRelease _)
    intro _
    exact hunbind

theorem formatted_step (cfg : Cfg) (ha : Formatted a) (op : Op) : Formatted (step cfg a op).2 := by
  by_cases hm : op.modest = true
  · exact formatted_settles (settles_step op hm a) ha
  · cases op with
    | init => exact formatted_noCtx rfl
    | deinit => exact formatted_noCtx rfl
    | «open» k name =>
      refine (show Always (Preserves Formatted) (tsOpen cfg k name) from ?_) a ha
      rw [tsOpen_eq]
      apply always_bind (preserves_chains _) (formatted_openClaim cfg k name)
      intro _
      apply formatted_always cfg
      exact always_ite (settles_openRecover name) (always_pure (settles_chains cfg) _)
    | close k => exact formatted_tsClose cfg k a ha
    | _ => exact absurd rfl hm

theorem formatted_run (cfg : Cfg) (ha : Formatted a) (ops : List Op) : Formatted (run cfg a ops) := by
  induction ops generalizing a with
  | nil => exact ha
  | cons op ops ih => exact ih (formatted_step cfg ha op)

end Formats

/-- A read of one record of the open file into `cache`, which is as long as a version 1 record. -/
def cacheAccess (c : CursorCtx) : Access := ⟨0, c.layout.recSize, recSizeV1⟩

/-- The reads of `cursorReadFileRecord`. -/
def recordReads (cfg : Cfg) : Nat → CurSt → List Access
  | 0, _ => []
  | n + 1, s =>
    if s.cur.file.isNone then []
    else
      cacheAccess s.cur ::
        match cursorReadHere.run s with
        | .error _ _ => []
        | .ok raw t =>
          if raw.length = 0 ∧ cfg.segmented then
            match (cursorNextSegment cfg s.cur.segCount).run t with
            | .error _ _ => []
            | .ok _ u => recordReads cfg n u
          else []

/-- The decode of a record that `cursorNextFile` has read. -/
def decodeRead (raw : Bytes) : CurM Status (Except Status Sample) := do
  let layout := (← get).cur.layout
  onCurEnv (attempt (ε := Status) (recordDecodeAs layout.version layout.baseTsMs raw))

/-- The reads of `cursorNextFile`. -/
def fileReads (cfg : Cfg) : Nat → CurSt → List Access
  | 0, _ => []
  | n + 1, s =>
    if s.cur.fileDone then []
    else
      recordReads cfg (s.cur.segCount + 1) s ++
        match (cursorReadFileRecord cfg (s.cur.segCount + 1)).run s with
        | .error _ _ => []
        | .ok raw t =>
          match (decodeRead raw).run t with
          | .ok (.error .ERR_UNSUPPORTED) u => fileReads cfg n u
          | .ok (.ok sample) u => if s.cur.admits raw sample then [] else fileReads cfg n u
          | _ => []

/-- The reads of `cursorNext`. -/
def nextReads (cfg : Cfg) (s : CurSt) : List Access :=
  if s.cur.descending then
    match (cursorNextRam cfg).run s with
    | .error .ERR_NOT_FOUND t => fileReads cfg (cursorFuel cfg s + 1) t
    | _ => []
  else fileReads cfg (cursorFuel cfg s + 1) s

/-- The reads of `cursorWalk`. -/
def walkReads (cfg : Cfg) : Nat → CurSt → List Access
  | 0, _ => []
  | n + 1, s => nextReads cfg s ++ walkReads cfg n (post (cursorNext cfg) s)

/-- The reads of `countScan`. -/
def scanReads (cfg : Cfg) : Nat → CurSt → List Access
  | 0, _ => []
  | n + 1, s =>
    nextReads cfg s ++
      match (cursorNext cfg).run s with
      | .error _ _ => []
      | .ok _ t => scanReads cfg n t

section Cursors
variable {cfg : Cfg}

def CurSt.staged (s : CurSt) : Prop := s.cur.layout.recSize ≤ recSizeV1

theorem cacheAccess_fits {c : CursorCtx} (h : c.layout.recSize ≤ recSizeV1) : (cacheAccess c).Fits := by
  simpa [Access.Fits, cacheAccess] using h

theorem staged_of_run {ε α : Type} {m : CurM ε α} (hm : Always (CurSt.Browses cfg) m) {s t : CurSt} {x : α}
    (h : m.run s = .ok x t) (hs : s.staged) : t.staged :=
  ((hm.yields s).run_ok h).staged hs

theorem recordReads_fit (n : Nat) {s : CurSt} (hs : s.staged) : ∀ x ∈ recordReads cfg n s, x.Fits := by
  induction n generalizing s with
  | zero => exact nofun
  | succ n ih =>
    unfold recordReads
    split
    · exact nofun
    refine List.forall_mem_cons.mpr ⟨cacheAccess_fits hs, ?_⟩
    cases hhere : cursorReadHere.run s with
    | error r t => exact nofun
    | ok raw t =>
      have ht := staged_of_run (@browses_cursorReadHere cfg) hhere hs
      dsimp only
      split
      · cases hnext : (cursorNextSegment cfg s.cur.segCount).run t with
        | error r u => exact nofun
        | ok x u => exact ih (staged_of_run (browses_cursorNextSegment _) hnext ht)
      · exact nofun

theorem fileReads_fit (n : Nat) {s : CurSt} (hs : s.staged) : ∀ x ∈ fileReads cfg n s, x.Fits := by
  induction n generalizing s with
  | zero => exact nofun
  | succ n ih =>
    unfold fileReads
    split
    · exact nofun
    refine List.forall_mem_append.mpr ⟨recordReads_fit _ hs, ?_⟩
    cases hread : (cursorReadFileRecord cfg (s.cur.segCount + 1)).run s with
    | error r t => exact nofun
    | ok raw t =>
      have ht := staged_of_run (browses_cursorReadFileRecord _) hread hs
      have hdecode : Always (CurSt.Browses cfg) (decodeRead raw) :=
        always_bind (browses_chains cfg) browses_getCur fun _ => browses_onCurEnv _
      dsimp only
      split
      · rename_i u hrun
        exact ih (staged_of_run hdecode hrun ht)
      · rename_i sample u hrun
        split
        · exact nofun
        · exact ih (staged_of_run hdecode hrun ht)
      · exact nofun

theorem nextReads_fit {s : CurSt} (hs : s.staged) : ∀ x ∈ nextReads cfg s, x.Fits := by
  unfold nextReads
  split
  · split
    · rename_i t hram
      have ht : CurSt.Browses cfg s t := ((@browses_cursorNextRam cfg).yields s).run_error hram
      exact fileReads_fit _ (ht.staged hs)
    · exact nofun
  · exact fileReads_fit _ hs

theorem walkReads_fit (n : Nat) {s : CurSt} (hs : s.staged) : ∀ x ∈ walkReads cfg n s, x.Fits := by
  induction n generalizing s with
  | zero => exact nofun
  | succ n ih => exact List.forall_mem_append.mpr ⟨nextReads_fit hs, ih ((browses_cursorNext s).staged hs)⟩

theorem scanReads_fit (n : Nat) {s : CurSt} (hs : s.staged) : ∀ x ∈ scanReads cfg n s, x.Fits := by
  induction n generalizing s with
  | zero => exact nofun
  | succ n ih =>
    refine List.forall_mem_append.mpr ⟨nextReads_fit hs, ?_⟩
    cases hnext : (cursorNext cfg).run s with
    | error r t => exact nofun
    | ok x t => exact ih (staged_of_run browses_cursorNext hnext hs)

theorem yields_withCursor {ε α : Type} {m : CurM ε α} {c : CursorCtx} {a : App} {P : CursorCtx → Prop}
    (h : Yields m ⟨c, a⟩ (fun _ s => P s.cur) fun _ _ => True) :
    Yields (withCursor c m) a (fun x _ => P x.2) fun _ _ => True := by
  cases hrun : m.run ⟨c, a⟩ with
  | ok x s => exact yields_of_run (run_withCursor hrun) (h.run_ok hrun)
  | error r s => exact yields_of_error (run_withCursor_error hrun) trivial

theorem cursorOpenDir_staged (h : Nat) (window : Window) (predicate : Option (Bytes → Bool)) (descending : Bool)
    (a : App) : Yields (cursorOpenDir cfg h window predicate descending) a
      (fun c b => CurSt.staged ⟨c, b⟩) fun _ _ => True := by
  have hstart : ∀ {m : CurM Status Unit}, Always (CurSt.Browses cfg) m → ∀ (name : Bytes) (lo hi : Nat) (b : App),
      Yields (withCursor (CursorCtx.start name window predicate descending lo hi) m >>= fun x => (pure x.2 : AppM Status CursorCtx))
        b (fun c d => CurSt.staged ⟨c, d⟩) fun _ _ => True := by
    intro m hm name lo hi b
    have hbrowse := hm.yields ⟨CursorCtx.start name window predicate descending lo hi, b⟩
    have hcur := hbrowse.imp (fun _ t ht => ht.staged (Nat.le_refl _)) fun _ _ _ => trivial
    refine yields_bind (P := fun x _ => x.2.layout.recSize ≤ recSizeV1) ?_ fun x d hx => yields_pure hx
    exact yields_withCursor (P := fun c => c.layout.recSize ≤ recSizeV1) hcur
  unfold cursorOpenDir
  apply yields_get_bind
  cases a.handles h with
  | none => exact yields_throw trivial
  | some name =>
    dsimp only
    apply yields_guard (fun _ => trivial)
    intro _
    refine yields_when (fun _ _ => trivial) (fun b => ?_) a
    apply yields_bind (yields_any _ b)
    intro _ c _
    split
    · apply yields_bind (yields_any _ c)
      intro w d _
      refine hstart ?_ _ _ _ d
      apply always_bind (browses_chains cfg) (browses_cursorOpenSegment _)
      intro _
      exact browses_cursorReset
    · refine hstart ?_ _ _ _ c
      apply always_bind (browses_chains cfg) (browses_cursorOpenStream _)
      intro _
      exact browses_cursorReset

end Cursors

/-- Bytes that are put into `rec`, which is as long as the longest header. -/
def recAccess (n : Nat) : Access := ⟨0, n, hdrSizeV2⟩

/-- The reads of `recoverWalk`. -/
def recoverWalkReads (layout : FileLayout) (path : Path) : Nat → Nat → Sys → List Access
  | 0, _, _ => []
  | fuel + 1, goodEnd, e =>
    match (fsRead path goodEnd layout.recSize).run e with
    | .error _ _ => []
    | .ok raw e =>
      recAccess raw.length ::
        if raw.length ≠ layout.recSize then []
        else
          match (recordDecodeAs layout.version 0 raw).run e with
          | .error _ _ => []
          | .ok _ e => recoverWalkReads layout path fuel (goodEnd + layout.recSize) e

def recoverArrive (name : Bytes) (path : Path) : Zdb FileLayout := do
  let layout ← probeLayout path
  toStatus (fsOpen path true false)
  let hdr ← toStatus (fsRead path 0 hdrSizeV1)
  if hdr.length ≠ hdrSizeV1 then throw .ERR_CORRUPT
  if layout.hdrSize = hdrSizeV1 then streamHeaderDecode hdr name
  toStatus call
  return layout

/-- The walk that the recovery of a stream starts: the layout, the path and the environment by then. -/
def recoverStart (cfg : Cfg) (name : Bytes) (a : App) : Option (FileLayout × Path × Sys) :=
  match (recoverPath cfg name).run a.begun with
  | .error _ _ => none
  | .ok path b =>
    match (recoverArrive name path).run b.env with
    | .error _ _ => none
    | .ok layout e => some (layout, path, e)

/-- The reads of `recoverStream`. -/
def recoverReads (cfg : Cfg) (name : Bytes) (a : App) : List Access :=
  match recoverStart cfg name a with
  | none => []
  | some (layout, path, e) => recoverWalkReads layout path ((e.contents path).length + 1) layout.hdrSize e

def delivered (path : Path) (off len : Nat) (e : Sys) : Nat :=
  match outcome (fsRead path off len) e with
  | .error _ => 0
  | .ok raw => raw.length

/-- The walk meets compact records only, or the file has less than a version 1 record needs. -/
def Narrow (layout : FileLayout) (path : Path) (e : Sys) : Prop :=
  layout.recSize = recSizeV2 ∨ delivered path layout.hdrSize layout.recSize e ≤ hdrSizeV2

section Recovery
variable {cfg : Cfg}

theorem fsRead_length (path : Path) (off len : Nat) (e : Sys) :
    Yields (fsRead path off len) e (fun raw _ => raw.length ≤ len) fun _ _ => True := by
  have hslice : ∀ n, (slice (e.contents path) off n).length ≤ n := fun n => by
    rw [slice_length]
    omega
  unfold Yields EStateM.run fsRead
  cases e.fault with
  | none => exact hslice len
  | short n => exact (hslice _).trans (Nat.min_le_right n len)
  | fail err n => trivial

theorem compact_fits {n : Nat} (h : n ≤ recSizeV2) : (recAccess n).Fits := by
  have hle : recSizeV2 ≤ hdrSizeV2 := by decide
  simpa [Access.Fits, recAccess] using h.trans hle

theorem compactReads_fit {layout : FileLayout} (hl : layout.recSize = recSizeV2) (path : Path) (fuel goodEnd : Nat)
    (e : Sys) : ∀ x ∈ recoverWalkReads layout path fuel goodEnd e, x.Fits := by
  induction fuel generalizing goodEnd e with
  | zero => exact nofun
  | succ fuel ih =>
    unfold recoverWalkReads
    have hlen := fsRead_length path goodEnd layout.recSize e
    cases hread : (fsRead path goodEnd layout.recSize).run e with
    | error r e₁ => exact nofun
    | ok raw e₁ =>
      refine List.forall_mem_cons.mpr ⟨compact_fits (hl ▸ hlen.run_ok hread), ?_⟩
      split
      · exact nofun
      · cases (recordDecodeAs layout.version 0 raw).run e₁ with
        | error r e₂ => exact nofun
        | ok sample e₂ => exact ih _ e₂

theorem recoverWalkReads_fit_iff {layout : FileLayout} (hl : layout.recSize = recSizeV1 ∨ layout.recSize = recSizeV2)
    (path : Path) (fuel goodEnd : Nat) (e : Sys) :
    (∀ x ∈ recoverWalkReads layout path (fuel + 1) goodEnd e, x.Fits) ↔
      layout.recSize = recSizeV2 ∨ delivered path goodEnd layout.recSize e ≤ hdrSizeV2 := by
  have hlong : hdrSizeV2 < recSizeV1 := by decide
  rcases hl with hv1 | hv2
  · have hne : layout.recSize ≠ recSizeV2 := by
      rw [hv1]
      decide
    rw [or_iff_right hne]
    unfold recoverWalkReads delivered outcome
    cases hread : (fsRead path goodEnd layout.recSize).run e with
    | error r e₁ => exact ⟨fun _ => Nat.zero_le _, fun _ => nofun⟩
    | ok raw e₁ =>
      dsimp only
      constructor
      · intro hfit
        simpa [Access.Fits, recAccess] using hfit _ List.mem_cons_self
      · intro hshort
        have hcut : raw.length ≠ layout.recSize := by omega
        rw [if_pos hcut]
        simpa [Access.Fits, recAccess] using hshort
  · exact ⟨fun _ => .inl hv2, fun _ => compactReads_fit hv2 path _ goodEnd e⟩

theorem recoverArrive_layout (name : Bytes) (path : Path) (e : Sys) :
    Yields (recoverArrive name path) e
      (fun layout _ => layout.recSize = recSizeV1 ∨ layout.recSize = recSizeV2) fun _ _ => True := by
  have hprobe : Yields (probeLayout path) e
      (fun layout _ => layout.recSize = recSizeV1 ∨ layout.recSize = recSizeV2) fun _ _ => True := by
    apply yields_bind (yields_any _ e)
    intro r e₁ _
    cases r with
    | error r => exact yields_pure (.inl rfl)
    | ok size =>
      apply yields_bind (yields_attempt (yields_cursorLearnLayout path e₁))
      intro r e₂ hr
      cases r with
      | error r => exact yields_pure (.inl rfl)
      | ok layout => exact yields_pure hr
  unfold recoverArrive
  apply yields_bind hprobe
  intro layout e₁ hl
  apply yields_bind (yields_any _ e₁)
  intro _ e₂ _
  apply yields_bind (yields_any _ e₂)
  intro hdr e₃ _
  dsimp only
  apply yields_guard (fun _ => trivial)
  intro _
  split
  · apply yields_bind (yields_any _ e₃)
    intro _ e₄ _
    apply yields_bind (yields_any _ e₄)
    intro _ e₅ _
    exact yields_pure hl
  · apply yields_bind (yields_any _ e₃)
    intro _ e₄ _
    exact yields_pure hl

theorem recoverStart_layout {name : Bytes} {a : App} {layout : FileLayout} {path : Path} {e : Sys}
    (h : recoverStart cfg name a = some (layout, path, e)) :
    layout.recSize = recSizeV1 ∨ layout.recSize = recSizeV2 := by
  unfold recoverStart at h
  split at h
  · cases h
  · rename_i path' b _
    have hlayout := recoverArrive_layout name path' b.env
    split at h
    · cases h
    · rename_i hrun
      cases h
      exact hlayout.run_ok hrun

theorem recoverReads_fit_iff (name : Bytes) (a : App) :
    (∀ x ∈ recoverReads cfg name a, x.Fits) ↔
      ∀ layout path e, recoverStart cfg name a = some (layout, path, e) → Narrow layout path e := by
  unfold recoverReads
  cases hstart : recoverStart cfg name a with
  | none => exact ⟨fun _ => nofun, fun _ => nofun⟩
  | some start =>
    obtain ⟨layout, path, e⟩ := start
    have hiff := recoverWalkReads_fit_iff (recoverStart_layout hstart) path (e.contents path).length layout.hdrSize e
    constructor
    · rintro hfit _ _ _ ⟨⟩
      exact hiff.mp hfit
    · exact fun h => hiff.mpr (h layout path e rfl)

end Recovery

/-- The encodes that a call makes. -/
def Op.encodes (cfg : Cfg) (a : App) : Op → List (StreamCtx × Bytes)
  | .append h sample => encodesBy cfg h [sample] a
  | .batch h samples => encodesBy cfg h samples a
  | _ => []

def Op.cursorReads (cfg : Cfg) (a : App) : Op → List Access
  | .count h window =>
    if windowIsUnbounded window then []
    else
      match (cursorOpenDir cfg h window none false).run a with
      | .error _ _ => []
      | .ok c b =>
        let used := ((a.handles h).bind b.slotFind).elim 0 fun i => (b.slotAt i).ingestUsed
        scanReads cfg (cursorFuel cfg ⟨c, b⟩ + used + 1) ⟨c, b⟩
  | .cursor h window predicate descending n =>
    match (cursorOpenDir cfg h window predicate descending).run a with
    | .error _ _ => []
    | .ok c b => walkReads cfg n ⟨c, b⟩
  | _ => []

/-- The recovery pass that a call makes: the stream, and the application that the pass finds. -/
def Op.recovers (cfg : Cfg) (a : App) : Op → Option (Bytes × App)
  | .recover h => (a.handles h).map fun name => (name, a)
  | .open h name =>
    match (openClaim cfg h name).run a with
    | .error _ _ => none
    | .ok _ b => if cfg.autoRecoverOnOpen then some (name, b) else none
  | _ => none

def staged (cfg : Cfg) (a : App) (op : Op) : List Access :=
  (op.encodes cfg a).map (fun p => encodeAccess p.1 p.2) ++
    (op.cursorReads cfg a ++ (op.recovers cfg a).elim [] fun p => recoverReads cfg p.1 p.2)

/-- What a header passes through: `raw` when a file's first bytes are read and when a new header is made,
and a version 1 header by itself. -/
def headerAccesses (cfg : Cfg) (streamName : Bytes) (baseTsMs : UInt64) : List Access :=
  [⟨0, hdrSizeV2, hdrSizeV2⟩, ⟨0, (newHeader cfg streamName baseTsMs).1.length, hdrSizeV2⟩,
    ⟨0, hdrSizeV1, hdrSizeV1⟩]

/-- The call, and any header written or read on the way, stays within the buffers. -/
structure StagingSafe (cfg : Cfg) (a : App) (op : Op) : Prop where
  records : ∀ x ∈ staged cfg a op, x.Fits
  headers : ∀ streamName baseTsMs, ∀ x ∈ headerAccesses cfg streamName baseTsMs, x.Fits

section Calls
variable {cfg : Cfg}

theorem headerAccesses_fit (streamName : Bytes) (baseTsMs : UInt64) :
    ∀ x ∈ headerAccesses cfg streamName baseTsMs, x.Fits := by
  have hnew : (newHeader cfg streamName baseTsMs).1.length ≤ hdrSizeV2 := by
    unfold newHeader
    split
    · exact Nat.le_of_eq (streamHeaderV2Encode_length _ _)
    · rw [streamHeaderEncode_length]
      decide
  intro x hx
  simp only [headerAccesses, List.mem_cons, List.not_mem_nil, or_false] at hx
  rcases hx with rfl | rfl | rfl
  · exact Nat.le_of_eq (Nat.zero_add _)
  · simpa [Access.Fits] using hnew
  · exact Nat.le_of_eq (Nat.zero_add _)

theorem Op.encodes_staged {a : App} (ha : Formatted a) (op : Op) : ∀ p ∈ op.encodes cfg a, Staged cfg p.1 p.2 := by
  cases op with
  | append h sample => exact encodesBy_staged ha
  | batch h samples => exact encodesBy_staged ha
  | _ => exact nofun

theorem Op.cursorReads_fit (a : App) (op : Op) : ∀ x ∈ op.cursorReads cfg a, x.Fits := by
  cases op with
  | count h window =>
    have hopen := @cursorOpenDir_staged cfg h window none false a
    rw [Op.cursorReads]
    split
    · exact nofun
    split
    · exact nofun
    · rename_i c b hrun
      exact scanReads_fit _ (hopen.run_ok hrun)
  | cursor h window predicate descending n =>
    have hopen := @cursorOpenDir_staged cfg h window predicate descending a
    rw [Op.cursorReads]
    split
    · exact nofun
    · rename_i c b hrun
      exact walkReads_fit n (hopen.run_ok hrun)
  | _ => exact nofun

end Calls

/-- In every reachable state a call stays within its buffers exactly when each record that it encodes
still passes the check of the block at that moment, and a recovery pass that it makes walks compact
records or too few bytes for a version 1 record. -/
theorem staging_safe_iff (cfg : Cfg) (env : Sys) (ops : List Op) (op : Op) :
    StagingSafe cfg (run cfg (App.boot env) ops) op ↔
      (∀ p ∈ op.encodes cfg (run cfg (App.boot env) ops), p.1.roomy cfg = true) ∧
        ∀ name b, op.recovers cfg (run cfg (App.boot env) ops) = some (name, b) →
          ∀ layout path e, recoverStart cfg name b = some (layout, path, e) → Narrow layout path e := by
  have ha : Formatted (run cfg (App.boot env) ops) := formatted_run cfg (formatted_noCtx rfl) ops
  generalize run cfg (App.boot env) ops = a at ha ⊢
  have hencodes : (∀ x ∈ (op.encodes cfg a).map fun p => encodeAccess p.1 p.2, x.Fits) ↔
      ∀ p ∈ op.encodes cfg a, p.1.roomy cfg = true := by
    rw [List.forall_mem_map]
    exact forall₂_congr fun p hp => (Op.encodes_staged ha op p hp).fits_iff
  have hrecovers : (∀ x ∈ (op.recovers cfg a).elim [] fun p => recoverReads cfg p.1 p.2, x.Fits) ↔
      ∀ name b, op.recovers cfg a = some (name, b) →
        ∀ layout path e, recoverStart cfg name b = some (layout, path, e) → Narrow layout path e := by
    cases hop : op.recovers cfg a with
    | none => exact ⟨fun _ => nofun, fun _ => nofun⟩
    | some p =>
      obtain ⟨name, b⟩ := p
      constructor
      · rintro hfit _ _ ⟨⟩
        exact (recoverReads_fit_iff name b).mp hfit
      · exact fun h => (recoverReads_fit_iff name b).mpr (h name b rfl)
  rw [← hencodes, ← hrecovers]
  constructor
  · intro h
    have hall := List.forall_mem_append.mp h.records
    exact ⟨hall.1, (List.forall_mem_append.mp hall.2).2⟩
  · rintro ⟨henc, hrec⟩
    refine ⟨List.forall_mem_append.mpr ⟨henc, ?_⟩, headerAccesses_fit⟩
    exact List.forall_mem_append.mpr ⟨Op.cursorReads_fit a op, hrec⟩

/-- A file that a build with compact segments left: its header alone. -/
def compactLeft (cfg : Cfg) : Sys :=
  { Sys.blank (fun _ => false) with files := (∅ : Files).insert (segmentPath cfg [65] 0) (streamHeaderV2Encode [65] 100) }

/-- The recovery of a stream of one version 1 record reads 28 bytes into 24; and a block of 16 bytes, enough
for the compact segment it starts with, gets 28 bytes when a sample before the segment's base starts a
version 1 segment. -/
theorem staging_overruns :
    ¬ StagingSafe (Cfg.small false false true 64)
        (run (Cfg.small false false true 64) (App.boot (Sys.blank fun _ => false))
          [.open 0 [65], .append 0 ⟨1, 2⟩, .flushSync 0]) (.recover 0) ∧
      ¬ StagingSafe (Cfg.small true false true 16)
        (run (Cfg.small true false true 16) (App.boot (compactLeft (Cfg.small true false true 16))) [.open 0 [65]])
        (.append 0 ⟨5, 6⟩) := by
  constructor
  · intro h
    have hmem : (⟨0, 28, 24⟩ : Access) ∈ staged (Cfg.small false false true 64)
        (run (Cfg.small false false true 64) (App.boot (Sys.blank fun _ => false))
          [.open 0 [65], .append 0 ⟨1, 2⟩, .flushSync 0]) (.recover 0) := by decide +kernel
    exact absurd (h.records _ hmem) (by decide)
  · intro h
    have hmem : (⟨0, 28, 16⟩ : Access) ∈ staged (Cfg.small true false true 16)
        (run (Cfg.small true false true 16) (App.boot (compactLeft (Cfg.small true false true 16))) [.open 0 [65]])
        (.append 0 ⟨5, 6⟩) := by decide +kernel
    exact absurd (h.records _ hmem) (by decide)

end ZephyrDB.Ts
