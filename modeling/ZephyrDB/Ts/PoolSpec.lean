import ZephyrDB.Ts.Pool

/-!
What the calls on cursors leave of the pool. A file on the stack is closed on
every way out; a cursor's file is open exactly while its context says so; an
open either hands out one block with at most one file, or, where its rewind
does not fail, leaves the pool as it was.
-/

set_option autoImplicit false

namespace ZephyrDB.Ts

open Lib

namespace Pool

@[simp] theorem closed_opened (o : Owner) (p : Pool) : (p.opened o).closed o = p := by
  simp [closed, opened]

theorem yields_onStack {σ ε α : Type} {m : EStateM ε σ α} {s : Noted σ Pool} {p : Pool} (hs : s.notes = p.opened .stack) :
    Yields (orUndo undoStack (silent m)) s (fun _ t => t.notes = p.opened .stack) fun _ t => t.notes = p := by
  refine yields_orUndo (((fixes_silent m).yields s).imp (fun _ t ht => ht.trans hs) fun _ t ht => ?_)
  show t.notes.closed .stack = p
  rw [ht, hs, closed_opened]

theorem header_v1 : FileLayout.v1.hdrSize ≤ hdrSizeV2 := by decide

section Stack
variable {cfg : Cfg}

theorem cursorLearnLayout_yields (path : Path) (s : Noted Sys Pool) : Yields (cursorLearnLayout path) s
    (fun layout t => t.notes = s.notes ∧ layout.hdrSize ≤ hdrSizeV2) fun _ t => t.notes = s.notes := by
  apply yields_bind ((fixes_silent _).yields s)
  intro _ a ha
  apply yields_then rfl
  apply yields_then (run_silent_attempt _ _)
  apply yields_then rfl
  have hleft : (a.notes.opened .stack).closed .stack = s.notes := (closed_opened .stack a.notes).trans ha
  split
  · exact yields_pure ⟨hleft, header_v1⟩
  · split_ifs
    · exact yields_pure ⟨hleft, header_v1⟩
    · exact yields_pure ⟨hleft, header_v1⟩
    · exact yields_throw hleft
    · exact yields_pure ⟨hleft, Nat.le_refl hdrSizeV2⟩

abbrev Level {σ ε α : Type} (m : PoolM σ ε α) : Prop := Fixes Noted.notes m

theorem level_of_yields {σ ε α : Type} {m : PoolM σ ε α}
    (h : ∀ s, Yields m s (fun _ t => t.notes = s.notes) fun _ t => t.notes = s.notes) : Level m := fun s => (h s).post

theorem level_ensureHeaderEx (streamName : Bytes) (path : Path) (base : UInt64) :
    Level (ensureHeaderEx cfg streamName path base) := by
  apply level_of_yields
  intro s
  apply yields_bind ((fixes_silent _).yields s)
  intro _ a ha
  apply yields_then rfl
  have hclose : ∀ t : Noted Sys Pool, t.notes = s.notes.opened .stack → (t.notes.closed .stack) = s.notes := fun t ht => by
    rw [ht, closed_opened]
  apply yields_bind (yields_onStack (congrArg (opened .stack) ha))
  intro raw b hb
  split
  · apply yields_bind (yields_onStack hb)
    intro _ c hc
    apply yields_bind (yields_onStack hc)
    intro wr d hd
    apply yields_then rfl
    split_ifs
    · exact hclose d hd
    · exact hclose d hd
  · apply yields_then rfl
    have hb' := hclose b hb
    split_ifs
    · exact hb'
    · exact hb'
    · refine yields_bind (((fixes_silent _).yields _).imp (fun _ _ h => h.trans hb') fun _ _ h => h.trans hb')
        fun _ t ht => yields_pure ht
    · refine yields_bind (((fixes_silent _).yields _).imp (fun _ _ h => h.trans hb') fun _ _ h => h.trans hb')
        fun _ t ht => yields_pure ht

theorem level_cursorLearnLayout (path : Path) : Level (cursorLearnLayout path) :=
  level_of_yields fun s => (cursorLearnLayout_yields path s).imp (fun _ _ h => h.1) fun _ _ h => h

theorem level_ensureStreamHeader (name : Bytes) : Level (ensureStreamHeader cfg name) :=
  fixes_bind (fixes_rethrow _) fun _ => fixes_bind (level_ensureHeaderEx _ _ _) fun _ => fixes_pure _

theorem level_learnNewest (name : Bytes) (lowest highest : Nat) : Level (learnNewest cfg name lowest highest) := by
  apply fixes_bind (fixes_silent _)
  intro _
  apply fixes_bind (fixes_rethrow _)
  intro path
  apply fixes_bind (fixes_noting (level_ensureHeaderEx _ _ _))
  intro _
  apply fixes_bind (fixes_silent _)
  intro _
  apply fixes_bind (fixes_silent _)
  intro _
  exact fixes_silent _

theorem level_scanSegments : Level (scanSegments cfg) := by
  apply fixes_bind (fixes_silent _)
  intro slot
  apply fixes_ite (fixes_pure _)
  apply fixes_guard
  apply fixes_bind (fixes_silent _)
  intro entries
  refine fixes_ite ?_ (level_learnNewest _ _ _)
  apply fixes_bind (fixes_silent _)
  intro _
  exact level_learnNewest _ _ _

theorem level_countFile (path : Path) : Level (countFile path) := by
  apply fixes_bind (fixes_silent _)
  intro size
  cases size with
  | error err => exact fixes_pure _
  | ok size =>
    apply fixes_bind (fixes_attempt (level_cursorLearnLayout path))
    intro layout
    cases layout <;> exact fixes_pure _

theorem level_countSegments (name : Bytes) (seqs : List Nat) : Level (countSegments cfg name seqs) := by
  induction seqs with
  | nil => exact fixes_pure _
  | cons seq rest ih =>
    apply fixes_bind (fixes_rethrow _)
    intro path
    apply fixes_bind (level_countFile path)
    intro n
    apply fixes_bind ih
    intro _
    exact fixes_pure _

theorem level_countStream (name : Bytes) : Level (countStream cfg name) := by
  apply fixes_bind (fixes_rethrow _)
  intro path
  apply fixes_bind (fixes_silent _)
  intro size
  split
  · exact fixes_pure _
  · exact fixes_throw _
  · apply fixes_bind (fixes_attempt (level_cursorLearnLayout path))
    intro layout
    cases layout <;> exact fixes_pure _

theorem level_tsCountAll (name : Bytes) : Level (tsCountAll cfg name) := by
  apply fixes_bind fixes_get
  intro s
  apply fixes_guard
  have hflushed {m : PoolM App Status Nat} {k : Nat → Nat} (hm : Level m) : Level (m >>= fun n => pure (k n)) :=
    fixes_bind hm fun _ => fixes_pure _
  refine fixes_ite ?_ (hflushed (fixes_noting (level_countStream name)))
  split
  · exact hflushed (fixes_throw _)
  · exact hflushed (fixes_noting (level_countSegments name _))

theorem level_cursorWindow (name : Bytes) : Level (cursorWindow cfg name) := by
  apply fixes_bind (fixes_silent _)
  intro _
  apply fixes_bind fixes_get
  intro s
  split
  · exact fixes_throw _
  · apply fixes_bind (fixes_adaptExcept _ (fixes_noting level_scanSegments))
    intro _
    apply fixes_bind fixes_get
    intro _
    exact fixes_pure _

end Stack

/-- The file of the cursor in block `b` is open exactly while its context says so, beside the files of
`p`; and its header has one of the two sizes there are. -/
structure Holds (b : Nat) (p : Pool) (s : Noted CurSt Pool) : Prop where
  notes : s.notes = if s.st.cur.file.isSome then p.opened (.block b) else p
  header : s.st.cur.layout.hdrSize ≤ hdrSizeV2

def sight (s : CurSt) : Bool × FileLayout := (s.cur.file.isSome, s.cur.layout)

section Sight
variable {ε : Type}

theorem sight_onCurEnv {α : Type} (m : EStateM ε Sys α) : Fixes sight (onCurEnv m) := fun s => by
  unfold onCurEnv Ts.onApp Ts.onEnv
  rw [post_zoom]
  rfl

theorem sight_onApp {α : Type} (m : AppM ε α) : Fixes sight (Ts.onApp m) := fun s => by
  unfold Ts.onApp
  rw [post_zoom]
  rfl

theorem sight_seekTo (off : Nat) : Fixes sight (seekTo off) := by
  apply fixes_bind fixes_get
  intro _
  apply fixes_bind fixes_get
  intro _
  apply fixes_guard
  apply fixes_bind (sight_onCurEnv call)
  intro _
  apply fixes_modify
  intro s
  show (_, _) = (_, _)
  rw [Option.isSome_map]

theorem sight_updCur {f : CursorCtx → CursorCtx} (h : ∀ c, (f c).file = c.file ∧ (f c).layout = c.layout) :
    Fixes sight (updCur f : CurM ε Unit) :=
  fixes_modify fun s => by
    unfold sight
    rw [(h s.cur).1, (h s.cur).2]

theorem sight_cursorLearnSize : Fixes sight cursorLearnSize :=
  fixes_bind (sight_onCurEnv _) fun _ => sight_updCur fun _ => ⟨rfl, rfl⟩

theorem sight_cursorRead : Fixes sight cursorRead := fun s => by
  refine (yields_get_bind ?_ : Yields cursorRead s (fun _ t => sight t = sight s) fun _ t => sight t = sight s).post
  dsimp only
  cases hfile : s.cur.file with
  | none => exact yields_throw rfl
  | some f =>
    refine yields_bind ((sight_onCurEnv _).yields s) fun raw t ht => yields_then rfl (yields_pure ?_)
    obtain ⟨-, hlayout⟩ := Prod.mk.injEq _ _ _ _ ▸ ht
    unfold sight
    rw [hfile, ← hlayout]
    rfl

theorem sight_cursorReadHere : Fixes sight cursorReadHere := by
  apply fixes_bind fixes_get
  intro s
  refine fixes_ite (fixes_ite (fixes_pure _) ?_) sight_cursorRead
  refine fixes_bind (sight_updCur fun _ => ⟨rfl, rfl⟩) fun _ => ?_
  apply fixes_bind (fixes_adaptExcept _ (sight_seekTo _))
  intro _
  exact sight_cursorRead

theorem sight_cursorNextBuf {cfg : Cfg} (slot : StreamCtx) (buf : Bytes) (n : Nat) :
    Fixes sight (cursorNextBuf cfg slot buf n) := by
  induction n with
  | zero => exact fixes_throw _
  | succ n ih =>
    apply fixes_bind fixes_get
    intro s
    apply fixes_guard
    apply fixes_bind (sight_onCurEnv _)
    intro r
    split
    · exact fixes_bind (sight_updCur fun _ => ⟨rfl, rfl⟩) fun _ => ih
    · exact fixes_throw _
    · refine fixes_bind (sight_updCur fun _ => ⟨rfl, rfl⟩) fun _ => fixes_ite ?_ ih
      exact fixes_bind (sight_updCur fun _ => ⟨rfl, rfl⟩) fun _ => fixes_pure _

theorem sight_cursorNextRam {cfg : Cfg} : Fixes sight (cursorNextRam cfg) := by
  apply fixes_bind (sight_onApp _)
  intro _
  apply fixes_bind fixes_get
  intro s
  split
  · exact fixes_throw _
  · dsimp only
    split
    · exact fixes_throw _
    · exact sight_cursorNextBuf _ _ _

end Sight

section Cursor
variable {cfg : Cfg} {b : Nat} {p : Pool}

theorem Holds.of_sight {s t : Noted CurSt Pool} (h : Holds b p s) (hnotes : t.notes = s.notes)
    (hsight : sight t.st = sight s.st) : Holds b p t := by
  obtain ⟨hfile, hlayout⟩ := Prod.mk.injEq _ _ _ _ ▸ hsight
  exact ⟨by rw [hnotes, hfile, h.notes], hlayout ▸ h.header⟩

abbrev Tends {ε α : Type} (b : Nat) (m : PoolM CurSt ε α) : Prop := ∀ p, Always (Preserves (Holds b p)) m

theorem tends_silent {ε α : Type} {m : CurM ε α} (hm : Fixes sight m) : Tends b (silent m) := fun p s h => by
  apply h.of_sight (fixes_silent m s)
  unfold silent
  rw [post_zoom]
  exact hm s.st

theorem tends_bind {ε α β : Type} {m : PoolM CurSt ε α} {f : α → PoolM CurSt ε β} (hm : Tends b m)
    (hf : ∀ a, Tends b (f a)) : Tends b (m >>= f) := fun p =>
  always_bind (preserves_chains _) (hm p) fun a => hf a p

theorem tends_pure {ε α : Type} (a : α) : Tends b (pure a : PoolM CurSt ε α) := fun _ => always_pure (preserves_chains _) a

theorem tends_throw {ε α : Type} (r : ε) : Tends b (throw r : PoolM CurSt ε α) := fun _ =>
  always_throw (preserves_chains _) r

theorem tends_get_bind {ε α : Type} {f : Noted CurSt Pool → PoolM CurSt ε α} (hf : ∀ s, Tends b (f s)) :
    Tends b (get >>= f) := fun p s h => hf s p s h

theorem tends_attempt {ε ε' α : Type} {m : PoolM CurSt ε α} (hm : Tends b m) :
    Tends b (attempt m : PoolM CurSt ε' (Except ε α)) := fun p => always_attempt (hm p)

theorem tends_ite {ε α : Type} {c : Prop} [Decidable c] {m n : PoolM CurSt ε α} (hm : Tends b m) (hn : Tends b n) :
    Tends b (if c then m else n) := fun p => always_ite (hm p) (hn p)

theorem tends_guard {ε α : Type} {c : Prop} [Decidable c] {r : ε} {g : PUnit → PoolM CurSt ε α} (hg : Tends b (g .unit)) :
    Tends b (if c then throw r >>= g else g .unit) := fun p => always_guard (preserves_chains _) (hg p)

theorem tends_upd {ε : Type} {f : CursorCtx → CursorCtx} (h : ∀ c, (f c).file = c.file ∧ (f c).layout = c.layout) :
    Tends b (silent (updCur f) : PoolM CurSt ε Unit) := tends_silent (sight_updCur h)

theorem Holds.drop {s : Noted CurSt Pool} (h : Holds b p s) : Holds b p (dropFile b s) := by
  refine ⟨?_, h.header⟩
  show (if s.st.cur.file.isSome then s.notes.closed (.block b) else s.notes) = p
  rw [h.notes]
  split
  · exact closed_opened _ p
  · rfl

theorem Holds.notes_none {s : Noted CurSt Pool} (h : Holds b p s) (hfile : s.st.cur.file = none) : s.notes = p := by
  rw [h.notes, hfile]
  rfl

theorem sight_yields {ε α : Type} {m : CurM ε α} (hm : Fixes sight m) (s : Noted CurSt Pool) : Yields (silent m) s
    (fun _ t => t.notes = s.notes ∧ sight t.st = sight s.st) fun _ t => t.notes = s.notes ∧ sight t.st = sight s.st := by
  have hsight : Fixes (fun t : Noted CurSt Pool => sight t.st) (silent m) := fun t => by
    unfold silent
    rw [post_zoom]
    exact hm t.st
  exact ((fixes_silent m).yields s).and (hsight.yields s)

def Shut (b : Nat) (p : Pool) (s : Noted CurSt Pool) : Prop := Holds b p s ∧ s.st.cur.file = none

theorem Shut.of_sight {s t : Noted CurSt Pool} (h : Shut b p s) (ht : t.notes = s.notes ∧ sight t.st = sight s.st) :
    Shut b p t := by
  have hnone : t.st.cur.file.isSome = s.st.cur.file.isSome := congrArg Prod.fst ht.2
  rw [h.2] at hnone
  exact ⟨h.1.of_sight ht.1 ht.2, Option.not_isSome_iff_eq_none.mp (Bool.eq_false_iff.mp hnone)⟩

theorem cursorOpenFile_yields {s : Noted CurSt Pool} (h : Shut b p s) (path : Path) :
    Yields (cursorOpenFile b path) s (fun _ t => Holds b p t ∧ t.st.cur.file.isSome = true) fun _ t => Shut b p t := by
  have hnone : Shut b p ⟨{ s.st with cur := { s.st.cur with file := none } }, s.notes⟩ :=
    ⟨⟨h.1.notes_none h.2, h.1.header⟩, rfl⟩
  apply yields_then rfl
  apply yields_bind ((sight_yields (sight_onCurEnv _) _).imp (fun _ _ => hnone.of_sight) fun _ _ => hnone.of_sight)
  intro _ t ht
  exact yields_then rfl ⟨⟨congrArg (opened (.block b)) (ht.1.notes_none ht.2), ht.1.header⟩, rfl⟩

theorem tends_cursorLearn (path : Path) : Tends b (cursorLearn path) := fun p s h => by
  have hfirst : Holds b p ⟨{ s.st with cur := { s.st.cur with layout := FileLayout.v1 } }, s.notes⟩ :=
    ⟨h.notes, header_v1⟩
  refine (yields_then rfl ?_ : Yields (cursorLearn path) s (fun _ t => Holds b p t) fun _ t => Holds b p t).post
  have hlearn : Yields (onApp (onEnv (cursorLearnLayout path))) (⟨{ s.st with cur := { s.st.cur with layout := FileLayout.v1 } }, s.notes⟩ : Noted CurSt Pool)
      (fun layout t => Holds b p t ∧ layout.hdrSize ≤ hdrSizeV2) fun _ t => Holds b p t :=
    yields_zoom (yields_zoom ((cursorLearnLayout_yields path _).imp
      (fun _ _ ht => ⟨⟨ht.1.trans hfirst.notes, hfirst.header⟩, ht.2⟩)
      fun _ _ ht => ⟨ht.trans hfirst.notes, hfirst.header⟩))
  apply yields_bind hlearn
  intro layout t ht
  exact yields_of_run rfl ⟨ht.1.notes, ht.2⟩

def Ready (b : Nat) (p : Pool) (s : Noted CurSt Pool) : Prop := Holds b p s ∧ s.st.cur.file.isSome = true

theorem ready_silent {ε α : Type} {m : CurM ε α} (hm : Fixes sight m) : Always (Preserves (Ready b p)) (silent m) :=
  fun s h => (sight_yields hm s |>.imp
    (fun _ _ ht => (⟨h.1.of_sight ht.1 ht.2, (congrArg Prod.fst ht.2).trans h.2⟩ : Ready b p _))
    fun _ _ ht => ⟨h.1.of_sight ht.1 ht.2, (congrArg Prod.fst ht.2).trans h.2⟩).post

theorem ready_upd {ε : Type} {f : CursorCtx → CursorCtx} (h : ∀ c, (f c).file = c.file ∧ (f c).layout = c.layout) :
    Always (Preserves (Ready b p)) (silent (updCur f) : PoolM CurSt ε Unit) := ready_silent (sight_updCur h)

theorem ready_cursorLearn (path : Path) : Always (Preserves (Ready b p)) (cursorLearn path) := fun s h => by
  have hlearn : Fixes (fun t : Noted CurSt Pool => t.st.cur.file) (onApp (onEnv (cursorLearnLayout path))) := fun t => by
    unfold onApp noting
    rw [post_zoom]
  have hfile : Fixes (fun t : Noted CurSt Pool => t.st.cur.file) (cursorLearn path) :=
    fixes_bind (fixes_modify fun _ => rfl) fun _ => fixes_bind hlearn fun _ => fixes_modify fun _ => rfl
  exact ⟨tends_cursorLearn path p s h.1, (congrArg Option.isSome (hfile s)).trans h.2⟩

theorem ready_seek (off : Nat) : Always (Preserves (Ready b p)) (silent (toStatus (seekTo off))) :=
  ready_silent (fixes_adaptExcept _ (sight_seekTo off))

theorem Ready.yields {ε α : Type} {m : PoolM CurSt ε α} {s : Noted CurSt Pool} (hs : Ready b p s)
    (hm : Always (Preserves (Ready b p)) m) : Yields m s (fun _ t => Ready b p t) fun _ t => Ready b p t :=
  (hm.yields s).imp (fun _ _ h => h hs) fun _ _ h => h hs

theorem cursorOpenSegment_yields (seq : Nat) {s : Noted CurSt Pool} (h : Holds b p s) :
    Yields (cursorOpenSegment cfg b seq) s (fun _ t => Ready b p t) fun _ t => Holds b p t := by
  have hshut : Shut b p (dropFile b s) := ⟨h.drop, rfl⟩
  refine yields_then rfl (yields_get_bind (yields_bind (P := fun _ t => Shut b p t) (yields_rethrow ?_) fun path t ht => ?_))
  · split
    · exact hshut
    · exact hshut.1
  · apply yields_bind ((cursorOpenFile_yields ht path).imp (fun _ _ hu => hu) fun _ _ hu => hu.1)
    intro _ t ht
    refine (Ready.yields ht ?_).imp (fun _ _ hu => hu) fun _ _ hu => hu.1
    have hR := preserves_chains (Ready b p)
    refine always_bind hR (ready_upd ?_) fun _ => always_bind hR (ready_cursorLearn path) fun _ => ?_
    · exact fun _ => ⟨rfl, rfl⟩
    refine always_bind hR (always_get hR) fun _ => always_ite (always_bind hR (ready_silent sight_cursorLearnSize) fun _ => ?_) ?_
    · refine always_bind hR (ready_upd ?_) fun _ => always_bind hR (always_get hR) fun _ => ready_seek _
      exact fun _ => ⟨rfl, rfl⟩
    · refine always_bind hR (ready_upd ?_) fun _ => always_bind hR (always_get hR) fun _ => ready_seek _
      exact fun _ => ⟨rfl, rfl⟩

theorem tends_cursorOpenSegment (seq : Nat) : Tends b (cursorOpenSegment cfg b seq) := fun p _ h =>
  ((cursorOpenSegment_yields seq h).imp (fun _ _ (ht : Ready b p _) => ht.1) fun _ _ ht => ht).post

theorem tends_cursorNextSegment (n : Nat) : Tends b (cursorNextSegment cfg b n) := by
  induction n with
  | zero => exact tends_throw _
  | succ n ih =>
    apply tends_get_bind
    intro s
    apply tends_guard
    apply tends_bind (tends_attempt (tends_cursorOpenSegment _))
    intro r
    cases r with
    | ok _ => exact tends_pure _
    | error rc => exact tends_bind (tends_upd fun _ => ⟨rfl, rfl⟩) fun _ => ih

theorem tends_cursorReadFileRecord (n : Nat) : Tends b (cursorReadFileRecord cfg b n) := by
  induction n with
  | zero => exact tends_throw _
  | succ n ih =>
    apply tends_get_bind
    intro s
    apply tends_guard
    apply tends_bind (tends_silent sight_cursorReadHere)
    intro raw
    refine tends_ite (tends_guard (tends_bind ?_ fun _ => ih)) (tends_ite (tends_throw _) ?_)
    · exact fun p => always_adaptExcept _ (tends_cursorNextSegment _ p)
    · apply tends_ite (tends_bind (tends_silent (fixes_adaptExcept _ (sight_seekTo _))) fun _ => tends_pure _)
      exact tends_bind (tends_upd fun _ => ⟨rfl, rfl⟩) fun _ => tends_pure _

theorem tends_cursorNextFile (n : Nat) : Tends b (cursorNextFile cfg b n) := by
  induction n with
  | zero => exact tends_pure _
  | succ n ih =>
    apply tends_get_bind
    intro s
    apply tends_ite (tends_pure _)
    apply tends_bind (tends_attempt (tends_cursorReadFileRecord _))
    intro r
    split
    · exact tends_bind (tends_upd fun _ => ⟨rfl, rfl⟩) fun _ => tends_pure _
    · exact tends_throw _
    · apply tends_get_bind
      intro t
      apply tends_bind (tends_silent (sight_onCurEnv _))
      intro sample
      split
      · exact ih
      · exact tends_throw _
      · exact tends_ite (tends_bind (tends_upd fun _ => ⟨rfl, rfl⟩) fun _ => tends_pure _) ih

theorem tends_cursorNext : Tends b (cursorNext cfg b) := by
  refine tends_get_bind fun s => tends_ite ?_ (tends_bind (tends_cursorNextFile _) fun found => ?_)
  · apply tends_bind (tends_silent (fixes_attempt sight_cursorNextRam))
    intro r
    split
    · exact tends_pure _
    · apply tends_bind (tends_cursorNextFile _)
      intro found
      cases found with
      | some x => exact tends_pure _
      | none => exact tends_throw _
    · exact tends_throw _
  · cases found with
    | some x => exact tends_pure _
    | none => exact tends_silent sight_cursorNextRam

theorem tends_countScan (n points : Nat) : Tends b (countScan cfg b n points) := by
  induction n generalizing points with
  | zero => exact tends_pure _
  | succ n ih =>
    apply tends_bind (tends_attempt tends_cursorNext)
    intro r
    split
    · exact tends_pure _
    · exact tends_throw _
    · exact ih _

theorem tends_aggScan (agg : Agg) (n : Nat) (acc : Nat × Float) : Tends b (aggScan cfg b agg n acc) := by
  induction n generalizing acc with
  | zero => exact tends_pure _
  | succ n ih =>
    apply tends_bind (tends_attempt tends_cursorNext)
    intro r
    split
    · exact tends_pure _
    · exact tends_throw _
    · exact ih _

theorem tends_aggPeek (cap : Nat) (acc : Nat × Float) : Tends b (aggPeek cfg b cap acc) := by
  refine tends_ite (tends_bind (tends_attempt tends_cursorNext) fun r => ?_) (tends_pure _)
  cases r <;> exact tends_pure _

end Cursor

section Opening
variable {cfg : Cfg} {count h : Nat} {window : Window} {predicate : Option (Bytes → Bool)} {descending : Bool}

/-- The pool with block `b` allocated. -/
def withBlock (b : Nat) (p : Pool) : Pool := { p with taken := b ::ₘ p.taken }

@[simp] theorem freed_withBlock (b : Nat) (p : Pool) : (p.withBlock b).freed b = p := by
  simp [freed, withBlock]

/-- The pool once a cursor stands in block `b`. -/
def holding (b : Nat) (c : CursorCtx) (p : Pool) : Pool :=
  if c.file.isSome then (p.withBlock b).opened (.block b) else p.withBlock b

@[simp] theorem cursorClose_holding (b : Nat) (c : CursorCtx) (p : Pool) : cursorClose b c (p.holding b c) = p := by
  unfold cursorClose holding
  split
  · rw [closed_opened, freed_withBlock]
  · rw [freed_withBlock]

theorem Holds.holding {b : Nat} {p : Pool} {s : Noted CurSt Pool} (hs : Holds b (p.withBlock b) s) :
    s.notes = p.holding b s.st.cur := hs.notes

theorem slabAlloc_yields (count : Nat) (s : Noted App Pool) : Yields (slabAlloc count) s
    (fun b t => b ∉ s.notes.taken ∧ t.notes = s.notes.withBlock b) fun _ t => t.notes = s.notes := by
  apply yields_bind ((fixes_silent _).yields s)
  intro _ t ht
  apply yields_get_bind
  dsimp only
  split
  · exact yields_throw ht
  · rename_i b hb
    have hfree := List.find?_some hb
    rw [decide_eq_true_eq] at hfree
    refine yields_then rfl (yields_pure ⟨ht ▸ hfree, ?_⟩)
    exact congrArg (withBlock b) ht

theorem run_withCursor {ε α : Type} {m : PoolM CurSt ε α} {c : CursorCtx} {s : Noted App Pool} {a : α}
    {t : Noted CurSt Pool} (h : m.run ⟨⟨c, s.st⟩, s.notes⟩ = .ok a t) :
    (withCursor c m).run s = .ok (a, t.st.cur) ⟨t.st.app, t.notes⟩ := by
  show withCursor c m s = _
  unfold withCursor
  rw [h]

theorem run_withCursor_error {ε α : Type} {m : PoolM CurSt ε α} {c : CursorCtx} {s : Noted App Pool} {r : ε}
    {t : Noted CurSt Pool} (h : m.run ⟨⟨c, s.st⟩, s.notes⟩ = .error r t) :
    (withCursor c m).run s = .error r ⟨t.st.app, t.notes⟩ := by
  show withCursor c m s = _
  unfold withCursor
  rw [h]

theorem yields_withCursor {ε α : Type} {c : CursorCtx} {m : PoolM CurSt ε α} {s : Noted App Pool}
    {P : α × CursorCtx → Noted App Pool → Prop} {E : ε → Noted App Pool → Prop}
    (hm : Yields m ⟨⟨c, s.st⟩, s.notes⟩ (fun a t => P (a, t.st.cur) ⟨t.st.app, t.notes⟩)
      fun r t => E r ⟨t.st.app, t.notes⟩) : Yields (withCursor c m) s P E := by
  cases hr : m.run ⟨⟨c, s.st⟩, s.notes⟩ with
  | ok a t => exact yields_of_run (run_withCursor hr) (hm.run_ok hr)
  | error r t => exact yields_of_error (run_withCursor_error hr) (hm.run_error hr)

theorem undoOpen_notes {b : Nat} {p : Pool} {s : Noted CurSt Pool} (hs : Holds b (p.withBlock b) s) :
    (undoOpen b s).notes = p := by
  show cursorClose b s.st.cur s.notes = p
  rw [hs.holding, cursorClose_holding]

theorem cursorOpenStream_yields {b : Nat} {p : Pool} {s : Noted CurSt Pool} (hs : Shut b (p.withBlock b) s) (name : Bytes) :
    Yields (cursorOpenStream cfg b name) s (fun _ t => Ready b (p.withBlock b) t) fun _ t => t.notes = p := by
  have hshut : ∀ t, Shut b (p.withBlock b) t → (release b t).notes = p := fun t ht => by
    show t.notes.freed b = p
    rw [ht.1.notes_none ht.2, freed_withBlock]
  have hready {ε α : Type} {m : PoolM CurSt ε α} {t : Noted CurSt Pool} (ht : Ready b (p.withBlock b) t)
      (hm : Always (Preserves (Ready b (p.withBlock b))) m) :
      Yields (orUndo (undoOpen b) m) t (fun _ u => Ready b (p.withBlock b) u) fun _ u => u.notes = p :=
    yields_orUndo ((ht.yields hm).imp (fun _ _ hu => hu) fun _ _ hu => undoOpen_notes hu.1)
  refine yields_bind (P := fun _ t => Shut b (p.withBlock b) t) (yields_orUndo (yields_rethrow ?_)) fun path t ht => ?_
  · split
    · exact hs
    · exact hshut s hs
  apply yields_bind (yields_orUndo ((cursorOpenFile_yields ht path).imp (fun _ _ hu => hu) fun _ u hu => hshut u hu))
  intro _ t ht
  apply yields_bind (hready ht (ready_cursorLearn path))
  intro _ t ht
  apply yields_bind (hready ht (ready_silent sight_cursorLearnSize))
  intro _ t ht
  exact yields_then rfl (yields_get_bind (hready ⟨⟨ht.1.notes, ht.1.header⟩, ht.2⟩ (ready_seek _)))

def Placed (p : Pool) (x : Nat × CursorCtx) (t : Noted App Pool) : Prop :=
  x.1 ∉ p.taken ∧ t.notes = p.holding x.1 x.2 ∧ x.2.file.isSome = true ∧ x.2.layout.hdrSize ≤ hdrSizeV2

theorem placed_of_ready {b : Nat} {p : Pool} {c : CursorCtx} {m : PoolM CurSt Status Unit} {t : Noted App Pool}
    (hfree : b ∉ p.taken)
    (hm : Yields m ⟨⟨c, t.st⟩, t.notes⟩ (fun _ u => Ready b (p.withBlock b) u) fun _ u => u.notes = p) :
    Yields (withCursor c m >>= fun x => pure (b, x.2)) t (Placed p) fun _ u => u.notes = p := by
  refine yields_bind (yields_withCursor (P := fun x u => Placed p (b, x.2) u) (hm.imp (fun _ u hu => ?_) fun _ _ hu => hu))
    fun _ _ hu => yields_pure hu
  exact ⟨hfree, hu.1.holding, hu.2, hu.1.header⟩

theorem cursorPlace_yields (name : Bytes) {s : Noted App Pool} {p : Pool} (hs : s.notes = p) :
    Yields (cursorPlace cfg count name window predicate descending) s (Placed p) fun _ t => t.notes = p := by
  apply yields_bind ((slabAlloc_yields count s).imp (fun _ _ ht => ht) fun _ _ ht => ht.trans hs)
  intro b t ht
  rw [hs] at ht
  have hstart (lo hi : Nat) (u : Noted App Pool) (hu : u.notes = p.withBlock b) :
      Shut b (p.withBlock b) ⟨⟨CursorCtx.start name window predicate descending lo hi, u.st⟩, u.notes⟩ :=
    ⟨⟨hu, header_v1⟩, rfl⟩
  split
  · refine yields_bind (yields_orUndo (((level_cursorWindow name).yields t).imp (fun _ _ hu => hu) fun _ u hu => ?_))
      fun w u hu => ?_
    · show u.notes.freed b = p
      rw [hu, ht.2, freed_withBlock]
    · apply placed_of_ready ht.1
      apply yields_orUndo
      refine (cursorOpenSegment_yields _ (hstart w.1 w.2 u (hu.trans ht.2)).1).imp (fun _ _ hv => hv) fun _ _ hv => ?_
      exact undoOpen_notes hv
  · exact placed_of_ready ht.1 (cursorOpenStream_yields (hstart 0 0 t ht.2) name)

theorem cursorAcquire_yields (s : Noted App Pool) :
    Yields (cursorAcquire cfg count h window predicate descending) s (Placed s.notes) fun _ t => t.notes = s.notes := by
  apply yields_get_bind
  dsimp only
  split
  · exact yields_throw rfl
  · rename_i name hname
    refine yields_guard (fun _ => rfl) fun _ => ?_
    split
    · apply yields_bind ((fixes_noting (level_ensureStreamHeader name)).yields s)
      intro _ _ ht
      exact cursorPlace_yields name ht
    · exact cursorPlace_yields name rfl

theorem seekTo_yields {off : Nat} {s : CurSt} (hoff : ¬ (2 ^ 31 ≤ off ∧ s.cur.fileSize < s.cur.layout.hdrSize)) :
    Yields (seekTo off) s (fun _ t => ¬ s.app.env.fault.Fails ∧ sight t = sight s)
      fun _ t => s.app.env.fault.Fails ∧ sight t = sight s := by
  apply yields_get_bind
  apply yields_get_bind
  apply yields_guard (fun hbad => absurd hbad hoff)
  intro _
  have hcall : Yields (onCurEnv call) s (fun _ t => ¬ s.app.env.fault.Fails ∧ sight t = sight s)
      fun _ t => s.app.env.fault.Fails ∧ sight t = sight s :=
    yields_zoom (yields_zoom ((call_yields s.app.env).imp (fun _ _ he => ⟨he.1, rfl⟩)
      fun err _ he => ⟨⟨err, he.1⟩, rfl⟩))
  apply yields_bind hcall
  intro _ t ht
  refine yields_of_run rfl ⟨ht.1, ht.2 ▸ ?_⟩
  show (_, _) = (_, _)
  rw [Option.isSome_map]

/-- The rewind of a cursor with its file open fails exactly when the file system fails its seek; the
file stays open either way. -/
theorem cursorReset_yields {c : CursorCtx} {a : App} (hfile : c.file.isSome = true) (hheader : c.layout.hdrSize ≤ hdrSizeV2) :
    Yields cursorReset ⟨c, a⟩ (fun _ t => ¬ a.env.fault.Fails ∧ sight t = sight ⟨c, a⟩)
      fun _ t => a.env.fault.Fails ∧ sight t = sight ⟨c, a⟩ := by
  apply yields_then rfl
  apply yields_get_bind
  rw [if_pos (show (Option.isSome c.file) = true from hfile)]
  apply yields_get_bind
  apply yields_adaptExcept _
  apply seekTo_yields
  rintro ⟨hoff, hshort⟩
  dsimp only at hoff hshort
  rw [if_neg fun hwhole => absurd hwhole.2.2 (Nat.not_lt.mpr hshort.le)] at hoff
  unfold hdrSizeV2 at hheader
  omega

def Stranded (p : Pool) (t : Noted App Pool) : Prop := ∃ x, Placed p x t

def Undone (ok : Prop) (p : Pool) (t : Noted App Pool) : Prop := ok ∧ t.notes = p ∨ ¬ ok ∧ Stranded p t

theorem cursorOpenDir_yields (s : Noted App Pool) :
    Yields (cursorOpenDir cfg count h window predicate descending) s
      (fun x t => Desk.Rewinds cfg count s h window predicate descending ∧ Placed s.notes x t)
      fun _ t => Undone (Desk.Rewinds cfg count s h window predicate descending) s.notes t := by
  cases hacquire : (cursorAcquire cfg count h window predicate descending).run s with
  | error rc t =>
    have hleft := (cursorAcquire_yields s).run_error hacquire
    exact yields_fails hacquire (.inl ⟨yields_of_error hacquire trivial, hleft⟩)
  | ok x t =>
    obtain ⟨hfree, hnotes, hfile, hheader⟩ := (cursorAcquire_yields s).run_ok hacquire
    have hrewinds (hfault : ¬ t.st.env.fault.Fails) : Desk.Rewinds cfg count s h window predicate descending :=
      yields_of_run hacquire hfault
    have hplaced (c : CursorCtx) (a : App) (hc : sight ⟨c, a⟩ = sight ⟨x.2, t.st⟩) :
        Placed s.notes (x.1, c) ⟨a, t.notes⟩ := by
      obtain ⟨hsame, hlayout⟩ := Prod.mk.injEq _ _ _ _ ▸ hc
      dsimp only at hsame hlayout
      refine ⟨hfree, ?_, hsame.trans hfile, hlayout ▸ hheader⟩
      unfold holding at hnotes ⊢
      rw [hnotes, hsame]
    refine yields_then hacquire (yields_bind (P := fun y u => Desk.Rewinds cfg count s h window predicate descending ∧
      Placed s.notes (x.1, y.2) u) (yields_withCursor ?_) fun y u hu => yields_pure hu)
    refine yields_zoom ((cursorReset_yields hfile hheader).imp (fun _ u hu => ?_) fun _ u hu => .inr ⟨fun hall => ?_, ?_⟩)
    · exact ⟨hrewinds hu.1, hplaced u.cur u.app hu.2⟩
    · exact hall.run_ok hacquire hu.1
    · exact ⟨(x.1, u.cur), hplaced u.cur u.app hu.2⟩

theorem cursorScan_yields {α : Type} {scan : Nat → CurSt → PoolM CurSt Status α} (hscan : ∀ b u, Tends b (scan b u))
    (s : Noted App Pool) : Yields (cursorScan cfg count h window scan) s
      (fun _ t => Desk.Rewinds cfg count s h window none false ∧ t.notes = s.notes)
      fun _ t => Undone (Desk.Rewinds cfg count s h window none false) s.notes t := by
  apply yields_bind (cursorOpenDir_yields s)
  intro x t ht
  apply yields_get_bind
  obtain ⟨hrewinds, hfree, hnotes, -, hheader⟩ := ht
  have hholds : Holds x.1 (s.notes.withBlock x.1) ⟨⟨x.2, t.st⟩, t.notes⟩ := ⟨hnotes, hheader⟩
  have hrun : Tends x.1 (attempt (scan x.1 ⟨x.2, t.st⟩) : PoolM CurSt Status _) := tends_attempt (hscan _ _)
  refine yields_bind (P := fun y u => u.notes = s.notes.holding x.1 y.2) (yields_withCursor ?_) fun y u hu => ?_
  · exact yields_of_run (run_attempt _ _) (hrun _ _ hholds).holding
  · have hclosed : cursorClose x.1 y.2 u.notes = s.notes := by rw [hu, cursorClose_holding]
    apply yields_then rfl
    apply yields_rethrow
    split
    · exact ⟨hrewinds, hclosed⟩
    · exact .inl ⟨hrewinds, hclosed⟩

theorem tsQueryAggregate_yields {cap : AggCap} {agg : Agg} (s : Noted App Pool) :
    Yields (tsQueryAggregate cfg cap count h window agg) s
      (fun _ t => (agg = .COUNT ∧ windowIsUnbounded window = true ∨ Desk.Rewinds cfg count s h window none false) ∧
        t.notes = s.notes)
      fun _ t => Undone (agg = .COUNT ∧ windowIsUnbounded window = true ∨ Desk.Rewinds cfg count s h window none false)
        s.notes t := by
  have hscanned {α : Type} {scan : Nat → CurSt → PoolM CurSt Status α} (hscan : ∀ b u, Tends b (scan b u))
      (hcounts : ¬ (agg = .COUNT ∧ windowIsUnbounded window = true)) :
      Yields (cursorScan cfg count h window scan) s
        (fun _ t => (agg = .COUNT ∧ windowIsUnbounded window = true ∨ Desk.Rewinds cfg count s h window none false) ∧
          t.notes = s.notes)
        fun _ t => Undone (agg = .COUNT ∧ windowIsUnbounded window = true ∨ Desk.Rewinds cfg count s h window none false)
          s.notes t := by
    rw [or_iff_right hcounts]
    exact cursorScan_yields hscan s
  apply yields_get_bind
  dsimp only
  split
  · rename_i hnone
    refine yields_throw (.inl ⟨.inr (yields_get_bind ?_), rfl⟩)
    dsimp only
    rw [hnone]
    exact yields_throw trivial
  · rename_i name hname
    split
    · split
      · rename_i hcount hall
        have hallows : agg = .COUNT ∧ windowIsUnbounded window = true ∨ Desk.Rewinds cfg count s h window none false :=
          .inl ⟨hcount, hall⟩
        refine yields_bind (((level_tsCountAll name).yields s).imp (fun _ _ ht => ⟨hallows, ht⟩) fun _ _ ht => .inl ⟨hallows, ht⟩)
          fun _ _ ht => yields_pure ht
      · rename_i hall
        refine yields_bind (hscanned (fun b u => tends_countScan _ _) fun hc => hall hc.2) fun _ _ ht => yields_pure ht
    · rename_i hvalue
      refine yields_bind (hscanned (fun b u => ?_) fun hc => hvalue hc.1) fun r t ht => ?_
      · exact tends_bind (tends_aggScan _ _ _) fun acc => tends_aggPeek _ _
      · apply yields_guard (fun _ => .inl ht)
        intro _
        exact yields_pure ht

end Opening

end Pool

end ZephyrDB.Ts
