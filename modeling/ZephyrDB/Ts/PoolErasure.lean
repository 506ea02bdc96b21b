import ZephyrDB.Ts.PoolSpec

/-!
With the pool left out, the calls on cursors are those of the cursor model:
each program carries over, and where the slab has a block to give, so do the
open and the aggregate.
-/

set_option autoImplicit false

namespace ZephyrDB.Ts

open Lib

theorem withCursor_seq {ε α β : Type} (c : CursorCtx) (m : CurM ε α) (n : CurM ε β) :
    withCursor c (m >>= fun _ => n) = withCursor c m >>= fun x => withCursor x.2 n := by
  funext a
  show withCursor c (m >>= fun _ => n) a = (withCursor c m >>= fun x => withCursor x.2 n).run a
  rw [EStateM.run_bind]
  cases hr : m.run ⟨c, a⟩ with
  | ok x s =>
    rw [run_withCursor hr]
    show withCursor c (m >>= fun _ => n) a = withCursor s.cur n s.app
    unfold withCursor
    rw [run_then hr rfl]
  | error r s =>
    rw [run_withCursor_error hr]
    exact run_withCursor_error (run_fails hr)

/-- `zdb_ts_cursor_open_dir` of the cursor model as far as its last line. -/
def cursorAcquired (cfg : Cfg) (h : Nat) (window : Window) (predicate : Option (Bytes → Bool))
    (descending : Bool) : AppM Status CursorCtx := do
  let a ← get
  match a.handles h with
  | none => throw .ERR_INVAL
  | some name =>
    if !a.cfgSet then throw .ERR_INVAL
    if !cfg.segmented then onEnv (ensureStreamHeader cfg name)
    onEnv (orFail .ERR_NOMEM call)
    if cfg.segmented then
      let (segLo, segHi) ← cursorWindow cfg name
      let c := CursorCtx.start name window predicate descending segLo segHi
      let (_, c) ← withCursor c (cursorOpenSegment cfg c.curSeg)
      return c
    else
      let c := CursorCtx.start name window predicate descending 0 0
      let (_, c) ← withCursor c (cursorOpenStream cfg name)
      return c

theorem cursorOpenDir_two_stages (cfg : Cfg) (h : Nat) (window : Window) (predicate : Option (Bytes → Bool))
    (descending : Bool) : cursorOpenDir cfg h window predicate descending =
      cursorAcquired cfg h window predicate descending >>= fun c => withCursor c cursorReset >>= fun y => pure y.2 := by
  unfold cursorOpenDir cursorAcquired
  rw [bind_assoc]
  congr 1
  funext a
  dsimp only
  cases a.handles h with
  | none => rfl
  | some name =>
    dsimp only
    split_ifs <;> simp only [withCursor_seq, bind_assoc, pure_bind]

namespace Pool

section Plain
variable {cfg : Cfg} {b : Nat}

theorem plain_cursorLearnLayout (path : Path) : Carries Noted.st (cursorLearnLayout path) (Ts.cursorLearnLayout path) := by
  apply carries_bind (carries_silent _)
  intro _
  apply carries_note _
  apply carries_bind (carries_silent _)
  intro rd
  apply carries_note _
  cases rd with
  | error err => exact carries_pure _
  | ok raw =>
    refine carries_ite (carries_pure _) (carries_ite (carries_pure _) (carries_ite (carries_throw _) (carries_pure _)))

theorem plain_onStack {σ ε α : Type} (m : EStateM ε σ α) : Carries Noted.st (orUndo undoStack (silent m)) m :=
  carries_orUndo (fun _ => rfl) (carries_silent m)

theorem plain_ensureHeaderEx (streamName : Bytes) (path : Path) (base : UInt64) :
    Carries Noted.st (ensureHeaderEx cfg streamName path base) (Ts.ensureHeaderEx cfg streamName path base) := by
  apply carries_bind (carries_silent _)
  intro _
  apply carries_note _
  apply carries_bind (plain_onStack _)
  intro raw
  refine carries_ite ?_ (carries_note _ (carries_ite (carries_throw _) (carries_ite ?_ ?_)))
  · apply carries_bind (plain_onStack _)
    intro _
    apply carries_bind (plain_onStack _)
    intro wr
    apply carries_note _
    exact carries_guard (carries_pure _)
  · apply carries_guard
    apply carries_bind (carries_silent _)
    intro _
    exact carries_pure _
  · apply carries_bind (carries_silent _)
    intro _
    exact carries_pure _

theorem plain_ensureStreamHeader (name : Bytes) :
    Carries Noted.st (ensureStreamHeader cfg name) (Ts.ensureStreamHeader cfg name) :=
  carries_bind (carries_rethrow _) fun _ => carries_bind (plain_ensureHeaderEx _ _ _) fun _ => carries_pure _

theorem plain_learnNewest (name : Bytes) (lowest highest : Nat) :
    Carries Noted.st (learnNewest cfg name lowest highest) (Ts.learnNewest cfg name lowest highest) := by
  apply carries_bind (carries_silent _)
  intro _
  apply carries_bind (carries_rethrow _)
  intro path
  apply carries_bind (carries_noting (plain_ensureHeaderEx _ _ _))
  intro _
  apply carries_bind (carries_silent _)
  intro _
  apply carries_bind (carries_silent _)
  intro _
  exact carries_silent _

theorem plain_scanSegments : Carries Noted.st (scanSegments cfg) (Ts.scanSegments cfg) := by
  apply carries_bind (carries_silent _)
  intro slot
  apply carries_ite (carries_pure _)
  apply carries_guard
  apply carries_bind (carries_silent _)
  intro entries
  refine carries_ite ?_ (plain_learnNewest _ _ _)
  apply carries_bind (carries_silent _)
  intro _
  exact plain_learnNewest _ _ _

theorem plain_countFile (path : Path) : Carries Noted.st (countFile path) (Ts.countFile path) := by
  apply carries_bind (carries_silent _)
  intro size
  cases size with
  | error err => exact carries_pure _
  | ok size =>
    apply carries_bind (carries_attempt (plain_cursorLearnLayout path))
    intro layout
    cases layout <;> exact carries_pure _

theorem plain_countSegments (name : Bytes) (seqs : List Nat) :
    Carries Noted.st (countSegments cfg name seqs) (Ts.countSegments cfg name seqs) := by
  induction seqs with
  | nil => exact carries_pure _
  | cons seq rest ih =>
    apply carries_bind (carries_rethrow _)
    intro path
    apply carries_bind (plain_countFile path)
    intro n
    apply carries_bind ih
    intro _
    exact carries_pure _

theorem plain_countStream (name : Bytes) : Carries Noted.st (countStream cfg name) (Ts.countStream cfg name) := by
  apply carries_bind (carries_rethrow _)
  intro path
  apply carries_bind (carries_silent _)
  intro size
  cases size with
  | error err => cases err <;> first | exact carries_pure _ | exact carries_throw _
  | ok size =>
    apply carries_bind (carries_attempt (plain_cursorLearnLayout path))
    intro layout
    cases layout <;> exact carries_pure _

theorem plain_tsCountAll (name : Bytes) : Carries Noted.st (tsCountAll cfg name) (Ts.tsCountAll cfg name) := by
  apply carries_get_bind
  intro s
  apply carries_guard
  dsimp only
  generalize (s.st.slotFind name).map s.st.slotAt = slot
  refine carries_ite ?_ (carries_bind (carries_noting (plain_countStream name)) fun _ => carries_pure _)
  cases slot with
  | none => exact carries_bind (carries_throw _) fun _ => carries_pure _
  | some slot => exact carries_bind (carries_noting (plain_countSegments name _)) fun _ => carries_pure _

theorem plain_cursorWindow (name : Bytes) : Carries Noted.st (cursorWindow cfg name) (Ts.cursorWindow cfg name) := by
  apply carries_bind (carries_silent _)
  intro _
  apply carries_get_bind
  intro s
  dsimp only
  cases s.st.slotFind name with
  | none => exact carries_throw _
  | some i =>
    apply carries_bind (carries_adaptExcept _ (carries_noting plain_scanSegments))
    intro _
    apply carries_get_bind
    intro _
    exact carries_pure _

theorem plain_cursorOpenFile (path : Path) : Carries Noted.st (cursorOpenFile b path) (Ts.cursorOpenFile path) :=
  carries_bind (carries_silent _) fun _ => carries_bind (carries_silent _) fun _ =>
    carries_get_bind fun _ => carries_modify fun _ => rfl

theorem plain_cursorLearn (path : Path) : Carries Noted.st (cursorLearn path) (Ts.cursorLearn path) :=
  carries_bind (carries_silent _) fun _ =>
    carries_bind (carries_noting (carries_noting (plain_cursorLearnLayout path))) fun _ => carries_silent _

theorem plain_cursorOpenSegment (seq : Nat) :
    Carries Noted.st (cursorOpenSegment cfg b seq) (Ts.cursorOpenSegment cfg seq) := by
  refine carries_bind (carries_modify fun _ => rfl) fun _ => carries_get_bind fun s => ?_
  apply carries_bind (carries_rethrow _)
  intro path
  apply carries_bind (plain_cursorOpenFile path)
  intro _
  apply carries_bind (carries_silent _)
  intro _
  apply carries_bind (plain_cursorLearn path)
  intro _
  apply carries_get_bind
  intro t
  refine carries_ite (carries_bind (carries_silent _) fun _ => ?_) ?_
  · apply carries_bind (carries_silent _)
    intro _
    apply carries_get_bind
    intro _
    exact carries_silent _
  · apply carries_bind (carries_silent _)
    intro _
    apply carries_get_bind
    intro _
    exact carries_silent _

theorem plain_cursorNextSegment (n : Nat) :
    Carries Noted.st (cursorNextSegment cfg b n) (Ts.cursorNextSegment cfg n) := by
  induction n with
  | zero => exact carries_throw _
  | succ n ih =>
    apply carries_get_bind
    intro s
    apply carries_guard
    apply carries_bind (carries_attempt (plain_cursorOpenSegment _))
    intro r
    cases r with
    | ok _ => exact carries_pure _
    | error rc => exact carries_bind (carries_silent _) fun _ => ih

theorem plain_cursorReadFileRecord (n : Nat) :
    Carries Noted.st (cursorReadFileRecord cfg b n) (Ts.cursorReadFileRecord cfg n) := by
  induction n with
  | zero => exact carries_throw _
  | succ n ih =>
    apply carries_get_bind
    intro s
    apply carries_guard
    apply carries_bind (carries_silent _)
    intro raw
    refine carries_ite (carries_guard ?_) (carries_ite (carries_throw _) (carries_ite ?_ ?_))
    · apply carries_bind (carries_adaptExcept _ (plain_cursorNextSegment _))
      intro _
      exact ih
    · apply carries_bind (carries_silent _)
      intro _
      exact carries_pure _
    · apply carries_bind (carries_silent _)
      intro _
      exact carries_pure _

theorem plain_cursorNextFile (n : Nat) : Carries Noted.st (cursorNextFile cfg b n) (Ts.cursorNextFile cfg n) := by
  induction n with
  | zero => exact carries_pure _
  | succ n ih =>
    apply carries_get_bind
    intro s
    apply carries_ite (carries_pure _)
    apply carries_bind (carries_attempt (plain_cursorReadFileRecord _))
    intro r
    rcases r with rc | raw
    · cases rc <;>
        first | exact carries_throw _ | exact carries_bind (carries_silent _) fun _ => carries_pure _
    · apply carries_get_bind
      intro t
      apply carries_bind (carries_silent _)
      intro sample
      rcases sample with rc | sample
      · cases rc <;> first | exact ih | exact carries_throw _
      · exact carries_ite (carries_bind (carries_silent _) fun _ => carries_pure _) ih

theorem plain_cursorNext : Carries Noted.st (cursorNext cfg b) (Ts.cursorNext cfg) := by
  have hfound (n : Nat) {k : Option (Bytes × Sample) → PoolM CurSt Status (Bytes × Sample)}
      {k' : Option (Bytes × Sample) → CurM Status (Bytes × Sample)} (hsome : ∀ x, k (some x) = pure x)
      (hsome' : ∀ x, k' (some x) = pure x) (hnone : Carries Noted.st (k none) (k' none)) :
      Carries Noted.st (cursorNextFile cfg b n >>= k) (Ts.cursorNextFile cfg n >>= k') := by
    apply carries_bind (plain_cursorNextFile n)
    intro found
    cases found with
    | some x =>
      rw [hsome, hsome']
      exact carries_pure _
    | none => exact hnone
  apply carries_get_bind
  intro s
  refine carries_ite ?_ (hfound _ (fun _ => rfl) (fun _ => rfl) (carries_silent _))
  apply carries_bind (carries_silent _)
  intro r
  rcases r with rc | found
  · cases rc <;> first | exact carries_throw _ | exact hfound _ (fun _ => rfl) (fun _ => rfl) (carries_throw _)
  · exact carries_pure _

theorem plain_undoOpen {α : Type} {m : PoolM CurSt Status α} {m' : CurM Status α} (hm : Carries Noted.st m m') :
    Carries Noted.st (orUndo (undoOpen b) m) m' := carries_orUndo (fun _ => rfl) hm

theorem plain_release {σ α : Type} {m : PoolM σ Status α} {m' : EStateM Status σ α} (hm : Carries Noted.st m m') :
    Carries Noted.st (orUndo (release b) m) m' := carries_orUndo (fun _ => rfl) hm

theorem plain_cursorOpenStream (name : Bytes) :
    Carries Noted.st (cursorOpenStream cfg b name) (Ts.cursorOpenStream cfg name) := by
  apply carries_bind (plain_release (carries_rethrow _))
  intro path
  apply carries_bind (plain_release (plain_cursorOpenFile path))
  intro _
  apply carries_bind (plain_undoOpen (plain_cursorLearn path))
  intro _
  apply carries_bind (plain_undoOpen (carries_silent _))
  intro _
  apply carries_bind (carries_silent _)
  intro _
  apply carries_get_bind
  intro _
  exact plain_undoOpen (carries_silent _)

theorem plain_withCursor {ε α : Type} {m : PoolM CurSt ε α} {m' : CurM ε α} (hm : Carries Noted.st m m') (c : CursorCtx) :
    Carries Noted.st (withCursor c m) (Ts.withCursor c m') := by
  intro s
  obtain ⟨ho, hp⟩ := hm ⟨⟨c, s.st⟩, s.notes⟩
  cases hr : m.run ⟨⟨c, s.st⟩, s.notes⟩ with
  | ok a t =>
    have hr' := Ts.run_withCursor (run_of_outcome (ho.trans (outcome_of_run hr)))
    rw [hp, post_of_run hr] at hr'
    rw [outcome_of_run (run_withCursor hr), post_of_run (run_withCursor hr), outcome_of_run hr', post_of_run hr']
    exact ⟨rfl, rfl⟩
  | error r t =>
    have hr' := Ts.run_withCursor_error (run_of_outcome_error (ho.trans (outcome_of_error hr)))
    rw [hp, post_of_error hr] at hr'
    rw [outcome_of_error (run_withCursor_error hr), post_of_error (run_withCursor_error hr), outcome_of_error hr',
      post_of_error hr']
    exact ⟨rfl, rfl⟩

theorem plain_countScan (n points : Nat) : Carries Noted.st (countScan cfg b n points) (Ts.countScan cfg n points) := by
  induction n generalizing points with
  | zero => exact carries_pure _
  | succ n ih =>
    apply carries_bind (carries_attempt plain_cursorNext)
    intro r
    rcases r with rc | found
    · cases rc <;> first | exact carries_pure _ | exact carries_throw _
    · exact ih _

theorem plain_aggScan (agg : Agg) (n : Nat) (acc : Nat × Float) :
    Carries Noted.st (aggScan cfg b agg n acc) (Ts.aggScan cfg agg n acc) := by
  induction n generalizing acc with
  | zero => exact carries_pure _
  | succ n ih =>
    apply carries_bind (carries_attempt plain_cursorNext)
    intro r
    rcases r with rc | found
    · cases rc <;> first | exact carries_pure _ | exact carries_throw _
    · exact ih _

theorem plain_aggPeek (cap : Nat) (acc : Nat × Float) : Carries Noted.st (aggPeek cfg b cap acc) (Ts.aggPeek cfg cap acc) := by
  refine carries_ite (carries_bind (carries_attempt plain_cursorNext) fun r => ?_) (carries_pure _)
  cases r <;> exact carries_pure _

def Spare (count : Nat) (p : Pool) : Prop := ∃ b < count, b ∉ p.taken

theorem slabAlloc_shadows {count : Nat} {s : Noted App Pool} (hspare : Spare count s.notes) :
    Shadows (fun _ => ()) (slabAlloc count) (Ts.onEnv (orFail .ERR_NOMEM call)) s := by
  obtain ⟨b, hb, hfree⟩ := hspare
  have hsome : ((List.range count).find? fun b => decide (b ∉ s.notes.taken)).isSome :=
    List.find?_isSome.mpr ⟨b, List.mem_range.mpr hb, decide_eq_true hfree⟩
  obtain ⟨b', hb'⟩ := Option.isSome_iff_exists.mp hsome
  cases hcall : (Ts.onEnv (orFail .ERR_NOMEM call) : AppM Status Unit).run s.st with
  | ok u a =>
    have hsilent : (silent (Ts.onEnv (orFail Status.ERR_NOMEM call)) : PoolM App Status Unit).run s = .ok u ⟨a, s.notes⟩ :=
      run_zoom hcall
    have hrun : (slabAlloc count).run s = .ok b' ⟨a, s.notes.withBlock b'⟩ := by
      apply run_then hsilent
      refine run_then (show (get : PoolM App Status _).run _ = .ok _ _ from rfl) ?_
      dsimp only
      rw [hb']
      rfl
    unfold Shadows
    rw [outcome_of_run hrun, post_of_run hrun, outcome_of_run hcall, post_of_run hcall]
    exact ⟨rfl, rfl⟩
  | error r a =>
    have hsilent : (silent (Ts.onEnv (orFail Status.ERR_NOMEM call)) : PoolM App Status Unit).run s = .error r ⟨a, s.notes⟩ :=
      run_zoom_error hcall
    have hrun : (slabAlloc count).run s = .error r ⟨a, s.notes⟩ := run_fails hsilent
    unfold Shadows
    rw [outcome_of_error hrun, post_of_error hrun, outcome_of_error hcall, post_of_error hcall]
    exact ⟨rfl, rfl⟩

section Open
variable {count h : Nat} {window : Window} {predicate : Option (Bytes → Bool)} {descending : Bool}

theorem shadows_place {c : CursorCtx} {m : PoolM CurSt Status Unit} {m' : CurM Status Unit} (hm : Carries Noted.st m m')
    (s : Noted App Pool) :
    Shadows Prod.snd (withCursor c m >>= fun x => pure (b, x.2)) (Ts.withCursor c m' >>= fun x => pure x.2) s :=
  shadows_bind (shadows_of_carries (plain_withCursor hm c) s) fun _ t _ => shadows_pure rfl t

theorem cursorAcquire_shadows {s : Noted App Pool} (hspare : Spare count s.notes) :
    Shadows Prod.snd (cursorAcquire cfg count h window predicate descending)
      (cursorAcquired cfg h window predicate descending) s := by
  apply shadows_get_bind
  dsimp only
  cases s.st.handles h with
  | none => exact shadows_throw _ _
  | some name =>
    have hplace : ∀ t : Noted App Pool, t.notes = s.notes → Shadows Prod.snd
        (cursorPlace cfg count name window predicate descending)
        (do
          Ts.onEnv (orFail Status.ERR_NOMEM call)
          if cfg.segmented then
            let (segLo, segHi) ← Ts.cursorWindow cfg name
            let c := CursorCtx.start name window predicate descending segLo segHi
            let (_, c) ← Ts.withCursor c (Ts.cursorOpenSegment cfg c.curSeg)
            return c
          else
            let c := CursorCtx.start name window predicate descending 0 0
            let (_, c) ← Ts.withCursor c (Ts.cursorOpenStream cfg name)
            return c) t := fun t ht => by
      apply shadows_bind (slabAlloc_shadows (ht ▸ hspare))
      intro b u _
      refine shadows_ite (shadows_bind (f := id) ?_ fun w v _ => ?_) (shadows_place (plain_cursorOpenStream name) u)
      · exact shadows_of_carries (plain_release (plain_cursorWindow name)) u
      · exact shadows_place (plain_undoOpen (plain_cursorOpenSegment _)) v
    refine shadows_ite (shadows_throw _ _) (shadows_ite (shadows_bind (f := id) ?_ fun _ t ht => ?_) (hplace s rfl))
    · exact shadows_of_carries (carries_noting (plain_ensureStreamHeader name)) s
    · exact hplace t (((fixes_noting (level_ensureStreamHeader name)).yields s).run_ok ht)

theorem cursorOpenDir_shadows {s : Noted App Pool} (hspare : Spare count s.notes) :
    Shadows Prod.snd (cursorOpenDir cfg count h window predicate descending)
      (Ts.cursorOpenDir cfg h window predicate descending) s := by
  rw [cursorOpenDir_two_stages]
  apply shadows_bind (cursorAcquire_shadows hspare)
  intro x t _
  apply shadows_bind (shadows_of_carries (plain_withCursor (carries_silent _) x.2) t)
  intro _ u _
  exact shadows_pure rfl u

theorem scanClosing_shadows {α : Type} {c : CursorCtx} {m : PoolM CurSt Status α} {m' : CurM Status α}
    (hm : Carries Noted.st m m') (s : Noted App Pool) :
    Shadows id (scanClosing b c m) (Ts.withCursor c m' >>= fun x => pure x.1) s := by
  obtain ⟨ho, hp⟩ := hm ⟨⟨c, s.st⟩, s.notes⟩
  unfold Shadows
  cases hr : m.run ⟨⟨c, s.st⟩, s.notes⟩ with
  | ok a t =>
    have hrun : (scanClosing b c m).run s = .ok a ⟨t.st.app, cursorClose b t.st.cur t.notes⟩ :=
      run_then (run_withCursor (run_attempt_ok hr)) rfl
    have hplain := Ts.run_withCursor (run_of_outcome (ho.trans (outcome_of_run hr)))
    rw [hp, post_of_run hr] at hplain
    rw [outcome_of_run hrun, post_of_run hrun, outcome_then hplain, post_then hplain]
    exact ⟨rfl, rfl⟩
  | error r t =>
    have hrun : (scanClosing b c m).run s = .error r ⟨t.st.app, cursorClose b t.st.cur t.notes⟩ :=
      run_then (run_withCursor (run_attempt_error hr)) rfl
    have hplain := Ts.run_withCursor_error (run_of_outcome_error (ho.trans (outcome_of_error hr)))
    rw [hp, post_of_error hr] at hplain
    rw [outcome_of_error hrun, post_of_error hrun, outcome_of_error (run_fails hplain), post_of_error (run_fails hplain)]
    exact ⟨rfl, rfl⟩

theorem cursorScan_shadows {α : Type} {scan : Nat → CurSt → PoolM CurSt Status α} {scan' : CurSt → CurM Status α}
    (hscan : ∀ b u, Carries Noted.st (scan b u) (scan' u)) {s : Noted App Pool} (hspare : Spare count s.notes) :
    Shadows id (cursorScan cfg count h window scan)
      (do
        let c ← Ts.cursorOpenDir cfg h window none false
        let a ← get
        return (← Ts.withCursor c (scan' ⟨c, a⟩)).1) s :=
  shadows_bind (cursorOpenDir_shadows hspare) fun x t _ => shadows_get_bind (scanClosing_shadows (hscan x.1 _) t)

theorem plain_countPoints (name : Bytes) (u : CurSt) : Carries Noted.st (countPoints cfg name b u)
    (Ts.countScan cfg (cursorFuel cfg u + ((u.app.slotFind name).map fun i => (u.app.slotAt i).ingestUsed).getD 0 + 1) 0) :=
  plain_countScan _ 0

theorem tsQueryAggregate_shadows {cap : AggCap} {agg : Agg} {s : Noted App Pool} (hspare : Spare count s.notes) :
    Shadows id (tsQueryAggregate cfg cap count h window agg) (Ts.tsQueryAggregate cfg cap h window agg) s := by
  unfold Ts.tsQueryAggregate
  apply shadows_get
  dsimp only
  cases hname : s.st.handles h with
  | none =>
    have hcount : (tsQueryCount cfg h window).run s.st = .error .ERR_INVAL s.st := by
      unfold tsQueryCount
      show EStateM.run (match s.st.handles h with | none => _ | some name => _) s.st = _
      rw [hname]
      rfl
    have hopen : (Ts.cursorOpenDir cfg h window none false).run s.st = .error .ERR_INVAL s.st := by
      unfold Ts.cursorOpenDir
      show EStateM.run (match s.st.handles h with | none => _ | some name => _) s.st = _
      rw [hname]
      rfl
    apply shadows_of_same (shadows_throw Status.ERR_INVAL s)
    split
    · exact run_fails hcount
    · exact run_fails hopen
  | some name =>
    refine shadows_ite ?_ ?_
    · have hcount : (tsQueryCount cfg h window).run s.st = (if windowIsUnbounded window then Ts.tsCountAll cfg name
          else do
            let c ← Ts.cursorOpenDir cfg h window none false
            let a ← get
            return (← Ts.withCursor c (Ts.countScan cfg (cursorFuel cfg ⟨c, a⟩ +
              ((a.slotFind name).map fun i => (a.slotAt i).ingestUsed).getD 0 + 1) 0)).1).run s.st := by
        unfold tsQueryCount
        show EStateM.run (match s.st.handles h with | none => _ | some name => _) s.st = _
        rw [hname]
      have hsame {m : AppM Status Nat} (hm : (tsQueryCount cfg h window).run s.st = m.run s.st)
          (k : Nat → AppM Status AggResult) : (tsQueryCount cfg h window >>= k).run s.st = (m >>= k).run s.st := by
        rw [EStateM.run_bind, EStateM.run_bind, hm]
      split
      · rename_i hall
        rw [if_pos hall] at hcount
        exact shadows_of_same (shadows_bind (shadows_of_carries (plain_tsCountAll name) s) fun _ t _ => shadows_pure rfl t)
          (hsame hcount _)
      · rename_i hall
        rw [if_neg hall] at hcount
        exact shadows_of_same (shadows_bind (cursorScan_shadows (fun _ u => plain_countPoints name u) hspare)
          fun _ t _ => shadows_pure rfl t) (hsame hcount _)
    · have hscan (b : Nat) (u : CurSt) : Carries Noted.st (aggScan cfg b agg cap.val (0, 0) >>= aggPeek cfg b cap.val)
          (Ts.aggScan cfg agg cap.val (0, 0) >>= Ts.aggPeek cfg cap.val) :=
        carries_bind (plain_aggScan agg cap.val (0, 0)) fun acc => plain_aggPeek cap.val acc
      let result (r : (Nat × Float) × Bool) : AppM Status AggResult := do
        if r.1.1 = 0 then throw .ERR_NOT_FOUND
        return ⟨agg, if agg = .AVG then r.1.2 / Float.ofNat r.1.1 else r.1.2, r.1.1, r.2⟩
      refine shadows_of_same (shadows_bind (cursorScan_shadows hscan hspare) ?_ : Shadows id _ (_ >>= result) s) ?_
      · exact fun r t _ => shadows_ite (shadows_throw _ _) (shadows_pure rfl t)
      · simp only [bind_assoc, pure_bind]
        rfl

end Open

end Plain

end Pool

end ZephyrDB.Ts
