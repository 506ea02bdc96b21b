import ZephyrDB.Ts.Aggregate

/-!
The programs that change no segment, no slot and none of the diagnostics: those
that read, those on watermarks, and the bookkeeping around a stream.
-/

set_option autoImplicit false

namespace ZephyrDB.Ts

open Lib

structure Calm (cfg : Cfg) (e e' : Sys) : Prop where
  side : e'.side = e.side
  segments : ∀ name seq bs, e.look (segmentPath cfg name seq) = some bs → e'.look (segmentPath cfg name seq) = some bs

structure App.Calm (cfg : Cfg) (a b : App) : Prop where
  env : Ts.Calm cfg a.env b.env
  slots : ∀ i, b.slotAt i = a.slotAt i
  cfgSet : b.cfgSet = a.cfgSet

def CurSt.Calm (cfg : Cfg) (s t : CurSt) : Prop := App.Calm cfg s.app t.app

section Calm
variable {cfg : Cfg}

theorem calm_chains (cfg : Cfg) : Chains (Calm cfg) where
  refl _ := ⟨rfl, fun _ _ _ h => h⟩
  trans h k := ⟨k.side.trans h.side, fun name seq bs hb => k.segments name seq bs (h.segments name seq bs hb)⟩

theorem appCalm_chains (cfg : Cfg) : Chains (App.Calm cfg) where
  refl a := ⟨(calm_chains cfg).refl a.env, fun _ => rfl, rfl⟩
  trans h k := ⟨(calm_chains cfg).trans h.env k.env, fun i => (k.slots i).trans (h.slots i), k.cfgSet.trans h.cfgSet⟩

theorem curCalm_chains (cfg : Cfg) : Chains (CurSt.Calm cfg) :=
  ⟨fun s => (appCalm_chains cfg).refl s.app, (appCalm_chains cfg).trans⟩

theorem calm_within {P : Path → Prop} (hP : ∀ name seq, ¬ P (segmentPath cfg name seq)) {ε α : Type} {m : EStateM ε Sys α}
    (hw : ∀ e, Keeps (Within P) m e) (hs : Fixes Env.side m) : Always (Calm cfg) m := fun e =>
  ⟨hs e, fun name seq _ hb => ((hw e).lookup _ (hP name seq)).trans hb⟩

theorem calm_still {ε α : Type} {m : EStateM ε Sys α} (hw : ∀ e, Keeps (Within fun _ => False) m e)
    (hs : Fixes Env.side m) : Always (Calm cfg) m := calm_within (fun _ _ h => h) hw hs

theorem calm_call : Always (Calm cfg) call := calm_still keeps_call fixes_call

theorem calm_fsOpen (path : Path) : Always (Calm cfg) (fsOpen path false false) :=
  calm_still (keeps_fsOpen_read path) (fixes_fsOpen _ _ _)

theorem calm_fsRead (path : Path) (off len : Nat) : Always (Calm cfg) (fsRead path off len) :=
  calm_still (keeps_fsRead path off len) (fixes_fsRead _ _ _)

theorem calm_fsStat (path : Path) : Always (Calm cfg) (fsStat path) := calm_still (keeps_fsStat path) (fixes_fsStat _)

theorem calm_fsList (dir : Path) : Always (Calm cfg) (fsList dir) := calm_still (keeps_fsList dir) (fixes_fsList _)

theorem calm_fsOpen_create (path : Path) : Always (Calm cfg) (fsOpen path true false) := fun e => by
  refine ⟨fixes_fsOpen _ _ _ e, fun name seq bs hb => ?_⟩
  refine ((fsOpen_create_yields e path).imp (fun _ t ⟨_, hs⟩ => ?_) fun _ t ⟨_, hs⟩ => ?_).post
    (Q := fun t => t.look (segmentPath cfg name seq) = some bs)
  · rw [hs.look]
    by_cases hp : segmentPath cfg name seq = path
    · rw [hp] at hb ⊢
      rw [Function.update_self, Env.contents_eq, hb, Option.getD_some]
    · rw [Function.update_of_ne hp, hb]
  · rw [hs.look, hb]

theorem calm_cursorLearnLayout (path : Path) : Always (Calm cfg) (cursorLearnLayout path) := by
  have hv1 : Always (Calm cfg) (pure FileLayout.v1 : Zdb FileLayout) := always_pure (calm_chains cfg) _
  apply always_bind (calm_chains cfg) (always_adaptExcept _ (calm_fsOpen _))
  intro _
  apply always_bind (calm_chains cfg) (always_attempt (calm_fsRead _ _ _))
  intro r
  cases r with
  | error _ => exact hv1
  | ok raw =>
    apply always_ite hv1
    apply always_ite hv1
    apply always_ite (always_throw (calm_chains cfg) _)
    exact always_pure (calm_chains cfg) _

theorem calm_probeLayout (path : Path) : Always (Calm cfg) (probeLayout path) := by
  apply always_bind (calm_chains cfg) (always_attempt (calm_fsStat _))
  intro r
  cases r with
  | error _ => exact always_pure (calm_chains cfg) _
  | ok size =>
    apply always_bind (calm_chains cfg) (always_attempt (calm_cursorLearnLayout _))
    intro layout
    cases layout <;> exact always_pure (calm_chains cfg) _

theorem calm_countFile (path : Path) : Always (Calm cfg) (countFile path) := by
  apply always_bind (calm_chains cfg) (always_attempt (calm_fsStat _))
  intro r
  cases r with
  | error _ => exact always_pure (calm_chains cfg) _
  | ok size =>
    apply always_bind (calm_chains cfg) (always_attempt (calm_cursorLearnLayout _))
    intro layout
    cases layout <;> exact always_pure (calm_chains cfg) _

theorem calm_countSegments (name : Bytes) (seqs : List Nat) : Always (Calm cfg) (countSegments cfg name seqs) := by
  induction seqs with
  | nil => exact always_pure (calm_chains cfg) _
  | cons seq seqs ih =>
    apply always_bind (calm_chains cfg) (always_rethrow (calm_chains cfg) _)
    intro path
    apply always_bind (calm_chains cfg) (calm_countFile _)
    intro n
    apply always_bind (calm_chains cfg) ih
    intro _
    exact always_pure (calm_chains cfg) _

theorem calm_countStream (name : Bytes) : Always (Calm cfg) (countStream cfg name) := by
  apply always_bind (calm_chains cfg) (always_rethrow (calm_chains cfg) _)
  intro path
  apply always_bind (calm_chains cfg) (always_attempt (calm_fsStat _))
  intro r
  rcases r with err | size
  · cases err <;> first | exact always_pure (calm_chains cfg) _ | exact always_throw (calm_chains cfg) _
  · apply always_bind (calm_chains cfg) (always_attempt (calm_cursorLearnLayout _))
    intro layout
    cases layout <;> exact always_pure (calm_chains cfg) _

theorem watermark_no_segment {name : Bytes} {path : Path} (h : buildWatermarkPath cfg name = .ok path) (other : Bytes)
    (seq : Nat) : segmentPath cfg other seq ≠ path := by
  rw [buildEntryPath_ok h]
  exact fun heq => segmentEntry_ne_watermarkEntry _ _ _ (tsPath_injective heq)

theorem calm_onEnv {ε α : Type} {m : EStateM ε Sys α} (hm : Always (Calm cfg) m) : Always (App.Calm cfg) (onEnv m) :=
  always_zoom hm fun _ _ h => ⟨h, fun _ => rfl, rfl⟩

theorem calm_get {ε : Type} : Always (App.Calm cfg) (get : AppM ε App) := always_get (appCalm_chains cfg)

theorem calm_bind (h : Nat) (name : Option Bytes) : Always (App.Calm cfg) (modify fun a => a.bind h name : AppM Status Unit) :=
  always_modify fun a => ⟨(calm_chains cfg).refl a.env, fun _ => rfl, rfl⟩

theorem calm_setPending (b : Bool) : Always (App.Calm cfg) (modify fun a => a.setPending b : AppM Status Unit) :=
  always_modify fun a => ⟨(calm_chains cfg).refl a.env, fun i => by
    unfold App.setPending App.slotAt
    cases a.tsCtx <;> rfl, rfl⟩

theorem calm_tsCtxGetOrAlloc (onNull : Status) : Always (App.Calm cfg) (tsCtxGetOrAlloc cfg onNull) := by
  intro a
  apply keeps_get_bind
  dsimp only
  split
  · exact (appCalm_chains cfg).refl a
  · cases hctx : a.tsCtx with
    | some ctx => exact (appCalm_chains cfg).refl a
    | none =>
      apply keeps_bind (appCalm_chains cfg) (calm_onEnv (always_adaptExcept _ calm_call) a)
      intro _ b hb
      have hnone : b.tsCtx = none := by
        obtain ⟨e, -, hb⟩ := of_run_zoom hb
        rw [hb]
        exact hctx
      refine ⟨(calm_chains cfg).refl b.env, fun i => ?_, rfl⟩
      rw [slotAt_zero hnone]
      show ((List.replicate cfg.maxStreams StreamCtx.zero).getD i StreamCtx.zero) = _
      by_cases hi : i < cfg.maxStreams <;> simp [List.getD, hi]

theorem calm_ensureStreamDir : Always (App.Calm cfg) (ensureStreamDir cfg) := by
  have hready : Always (App.Calm cfg) (modify fun a =>
      { a with tsCtx := a.tsCtx.map fun ctx => { ctx with tsDirReady := true } } : AppM Errno Unit) :=
    always_modify fun a => ⟨(calm_chains cfg).refl a.env, fun i => by
      unfold App.slotAt
      cases a.tsCtx <;> rfl, rfl⟩
  apply always_bind (appCalm_chains cfg) calm_get
  intro a
  refine always_ite ?_ (always_pure (appCalm_chains cfg) _)
  apply always_guard (appCalm_chains cfg)
  apply always_bind (appCalm_chains cfg) (calm_onEnv (always_attempt calm_call))
  intro r
  split
  · exact hready
  · apply always_bind (appCalm_chains cfg) (always_throw (appCalm_chains cfg) _)
    intro _
    exact hready
  · exact hready

theorem calm_tsFlushAsync (h : Nat) : Always (App.Calm cfg) (tsFlushAsync cfg h) := by
  apply always_bind (appCalm_chains cfg) calm_get
  intro a
  apply always_guard (appCalm_chains cfg)
  apply always_bind (appCalm_chains cfg) (calm_tsCtxGetOrAlloc _)
  intro _
  apply always_bind (appCalm_chains cfg) calm_get
  intro b
  apply always_guard (appCalm_chains cfg)
  apply always_bind (appCalm_chains cfg) (calm_setPending true)
  intro _
  apply always_bind (appCalm_chains cfg) (calm_onEnv (always_attempt calm_call))
  intro r
  split
  · exact always_pure (appCalm_chains cfg) _
  · apply always_bind (appCalm_chains cfg) (calm_setPending false)
    intro _
    exact always_throw (appCalm_chains cfg) _

theorem calm_appendFlush (h i recSize : Nat) : Always (App.Calm cfg) (appendFlush cfg h i recSize) := by
  apply always_bind (appCalm_chains cfg) calm_get
  intro a
  refine always_ite ?_ (always_pure (appCalm_chains cfg) _)
  apply always_bind (appCalm_chains cfg) (always_attempt (calm_tsFlushAsync h))
  intro r
  split
  · exact always_pure (appCalm_chains cfg) _
  · exact always_pure (appCalm_chains cfg) _
  · exact always_throw (appCalm_chains cfg) _

theorem calm_tsCountAll (name : Bytes) : Always (App.Calm cfg) (tsCountAll cfg name) := by
  refine always_bind (appCalm_chains cfg) calm_get fun a => always_guard (appCalm_chains cfg) (always_ite ?_ ?_)
  · split
    · apply always_bind (appCalm_chains cfg) (always_throw (appCalm_chains cfg) _)
      intro _
      exact always_pure (appCalm_chains cfg) _
    · apply always_bind (appCalm_chains cfg) (calm_onEnv (calm_countSegments _ _))
      intro _
      exact always_pure (appCalm_chains cfg) _
  · apply always_bind (appCalm_chains cfg) (calm_onEnv (calm_countStream _))
    intro _
    exact always_pure (appCalm_chains cfg) _

theorem calm_markPath {name : Bytes} {f : Path → AppM Status Unit}
    (hf : ∀ path, buildWatermarkPath cfg name = .ok path → Always (App.Calm cfg) (f path)) :
    Always (App.Calm cfg) (rethrow ((buildWatermarkPath cfg name).mapError statusFromErrno) >>= f) := fun a => by
  apply keeps_bind (appCalm_chains cfg) (keeps_rethrow (appCalm_chains cfg) _ a)
  intro path b hb
  exact hf path (mapError_ok (run_rethrow.mp hb).1) b

theorem calm_tsWatermarkSet (h : Nat) (tsMs : UInt64) : Always (App.Calm cfg) (tsWatermarkSet cfg h tsMs) := by
  apply always_bind (appCalm_chains cfg) calm_get
  intro a
  split
  · exact always_throw (appCalm_chains cfg) _
  apply always_guard (appCalm_chains cfg)
  apply always_bind (appCalm_chains cfg) (calm_tsCtxGetOrAlloc _)
  intro _
  apply always_bind (appCalm_chains cfg) (always_adaptExcept _ calm_ensureStreamDir)
  intro _
  apply calm_markPath
  intro path hpath
  have hno : ∀ other seq, ¬ segmentPath cfg other seq = path := watermark_no_segment hpath
  refine always_bind (appCalm_chains cfg) (calm_onEnv (calm_within (P := (· = path)) hno ?_ ?_)) fun _ => ?_
  · exact fun e => keeps_adaptExcept _ (keeps_fsOpen (P := (· = path)) rfl true true e)
  · exact fixes_adaptExcept _ (fixes_fsOpen _ _ _)
  refine always_bind (appCalm_chains cfg) (calm_onEnv (calm_within (P := (· = path)) hno ?_ ?_)) fun wr => ?_
  · exact fun e => keeps_adaptExcept _ (keeps_fsWrite (P := (· = path)) rfl _ _ e)
  · exact fixes_adaptExcept _ (fixes_fsWrite _ _ _)
  exact always_ite (always_throw (appCalm_chains cfg) _) (always_pure (appCalm_chains cfg) _)

theorem calm_tsWatermarkGet (h : Nat) : Always (App.Calm cfg) (tsWatermarkGet cfg h) := by
  apply always_bind (appCalm_chains cfg) calm_get
  intro a
  split
  · exact always_throw (appCalm_chains cfg) _
  apply always_guard (appCalm_chains cfg)
  apply always_bind (appCalm_chains cfg) (always_rethrow (appCalm_chains cfg) _)
  intro path
  apply always_bind (appCalm_chains cfg) (calm_onEnv (always_adaptExcept _ (calm_fsOpen _)))
  intro _
  apply always_bind (appCalm_chains cfg) (calm_onEnv (always_adaptExcept _ (calm_fsRead _ _ _)))
  intro raw
  exact always_guard (appCalm_chains cfg) (always_guard (appCalm_chains cfg) (always_pure (appCalm_chains cfg) _))

theorem calm_tsWatermarkClear (h : Nat) : Always (App.Calm cfg) (tsWatermarkClear cfg h) := by
  apply always_bind (appCalm_chains cfg) calm_get
  intro a
  split
  · exact always_throw (appCalm_chains cfg) _
  apply always_guard (appCalm_chains cfg)
  apply calm_markPath
  intro path hpath
  apply calm_onEnv
  refine calm_within (P := (· = path)) (watermark_no_segment hpath) (fun e => ?_) (fixes_adaptExcept _ ?_)
  · exact keeps_adaptExcept _ (keeps_unlinkIfPresent (P := (· = path)) rfl e)
  · apply fixes_bind (fixes_attempt (fixes_fsUnlink _))
    intro r
    split
    · exact fixes_pure _
    · exact fixes_pure _
    · exact fixes_throw _

theorem calm_updCur {ε : Type} (f : CursorCtx → CursorCtx) : Always (CurSt.Calm cfg) (updCur (ε := ε) f) :=
  fun s => (appCalm_chains cfg).refl s.app

theorem calm_getCur {ε : Type} : Always (CurSt.Calm cfg) (get : CurM ε CurSt) := always_get (curCalm_chains cfg)

theorem calm_onApp {ε α : Type} {m : AppM ε α} (hm : Always (App.Calm cfg) m) : Always (CurSt.Calm cfg) (onApp m) :=
  always_zoom hm fun _ _ h => h

theorem calm_onCurEnv {ε α : Type} {m : EStateM ε Sys α} (hm : Always (Calm cfg) m) :
    Always (CurSt.Calm cfg) (onCurEnv m) := calm_onApp (calm_onEnv hm)

theorem calm_seekTo (off : Nat) : Always (CurSt.Calm cfg) (seekTo off) := by
  apply always_bind (curCalm_chains cfg) calm_getCur
  intro s
  apply always_bind (curCalm_chains cfg) calm_getCur
  intro t
  apply always_guard (curCalm_chains cfg)
  apply always_bind (curCalm_chains cfg) (calm_onCurEnv calm_call)
  intro _
  exact calm_updCur _

theorem calm_seekHere : Always (CurSt.Calm cfg) (do
    toStatus (seekTo (← get).cur.fileOffset) : CurM Status Unit) :=
  always_bind (curCalm_chains cfg) calm_getCur fun _ => always_adaptExcept _ (calm_seekTo _)

theorem calm_cursorOpenFile (path : Path) : Always (CurSt.Calm cfg) (cursorOpenFile path) := by
  apply always_bind (curCalm_chains cfg) (calm_updCur _)
  intro _
  apply always_bind (curCalm_chains cfg) (calm_onCurEnv (always_adaptExcept _ (calm_fsOpen _)))
  intro _
  apply always_bind (curCalm_chains cfg) calm_getCur
  intro s
  exact calm_updCur _

theorem calm_cursorLearn (path : Path) : Always (CurSt.Calm cfg) (cursorLearn path) := by
  apply always_bind (curCalm_chains cfg) (calm_updCur _)
  intro _
  apply always_bind (curCalm_chains cfg) (calm_onCurEnv (calm_cursorLearnLayout _))
  intro _
  exact calm_updCur _

theorem calm_cursorLearnSize : Always (CurSt.Calm cfg) cursorLearnSize :=
  always_bind (curCalm_chains cfg) (calm_onCurEnv (always_adaptExcept _ calm_call)) fun _ => calm_updCur _

theorem calm_cursorOpenSegment (seq : Nat) : Always (CurSt.Calm cfg) (cursorOpenSegment cfg seq) := by
  apply always_bind (curCalm_chains cfg) (calm_updCur _)
  intro _
  apply always_bind (curCalm_chains cfg) calm_getCur
  intro s
  apply always_bind (curCalm_chains cfg) (always_rethrow (curCalm_chains cfg) _)
  intro path
  apply always_bind (curCalm_chains cfg) (calm_cursorOpenFile _)
  intro _
  apply always_bind (curCalm_chains cfg) (calm_updCur _)
  intro _
  apply always_bind (curCalm_chains cfg) (calm_cursorLearn _)
  intro _
  refine always_bind (curCalm_chains cfg) calm_getCur fun t => always_ite ?_ ?_
  · apply always_bind (curCalm_chains cfg) calm_cursorLearnSize
    intro _
    apply always_bind (curCalm_chains cfg) (calm_updCur _)
    intro _
    exact calm_seekHere
  · apply always_bind (curCalm_chains cfg) (calm_updCur _)
    intro _
    exact calm_seekHere

theorem calm_cursorNextSegment (n : Nat) : Always (CurSt.Calm cfg) (cursorNextSegment cfg n) := by
  induction n with
  | zero => exact always_throw (curCalm_chains cfg) _
  | succ n ih =>
    apply always_bind (curCalm_chains cfg) calm_getCur
    intro s
    apply always_guard (curCalm_chains cfg)
    apply always_bind (curCalm_chains cfg) (always_attempt (calm_cursorOpenSegment _))
    intro r
    split
    · exact always_pure (curCalm_chains cfg) _
    · apply always_bind (curCalm_chains cfg) (calm_updCur _)
      intro _
      exact ih

theorem calm_cursorRead : Always (CurSt.Calm cfg) cursorRead := by
  apply always_bind (curCalm_chains cfg) calm_getCur
  intro s
  dsimp only
  split
  · exact always_throw (curCalm_chains cfg) _
  · have hread : ∀ f : FileHandle, Always (Calm cfg) (toStatus (fsReadHandle f.path f.size f.pos s.cur.layout.recSize)) :=
      fun f => always_adaptExcept _ (calm_still (keeps_fsReadHandle _ _ _ _) (fixes_fsReadHandle _ _ _ _))
    apply always_bind (curCalm_chains cfg) (calm_onCurEnv (hread _))
    intro raw
    apply always_bind (curCalm_chains cfg) (calm_updCur _)
    intro _
    exact always_pure (curCalm_chains cfg) _

theorem calm_cursorReadHere : Always (CurSt.Calm cfg) cursorReadHere := by
  refine always_bind (curCalm_chains cfg) calm_getCur fun s => always_ite (always_ite ?_ ?_) calm_cursorRead
  · exact always_pure (curCalm_chains cfg) _
  · apply always_bind (curCalm_chains cfg) (calm_updCur _)
    intro _
    apply always_bind (curCalm_chains cfg) (always_adaptExcept _ (calm_seekTo _))
    intro _
    exact calm_cursorRead

theorem calm_cursorReadFileRecord (n : Nat) : Always (CurSt.Calm cfg) (cursorReadFileRecord cfg n) := by
  induction n with
  | zero => exact always_throw (curCalm_chains cfg) _
  | succ n ih =>
    apply always_bind (curCalm_chains cfg) calm_getCur
    intro s
    apply always_guard (curCalm_chains cfg)
    refine always_bind (curCalm_chains cfg) calm_cursorReadHere fun raw => always_ite ?_ ?_
    · apply always_guard (curCalm_chains cfg)
      apply always_bind (curCalm_chains cfg) (always_adaptExcept _ (calm_cursorNextSegment _))
      intro _
      exact ih
    · have hpure := always_pure (ε := Status) (curCalm_chains cfg) raw
      refine always_ite (always_throw (curCalm_chains cfg) _) (always_ite ?_ ?_)
      · apply always_bind (curCalm_chains cfg) (always_adaptExcept _ (calm_seekTo _))
        intro _
        exact hpure
      · apply always_bind (curCalm_chains cfg) (calm_updCur _)
        intro _
        exact hpure

theorem calm_cursorReset : Always (CurSt.Calm cfg) cursorReset := by
  apply always_bind (curCalm_chains cfg) (calm_updCur _)
  intro _
  apply always_bind (curCalm_chains cfg) calm_getCur
  intro _
  exact always_ite calm_seekHere (always_pure (curCalm_chains cfg) _)

theorem calm_cursorOpenStream (name : Bytes) : Always (CurSt.Calm cfg) (cursorOpenStream cfg name) := by
  apply always_bind (curCalm_chains cfg) (always_rethrow (curCalm_chains cfg) _)
  intro path
  apply always_bind (curCalm_chains cfg) (calm_cursorOpenFile _)
  intro _
  apply always_bind (curCalm_chains cfg) (calm_cursorLearn _)
  intro _
  apply always_bind (curCalm_chains cfg) calm_cursorLearnSize
  intro _
  apply always_bind (curCalm_chains cfg) (calm_updCur _)
  intro _
  exact calm_seekHere

theorem calm_withCursor {ε α : Type} {m : CurM ε α} (c : CursorCtx) (hm : Always (CurSt.Calm cfg) m) :
    Always (App.Calm cfg) (withCursor c m) := fun a => by
  have h : App.Calm cfg a (post m ⟨c, a⟩).app := hm ⟨c, a⟩
  have hpost : post (withCursor c m) a = (post m ⟨c, a⟩).app := by
    cases hr : m.run ⟨c, a⟩ with
    | ok x s => rw [post_of_run hr, post_of_run (run_withCursor hr)]
    | error r s => rw [post_of_error hr, post_of_error (run_withCursor_error hr)]
  unfold Keeps
  rw [hpost]
  exact h

end Calm

end ZephyrDB.Ts
