import ZephyrDB.Ts.Lifetime
import ZephyrDB.Ts.Opened

/-!
Reading through a cursor observes: two cursors at one place, over states that
represent the same stores, get the same answers and stay at one place, whatever
the files hold and whether or not the calls on them succeed. A cursor that could
be opened can be opened again, at the same place.
-/

set_option autoImplicit false

namespace ZephyrDB.Ts

open Lib

/-- Two worlds after `o`, with its files. -/
def EnvTwin (o e e' : Sys) : Prop := Leads o o.look e ∧ Leads o o.look e'

/-- Two states that represent what `o` does. -/
def AppTwin (cfg : Cfg) (o a b : App) : Prop := Alike cfg o a ∧ Alike cfg o b

structure CurTwin (cfg : Cfg) (o : App) (s t : CurSt) : Prop where
  cur : t.cur = s.cur
  app : AppTwin cfg o s.app t.app

section Sys
variable {o : Sys} (hc : o.Clean)
include hc

theorem twin_of_leads {ε α : Type} {m : EStateM ε Sys α} (x : Except ε α)
    (h : ∀ e : Sys, e.Clean → e.look = o.look → e.shared = o.shared → outcome m e = x ∧ Leads e e.look (post m e)) :
    Agrees (EnvTwin o) m := by
  have hone : ∀ e, Leads o o.look e → outcome m e = x ∧ Leads o o.look (post m e) := fun e l =>
    have he := h e (l.clean hc) l.look l.shared
    ⟨he.1, l.trans (l.look ▸ he.2)⟩
  intro e e' hee
  obtain ⟨ho, hl⟩ := hone e hee.1
  obtain ⟨ho', hl'⟩ := hone e' hee.2
  exact ⟨ho.trans ho'.symm, hl, hl'⟩

theorem twin_call : Agrees (EnvTwin o) (call : Rc Unit) :=
  twin_of_leads hc (.ok ()) fun e he _ _ => by
    obtain ⟨e', hrun, l⟩ := call_ok he
    exact ⟨outcome_of_run hrun, post_of_run hrun ▸ l⟩

theorem twin_fsOpen (p : Path) : Agrees (EnvTwin o) (fsOpen p false false : Rc Unit) := by
  cases hp : o.look p with
  | none =>
    apply twin_of_leads hc (.error .ENOENT)
    intro e he hlook _
    obtain ⟨e', hrun, l⟩ := fsOpen_missing he false (hlook ▸ hp)
    exact ⟨by simp only [outcome, hrun], by simpa only [post, hrun] using l⟩
  | some bs =>
    apply twin_of_leads hc (.ok ())
    intro e he hlook _
    obtain ⟨e', hrun, l⟩ := fsOpen_existing he false (hlook ▸ hp)
    exact ⟨outcome_of_run hrun, post_of_run hrun ▸ l⟩

theorem twin_fsRead (p : Path) (off len : Nat) : Agrees (EnvTwin o) (fsRead p off len : Rc Bytes) :=
  twin_of_leads hc (.ok (slice ((o.look p).getD []) off len)) fun e he hlook _ => by
    obtain ⟨e', hrun, l⟩ := fsRead_ok he p off len
    exact ⟨by rw [outcome_of_run hrun, hlook], post_of_run hrun ▸ l⟩

theorem twin_fsReadHandle (p : Path) (size off len : Nat) :
    Agrees (EnvTwin o) (fsReadHandle p size off len : Rc Bytes) :=
  twin_of_leads hc (.ok (slice (o.visible p size) off len)) fun e he hlook hshared => by
    obtain ⟨e', hrun, l⟩ := fsReadHandle_ok he p size off len
    have hvisible : e.visible p size = o.visible p size := by
      unfold Env.visible
      rw [Env.contents_eq, Env.contents_eq, hlook, hshared]
    exact ⟨by rw [outcome_of_run hrun, hvisible], post_of_run hrun ▸ l⟩

theorem twin_recordDecodeAs (version : Nat) (baseTsMs : UInt64) (raw : Bytes) :
    Agrees (EnvTwin o) (recordDecodeAs version baseTsMs raw) :=
  twin_of_leads hc (decoded version baseTsMs raw) fun e _ _ _ =>
    ⟨outcome_recordDecodeAs version baseTsMs raw e, leads_of_within (keeps_recordDecodeAs version baseTsMs raw e)⟩

theorem twin_cursorLearnLayout (path : Path) : Agrees (EnvTwin o) (cursorLearnLayout path) := by
  apply agrees_bind (agrees_adaptExcept _ (twin_fsOpen hc path))
  intro _
  apply agrees_bind (agrees_attempt (twin_fsRead hc path 0 hdrSizeV2))
  intro r
  split
  · exact agrees_pure _
  · exact agrees_ite (agrees_pure _) (agrees_ite (agrees_pure _) (agrees_ite (agrees_throw _) (agrees_pure _)))

end Sys

section Cursor
variable {cfg : Cfg} {o : App} (hc : o.env.Clean)
include hc

omit hc in
theorem twin_onEnv {ε α : Type} {m : EStateM ε Sys α} (h : Agrees (EnvTwin o.env) m) : Agrees (AppTwin cfg o) (onEnv m) :=
  agrees_zoom h (fun _ _ h => ⟨h.1.env, h.2.env⟩) fun _ _ _ _ h l =>
    ⟨{ h.1 with env := l.1 }, { h.2 with env := l.2 }⟩

omit hc in
theorem twin_onApp {ε α : Type} {m : AppM ε α} (h : Agrees (AppTwin cfg o) m) : Agrees (CurTwin cfg o) (onApp m) :=
  agrees_zoom h (fun _ _ h => h.app) fun _ _ _ _ h l => ⟨h.cur, l⟩

omit hc in
theorem twin_onCurEnv {ε α : Type} {m : EStateM ε Sys α} (h : Agrees (EnvTwin o.env) m) :
    Agrees (CurTwin cfg o) (onCurEnv m) :=
  twin_onApp (twin_onEnv h)

omit hc in
theorem twin_updCur {ε : Type} (f : CursorCtx → CursorCtx) : Agrees (CurTwin cfg o) (updCur (ε := ε) f) :=
  agrees_modify fun _ _ h => ⟨congrArg f h.cur, h.app⟩

omit hc in
theorem twin_getCur {ε α : Type} {f : CurSt → CurM ε α}
    (h : ∀ c a b, AppTwin cfg o a b → f ⟨c, b⟩ = f ⟨c, a⟩ ∧ Agrees (CurTwin cfg o) (f ⟨c, a⟩)) :
    Agrees (CurTwin cfg o) (get >>= f) := by
  apply agrees_get_bind
  rintro ⟨c, a⟩ ⟨d, b⟩ ⟨hcur, happ⟩
  obtain rfl : d = c := hcur
  obtain ⟨hsame, hf⟩ := h d a b happ
  exact ⟨_, rfl, hsame, hf⟩

theorem twin_seekTo (off : Nat) : Agrees (CurTwin cfg o) (seekTo off) := by
  apply twin_getCur
  intro c a b _
  refine ⟨rfl, twin_getCur fun c' a' b' _ => ⟨rfl, agrees_guard ?_⟩⟩
  exact agrees_bind (twin_onCurEnv (twin_call hc)) fun _ => twin_updCur _

theorem twin_seekHere : Agrees (CurTwin cfg o) (do toStatus (seekTo (← get).cur.fileOffset) : CurM Status Unit) :=
  twin_getCur fun _ _ _ _ => ⟨rfl, agrees_adaptExcept _ (twin_seekTo hc _)⟩

theorem twin_cursorOpenFile (path : Path) : Agrees (CurTwin cfg o) (cursorOpenFile path) := by
  apply agrees_bind (twin_updCur _)
  intro _
  apply agrees_bind (twin_onCurEnv (agrees_adaptExcept _ (twin_fsOpen hc path)))
  intro _
  apply twin_getCur
  intro c a b hab
  refine ⟨?_, twin_updCur _⟩
  dsimp only
  rw [contents_congr hab.1.env, contents_congr hab.2.env]

theorem twin_cursorLearn (path : Path) : Agrees (CurTwin cfg o) (cursorLearn path) := by
  apply agrees_bind (twin_updCur _)
  intro _
  exact agrees_bind (twin_onCurEnv (twin_cursorLearnLayout hc path)) fun _ => twin_updCur _

theorem twin_cursorLearnSize : Agrees (CurTwin cfg o) cursorLearnSize :=
  agrees_bind (twin_onCurEnv (agrees_adaptExcept _ (twin_call hc))) fun _ => twin_updCur _

theorem twin_cursorOpenSegment (seq : Nat) : Agrees (CurTwin cfg o) (cursorOpenSegment cfg seq) := by
  apply agrees_bind (twin_updCur _)
  intro _
  apply twin_getCur
  intro c a b _
  refine ⟨rfl, ?_⟩
  apply agrees_bind (agrees_rethrow _)
  intro path
  apply agrees_bind (twin_cursorOpenFile hc path)
  intro _
  apply agrees_bind (twin_updCur _)
  intro _
  apply agrees_bind (twin_cursorLearn hc path)
  intro _
  refine twin_getCur fun c' a' b' _ => ⟨rfl, agrees_ite ?_ ?_⟩
  · apply agrees_bind (twin_cursorLearnSize hc)
    intro _
    exact agrees_bind (twin_updCur _) fun _ => twin_seekHere hc
  · exact agrees_bind (twin_updCur _) fun _ => twin_seekHere hc

theorem twin_cursorNextSegment (n : Nat) : Agrees (CurTwin cfg o) (cursorNextSegment cfg n) := by
  induction n with
  | zero => exact agrees_throw _
  | succ n ih =>
    apply twin_getCur
    intro c a b _
    refine ⟨rfl, agrees_guard ?_⟩
    apply agrees_bind (agrees_attempt (twin_cursorOpenSegment hc _))
    intro r
    split
    · exact agrees_pure _
    · exact agrees_bind (twin_updCur _) fun _ => ih

theorem twin_cursorReadHere : Agrees (CurTwin cfg o) cursorReadHere := by
  have hread : Agrees (CurTwin cfg o) cursorRead := by
    apply twin_getCur
    intro c a b _
    refine ⟨rfl, ?_⟩
    dsimp only
    split
    · exact agrees_throw _
    · apply agrees_bind (twin_onCurEnv (agrees_adaptExcept _ (twin_fsReadHandle hc _ _ _ _)))
      intro raw
      exact agrees_bind (twin_updCur _) fun _ => agrees_pure _
  apply twin_getCur
  intro c a b _
  refine ⟨rfl, agrees_ite (agrees_ite (agrees_pure _) ?_) hread⟩
  apply agrees_bind (twin_updCur _)
  intro _
  exact agrees_bind (agrees_adaptExcept _ (twin_seekTo hc _)) fun _ => hread

theorem twin_cursorReadFileRecord (n : Nat) : Agrees (CurTwin cfg o) (cursorReadFileRecord cfg n) := by
  induction n with
  | zero => exact agrees_throw _
  | succ n ih =>
    apply twin_getCur
    intro c a b _
    refine ⟨rfl, agrees_guard (agrees_bind (twin_cursorReadHere hc) fun raw => ?_)⟩
    refine agrees_ite (agrees_guard ?_) (agrees_ite (agrees_throw _) (agrees_ite ?_ ?_))
    · exact agrees_bind (agrees_adaptExcept _ (twin_cursorNextSegment hc _)) fun _ => ih
    · exact agrees_bind (agrees_adaptExcept _ (twin_seekTo hc _)) fun _ => agrees_pure _
    · exact agrees_bind (twin_updCur _) fun _ => agrees_pure _

theorem twin_cursorNextFile (n : Nat) : Agrees (CurTwin cfg o) (cursorNextFile cfg n) := by
  induction n with
  | zero => exact agrees_pure _
  | succ n ih =>
    apply twin_getCur
    intro c a b _
    refine ⟨rfl, agrees_ite (agrees_pure _) ?_⟩
    apply agrees_bind (agrees_attempt (twin_cursorReadFileRecord hc _))
    intro r
    split
    · exact agrees_bind (twin_updCur _) fun _ => agrees_pure _
    · exact agrees_throw _
    apply twin_getCur
    intro c' a' b' _
    refine ⟨rfl, ?_⟩
    apply agrees_bind (twin_onCurEnv (agrees_attempt (twin_recordDecodeAs hc _ _ _)))
    intro r
    split
    · exact ih
    · exact agrees_throw _
    · exact agrees_ite (agrees_bind (twin_updCur _) fun _ => agrees_pure _) ih

theorem twin_cursorNextBuf (slot : StreamCtx) (buf : Bytes) (n : Nat) :
    Agrees (CurTwin cfg o) (cursorNextBuf cfg slot buf n) := by
  induction n with
  | zero => exact agrees_throw _
  | succ n ih =>
    apply twin_getCur
    intro c a b _
    refine ⟨rfl, agrees_guard ?_⟩
    apply agrees_bind (twin_onCurEnv (agrees_attempt (twin_recordDecodeAs hc _ _ _)))
    intro r
    split
    · exact agrees_bind (twin_updCur _) fun _ => ih
    · exact agrees_throw _
    · apply agrees_bind (twin_updCur _)
      intro _
      refine agrees_ite ?_ ih
      exact agrees_bind (twin_updCur _) fun _ => agrees_pure _

theorem twin_tsCtxGetOrAlloc (onNull : Status) : Agrees (AppTwin cfg o) (tsCtxGetOrAlloc cfg onNull) := by
  rintro a b ⟨ha, hb⟩
  cases hup : o.cfgSet with
  | true =>
    obtain ⟨a', hrun, hal, -⟩ := @tsCtxGetOrAlloc_spec cfg _ (ha.env.clean hc) (ha.running.trans hup) onNull
    obtain ⟨b', hrun', hal', -⟩ := @tsCtxGetOrAlloc_spec cfg _ (hb.env.clean hc) (hb.running.trans hup) onNull
    rw [outcome_of_run hrun, outcome_of_run hrun', post_of_run hrun, post_of_run hrun']
    exact ⟨rfl, ha.trans hal, hb.trans hal'⟩
  | false =>
    have hdown : ∀ c : App, c.cfgSet = false → (tsCtxGetOrAlloc cfg onNull).run c = .error onNull c := fun c hset => by
      show (get >>= _ : AppM Status Unit).run c = _
      rw [EStateM.run_bind]
      show (if (!c.cfgSet) = true then _ else _ : AppM Status Unit).run c = _
      rw [if_pos (by simp [hset])]
      rfl
    have hrun := hdown a (ha.running.trans hup)
    have hrun' := hdown b (hb.running.trans hup)
    exact ⟨by simp only [outcome, hrun, hrun'], by simp only [post, hrun, hrun']; exact ⟨ha, hb⟩⟩

theorem twin_cursorNextRam : Agrees (CurTwin cfg o) (cursorNextRam cfg) := by
  apply agrees_bind (twin_onApp (twin_tsCtxGetOrAlloc hc _))
  intro _
  apply twin_getCur
  intro c a b hab
  have hfind : b.slotFind c.streamName = a.slotFind c.streamName := by rw [hab.1.slotFind, hab.2.slotFind]
  dsimp only
  rw [hfind]
  cases a.slotFind c.streamName with
  | none => exact ⟨rfl, agrees_throw _⟩
  | some i =>
    have hslot : b.slotAt i = a.slotAt i := by rw [hab.1.slots, hab.2.slots]
    dsimp only
    rw [hslot]
    refine ⟨rfl, ?_⟩
    split
    · exact agrees_throw _
    · exact twin_cursorNextBuf hc _ _ _

theorem twin_cursorNext : Agrees (CurTwin cfg o) (cursorNext cfg) := by
  apply twin_getCur
  intro c a b hab
  have hfuel : cursorFuel cfg ⟨c, b⟩ = cursorFuel cfg ⟨c, a⟩ := by
    unfold cursorFuel
    dsimp only
    simp only [contents_congr hab.1.env, contents_congr hab.2.env]
  refine ⟨by dsimp only; rw [hfuel], agrees_ite ?_ ?_⟩
  · apply agrees_bind (agrees_attempt (twin_cursorNextRam hc))
    intro r
    split
    · exact agrees_pure _
    · apply agrees_bind (twin_cursorNextFile hc _)
      intro found
      split
      · exact agrees_pure _
      · exact agrees_throw _
    · exact agrees_throw _
  · apply agrees_bind (twin_cursorNextFile hc _)
    intro found
    split
    · exact agrees_pure _
    · exact twin_cursorNextRam hc

theorem twin_cursorReset : Agrees (CurTwin cfg o) cursorReset :=
  agrees_bind (twin_updCur _) fun _ =>
    twin_getCur fun _ _ _ _ => ⟨rfl, agrees_ite (twin_seekHere hc) (agrees_pure _)⟩

theorem twin_cursorOpenStream (name : Bytes) : Agrees (CurTwin cfg o) (cursorOpenStream cfg name) := by
  apply agrees_bind (agrees_rethrow _)
  intro path
  apply agrees_bind (twin_cursorOpenFile hc path)
  intro _
  apply agrees_bind (twin_cursorLearn hc path)
  intro _
  apply agrees_bind (twin_cursorLearnSize hc)
  intro _
  exact agrees_bind (twin_updCur _) fun _ => twin_seekHere hc

theorem twin_cursorWalk (n : Nat) : Agrees (CurTwin cfg o) (cursorWalk cfg n) := by
  induction n with
  | zero => exact agrees_pure _
  | succ n ih =>
    apply agrees_bind (agrees_attempt (twin_cursorNext hc))
    intro r
    exact agrees_bind ih fun rs => agrees_pure _

omit hc in
theorem twin_withCursor {α : Type} {m : CurM Status α} (c : CursorCtx) (hm : Agrees (CurTwin cfg o) m) :
    Agrees (AppTwin cfg o) (withCursor c m) := by
  intro a b hab
  obtain ⟨hout, hpost⟩ := hm ⟨c, a⟩ ⟨c, b⟩ ⟨rfl, hab⟩
  cases hx : outcome m ⟨c, a⟩ with
  | ok x =>
    have ha := run_withCursor (run_of_outcome hx)
    have hb := run_withCursor (run_of_outcome (hout.symm.trans hx))
    rw [outcome_of_run ha, outcome_of_run hb, post_of_run ha, post_of_run hb, hpost.cur]
    exact ⟨rfl, hpost.app⟩
  | error r =>
    have ha := run_withCursor_error (run_of_outcome_error hx)
    have hb := run_withCursor_error (run_of_outcome_error (hout.symm.trans hx))
    refine ⟨by simp only [outcome, ha, hb], ?_⟩
    simp only [post, ha, hb]
    exact hpost.app

end Cursor

section Header
variable {cfg : Cfg} {o : Sys}

theorem twin_updStats {ε : Type} (f : TsStats → TsStats) : Agrees (EnvTwin o) (updStats f : EStateM ε Sys Unit) :=
  agrees_modify fun _ _ h => ⟨⟨h.1.look, h.1.faults, h.1.shared, h.1.written⟩, h.2.look, h.2.faults, h.2.shared, h.2.written⟩

theorem twin_refused {α β : Type} (f : TsStats → TsStats) (r : Status) (g : α → Zdb β) :
    Agrees (EnvTwin o) (updStats f >>= fun _ => throw r >>= g) :=
  agrees_bind (twin_updStats f) fun _ _ _ h => ⟨rfl, h⟩

theorem twin_streamHeaderDecode (raw name : Bytes) : Agrees (EnvTwin o) (streamHeaderDecode raw name) := by
  refine agrees_ite (twin_refused _ _ _) (agrees_ite (twin_refused _ _ _) (agrees_ite ?_ (agrees_ite ?_ ?_)))
  · exact agrees_bind (twin_updStats _) fun _ => twin_refused _ _ _
  · exact agrees_bind (twin_updStats _) fun _ => agrees_throw _
  · exact agrees_pure _

theorem twin_streamHeaderV2Decode (raw name : Bytes) : Agrees (EnvTwin o) (streamHeaderV2Decode raw name) := by
  refine agrees_ite (twin_refused _ _ _) (agrees_ite ?_ (agrees_ite (twin_refused _ _ _) (agrees_pure _)))
  exact agrees_bind (twin_updStats _) fun _ => twin_refused _ _ _

theorem twin_ensureHeaderEx (hc : o.Clean) {name path : Bytes} (h : o.look path ≠ none) (hne : o.look path ≠ some [])
    (baseTsMs : UInt64) : Agrees (EnvTwin o) (ensureHeaderEx cfg name path baseTsMs) := by
  obtain ⟨bs, hlook⟩ := Option.ne_none_iff_exists'.mp h
  have hbs : bs ≠ [] := fun hnil => hne (hnil ▸ hlook)
  have hopen : Agrees (EnvTwin o) (fsOpen path true false : Rc Unit) :=
    twin_of_leads hc (.ok ()) fun e he hsame _ => by
      obtain ⟨e', hrun, l⟩ := fsOpen_existing he true (hsame ▸ hlook)
      exact ⟨outcome_of_run hrun, post_of_run hrun ▸ l⟩
  -- What the check goes on with is what it has read, which is not empty.
  have hread : ∀ {α : Type} {f : Bytes → Zdb α}, (∀ raw, raw.length ≠ 0 → Agrees (EnvTwin o) (f raw)) →
      Agrees (EnvTwin o) (toStatus (fsRead path 0 hdrSizeV2) >>= f) := by
    intro α f hf e e' hee
    obtain ⟨d, hd, l⟩ := fsRead_ok (hee.1.clean hc) path 0 hdrSizeV2
    obtain ⟨d', hd', l'⟩ := fsRead_ok (hee.2.clean hc) path 0 hdrSizeV2
    rw [hee.1.look, hlook, Option.getD_some] at hd
    rw [hee.2.look, hlook, Option.getD_some] at hd'
    rw [outcome_then (run_toStatus hd), outcome_then (run_toStatus hd'), post_then (run_toStatus hd),
      post_then (run_toStatus hd')]
    refine hf _ ?_ d d' ⟨hee.1.trans (hee.1.look ▸ l), hee.2.trans (hee.2.look ▸ l')⟩
    have hpos := List.length_pos_iff.mpr hbs
    unfold slice hdrSizeV2
    rw [List.drop_zero, List.length_take]
    omega
  apply agrees_bind (agrees_adaptExcept _ hopen)
  intro _
  apply hread
  intro raw hraw
  dsimp only
  rw [if_neg hraw]
  refine agrees_ite (agrees_throw _) (agrees_ite (agrees_guard ?_) ?_)
  · exact agrees_bind (twin_streamHeaderV2Decode _ _) fun _ => agrees_pure _
  · exact agrees_bind (twin_streamHeaderDecode _ _) fun _ => agrees_pure _

theorem ensureHeaderEx_empty {name path : Bytes} {e : Sys} (hc : e.Clean) (h : e.look path = some []) (baseTsMs : UInt64) :
    ∃ vb e', (ensureHeaderEx cfg name path baseTsMs).run e = .ok vb e' ∧
      Leads e (Function.update e.look path (some ((buildFormat cfg baseTsMs).header name))) e' := by
  obtain ⟨e₁, h₁, l₁⟩ := fsOpen_existing hc true h
  obtain ⟨e₂, h₂, l₂⟩ := fsRead_ok (l₁.clean hc) path 0 hdrSizeV2
  rw [l₁.look, h] at h₂
  have l₂ := l₁.trans (l₁.look ▸ l₂)
  obtain ⟨e₃, h₃, l₃⟩ := call_ok (l₂.clean hc)
  have l₃ := l₂.trans (l₂.look ▸ l₃)
  obtain ⟨e₄, h₄, l₄⟩ := fsWrite_ok (l₃.clean hc) 0 ((buildFormat cfg baseTsMs).header name)
    (show e₃.look path = some [] by rw [l₃.look, h])
  have l₄ := l₃.trans l₄
  rw [l₃.look, writeAt_nil] at l₄
  refine ⟨((buildFormat cfg baseTsMs).version, (buildFormat cfg baseTsMs).baseTs), e₄, ?_, l₄⟩
  apply run_then (run_toStatus h₁)
  apply run_then (run_toStatus h₂)
  rw [newHeader_eq]
  apply run_then (run_toStatus h₃)
  apply run_then (run_toStatus h₄)
  dsimp only
  rw [if_neg (by simp)]
  rfl

theorem ensureHeaderEx_again {name path : Bytes} {e e₁ : Sys} {baseTsMs : UInt64} {vb : Nat × UInt64} (hc : e.Clean)
    (h : (ensureHeaderEx cfg name path baseTsMs).run e = .ok vb e₁) {e' : Sys} (l : Leads e₁ e₁.look e') :
    Leads e e₁.look e₁ ∧
      ∃ vb' e'', (ensureHeaderEx cfg name path baseTsMs).run e' = .ok vb' e'' ∧ Leads e' e'.look e'' := by
  have hwritten : ∀ {wb : Nat × UInt64} {d : Sys}, (ensureHeaderEx cfg name path baseTsMs).run e = .ok wb d →
      Leads e (Function.update e.look path (some ((buildFormat cfg baseTsMs).header name))) d →
      Leads e e₁.look e₁ ∧
        ∃ vb' e'', (ensureHeaderEx cfg name path baseTsMs).run e' = .ok vb' e'' ∧ Leads e' e'.look e'' := by
    intro wb d hrun ld
    obtain ⟨-, rfl⟩ := EStateM.Result.ok.inj (h.symm.trans hrun)
    have hhere : e'.look path = some ((buildFormat cfg baseTsMs).header name ++ []) := by
      rw [l.look, ld.look, Function.update_self, List.append_nil]
    obtain ⟨e'', hagain, l'⟩ := ensureHeaderEx_existing (l.clean (ld.clean hc)) hhere baseTsMs
    exact ⟨ld.look ▸ ld, _, e'', hagain, l'⟩
  by_cases hnone : e.look path = none
  · obtain ⟨d, hrun, ld⟩ := @ensureHeaderEx_new cfg name _ _ hc hnone baseTsMs
    exact hwritten hrun ld
  by_cases hnil : e.look path = some []
  · obtain ⟨wb, d, hrun, ld⟩ := @ensureHeaderEx_empty cfg name _ _ hc hnil baseTsMs
    exact hwritten hrun ld
  have htwin := @twin_ensureHeaderEx cfg _ hc name _ hnone hnil baseTsMs
  have hfirst := (htwin e e ⟨Leads.refl e, Leads.refl e⟩).2.1
  rw [post_of_run h] at hfirst
  obtain ⟨hout, hpost⟩ := htwin e e' ⟨Leads.refl e, hfirst.trans (hfirst.look ▸ l)⟩
  rw [outcome_of_run h] at hout
  have hlook : e'.look = e.look := l.look.trans hfirst.look
  have htwin' := @twin_ensureHeaderEx cfg _ (l.clean (hfirst.clean hc)) name _ (hlook ▸ hnone)
    (hlook ▸ hnil) baseTsMs
  exact ⟨hfirst.look ▸ hfirst, vb, _, run_of_outcome hout.symm, (htwin' e' e' ⟨Leads.refl e', Leads.refl e'⟩).2.1⟩

end Header

section Again
variable {cfg : Cfg} {a : App} {h : Nat} {window : Window} {predicate : Option (Bytes → Bool)} {descending : Bool}

structure Reopens (cfg : Cfg) (h : Nat) (window : Window) (predicate : Option (Bytes → Bool)) (descending : Bool)
    (o : App) (c : CursorCtx) : Prop where
  clean : o.env.Clean
  again : ∀ b, Alike cfg o b → ∃ b', (cursorOpenDir cfg h window predicate descending).run b = .ok c b' ∧ Alike cfg o b'

theorem withCursor_again {o a₁ : App} {c₀ c : CursorCtx} {m : CurM Status Unit} (hc : o.env.Clean)
    (hm : Agrees (CurTwin cfg o) m)
    (hrun : (withCursor c₀ (do m; cursorReset)).run o = .ok ((), c) a₁) :
    Alike cfg o a₁ ∧ ∀ b, Alike cfg o b →
      ∃ b', (withCursor c₀ (do m; cursorReset)).run b = .ok ((), c) b' ∧ Alike cfg o b' := by
  have htwin : Agrees (AppTwin cfg o) (withCursor c₀ (do m; cursorReset)) :=
    twin_withCursor c₀ (agrees_bind hm fun _ => twin_cursorReset hc)
  refine ⟨post_of_run hrun ▸ (htwin o o ⟨Alike.refl cfg o, Alike.refl cfg o⟩).2.1, fun b hb => ?_⟩
  obtain ⟨hout, hpost⟩ := htwin o b ⟨Alike.refl cfg o, hb⟩
  rw [outcome_of_run hrun] at hout
  exact ⟨_, run_of_outcome hout.symm, hpost.2⟩

theorem run_call_alike {b : App} (hc : b.env.Clean) :
    ∃ b', (onEnv (orFail .ERR_NOMEM call) : AppM Status Unit).run b = .ok () b' ∧ Alike cfg b b' := by
  obtain ⟨e, hcall, l⟩ := call_ok hc
  exact ⟨{ b with env := e }, run_onEnv (run_orFail hcall), alike_env b l⟩

theorem ensureStreamHeader_again {name : Bytes} {e e₁ : Sys} (hc : e.Clean)
    (hrun : (ensureStreamHeader cfg name).run e = .ok () e₁) :
    e₁.Clean ∧ ∀ e', Leads e₁ e₁.look e' →
      ∃ e'', (ensureStreamHeader cfg name).run e' = .ok () e'' ∧ Leads e' e'.look e'' := by
  unfold ensureStreamHeader at hrun ⊢
  obtain ⟨path, d, hpath, hrest⟩ := of_run_bind hrun
  obtain ⟨hbuild, rfl⟩ := run_rethrow.mp hpath
  obtain ⟨vb, d, hcheck, hend⟩ := of_run_bind hrest
  cases hend
  refine ⟨(ensureHeaderEx_again hc hcheck (Leads.refl _)).1.clean hc, fun e' l => ?_⟩
  obtain ⟨-, vb', e'', hagain, l'⟩ := ensureHeaderEx_again hc hcheck l
  exact ⟨e'', run_then (run_rethrow.mpr ⟨hbuild, rfl⟩) (run_then hagain rfl), l'⟩

theorem reopens_unsegmented {c : CursorCtx} {a₁ : App} (hc : a.env.Clean) (hs : cfg.segmented = false)
    (hrun : (cursorOpenDir cfg h window predicate descending).run a = .ok c a₁) :
    ∃ o, Reopens cfg h window predicate descending o c ∧ Alike cfg o a₁ := by
  obtain ⟨_, b, hget, hrest⟩ := of_run_bind hrun
  cases hget
  cases hh : a.handles h with
  | none =>
    rw [hh] at hrest
    cases hrest
  | some name =>
    rw [hh] at hrest
    dsimp only at hrest
    cases hup : a.cfgSet with
    | false =>
      rw [hup] at hrest
      cases hrest
    | true =>
    rw [hup, hs] at hrest
    obtain ⟨_, b₁, hensure, hrest⟩ := of_run_bind hrest
    obtain ⟨e₁, hensured, hb₁⟩ := of_run_zoom hensure
    obtain ⟨hc₁, hheader⟩ := ensureStreamHeader_again hc hensured
    obtain ⟨_, o, hcall, hrest⟩ := of_run_bind hrest
    obtain ⟨o', hcall', ho⟩ := @run_call_alike cfg b₁ (hb₁ ▸ hc₁)
    obtain ⟨-, rfl⟩ := EStateM.Result.ok.inj (hcall.symm.trans hcall')
    obtain ⟨p, a₂, hwith, hend⟩ := of_run_bind hrest
    cases hend
    have hco : o.env.Clean := ho.env.clean (hb₁ ▸ hc₁)
    obtain ⟨hal, hagain⟩ := withCursor_again hco (twin_cursorOpenStream hco name) hwith
    have henv : Leads e₁ e₁.look o.env := by
      have hleads := ho.env
      rwa [hb₁] at hleads
    refine ⟨o, ⟨hco, fun b hb => ?_⟩, hal⟩
    obtain ⟨e₂, hrun₂, l₂⟩ := hheader b.env (henv.trans (henv.look ▸ hb.env))
    have hb₂ : Alike cfg o { b with env := e₂ } := hb.trans (alike_env b l₂)
    obtain ⟨b₃, hcall₃, hb₃⟩ := @run_call_alike cfg { b with env := e₂ } (hb₂.env.clean hco)
    obtain ⟨b₄, hwith₄, hb₄⟩ := hagain b₃ (hb₂.trans hb₃)
    refine ⟨b₄, ?_, hb₄⟩
    have hhandle : b.handles h = some name := by
      rw [hb.handles, ho.handles, hb₁]
      exact hh
    have hset : b.cfgSet = true := by
      rw [hb.running, ho.running, hb₁]
      exact hup
    unfold cursorOpenDir
    refine run_then (show (get : AppM Status App).run b = .ok b b from rfl) ?_
    dsimp only
    rw [hhandle]
    dsimp only
    rw [hset, hs]
    exact run_then (run_onEnv hrun₂) (run_then hcall₃ (run_then hwith₄ rfl))

theorem cursorWindow_shown {name : Bytes} {lo hi : Nat} {o : App} (hc : a.env.Clean) (hs : cfg.segmented = true)
    (hh : a.handles h = some name) (hrun : (cursorWindow cfg name).run a = .ok (lo, hi) o) :
    o.env.Clean ∧ o.cfgSet = a.cfgSet ∧ a.cfgSet = true ∧ Shown cfg o h name lo hi := by
  obtain ⟨_, b, hctx, hrest⟩ := of_run_bind hrun
  have hup : a.cfgSet = true := by
    by_contra hdown
    rw [run_tsCtxGetOrAlloc_down (by simpa using hdown)] at hctx
    cases hctx
  obtain ⟨b', hctx', hal, -⟩ := @tsCtxGetOrAlloc_spec cfg _ hc hup .ERR_INVAL
  obtain ⟨-, rfl⟩ := EStateM.Result.ok.inj (hctx.symm.trans hctx')
  obtain ⟨_, b', hget, hrest⟩ := of_run_bind hrest
  cases hget
  cases hi : b.slotFind name with
  | none =>
    rw [hi] at hrest
    cases hrest
  | some i =>
    rw [hi] at hrest
    obtain ⟨_, b₃, hscan, hrest⟩ := of_run_bind hrest
    obtain ⟨_, b₄, hget, hend⟩ := of_run_bind hrest
    cases hget
    cases hend
    have hheld := (@settles_onSlot cfg _ _ _ i (@gentle_scanSegments cfg) b).held
    rw [post_of_run (of_run_adapt hscan)] at hheld
    obtain ⟨t, hslot, rfl⟩ := of_run_zoom (of_run_adapt hscan)
    have hwithin := keeps_scanSegments hs ⟨b.slotAt i, b.env⟩
    rw [Keeps, post_of_run hslot] at hwithin
    have hat : ({ b.setSlot i t.slot with env := t.env } : App).slotAt i = t.slot := by
      show (b.setSlot i t.slot).slotAt i = t.slot
      rw [slotAt_setSlot (hasSlot_of_inUse (slotFind_some hi).1), if_pos rfl]
    refine ⟨fun n => ?_, hal.running, hup, (hal.handles ▸ hh : b.handles h = some name), fun _ => ⟨i, ?_, ?_, rfl, rfl⟩,
      fun hno => ?_⟩
    · show t.env.faults n = Fault.none
      rw [hwithin.within.faults]
      exact hal.env.clean hc n
    · exact (slotFind_of_claims (claims_of_held hheld) name).trans hi
    · rw [hat]
      exact (@scanSegments_scanned cfg ⟨b.slotAt i, b.env⟩).run_ok hslot
    · rw [hs] at hno
      cases hno

theorem reopens_segmented {c : CursorCtx} {a₁ : App} (hc : a.env.Clean) (hs : cfg.segmented = true)
    (hrun : (cursorOpenDir cfg h window predicate descending).run a = .ok c a₁) :
    ∃ o, Reopens cfg h window predicate descending o c ∧ Alike cfg o a₁ := by
  obtain ⟨_, b, hget, hrest⟩ := of_run_bind hrun
  cases hget
  cases hh : a.handles h with
  | none =>
    rw [hh] at hrest
    cases hrest
  | some name =>
    rw [hh] at hrest
    dsimp only at hrest
    cases hup : a.cfgSet with
    | false =>
      rw [hup] at hrest
      cases hrest
    | true =>
    rw [hup, hs] at hrest
    obtain ⟨_, b, hcall, hrest⟩ := of_run_bind hrest
    obtain ⟨b', hcall', hb⟩ := @run_call_alike cfg _ hc
    obtain ⟨-, rfl⟩ := EStateM.Result.ok.inj (hcall.symm.trans hcall')
    obtain ⟨⟨lo, hi⟩, o, hwindow, hrest⟩ := of_run_bind hrest
    obtain ⟨hco, hset, hup', hshown⟩ := cursorWindow_shown (h := h) (hb.env.clean hc) hs (hb.handles ▸ hh) hwindow
    obtain ⟨p, a₂, hwith, hend⟩ := of_run_bind hrest
    cases hend
    obtain ⟨hal, hagain⟩ := withCursor_again hco (twin_cursorOpenSegment hco _) hwith
    refine ⟨o, ⟨hco, fun d hd => ?_⟩, hal⟩
    obtain ⟨d₁, hcall₁, hd₁⟩ := @run_call_alike cfg _ (hd.env.clean hco)
    have hod := hd.trans hd₁
    have hshown₁ : Shown cfg d₁ h name lo hi := by
      refine ⟨hod.handles ▸ hshown.handle, fun _ => ?_, fun hno => ?_⟩
      · obtain ⟨i, hfind, hscanned, holdest, hcur⟩ := hshown.slot hs
        exact ⟨i, (hod.slotFind name).trans hfind, by rw [hod.slots]; exact hscanned, by rw [hod.slots]; exact holdest,
          by rw [hod.slots]; exact hcur⟩
      · rw [hs] at hno
        cases hno
    have hup₁ : d₁.cfgSet = true := hod.running.trans (hset.trans hup')
    obtain ⟨d₂, hwindow₂, hd₂⟩ := run_cursorWindow hshown₁ (hod.env.clean hco) hup₁ hs
    obtain ⟨d₃, hwith₃, hd₃⟩ := hagain d₂ (hod.trans hd₂)
    refine ⟨d₃, ?_, hd₃⟩
    unfold cursorOpenDir
    refine run_then (show (get : AppM Status App).run d = .ok d d from rfl) ?_
    dsimp only
    rw [(congrFun hd.handles h).trans hshown.handle]
    dsimp only
    rw [hd.running.trans (hset.trans hup'), hs]
    exact run_then hcall₁ (run_then hwindow₂ (run_then hwith₃ rfl))

/-- A cursor that was opened can be opened again in any state that represents the same stores, at the same
place. -/
theorem cursorOpenDir_again {c : CursorCtx} {a₁ : App} (hc : a.env.Clean)
    (hrun : (cursorOpenDir cfg h window predicate descending).run a = .ok c a₁) :
    ∃ o, Reopens cfg h window predicate descending o c ∧ Alike cfg o a₁ := by
  cases hs : cfg.segmented with
  | true => exact reopens_segmented hc hs hrun
  | false => exact reopens_unsegmented hc hs hrun

end Again

end ZephyrDB.Ts
