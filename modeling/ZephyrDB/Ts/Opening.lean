import ZephyrDB.Ts.Session

/-!
`zdb_ts_open`, `zdb_ts_close`, `zdb_init` and `zdb_deinit` against the store.
-/

set_option autoImplicit false

namespace ZephyrDB.Ts

open Lib

section Opening
variable {cfg : Cfg} {N U : Bytes → Prop} {a : App} {A : Store}

theorem run_get {ε : Type} (a : App) : (get : AppM ε App).run a = .ok a a := rfl

theorem run_modify {ε : Type} (f : App → App) (a : App) : (modify f : AppM ε Unit).run a = .ok () (f a) := rfl

theorem exec_gives {α : Type} {f : α → Answer} {m : AppM Status α} {r : Except Status α} {Q : App → Prop}
    (h : Gives m a r Q) : (exec f m a).1 = reply f r ∧ Q (exec f m a).2 := by
  obtain ⟨ho, hq⟩ := h
  exact ⟨by rw [exec, ho], hq⟩

theorem World.vacant_eq (hW : World cfg N U a A) {ctx : TsCoreCtx} (hctx : a.tsCtx = some ctx) :
    A.vacant = ctx.streams.findIdx? fun slot => !slot.inUse := by
  rw [Store.vacant, ← hW.table, App.table, hctx]
  simp only [List.findIdx?_map]
  congr 1
  funext slot
  by_cases h : slot.inUse = true <;> simp [slotKey, h]

theorem slotClaim_again (hW : World cfg N U a A) {name : Bytes} {i : Nat} (hi : a.slotFind name = some i) :
    ∃ a', (slotClaim cfg name).run a = .ok () a' ∧ a'.cfgSet = a.cfgSet ∧ a'.slotFind name = some i ∧
      World cfg N U a' (A.setKey i (some (name, if A.users i < 255 then A.users i + 1 else A.users i))) := by
  obtain ⟨hin, hname⟩ := slotFind_some hi
  rw [hW.users_eq hin]
  generalize hcount : (if (a.slotAt i).openCount < 255 then (a.slotAt i).openCount + 1
    else (a.slotAt i).openCount) = count
  have hW' := hW.setCount hi count
  have hat := @slotAt_setSlot _ _ { a.slotAt i with openCount := count } (hasSlot_of_inUse hin) i
  rw [if_pos rfl] at hat
  refine ⟨a.setSlot i { a.slotAt i with openCount := count }, ?_, rfl, ?_, hW'⟩
  · apply run_then (run_get a)
    rw [hi, ← hcount]
    rfl
  · have hfind := hW'.slotFind_eq (i := i) (by rw [hat]; exact hin)
    rwa [hat, show ({ a.slotAt i with openCount := count } : StreamCtx).name = name from hname] at hfind

theorem run_slotClaim_busy (hW : World cfg N U a A) {name : Bytes} {ctx : TsCoreCtx}
    (hctx : a.tsCtx = some ctx) (hnone : a.slotFind name = none) (hvac : A.vacant = none) :
    (slotClaim cfg name).run a = .error .ERR_BUSY a := by
  apply run_then (run_get a)
  rw [hnone]
  dsimp only
  rw [hctx, Option.bind_some, ← hW.vacant_eq hctx, hvac]
  rfl

theorem setSlot_setSlot (a : App) (i : Nat) (slot slot' : StreamCtx) (e : Sys) :
    ({ a.setSlot i slot with env := e } : App).setSlot i slot' = ({ a with env := e } : App).setSlot i slot' := by
  cases h : a.tsCtx <;> simp [App.setSlot, h]

theorem slotClaim_fresh (hW : World cfg N U a A) {name : Bytes} (hN : N name) {ctx : TsCoreCtx}
    (hctx : a.tsCtx = some ctx) (hnone : a.slotFind name = none) {i : Nat} (hvac : A.vacant = some i)
    (hsingle : cfg.segmented = false → SegFiles cfg name (A.logs name) a.env.look) :
    ∃ a', (slotClaim cfg name).run a = .ok () a' ∧ a'.cfgSet = a.cfgSet ∧ a'.slotFind name = some i ∧
      World cfg N (fun n => U n ∨ n = name) a' (A.setKey i (some (name, 1))) := by
  have hvac' := hW.vacant_eq hctx
  rw [hvac] at hvac'
  obtain ⟨hlt, hfree, _⟩ := List.findIdx?_eq_some_iff_getElem.mp hvac'.symm
  obtain ⟨e, h₁, l₁⟩ := call_ok hW.clean
  have hW₁ : World cfg N (fun n => U n ∨ n = name) { a with env := e } A :=
    (hW.alike (alike_env a l₁)).weaken fun _ => .inl
  have hi : HasSlot { a with env := e } i := ⟨ctx, hctx, hlt⟩
  obtain ⟨hst, hbuf, hbound⟩ := hW₁.stored name hN hnone
  have hat := @slotAt_setSlot _ _ (StreamCtx.fresh cfg name) hi i
  rw [if_pos rfl] at hat
  have hclaim := @World.setSlot _ _ _ _ _ hW₁ _ hi (StreamCtx.fresh cfg name)
    (fun _ => ⟨hN, SlotRep.fresh hW₁.clean hst (fun hs => by rw [l₁.look]; exact hsingle hs) hbuf hbound,
      fun j _ hu => slotFind_none.mp hnone j hu, fun _ => .inr (.inr rfl)⟩)
    (fun n hn hother hself => hW₁.stored n hn (slotFind_none.mpr fun j hu => ?_))
  · have hfind := hclaim.slotFind_eq (i := i) (by rw [hat]; rfl)
    rw [hat] at hfind
    refine ⟨({ a with env := e } : App).setSlot i (StreamCtx.fresh cfg name), ?_, rfl, hfind, hclaim⟩
    have hsearch : (a.tsCtx.bind fun ctx => ctx.streams.findIdx? fun slot => !slot.inUse) = some i := by
      rw [hctx, Option.bind_some, ← hvac']
    apply run_then (run_get a)
    rw [hnone]
    dsimp only
    rw [hsearch]
    refine run_then (s := a) (show _ = EStateM.Result.ok () _ from rfl) ?_
    refine run_then (run_onEnv (a := a.setSlot i _) (run_orFail h₁)) ?_
    rw [run_modify, setSlot_setSlot]
  · by_cases hj : j = i
    · subst hj
      have hat' : App.slotAt { a with env := e } j = ctx.streams[j] := by
        rw [slotAt_some (show App.tsCtx { a with env := e } = some ctx from hctx), List.getD_eq_getElem _ _ hlt]
      rw [hat'] at hu
      simp [hu] at hfree
    · exact hother j hj hu

theorem openRecover_spec (hF : Family cfg N) (hW : World cfg N U a A) (hrun : a.cfgSet = true)
    {name : Bytes} {i : Nat} (hi : a.slotFind name = some i) :
    ∃ a', (openRecover cfg name).run a = .ok () a' ∧ World cfg N U a' A ∧ a'.slotFind name = some i ∧
      (cfg.segmented = true → (a'.slotAt i).segsScanned = true) := by
  obtain ⟨a', h₁, hW', hi', hscan⟩ := recoverStream_open hF hW hrun hi
  refine ⟨a', run_then (run_attempt_ok h₁) ?_, hW', hi', hscan⟩
  dsimp only
  rw [if_neg (by omega)]
  rfl

/-- The end of `zdb_ts_open`: the handle is bound and the stream recovered. -/
theorem openEnd_spec (hF : Family cfg N) {name : Bytes} (hN : N name) (h : Nat) {i : Nat}
    (hW : World cfg N (fun n => U n ∨ n = name) a A) (hrun : a.cfgSet = true)
    (hi : a.slotFind name = some i) (hU : cfg.autoRecoverOnOpen = true ∨ U name) :
    ∃ a', (do
        modify fun a => a.bind h (some name)
        if cfg.autoRecoverOnOpen then openRecover cfg name : AppM Status Unit).run a = .ok () a' ∧
      World cfg N U a' (A.bind h (some name)) := by
  have hbind := @World.bind _ _ _ _ _ hW h (some name) fun n hn => (Option.some.inj hn) ▸ hN
  by_cases hauto : cfg.autoRecoverOnOpen = true
  · obtain ⟨a', h₁, hW', hi', hscan⟩ := @openRecover_spec _ _ _ _ _ hF hbind hrun name i hi
    refine ⟨a', run_then (run_modify _ a) ?_, hW'.strengthen hi' hscan⟩
    rw [if_pos hauto]
    exact h₁
  · refine ⟨_, run_then (run_modify _ a) ?_, hbind.weaken fun n hn => ?_⟩
    · rw [if_neg hauto]
      rfl
    · rcases hn with hn | rfl
      · exact hn
      · exact hU.resolve_left hauto

theorem tsOpen_spec (hF : Family cfg N) (hW : World cfg N U a A) {name : Bytes} (hN : N name) (h : Nat)
    (hU : cfg.autoRecoverOnOpen = true ∨ U name) :
    Gives (tsOpen cfg h name) a
      (match (A.openStream cfg h name).1 with | .OK => .ok () | status => .error status)
      fun a' => World cfg N U a' (A.openStream cfg h name).2 := by
  have hadm := hF.admissible name hN
  unfold tsOpen
  dsimp only
  rw [if_neg (by simp [hadm.1])]
  apply gives_then (run_get a)
  by_cases hrun : a.cfgSet = true
  · have hrun' : A.running = true := hW.running ▸ hrun
    rw [if_neg (by simp [hrun])]
    obtain ⟨a₁, h₁, l₁, hsome₁⟩ := @tsCtxGetOrAlloc_spec cfg _ hW.clean hrun .ERR_NOMEM
    have hW₁ := hW.alike l₁
    obtain ⟨a₂, h₂, l₂, hsome₂⟩ := @ensureStreamDir_spec cfg _ hW₁.clean hadm.tsDir_length
    have hW₂ := hW₁.alike l₂
    apply gives_then h₁
    apply gives_then (run_toStatus h₂)
    -- in an unsegmented build the header is written first
    have hheader : ∃ e, World cfg N U { a₂ with env := e } A ∧
        (cfg.segmented = false → SegFiles cfg name (A.logs name) e.look) ∧
        ∀ {k : AppM Status Unit} {r : Except Status Unit} {Q : App → Prop},
          Gives k { a₂ with env := e } r Q →
          Gives (if !cfg.segmented then do
            onEnv (ensureStreamHeader cfg name)
            k else k) a₂ r Q := by
      by_cases hs : cfg.segmented = true
      · refine ⟨a₂.env, hW₂, fun h => (by rw [hs] at h; cases h), fun {k r Q} hk => ?_⟩
        rw [if_neg (by simp [hs])]
        exact hk
      · have hs : cfg.segmented = false := by simpa using hs
        obtain ⟨e, h₃, hW₃, hfiles⟩ := ensureStreamHeader_spec hF hW₂ hN hs
        refine ⟨e, hW₃, fun _ => hfiles, fun {k r Q} hk => ?_⟩
        rw [if_pos (by simp [hs])]
        exact gives_then h₃ hk
    obtain ⟨e, hW₃, hsingle, hskip⟩ := hheader
    apply hskip
    obtain ⟨ctx, hctx⟩ : ∃ ctx, a₂.tsCtx = some ctx := by
      rw [← Option.isSome_iff_exists, hsome₂, hsome₁]
    have hrun₂ : App.cfgSet { a₂ with env := e } = true := l₂.running.trans (l₁.running.trans hrun)
    have hfind := hW₃.find_eq name
    have hup : (!streamNameValid cfg name || !A.running) = false := by simp [hadm.1, hrun']
    cases hf : App.slotFind { a₂ with env := e } name with
    | some i =>
      rw [hf] at hfind
      obtain ⟨a₄, h₄, hrun₄, hi₄, hW₄⟩ := slotClaim_again hW₃ hf
      obtain ⟨a₅, h₅, hW₅⟩ := openEnd_spec hF hN h (hW₄.weaken fun _ => .inl) (hrun₄.trans hrun₂) hi₄ hU
      simp only [Store.openStream, hup, hfind, if_false, Bool.false_eq_true]
      exact gives_then h₄ (gives_ok h₅ hW₅)
    | none =>
      rw [hf] at hfind
      cases hvac : A.vacant with
      | none =>
        simp only [Store.openStream, hup, hfind, hvac, if_false, Bool.false_eq_true]
        refine gives_fail (run_slotClaim_busy hW₃ (show App.tsCtx { a₂ with env := e } = some ctx from hctx) hf hvac) ?_
        exact hW₃
      | some i =>
        obtain ⟨a₄, h₄, hrun₄, hi₄, hW₄⟩ := slotClaim_fresh hW₃ hN
          (show App.tsCtx { a₂ with env := e } = some ctx from hctx) hf hvac hsingle
        obtain ⟨a₅, h₅, hW₅⟩ := openEnd_spec hF hN h hW₄ (hrun₄.trans hrun₂) hi₄ hU
        simp only [Store.openStream, hup, hfind, hvac, if_false, Bool.false_eq_true]
        exact gives_then h₄ (gives_ok h₅ hW₅)
  · have hrun : a.cfgSet = false := by simpa using hrun
    have hrun' : A.running = false := hW.running ▸ hrun
    rw [if_pos (by simp [hrun])]
    have hopen : A.openStream cfg h name = (.ERR_INVAL, A) := by
      unfold Store.openStream
      rw [if_pos (by simp [hrun'])]
    rw [hopen]
    exact gives_fail rfl hW

theorem open_spec (hF : Family cfg N) (hW : World cfg N U a A) {name : Bytes} (hN : N name) (h : Nat)
    (hU : cfg.autoRecoverOnOpen = true ∨ U name) :
    (step cfg a (.open h name)).1 = (A.step cfg (.open h name)).1 ∧
      World cfg N U (step cfg a (.open h name)).2 (A.step cfg (.open h name)).2 := by
  obtain ⟨hr, hw⟩ := exec_gives (f := fun _ => Answer.none) (tsOpen_spec hF hW hN h hU)
  refine ⟨hr.trans ?_, hw⟩
  simp only [Store.step]
  cases (A.openStream cfg h name).1 <;> rfl

theorem World.release (hW : World cfg N U a A) {name : Bytes} {i : Nat} (hi : a.slotFind name = some i)
    (hbuf : A.users i ≤ 1 → (A.logs name).buf = []) :
    ∃ a', (slotRelease i).run a = .ok () a' ∧ World cfg N U a' (A.release name) := by
  obtain ⟨hin, _⟩ := slotFind_some hi
  have hfind := hW.find_eq name
  rw [hi] at hfind
  have husers := hW.users_eq hin
  refine ⟨_, run_modify _ a, ?_⟩
  unfold Store.release
  rw [hfind]
  dsimp only
  by_cases hmany : (a.slotAt i).openCount > 1
  · rw [if_pos hmany, husers, if_pos hmany]
    exact hW.setCount hi _
  · rw [if_neg hmany, husers, if_neg hmany]
    exact hW.vacate hi (hbuf (by omega))

def Below (a : App) : Prop := ∀ i, ¬ Over ⟨a.slotAt i, a.env⟩

theorem closeFlush_spec (hF : Family cfg N) (hW : World cfg N U a A) (name : Bytes)
    (hbelow : Below (post (closeFlush cfg name) a)) :
    ∃ a', (closeFlush cfg name).run a = .ok () a' ∧ World cfg N U a' (A.closeDrain cfg name) ∧
      a'.slotFind name = a.slotFind name := by
  have hfind := hW.find_eq name
  cases hf : a.slotFind name with
  | none =>
    rw [hf] at hfind
    refine ⟨a, ?_, ?_, hf⟩
    · apply run_then (run_get a)
      rw [hf]
      rfl
    · rw [Store.closeDrain, hfind]
      exact hW
  | some i =>
    rw [hf] at hfind
    obtain ⟨hin, hname⟩ := slotFind_some hf
    have husers := hW.users_eq hin
    have hN : N name := hname ▸ hW.mine i hin
    unfold Store.closeDrain
    rw [hfind]
    dsimp only
    by_cases hlast : (a.slotAt i).openCount ≤ 1
    · have hprog : ∀ {r}, (toStatus (onSlot i (flushBufferLocked cfg))).run a = r →
          (closeFlush cfg name).run a = r := by
        intro r hr
        apply run_then (run_get a)
        rw [hf]
        dsimp only
        rw [if_pos hlast]
        exact hr
      rw [husers, if_pos hlast]
      rcases flushBufferLocked_spec (hF.admissible name hN) (hW.rep_find hf) with ⟨_, t, hrun, hrep⟩ | hover
      · obtain ⟨a', h₁, hW', _, _, hi'⟩ := hW.onSlot hF hf (keeps_flushBufferLocked cfg _) hrun hrep
        exact ⟨a', hprog (run_toStatus h₁), hW', hi'⟩
      · exfalso
        have hpost : post (closeFlush cfg name) a = post (onSlot i (flushBufferLocked cfg)) a := by
          unfold post
          rw [hprog rfl]
          exact post_adaptExcept _ _ _
        apply hbelow i
        rw [hpost, onSlot, post_zoom]
        show Over ⟨App.slotAt (a.setSlot i _) i, _⟩
        rw [slotAt_setSlot (hasSlot_of_inUse hin), if_pos rfl]
        exact hover
    · rw [husers, if_neg hlast]
      refine ⟨a, ?_, hW, hf⟩
      apply run_then (run_get a)
      rw [hf]
      dsimp only
      rw [if_neg hlast]
      rfl

theorem close_spec (hF : Family cfg N) (hW : World cfg N U a A) (h : Nat)
    (hbelow : ∀ name, a.handles h = some name → Below (post (closeFlush cfg name) a)) :
    (step cfg a (.close h)).1 = (A.step cfg (.close h)).1 ∧
      World cfg N U (step cfg a (.close h)).2 (A.step cfg (.close h)).2 := by
  suffices hg : Gives (tsClose cfg h) a (.ok ()) fun a' => World cfg N U a' (A.close cfg h) from
    exec_gives (f := fun _ => Answer.none) hg
  apply gives_then (run_get a)
  unfold Store.close
  rw [← hW.handles]
  cases hh : a.handles h with
  | none => exact gives_pure hW
  | some name =>
    obtain ⟨a₁, h₁, hW₁, hfind₁⟩ := closeFlush_spec hF hW name (hbelow name hh)
    apply gives_then (run_attempt_ok h₁)
    apply gives_then (run_get a₁)
    have hunbind : ∀ {b : App} {B : Store}, World cfg N U b B →
        Gives (do
          modify fun a => a.bind h none
          rethrow (.ok ()) : AppM Status Unit) b (.ok ()) fun a' => World cfg N U a' (B.bind h none) :=
      fun hb => gives_then (run_modify _ _) (gives_pure (hb.bind h fun _ hn => by cases hn))
    have hfindA := hW₁.find_eq name
    cases hf : a₁.slotFind name with
    | none =>
      rw [hf] at hfindA
      have hrel : (A.closeDrain cfg name).release name = A.closeDrain cfg name := by
        rw [Store.release, hfindA]
      dsimp only
      rw [hrel]
      exact hunbind hW₁
    | some i =>
      obtain ⟨hin, _⟩ := slotFind_some hf
      have hfind := hW.find_eq name
      rw [← hfind₁, hf] at hfind
      obtain ⟨a₂, h₂, hW₂⟩ := hW₁.release hf fun hlast => by
        have husers : (A.closeDrain cfg name).users i = A.users i := by
          rw [Store.closeDrain, hfind]
          dsimp only
          split <;> rfl
        rw [husers] at hlast
        rw [Store.closeDrain, hfind]
        dsimp only
        rw [if_pos hlast]
        simp [Store.drainLog, Store.setLog]
      exact gives_then h₂ (hunbind hW₂)

theorem Stored.lose {name : Bytes} {L : Log} {look : Path → Option Bytes} (h : Stored cfg name L look) :
    Stored cfg name L.lose look := by
  cases h with
  | files hf => exact .files ⟨hf.file, hf.window, hf.single⟩
  | absent h1 h2 h3 h4 h5 => exact .absent h1 h2 h3 h4 h5
  | legacy h1 h2 h3 h4 h5 => exact .legacy h1 h2 h3 h4 h5

theorem World.restart (hW : World cfg N U a A) {running : Bool} {b : App} (hrun : b.cfgSet = running)
    (hctx : b.tsCtx = none) (hhandles : b.handles = a.handles) (henv : Leads a.env a.env.look b.env) :
    World cfg N U b (A.restart cfg running) where
  clean := henv.clean hW.clean
  running := hrun
  table := by rw [App.table, hctx]; rfl
  pending := by rw [App.pending, hctx]; rfl
  handles := hhandles.trans hW.handles
  bound h name hn := hW.bound h name (hhandles ▸ hn)
  mine i hi := by rw [slotAt_zero hctx] at hi; cases hi
  rep i hi := by rw [slotAt_zero hctx] at hi; cases hi
  unique i _ hi _ _ := by rw [slotAt_zero hctx] at hi; cases hi
  stored name hN _ := by
    rw [henv.look]
    show Stored cfg name (A.logs name).lose _ ∧ _
    cases hf : a.slotFind name with
    | none =>
      obtain ⟨hst, _, hbound⟩ := hW.stored name hN hf
      exact ⟨hst.lose, rfl, hbound⟩
    | some i =>
      have hr := hW.rep_find hf
      exact ⟨hr.stored.lose, rfl, hr.bound⟩
  informed _ i hi := by rw [slotAt_zero hctx] at hi; cases hi

theorem deinit_spec (hW : World cfg N U a A) :
    (step cfg a .deinit).1 = (A.step cfg .deinit).1 ∧
      World cfg N U (step cfg a .deinit).2 (A.step cfg .deinit).2 :=
  ⟨rfl, hW.restart rfl rfl rfl (Leads.refl _)⟩

theorem init_spec (hW : World cfg N U a A) :
    (step cfg a .init).1 = (A.step cfg .init).1 ∧ World cfg N U (step cfg a .init).2 (A.step cfg .init).2 :=
  ⟨rfl, hW.restart rfl rfl rfl ⟨rfl, rfl, rfl, List.suffix_rfl⟩⟩

end Opening

end ZephyrDB.Ts
