import ZephyrDB.Ts.Recover

/-!
Opening, closing, recovering and restarting: the calls that change which
streams are open, against the store.
-/

set_option autoImplicit false

namespace ZephyrDB.Ts

open Lib

theorem run_onEnv {ε α : Type} {m : EStateM ε Sys α} {a : App} {x : α} {e : Sys}
    (h : m.run a.env = .ok x e) : (onEnv m).run a = .ok x { a with env := e } :=
  run_zoom h

section Session
variable {cfg : Cfg} {N U : Bytes → Prop} {a : App} {A : Store}

theorem World.setSlot (hW : World cfg N U a A) {i : Nat} (hi : HasSlot a i) {slot : StreamCtx}
    (hrep : slot.inUse = true → N slot.name ∧ SlotRep cfg slot.name (A.logs slot.name) ⟨slot, a.env⟩ ∧
      (∀ j, j ≠ i → (a.slotAt j).inUse = true → (a.slotAt j).name ≠ slot.name) ∧
      (cfg.segmented = true → slot.segsScanned = true ∨ U slot.name))
    (hgone : ∀ name, N name → (∀ j, j ≠ i → (a.slotAt j).inUse = true → (a.slotAt j).name ≠ name) →
      (slot.inUse = true → slot.name ≠ name) →
      Stored cfg name (A.logs name) a.env.look ∧ (A.logs name).buf = [] ∧
        (A.logs name).past.length < 10000) :
    World cfg N U (a.setSlot i slot) (A.setKey i (slotKey slot)) where
  clean := hW.clean
  running := hW.running
  table := by rw [table_setSlot cfg hi, hW.table]; rfl
  pending := (pending_setSlot hi).trans hW.pending
  handles := hW.handles
  bound := hW.bound
  mine j hj := by
    rw [slotAt_setSlot hi] at hj ⊢
    split at hj
    · rw [if_pos ‹_›]; exact (hrep hj).1
    · rw [if_neg ‹_›]; exact hW.mine j hj
  rep j hj := by
    rw [slotAt_setSlot hi] at hj ⊢
    split at hj
    · rw [if_pos ‹_›]; exact (hrep hj).2.1
    · rw [if_neg ‹_›]; exact hW.rep j hj
  unique j k hj hk hn := by
    rw [slotAt_setSlot hi] at hj hk hn
    rw [slotAt_setSlot hi] at hn
    by_cases hji : j = i <;> by_cases hki : k = i <;> simp only [hji, hki, if_true, if_false] at hj hk hn ⊢
    · exact absurd hn.symm ((hrep hj).2.2.1 k hki hk)
    · exact absurd hn ((hrep hk).2.2.1 j hji hj)
    · exact hW.unique j k hj hk hn
  stored name hN hf := by
    rw [slotFind_none] at hf
    refine hgone name hN (fun j hj hju => ?_) fun hu => ?_
    · have := hf j
      rw [slotAt_setSlot hi, if_neg hj] at this
      exact this hju
    · have := hf i
      rw [slotAt_setSlot hi, if_pos rfl] at this
      exact this hu
  informed hs j hj := by
    rw [slotAt_setSlot hi] at hj ⊢
    split at hj
    · rw [if_pos ‹_›]; exact (hrep hj).2.2.2 hs
    · rw [if_neg ‹_›]; exact hW.informed hs j hj

theorem World.others (hW : World cfg N U a A) {i : Nat} {name : Bytes} (hi : a.slotFind name = some i)
    {j : Nat} (hj : j ≠ i) (hu : (a.slotAt j).inUse = true) : (a.slotAt j).name ≠ name := by
  obtain ⟨hin, hname⟩ := slotFind_some hi
  exact fun heq => hj (hW.unique j i hu hin (heq.trans hname.symm))

theorem World.setCount (hW : World cfg N U a A) {i : Nat} {name : Bytes} (hi : a.slotFind name = some i)
    (count : Nat) : World cfg N U (a.setSlot i { a.slotAt i with openCount := count })
      (A.setKey i (some (name, count))) := by
  obtain ⟨hin, hname⟩ := slotFind_some hi
  have h := @World.setSlot _ _ _ _ _ hW _ (hasSlot_of_inUse hin) { a.slotAt i with openCount := count }
    (fun _ => ⟨hW.mine i hin, ?_, fun j hj hu => hname ▸ hW.others hi hj hu, fun hs => hW.informed hs i hin⟩)
    (fun n hN hother hself => hW.stored n hN (slotFind_none.mpr fun j hu => ?_))
  · rwa [slotKey, if_pos (show _ = true from hin), show (a.slotAt i).name = name from hname] at h
  · have hr := hW.rep i hin
    refine ⟨hr.clean, hr.named, hr.bound, ⟨hr.buffered.inUse, hr.buffered.capacity, hr.buffered.used,
      hr.buffered.fit, hr.buffered.block⟩, ?_⟩
    cases hr.known with
    | learned hl hf =>
      exact .learned (fun hs => ⟨(hl hs).scanned, (hl hs).oldestSeg, (hl hs).curSeg, (hl hs).curSegBytes,
        (hl hs).version, (hl hs).recSize, (hl hs).baseTs⟩) hf
    | unlearned hs hu hst hbuf =>
      exact .unlearned hs ⟨hu.scanned, hu.oldestSeg, hu.curSeg, hu.version, hu.recSize, hu.baseTs⟩ hst hbuf
  · by_cases hj : j = i
    · rw [hj]
      exact hself hin
    · exact hother j hj hu

theorem SlotRep.fresh {name : Bytes} {L : Log} {e : Sys} (hc : e.Clean) (hst : Stored cfg name L e.look)
    (hsingle : cfg.segmented = false → SegFiles cfg name L e.look) (hbuf : L.buf = [])
    (hbound : L.past.length < 10000) : SlotRep cfg name L ⟨StreamCtx.fresh cfg name, e⟩ := by
  refine ⟨hc, rfl, hbound, ⟨rfl, rfl, by simp [StreamCtx.fresh, StreamCtx.zero, hbuf], Nat.zero_le _,
    _, rfl, by simp, by simp [StreamCtx.fresh, StreamCtx.zero, hbuf]⟩, ?_⟩
  by_cases hs : cfg.segmented = true
  · exact .unlearned hs ⟨rfl, rfl, rfl, rfl, rfl, rfl⟩ hst fun h => absurd hbuf h
  · exact .learned (fun h => absurd h hs) (hsingle (by simpa using hs))

theorem SlotRep.stored {name : Bytes} {L : Log} {s : SlotSt} (h : SlotRep cfg name L s) :
    Stored cfg name L s.env.look := by
  cases h.known with
  | learned _ hf => exact .files hf
  | unlearned _ _ hst _ => exact hst

theorem World.vacate (hW : World cfg N U a A) {i : Nat} {name : Bytes} (hi : a.slotFind name = some i)
    (hbuf : (A.logs name).buf = []) : World cfg N U (a.setSlot i StreamCtx.zero) (A.setKey i none) := by
  obtain ⟨hin, hname⟩ := slotFind_some hi
  apply @World.setSlot _ _ _ _ _ hW _ (hasSlot_of_inUse hin) StreamCtx.zero (fun h => by cases h)
  intro n hN hother _
  by_cases hn : n = name
  · subst hn
    have hr := hW.rep_find hi
    exact ⟨hr.stored, hbuf, hr.bound⟩
  · apply hW.stored n hN
    apply slotFind_none.mpr
    intro j hu
    by_cases hj : j = i
    · rw [hj, hname]
      exact fun h => hn h.symm
    · exact hother j hj hu

theorem World.bind (hW : World cfg N U a A) (h : Nat) {name : Option Bytes} (hN : ∀ n, name = some n → N n) :
    World cfg N U (a.bind h name) (A.bind h name) := by
  refine { hW with handles := ?_, bound := fun k n hk => ?_ }
  · show Function.update a.handles h name = Function.update A.handles h name
    rw [hW.handles]
  · by_cases hkh : k = h
    · subst hkh
      exact hN n (by simpa [App.bind] using hk)
    · exact hW.bound k n (by simpa [App.bind, Function.update_of_ne hkh] using hk)

theorem World.setStored (hF : Family cfg N) (hW : World cfg N U a A) {name : Bytes} (hN : N name)
    (hclosed : a.slotFind name = none) {e : Sys} (hw : Within (Owns cfg name) a.env e)
    (hst : Stored cfg name (A.logs name) e.look) : World cfg N U { a with env := e } A := by
  have hne : ∀ i, (a.slotAt i).inUse = true → name ≠ (a.slotAt i).name := fun i hi =>
    fun h => slotFind_none.mp hclosed i hi h.symm
  refine { hW with clean := hw.clean hW.clean, rep := fun i hi => ?_, stored := fun n hn hf => ?_ }
  · exact (hW.rep i hi).frame hw (hF.separate _ _ hN (hW.mine i hi) (hne i hi))
  · by_cases hnn : n = name
    · subst hnn
      exact ⟨hst, (hW.stored n hn hf).2⟩
    · obtain ⟨hs, hrest⟩ := hW.stored n hn hf
      exact ⟨hs.frame hw (hF.separate _ _ hN hn fun h => hnn h.symm), hrest⟩

theorem World.weaken {U' : Bytes → Prop} (hW : World cfg N U a A) (h : ∀ n, U n → U' n) :
    World cfg N U' a A :=
  { hW with informed := fun hs i hi => (hW.informed hs i hi).imp_right (h _) }

theorem World.strengthen {name : Bytes} {i : Nat} (hW : World cfg N (fun n => U n ∨ n = name) a A)
    (hi : a.slotFind name = some i) (hscan : cfg.segmented = true → (a.slotAt i).segsScanned = true) :
    World cfg N U a A := by
  refine { hW with informed := fun hs j hj => ?_ }
  by_cases hji : j = i
  · subst hji
    exact .inl (hscan hs)
  · rcases hW.informed hs j hj with h | h | h
    · exact .inl h
    · exact .inr h
    · exact absurd h (hW.others hi hji hj)

theorem run_tsCtxGetOrAlloc_up (hrun : a.cfgSet = true) (hctx : a.tsCtx.isSome) (onNull : Status) :
    (tsCtxGetOrAlloc cfg onNull).run a = .ok () a := by
  obtain ⟨ctx, hctx⟩ := Option.isSome_iff_exists.mp hctx
  refine run_then (show (get : AppM Status App).run a = .ok a a from rfl) ?_
  dsimp only
  rw [if_neg (by simp [hrun]), hctx]
  rfl

theorem tsCtxGetOrAlloc_spec (hc : a.env.Clean) (hrun : a.cfgSet = true) (onNull : Status) :
    ∃ a', (tsCtxGetOrAlloc cfg onNull).run a = .ok () a' ∧ Alike cfg a a' ∧ a'.tsCtx.isSome := by
  cases hctx : a.tsCtx with
  | some ctx =>
    have hsome : a.tsCtx.isSome = true := by rw [hctx]; rfl
    exact ⟨a, run_tsCtxGetOrAlloc_up hrun hsome onNull, Alike.refl cfg a, hsome⟩
  | none =>
    obtain ⟨e, h₁, l₁⟩ := call_ok hc
    refine ⟨{ a with
      env := e
      tsCtx := some ⟨List.replicate cfg.maxStreams StreamCtx.zero, false, false⟩ }, ?_, ?_, rfl⟩
    · refine run_then (show (get : AppM Status App).run a = .ok a a from rfl) ?_
      dsimp only
      rw [if_neg (by simp [hrun]), hctx]
      exact run_then (run_onEnv (run_orFail h₁)) rfl
    · refine ⟨rfl, ?_, ?_, rfl, fun i => ?_, l₁⟩
      · simp [App.table, hctx, slotKey, StreamCtx.zero]
      · simp [App.pending, hctx]
      · rw [slotAt_zero hctx]
        by_cases hi : i < cfg.maxStreams <;> simp [App.slotAt, List.getD, hi]

theorem run_tsCtxGetOrAlloc_down (hrun : a.cfgSet = false) (onNull : Status) :
    (tsCtxGetOrAlloc cfg onNull).run a = .error onNull a := by
  refine run_then (show (get : AppM Status App).run a = .ok a a from rfl) ?_
  dsimp only
  rw [if_pos (by simp [hrun])]
  rfl

theorem ensureStreamDir_spec (hc : a.env.Clean) (hlen : (tsDir cfg).length < PATH_MAX) :
    ∃ a', (ensureStreamDir cfg).run a = .ok () a' ∧ Alike cfg a a' ∧ a'.tsCtx.isSome = a.tsCtx.isSome := by
  by_cases hready : (a.tsCtx.map TsCoreCtx.tsDirReady).getD false = true
  · refine ⟨a, ?_, Alike.refl cfg a, rfl⟩
    refine run_then (show (get : AppM Errno App).run a = .ok a a from rfl) ?_
    rw [if_neg (by simp [hready])]
    rfl
  · obtain ⟨e, h₁, l₁⟩ := call_ok hc
    refine ⟨{ a with env := e, tsCtx := a.tsCtx.map fun ctx => { ctx with tsDirReady := true } }, ?_, ?_, ?_⟩
    · refine run_then (show (get : AppM Errno App).run a = .ok a a from rfl) ?_
      rw [if_pos (by simpa using hready)]
      dsimp only
      rw [if_neg (Nat.not_le.mpr hlen)]
      exact run_then (run_onEnv (run_attempt_ok h₁)) rfl
    · refine ⟨rfl, ?_, ?_, rfl, fun i => ?_, l₁⟩
      · cases h : a.tsCtx <;> simp [App.table, h]
      · cases h : a.tsCtx <;> simp [App.pending, h]
      · cases h : a.tsCtx <;> simp [App.slotAt, h]
    · simp

theorem ensureStreamHeader_spec (hF : Family cfg N) (hW : World cfg N U a A) {name : Bytes} (hN : N name)
    (hs : cfg.segmented = false) :
    ∃ e, (onEnv (ensureStreamHeader cfg name)).run a = .ok () { a with env := e } ∧
      World cfg N U { a with env := e } A ∧ SegFiles cfg name (A.logs name) e.look := by
  have hadm := hF.admissible name hN
  have hhead : ∀ {x : Nat × UInt64} {e : Sys},
      (ensureHeaderEx cfg name (streamPath cfg name) 0).run a.env = .ok x e →
      (onEnv (ensureStreamHeader cfg name)).run a = .ok () { a with env := e } := by
    intro x e h
    apply run_onEnv
    unfold ensureStreamHeader
    rw [hadm.buildPath]
    exact run_then (show (rethrow _).run _ = .ok (streamPath cfg name) _ from rfl) (run_then h rfl)
  have hstored : Stored cfg name (A.logs name) a.env.look := by
    cases hf : a.slotFind name with
    | none => exact (hW.stored name hN hf).1
    | some i => exact (hW.rep_find hf).stored
  have hfiles : SegFiles cfg name (A.logs name) a.env.look →
      ∃ e, (onEnv (ensureStreamHeader cfg name)).run a = .ok () { a with env := e } ∧
        World cfg N U { a with env := e } A ∧ SegFiles cfg name (A.logs name) e.look := by
    intro hfl
    have hcur := hfl.cur
    rw [segFile_of_single hs, segBytes] at hcur
    obtain ⟨e, h₁, l₁⟩ := @ensureHeaderEx_existing cfg _ _ _ _ _ hW.clean hcur 0
    exact ⟨e, hhead h₁, hW.alike (alike_env a l₁), by rw [l₁.look]; exact hfl⟩
  cases hf : a.slotFind name with
  | some i =>
    cases (hW.rep_find hf).known with
    | unlearned hseg => rw [hs] at hseg; cases hseg
    | learned _ hfl => exact hfiles hfl
  | none =>
    cases hstored with
    | files hfl => exact hfiles hfl
    | legacy hseg => rw [hs] at hseg; cases hseg
    | absent hpast hitems hformat hnone hscan =>
      have hv1 := buildFormat_single hs 0
      obtain ⟨e, h₁, l₁⟩ := @ensureHeaderEx_new cfg name _ _ hW.clean hnone 0
      have hfl : SegFiles cfg name (A.logs name) e.look := by
        rw [l₁.look]
        refine ⟨fun k hlo hhi => ?_, fun h => (by rw [hs] at h; cases h), fun _ => ⟨hpast, hformat.trans hv1⟩⟩
        have hk : k = 0 := by simpa [hpast] using hhi
        have hseg : (A.logs name).seg k = (A.logs name).cur := by simp [hk, SegLog.seg, hpast]
        rw [segFile_of_single hs, Function.update_self, hseg, segBytes, hitems, hformat]
        simp
      refine ⟨e, hhead h₁, ?_, hfl⟩
      exact hW.setStored hF hN hf (l₁.within (owns_streamPath cfg name)) (.files hfl)

theorem setLog_self (A : Store) (name : Bytes) : A.setLog name (A.logs name) = A := by
  simp [Store.setLog]

/-- What `zdb_ts_recover_stream` reports once its body is done. -/
theorem recoverStream_of_body {name : Bytes} {e : Sys} {a' : App}
    (hstat : (statRecoverRun : Zdb Unit).run a.env = .ok () e)
    (hbody : (do
      let path ← recoverPath cfg name
      onEnv (recoverFile name path) : AppM Status Nat).run { a with env := e } = .ok 0 a') :
    (recoverStream cfg name).run a = .ok 0 a' :=
  run_then (run_onEnv hstat) (run_then (run_attempt_ok hbody) rfl)

theorem statRecoverRun_ok (e : Sys) : ∃ e', (statRecoverRun : Zdb Unit).run e = .ok () e' ∧ Leads e e.look e' :=
  ⟨_, rfl, rfl, rfl, rfl, List.suffix_rfl⟩

theorem statRecoverFailure_ok (e : Sys) :
    ∃ e', (statRecoverFailure : Zdb Unit).run e = .ok () e' ∧ Leads e e.look e' :=
  ⟨_, rfl, rfl, rfl, rfl, List.suffix_rfl⟩

theorem healthCheck_ok (e : Sys) : ∃ e', (healthCheck : Zdb Unit).run e = .ok () e' ∧ Leads e e.look e' := by
  exact ⟨_, rfl, leads_of_within (keeps_healthCheck (ε := Status) e)⟩

theorem recoverStream_open (hF : Family cfg N) (hW : World cfg N U a A) (hrun : a.cfgSet = true)
    {name : Bytes} {i : Nat} (hi : a.slotFind name = some i) :
    ∃ a', (recoverStream cfg name).run a = .ok 0 a' ∧ World cfg N U a' A ∧ a'.slotFind name = some i ∧
      (cfg.segmented = true → (a'.slotAt i).segsScanned = true) := by
  have hN : N name := by
    obtain ⟨hin, hname⟩ := slotFind_some hi
    exact hname ▸ hW.mine i hin
  have hadm := hF.admissible name hN
  obtain ⟨e₁, h₁, l₁⟩ := statRecoverRun_ok a.env
  have hW₁ := hW.alike (alike_env a l₁)
  by_cases hs : cfg.segmented = true
  · obtain ⟨a₂, h₂, l₂, _⟩ := @tsCtxGetOrAlloc_spec cfg { a with env := e₁ }
      hW₁.clean hrun .ERR_INVAL
    have hW₂ := hW₁.alike l₂
    have hi₂ : a₂.slotFind name = some i := (l₂.slotFind name).trans hi
    obtain ⟨t, ht, hready, _⟩ := activePath_spec hadm (hW₂.rep_find hi₂)
    obtain ⟨a₃, h₃, hW₃, hslot, henv, hi₃⟩ := hW₂.onSlot hF hi₂ (keeps_activePath cfg _) ht
      hready.rep
    rw [setLog_self] at hW₃
    obtain ⟨e₄, h₄, l₄⟩ := @recoverFile_existing name _ _ _ hW₃.clean (henv ▸ hready.files.cur)
    refine ⟨_, recoverStream_of_body h₁ (run_then ?_ (run_onEnv h₄)), hW₃.alike (alike_env a₃ l₄), hi₃, ?_⟩
    · unfold recoverPath
      rw [if_pos hs]
      refine run_then h₂ (run_then (show (get : AppM Status App).run a₂ = .ok a₂ a₂ from rfl) ?_)
      rw [hi₂]
      exact run_toStatus h₃
    · intro _
      show (a₃.slotAt i).segsScanned = true
      rw [hslot]
      exact (hready.learned hs).scanned
  · have hs' : cfg.segmented = false := by simpa using hs
    have hfiles : SegFiles cfg name (A.logs name) e₁.look := by
      cases (hW₁.rep_find hi).known with
      | learned _ hf => exact hf
      | unlearned hseg => exact absurd hseg hs
    have hcur := hfiles.cur
    rw [segFile_of_single hs'] at hcur
    obtain ⟨e₂, h₂, l₂⟩ := @recoverFile_existing name _ _ _ hW₁.clean hcur
    refine ⟨_, recoverStream_of_body h₁ (run_then ?_ (run_onEnv h₂)),
      hW₁.alike (alike_env { a with env := e₁ } l₂), hi, fun h => absurd h hs⟩
    unfold recoverPath
    rw [if_neg hs]
    refine run_then (show (get : AppM Status App).run _ = .ok { a with env := e₁ } { a with env := e₁ } from rfl) ?_
    dsimp only
    rw [if_neg (by simp [hrun]), hadm.buildPath]
    rfl

theorem recoverStream_closed (hF : Family cfg N) (hW : World cfg N U a A) (hrun : a.cfgSet = true)
    {name : Bytes} (hN : N name) (hs : cfg.segmented = false) (hclosed : a.slotFind name = none) :
    ∃ a', (recoverStream cfg name).run a = .ok 0 a' ∧ World cfg N U a' A := by
  have hadm := hF.admissible name hN
  obtain ⟨e₁, h₁, l₁⟩ := statRecoverRun_ok a.env
  have hW₁ := hW.alike (alike_env a l₁)
  have hpath : (recoverPath cfg name).run { a with env := e₁ } =
      .ok (streamPath cfg name) { a with env := e₁ } := by
    unfold recoverPath
    rw [if_neg (by simp [hs])]
    refine run_then (show (get : AppM Status App).run _ = .ok { a with env := e₁ } { a with env := e₁ } from rfl) ?_
    dsimp only
    rw [if_neg (by simp [hrun]), hadm.buildPath]
    rfl
  cases (hW₁.stored name hN hclosed).1 with
  | legacy hseg => rw [hs] at hseg; cases hseg
  | files hfiles =>
    have hcur := hfiles.cur
    rw [segFile_of_single hs] at hcur
    obtain ⟨e₂, h₂, l₂⟩ := @recoverFile_existing name _ _ _ hW₁.clean hcur
    exact ⟨_, recoverStream_of_body h₁ (run_then hpath (run_onEnv h₂)),
      hW₁.alike (alike_env { a with env := e₁ } l₂)⟩
  | absent hpast hitems hformat hnone hscan =>
    obtain ⟨e₂, h₂, l₂⟩ := @recoverFile_absent name _ _ hW₁.clean hnone
    refine ⟨_, recoverStream_of_body h₁ (run_then hpath (run_onEnv h₂)), ?_⟩
    refine hW₁.setStored hF hN hclosed (l₂.within (owns_streamPath cfg name)) (.files ?_)
    rw [l₂.look]
    have hv1 := buildFormat_single hs 0
    refine ⟨fun k hlo hhi => ?_, fun h => (by rw [hs] at h; cases h), fun _ => ⟨hpast, hformat.trans hv1⟩⟩
    have hk : k = 0 := by simpa [hpast] using hhi
    have hseg : (A.logs name).seg k = (A.logs name).cur := by simp [hk, SegLog.seg, hpast]
    rw [segFile_of_single hs, Function.update_self, hseg, segBytes, hitems, hformat, hv1]
    simp [Format.header]

theorem recoverStream_refused {name : Bytes} {status : Status} {e : Sys} {a' : App}
    (hstat : (statRecoverRun : Zdb Unit).run a.env = .ok () e)
    (hpath : (recoverPath cfg name).run { a with env := e } = .error status a') (hW : World cfg N U a' A) :
    Gives (recoverStream cfg name) a (.error status) fun b => World cfg N U b A := by
  have hbody : (recoverPath cfg name >>= fun path => onEnv (recoverFile name path)).run
      { a with env := e } = .error status a' := by
    rw [EStateM.run_bind, hpath]
  apply gives_then (run_onEnv hstat)
  apply gives_then (run_attempt_error hbody)
  obtain ⟨e₁, h₁, l₁⟩ := statRecoverFailure_ok a'.env
  obtain ⟨e₂, h₂, l₂⟩ := healthCheck_ok e₁
  apply gives_then (run_onEnv h₁)
  apply gives_then (run_onEnv h₂)
  apply gives_throw
  exact hW.alike (alike_env a' (l₁.trans (l₁.look ▸ l₂)))

theorem recover_spec (hF : Family cfg N) (hW : World cfg N U a A) (h : Nat) :
    (step cfg a (.recover h)).1 = (A.step cfg (.recover h)).1 ∧
      World cfg N U (step cfg a (.recover h)).2 (A.step cfg (.recover h)).2 := by
  suffices hg : ∀ r, A.readable cfg h = r → Gives (tsRecoverStream cfg h) a
      (r.elim (.error .ERR_INVAL) fun _ => .ok 0) fun a' => World cfg N U a' A by
    obtain ⟨ho, hw⟩ := hg _ rfl
    cases hr : A.readable cfg h <;> rw [hr] at ho <;> simp only [step, exec, Store.step, hr, ho] <;>
      exact ⟨rfl, hw⟩
  intro r hr
  refine gives_then (show (get : AppM Status App).run a = .ok a a from rfl) ?_
  unfold Store.readable at hr
  rw [← hW.handles] at hr
  cases hh : a.handles h with
  | none =>
    rw [hh] at hr
    subst hr
    exact gives_throw hW
  | some name =>
    have hN := hW.bound h name hh
    simp only [hh, ← hW.running, hW.find_eq] at hr
    dsimp only
    obtain ⟨e₁, h₁, l₁⟩ := statRecoverRun_ok a.env
    have hW₁ := hW.alike (alike_env a l₁)
    by_cases hrun : a.cfgSet = true
    · cases hf : a.slotFind name with
      | some i =>
        obtain ⟨a', h₂, hW', _⟩ := recoverStream_open hF hW hrun hf
        simp only [hrun, hf, Option.isSome_some, Bool.or_true, Bool.and_self, if_true] at hr
        subst hr
        exact gives_ok h₂ hW'
      | none =>
        by_cases hs : cfg.segmented = true
        · simp only [hrun, hf, hs] at hr
          subst hr
          obtain ⟨a₂, h₂, l₂, _⟩ := @tsCtxGetOrAlloc_spec cfg { a with env := e₁ }
            hW₁.clean hrun .ERR_INVAL
          refine @recoverStream_refused _ _ _ _ _ _ _ _ a₂ h₁ ?_ (hW₁.alike l₂)
          unfold recoverPath
          rw [if_pos hs]
          refine run_then h₂ (run_then (show (get : AppM Status App).run a₂ = .ok a₂ a₂ from rfl) ?_)
          rw [l₂.slotFind name, show App.slotFind { a with env := e₁ } name = none from hf]
          rfl
        · have hs : cfg.segmented = false := by simpa using hs
          obtain ⟨a', h₂, hW'⟩ := recoverStream_closed hF hW hrun hN hs hf
          simp only [hrun, hf, hs] at hr
          subst hr
          exact gives_ok h₂ hW'
    · have hrun : a.cfgSet = false := by simpa using hrun
      simp only [hrun] at hr
      subst hr
      refine @recoverStream_refused _ _ _ _ _ _ _ _ { a with env := e₁ } h₁ ?_ hW₁
      unfold recoverPath
      split
      · rw [EStateM.run_bind, run_tsCtxGetOrAlloc_down (a := { a with env := e₁ }) hrun]
      · refine run_then (show (get : AppM Status App).run _ = .ok { a with env := e₁ } { a with env := e₁ } from rfl) ?_
        dsimp only
        rw [if_pos (by simp [hrun])]
        rfl

end Session

end ZephyrDB.Ts
