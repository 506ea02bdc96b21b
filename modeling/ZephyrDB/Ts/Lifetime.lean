import Mathlib.Data.Set.Card
import ZephyrDB.Ts.Held

/-!
The life of a slot: claimed by the first handle that is opened on its stream,
counted for each further one, and freed with the last.
-/

set_option autoImplicit false

namespace ZephyrDB.Ts

open Lib

def App.holders (a : App) (name : Bytes) : Set Nat := {h | a.handles h = some name}

def countUp (n : Nat) : Nat := if n < 255 then n + 1 else n

inductive Claimed (cfg : Cfg) (name : Bytes) (a b : App) : Prop where
  | again (i : Nat) (hi : a.slotFind name = some i)
      (hb : b.claims cfg = (a.claims cfg).set i (some (name, countUp (a.slotAt i).openCount), (a.slotAt i).ingestBuf.isSome))
  | fresh (i : Nat) (hnone : a.slotFind name = none) (hi : i < (a.claims cfg).length) (hfree : (a.slotAt i).inUse = false)
      (hb : b.claims cfg = (a.claims cfg).set i (some (name, 1), true))

section Claiming
variable {cfg : Cfg} {a b : App} {name : Bytes}

theorem slotTag_of_held (h : b.held cfg = a.held cfg) (i : Nat) : slotTag (b.slotAt i) = slotTag (a.slotAt i) := by
  rw [← claims_getD cfg, ← claims_getD cfg]
  exact congrArg (fun cs => cs.getD i (none, false)) (congrArg Prod.fst h)

theorem handles_of_held (h : b.held cfg = a.held cfg) : b.handles = a.handles := congrArg (fun x => x.2.1) h

theorem claims_of_held (h : b.held cfg = a.held cfg) : b.claims cfg = a.claims cfg := congrArg Prod.fst h

theorem slotFind_of_claims (h : b.claims cfg = a.claims cfg) (name : Bytes) : b.slotFind name = a.slotFind name := by
  rw [slotFind_table cfg, slotFind_table cfg, ← claims_table, ← claims_table, h]

theorem slotTag_of_find {i : Nat} (hi : a.slotFind name = some i) :
    slotTag (a.slotAt i) = (some (name, (a.slotAt i).openCount), (a.slotAt i).ingestBuf.isSome) := by
  obtain ⟨hin, hname⟩ := slotFind_some hi
  rw [slotTag, slotKey, if_pos hin, hname]

theorem lt_length_of_inUse (cfg : Cfg) {i : Nat} (h : (a.slotAt i).inUse = true) : i < (a.claims cfg).length := by
  obtain ⟨ctx, hc, hlt⟩ := hasSlot_of_inUse h
  simpa [App.claims, hc] using hlt

theorem tsCtx_of_inUse {i : Nat} (h : (a.slotAt i).inUse = true) : a.tsCtx.isSome = true := by
  obtain ⟨ctx, hc, _⟩ := hasSlot_of_inUse h
  rw [hc]
  rfl

theorem yields_onEnv {ε α : Type} (m : EStateM ε Sys α) (a : App) :
    Yields (onEnv m) a (fun _ b => ∃ e, b = { a with env := e }) fun _ b => ∃ e, b = { a with env := e } := by
  unfold Yields onEnv
  cases hm : m.run a.env with
  | ok x e =>
    rw [run_zoom hm]
    exact ⟨e, rfl⟩
  | error r e =>
    rw [run_zoom_error hm]
    exact ⟨e, rfl⟩

/-- What `zdb_ts_slot_claim` does, and what it leaves where it yields no slot. -/
theorem slotClaim_yields (hfree : ∀ i, (a.slotAt i).inUse = false → (a.slotAt i).ingestBuf = none) :
    Yields (slotClaim cfg name) a (fun _ b => Claimed cfg name a b ∧ b.handles = a.handles)
      fun _ b => b.claims cfg = a.claims cfg := by
  unfold slotClaim
  apply yields_get_bind
  cases hfind : a.slotFind name with
  | some i =>
    obtain ⟨hin, hname⟩ := slotFind_some hfind
    refine yields_of_run rfl ⟨.again i hfind ?_, rfl⟩
    rw [claims_setSlot, if_pos (tsCtx_of_inUse hin)]
    congr 1
    simp only [slotTag, slotKey]
    rw [if_pos hin, hname]
    rfl
  | none =>
    dsimp only
    cases hvac : a.tsCtx.bind fun ctx => ctx.streams.findIdx? fun slot => !slot.inUse with
    | none => exact yields_throw rfl
    | some i =>
      obtain ⟨ctx, hctx, hidx⟩ := Option.bind_eq_some_iff.mp hvac
      obtain ⟨hlt, hvacant, _⟩ := List.findIdx?_eq_some_iff_getElem.mp hidx
      have hat : a.slotAt i = ctx.streams[i] := by rw [slotAt_some hctx, List.getD_eq_getElem _ _ hlt]
      have hunused : (a.slotAt i).inUse = false := by
        rw [hat]
        simpa using hvacant
      -- The slot is wiped before its block is allocated, but not marked as used.
      have hwiped : (a.setSlot i { StreamCtx.zero with name := name, ingestCapacity := cfg.ingestCapacity }).claims cfg =
          a.claims cfg := by
        apply claims_setSlot_self cfg a
        simp [slotTag, slotKey, StreamCtx.zero, hunused, hfree i hunused]
      refine yields_bind (P := fun _ b => b = a.setSlot i
        { StreamCtx.zero with name := name, ingestCapacity := cfg.ingestCapacity }) (yields_of_run rfl rfl) ?_
      rintro _ _ rfl
      refine yields_bind ((yields_onEnv _ _).imp (fun _ _ h => h) ?_) ?_
      · rintro _ _ ⟨e, rfl⟩
        exact hwiped
      · rintro _ _ ⟨e, rfl⟩
        refine yields_of_run rfl ⟨.fresh i hfind (by simpa [App.claims, hctx] using hlt) hunused ?_, rfl⟩
        rw [claims_setSlot, if_pos (by simp [App.setSlot, hctx])]
        exact congrArg (fun cs => cs.set i (some (name, 1), true)) hwiped

def Tidy (a : App) : Prop := ∀ i, (a.slotAt i).inUse = false → (a.slotAt i).ingestBuf = none

theorem tidy_of_tags (h : ∀ i, slotTag (b.slotAt i) = slotTag (a.slotAt i)) (ha : Tidy a) : Tidy b := by
  intro i hi
  have hkey := congrArg Prod.fst (h i)
  have hblock := congrArg Prod.snd (h i)
  simp only [slotTag, slotKey, hi] at hkey hblock
  have hfree : (a.slotAt i).inUse = false := by
    by_contra hne
    simp [hne] at hkey
  rw [ha i hfree] at hblock
  simpa using hblock

theorem Claimed.congr {a' b' : App} (h : Claimed cfg name a b) (ha : a'.claims cfg = a.claims cfg)
    (hb : b'.claims cfg = b.claims cfg) : Claimed cfg name a' b' := by
  have htag : ∀ i, slotTag (a'.slotAt i) = slotTag (a.slotAt i) := fun i => by
    rw [← claims_getD cfg, ← claims_getD cfg, ha]
  cases h with
  | again i hi hset =>
    have hi' := (slotFind_of_claims ha name).trans hi
    refine .again i hi' ?_
    have heq := htag i
    rw [slotTag_of_find hi, slotTag_of_find hi', Prod.mk.injEq, Option.some.injEq, Prod.mk.injEq] at heq
    rw [hb, hset, ha, heq.1.2, heq.2]
  | fresh i hnone hlt hfree hset =>
    refine .fresh i ((slotFind_of_claims ha name).trans hnone) (ha ▸ hlt) ?_ (by rw [hb, hset, ha])
    have hkey := congrArg Prod.fst (htag i)
    simp only [slotTag, slotKey, hfree] at hkey
    by_contra hne
    simp [hne] at hkey

end Claiming

/-- `zdb_ts_open` up to its recovery pass. -/
def openClaim (cfg : Cfg) (h : Nat) (name : Bytes) : AppM Status Unit := do
  if !streamNameValid cfg name then throw .ERR_INVAL
  if !(← get).cfgSet then throw .ERR_INVAL
  tsCtxGetOrAlloc cfg .ERR_NOMEM
  toStatus (ensureStreamDir cfg)
  if !cfg.segmented then onEnv (ensureStreamHeader cfg name)
  slotClaim cfg name
  modify fun a => a.bind h (some name)

/-- The recovery pass, in a build that has it. -/
def openPass (cfg : Cfg) (name : Bytes) : AppM Status Unit := do
  if cfg.autoRecoverOnOpen then openRecover cfg name

section Opening
variable {cfg : Cfg} {a b : App} {name : Bytes} {h : Nat}

theorem tsOpen_eq (cfg : Cfg) (h : Nat) (name : Bytes) :
    tsOpen cfg h name = (do
      openClaim cfg h name
      openPass cfg name) := by
  unfold tsOpen openClaim openPass
  dsimp only
  by_cases hname : (!streamNameValid cfg name) = true
  · rw [if_pos hname, if_pos hname]
    rfl
  rw [if_neg hname, if_neg hname, bind_assoc]
  apply congrArg _
  apply funext
  intro a
  by_cases hset : (!a.cfgSet) = true
  · rw [if_pos hset, if_pos hset]
    rfl
  rw [if_neg hset, if_neg hset, bind_assoc]
  apply congrArg _
  apply funext
  intro _
  rw [bind_assoc]
  apply congrArg _
  apply funext
  intro _
  by_cases hseg : (!cfg.segmented) = true
  · rw [if_pos hseg, if_pos hseg, bind_assoc]
    exact congrArg _ (funext fun _ => (bind_assoc _ _ _).symm)
  · rw [if_neg hseg, if_neg hseg, bind_assoc]

theorem openClaim_yields (ha : Tidy a) :
    Yields (openClaim cfg h name) a
      (fun _ b => Claimed cfg name a b ∧ b.handles = Function.update a.handles h (some name))
      fun _ b => b.claims cfg = a.claims cfg := by
  have hheld : ∀ {ε α : Type} {m : AppM ε α} {c : App}, Fixes (App.held cfg) m → c.held cfg = a.held cfg →
      Yields m c (fun _ b => b.held cfg = a.held cfg) fun _ b => b.claims cfg = a.claims cfg := by
    intro ε α m c hm hc
    have hfix := (hm c).trans hc
    unfold Yields
    unfold post at hfix
    cases hrun : m.run c with
    | ok x t =>
      rw [hrun] at hfix
      exact hfix
    | error r t =>
      rw [hrun] at hfix
      exact claims_of_held hfix
  have hclaim : ∀ c : App, c.held cfg = a.held cfg → Yields (do
        slotClaim cfg name
        modify fun a => a.bind h (some name) : AppM Status Unit) c
      (fun _ b => Claimed cfg name a b ∧ b.handles = Function.update a.handles h (some name))
      fun _ b => b.claims cfg = a.claims cfg := by
    intro c hc
    apply yields_bind ((slotClaim_yields (tidy_of_tags (slotTag_of_held hc) ha)).imp (fun _ _ h => h) fun _ t ht => ht.trans (claims_of_held hc))
    rintro _ d ⟨hcl, hh⟩
    refine yields_of_run rfl ⟨hcl.congr (claims_of_held hc).symm rfl, ?_⟩
    show Function.update d.handles h (some name) = _
    rw [hh, handles_of_held hc]
  unfold openClaim
  refine yields_guard (fun _ => rfl) fun _ => yields_get_bind (yields_guard (fun _ => rfl) fun _ => ?_)
  apply yields_bind (hheld (always_held (settles_tsCtxGetOrAlloc _)) rfl)
  intro _ c hc
  apply yields_bind (hheld (fixes_adaptExcept _ (always_held settles_ensureStreamDir)) hc)
  intro _ d hd
  split
  · apply yields_bind (hheld (always_held (settles_onEnv _)) hd)
    intro _ e he
    exact hclaim e he
  · exact hclaim d hd

end Opening

inductive Released (cfg : Cfg) (name : Bytes) (a b : App) : Prop where
  | absent (hnone : a.slotFind name = none) (hb : b.claims cfg = a.claims cfg)
  | shared (i : Nat) (hi : a.slotFind name = some i) (hcount : 1 < (a.slotAt i).openCount)
      (hb : b.claims cfg = (a.claims cfg).set i (some (name, (a.slotAt i).openCount - 1), (a.slotAt i).ingestBuf.isSome))
  | last (i : Nat) (hi : a.slotFind name = some i) (hcount : (a.slotAt i).openCount ≤ 1)
      (hb : b.claims cfg = (a.claims cfg).set i (none, false))

section Closing
variable {cfg : Cfg} {a b : App} {name : Bytes} {h : Nat}

theorem slotRelease_released {i : Nat} (hi : a.slotFind name = some i) :
    ∃ b, (slotRelease i).run a = .ok () b ∧ Released cfg name a b ∧ b.handles = a.handles := by
  obtain ⟨hin, hname⟩ := slotFind_some hi
  have hctx := tsCtx_of_inUse hin
  refine ⟨_, rfl, ?_, ?_⟩
  · by_cases hcount : (a.slotAt i).openCount > 1
    · refine .shared i hi hcount ?_
      dsimp only
      rw [if_pos hcount, claims_setSlot, if_pos hctx]
      congr 1
      simp only [slotTag, slotKey]
      rw [if_pos hin, hname]
    · refine .last i hi (by omega) ?_
      dsimp only
      rw [if_neg hcount, claims_setSlot, if_pos hctx]
      rfl
  · dsimp only
    split <;> rfl

theorem Released.congr {a' b' : App} (h : Released cfg name a b) (ha : a'.claims cfg = a.claims cfg)
    (hb : b'.claims cfg = b.claims cfg) : Released cfg name a' b' := by
  have hfind := slotFind_of_claims ha name
  have htag : ∀ i, a.slotFind name = some i → (a'.slotAt i).openCount = (a.slotAt i).openCount ∧
      (a'.slotAt i).ingestBuf.isSome = (a.slotAt i).ingestBuf.isSome := by
    intro i hi
    have heq : slotTag (a'.slotAt i) = slotTag (a.slotAt i) := by rw [← claims_getD cfg, ← claims_getD cfg, ha]
    rw [slotTag_of_find hi, slotTag_of_find (hfind.trans hi), Prod.mk.injEq, Option.some.injEq, Prod.mk.injEq] at heq
    exact ⟨heq.1.2, heq.2⟩
  cases h with
  | absent hnone hset => exact .absent (hfind.trans hnone) (by rw [hb, hset, ha])
  | shared i hi hcount hset =>
    obtain ⟨hc, hblock⟩ := htag i hi
    exact .shared i (hfind.trans hi) (hc ▸ hcount) (by rw [hb, hset, ha, hc, hblock])
  | last i hi hcount hset => exact .last i (hfind.trans hi) ((htag i hi).1 ▸ hcount) (by rw [hb, hset, ha])

theorem tsClose_released (hh : a.handles h = some name) :
    Released cfg name a (post (tsClose cfg h) a) ∧
      (post (tsClose cfg h) a).handles = Function.update a.handles h none := by
  have hheld : (post (closeFlush cfg name) a).held cfg = a.held cfg := (settles_closeFlush name a).held
  generalize ha₁ : post (closeFlush cfg name) a = a₁ at hheld
  have hattempt : (attempt (closeFlush cfg name) : AppM Status (Except Status Unit)).run a =
      .ok (outcome (closeFlush cfg name) a) a₁ := ha₁ ▸ rfl
  have hclaims : a₁.claims cfg = a.claims cfg := claims_of_held hheld
  have hfind := slotFind_of_claims hclaims name
  have hend : ∀ c : App, post (do
        modify fun a => a.bind h none
        rethrow (outcome (closeFlush cfg name) a) : AppM Status Unit) c = c.bind h none := by
    intro c
    cases outcome (closeFlush cfg name) a <;> rfl
  unfold tsClose
  rw [post_get_bind, hh]
  dsimp only
  rw [post_then hattempt, post_get_bind]
  cases hf : a₁.slotFind name with
  | none =>
    dsimp only
    rw [hend]
    refine ⟨.absent (hfind.symm.trans hf) hclaims, ?_⟩
    exact congrArg (fun f => Function.update f h (none : Option Bytes)) (handles_of_held hheld)
  | some i =>
    obtain ⟨b, hb, hrel, hhb⟩ := @slotRelease_released cfg _ _ _ hf
    dsimp only
    rw [post_then hb, hend]
    refine ⟨hrel.congr hclaims.symm rfl, ?_⟩
    exact congrArg (fun f => Function.update f h (none : Option Bytes)) (hhb.trans (handles_of_held hheld))

end Closing

section Runs
variable {cfg : Cfg} {a b : App} {name : Bytes}

theorem getD_set {α : Type} {xs : List α} {i : Nat} (hi : i < xs.length) (x d : α) (j : Nat) :
    (xs.set i x).getD j d = if j = i then x else xs.getD j d := by
  rw [List.getD_eq_getElem?_getD, List.getD_eq_getElem?_getD]
  by_cases hj : j = i
  · rw [if_pos hj, hj, List.getElem?_set_self hi, Option.getD_some]
  · rw [if_neg hj, List.getElem?_set_ne (Ne.symm hj)]

theorem slotTag_of_set {i : Nat} {tag : Option (Bytes × Nat) × Bool} (hi : i < (a.claims cfg).length)
    (h : b.claims cfg = (a.claims cfg).set i tag) (j : Nat) :
    slotTag (b.slotAt j) = if j = i then tag else slotTag (a.slotAt j) := by
  rw [← claims_getD cfg, ← claims_getD cfg, h, getD_set hi]

theorem tidy_iff : Tidy a ↔ ∀ i, (slotTag (a.slotAt i)).1 = none → (slotTag (a.slotAt i)).2 = false := by
  unfold Tidy slotTag slotKey
  apply forall_congr'
  intro i
  cases (a.slotAt i).inUse <;> simp

theorem tidy_of_set {i : Nat} {tag : Option (Bytes × Nat) × Bool} (ha : Tidy a) (hi : i < (a.claims cfg).length)
    (h : b.claims cfg = (a.claims cfg).set i tag) (htag : tag.1 = none → tag.2 = false) : Tidy b := by
  rw [tidy_iff] at ha ⊢
  intro j
  rw [slotTag_of_set hi h]
  split
  · exact htag
  · exact ha j

theorem Claimed.tidy (h : Claimed cfg name a b) (ha : Tidy a) : Tidy b := by
  cases h with
  | again i hi hb => exact tidy_of_set ha (lt_length_of_inUse cfg (slotFind_some hi).1) hb nofun
  | fresh i _ hlt _ hb => exact tidy_of_set ha hlt hb nofun

theorem Released.tidy (h : Released cfg name a b) (ha : Tidy a) : Tidy b := by
  cases h with
  | absent _ hb => exact tidy_of_tags (fun i => by rw [← claims_getD cfg, ← claims_getD cfg, hb]) ha
  | shared i hi _ hb => exact tidy_of_set ha (lt_length_of_inUse cfg (slotFind_some hi).1) hb nofun
  | last i hi _ hb => exact tidy_of_set ha (lt_length_of_inUse cfg (slotFind_some hi).1) hb fun _ => rfl

def Op.modest : Op → Bool
  | .init | .deinit | .open _ _ | .close _ => false
  | _ => true

theorem settles_step (op : Op) (h : op.modest = true) (a : App) : Settles cfg a (step cfg a op).2 := by
  cases op with
  | init => cases h
  | deinit => cases h
  | «open» k name => cases h
  | close k => cases h
  | append k sample => exact settles_tsAppendI64 k sample a
  | batch k samples => exact settles_tsAppendBatchI64 k samples a
  | flushAsync k => exact settles_tsFlushAsync k a
  | flushSync k => exact settles_tsFlushSync k a
  | drain => exact settles_flushWorkHandler a
  | recover k =>
    refine (show Always (Settles cfg) (tsRecoverStream cfg k) from ?_) a
    apply always_bind (settles_chains cfg) settles_getApp
    intro a
    split
    · exact always_throw (settles_chains cfg) _
    · exact settles_recoverStream _
  | count k window => exact settles_tsQueryCount k window a
  | cursor k window predicate descending n => exact settles_queryCursor k window predicate descending n a

theorem held_step (op : Op) (h : op.modest = true) (a : App) : (step cfg a op).2.held cfg = a.held cfg :=
  (settles_step op h a).held

/-- `zdb_ts_open` claims a slot and binds the handle, or fails; where it fails before its recovery pass, it
claims nothing. -/
theorem tsOpen_yields (h : Nat) (ha : Tidy a) :
    Yields (tsOpen cfg h name) a
      (fun _ b => Claimed cfg name a b ∧ b.handles = Function.update a.handles h (some name))
      fun _ b => Claimed cfg name a b ∨ b.claims cfg = a.claims cfg := by
  have hpass : Fixes (App.held cfg) (openPass cfg name) := fixes_ite (always_held (settles_openRecover name)) (fixes_pure ())
  rw [tsOpen_eq]
  apply yields_bind ((openClaim_yields ha).imp (fun _ _ h => h) fun _ _ h => .inr h)
  rintro _ c ⟨hcl, hh⟩
  have hfix := hpass c
  unfold post at hfix
  unfold Yields
  cases hrun : (openPass cfg name).run c with
  | ok x t =>
    rw [hrun] at hfix
    exact ⟨hcl.congr rfl (claims_of_held hfix), (handles_of_held hfix).trans hh⟩
  | error r t =>
    rw [hrun] at hfix
    exact .inl (hcl.congr rfl (claims_of_held hfix))

theorem tidy_of_noCtx (h : a.tsCtx = none) : Tidy a := fun i _ => by
  rw [slotAt_zero h]
  rfl

theorem tidy_step (ha : Tidy a) (op : Op) : Tidy (step cfg a op).2 := by
  by_cases hm : op.modest = true
  · exact tidy_of_tags (slotTag_of_held (held_step op hm a)) ha
  · cases op with
    | init => exact tidy_of_noCtx rfl
    | deinit => exact tidy_of_noCtx rfl
    | «open» k name =>
      refine Yields.post (Q := Tidy) ((tsOpen_yields k ha).imp (fun _ _ h => h.1.tidy ha) ?_)
      rintro _ b (hcl | hsame)
      · exact hcl.tidy ha
      · exact tidy_of_tags (fun i => by rw [← claims_getD cfg, ← claims_getD cfg, hsame]) ha
    | close k =>
      show Tidy (post (tsClose cfg k) a)
      cases hh : a.handles k with
      | none =>
        unfold tsClose
        rw [post_get_bind, hh]
        exact ha
      | some name => exact (tsClose_released hh).1.tidy ha
    | _ => exact absurd rfl hm

theorem tidy_run (ha : Tidy a) (ops : List Op) : Tidy (run cfg a ops) := by
  induction ops generalizing a with
  | nil => exact ha
  | cons op ops ih => exact ih (tidy_step ha op)

end Runs

/-- Whatever error opening the stream ends with, the slots are claimed as they were before, and as many
ingest blocks are allocated. -/
def FailsFreely (cfg : Cfg) (a : App) (h : Nat) (name : Bytes) : Prop :=
  ∀ r b, (tsOpen cfg h name).run a = .error r b → b.table cfg = a.table cfg ∧ b.blocks cfg = a.blocks cfg

/-- The stream has been opened so often that its count has saturated. -/
def Saturated (a : App) (name : Bytes) : Prop := ∃ i, a.slotFind name = some i ∧ 255 ≤ (a.slotAt i).openCount

section Refused
variable {cfg : Cfg} {a b : App} {name : Bytes}

theorem claims_same (h : b.claims cfg = a.claims cfg) :
    b.table cfg = a.table cfg ∧ b.blocks cfg = a.blocks cfg := by
  rw [← claims_table, ← claims_table, App.blocks, App.blocks, h]
  exact ⟨rfl, rfl⟩

theorem Claimed.of_saturated (h : Claimed cfg name a b) (hs : Saturated a name) : b.claims cfg = a.claims cfg := by
  obtain ⟨i, hi, hcount⟩ := hs
  cases h with
  | fresh _ hnone => rw [hi] at hnone; cases hnone
  | again j hj hb =>
    obtain rfl : i = j := Option.some.inj (hi.symm.trans hj)
    have hlt := lt_length_of_inUse cfg (slotFind_some hi).1
    have hup : countUp (a.slotAt i).openCount = (a.slotAt i).openCount := if_neg (Nat.not_lt.mpr hcount)
    have hget : (a.claims cfg)[i] = (some (name, (a.slotAt i).openCount), (a.slotAt i).ingestBuf.isSome) := by
      rw [← slotTag_of_find hi, ← claims_getD cfg, List.getD_eq_getElem _ _ hlt]
    rw [hb, hup, ← hget, List.set_getElem_self]

theorem Claimed.ne_of_unsaturated (h : Claimed cfg name a b) (hs : ¬ Saturated a name) :
    b.table cfg ≠ a.table cfg := by
  intro heq
  have hkey : ∀ i, slotKey (b.slotAt i) = slotKey (a.slotAt i) := fun i => by
    rw [← table_getD cfg, ← table_getD cfg, heq]
  cases h with
  | again i hi hb =>
    have htag := slotTag_of_set (lt_length_of_inUse cfg (slotFind_some hi).1) hb i
    rw [if_pos rfl] at htag
    have hnew := congrArg Prod.fst htag
    have hold := congrArg Prod.fst (slotTag_of_find hi)
    have hcount : countUp (a.slotAt i).openCount = (a.slotAt i).openCount := by
      have hsame := hnew.symm.trans ((hkey i).trans hold)
      simpa using hsame
    refine hs ⟨i, hi, ?_⟩
    unfold countUp at hcount
    split at hcount <;> omega
  | fresh i _ hlt hfree hb =>
    have htag := slotTag_of_set hlt hb i
    rw [if_pos rfl] at htag
    have hnew := congrArg Prod.fst htag
    have hold : slotKey (a.slotAt i) = none := by rw [slotKey, hfree]; rfl
    have hsame := hnew.symm.trans ((hkey i).trans hold)
    cases hsame

end Refused

/-- In a reachable state, an open that fails claims nothing exactly when its recovery pass accepts every
stream it gets to, or the stream's count is saturated. -/
theorem refused_open_claims_nothing_iff (cfg : Cfg) (env : Sys) (ops : List Op) (h : Nat) (name : Bytes) :
    FailsFreely cfg (run cfg (App.boot env) ops) h name ↔
      Saturated (run cfg (App.boot env) ops) name ∨
        ∀ b, (openClaim cfg h name).run (run cfg (App.boot env) ops) = .ok () b → Succeeds (openPass cfg name) b := by
  have ha : Tidy (run cfg (App.boot env) ops) := tidy_run (tidy_of_noCtx rfl) ops
  generalize run cfg (App.boot env) ops = a at ha ⊢
  have hpass : Fixes (App.held cfg) (openPass cfg name) := fixes_ite (always_held (settles_openRecover name)) (fixes_pure ())
  constructor
  · intro hfree
    by_cases hs : Saturated a name
    · exact .inl hs
    refine .inr fun b hb => ?_
    obtain ⟨hcl, _⟩ := (openClaim_yields ha).run_ok hb
    cases hrun : (openPass cfg name).run b with
    | ok x c => exact ⟨x, c, hrun⟩
    | error r c =>
      have hfail : (tsOpen cfg h name).run a = .error r c := by
        rw [tsOpen_eq]
        exact run_then hb hrun
      have hsame : c.claims cfg = b.claims cfg := by
        have hfix := hpass b
        rw [post, hrun] at hfix
        exact claims_of_held hfix
      exact absurd (hfree r c hfail).1 ((hcl.congr rfl hsame).ne_of_unsaturated hs)
  · intro hcond r c hfail
    rcases hcond with hs | hok
    · rcases (tsOpen_yields h ha).run_error hfail with hcl | hsame
      · exact claims_same (hcl.of_saturated hs)
      · exact claims_same hsame
    · rw [tsOpen_eq, EStateM.run_bind] at hfail
      cases hclaim : (openClaim cfg h name).run a with
      | ok x b =>
        obtain ⟨y, d, hpassed⟩ := hok b hclaim
        rw [hclaim] at hfail
        rw [show (openPass cfg name).run b = .error r c from hfail] at hpassed
        cases hpassed
      | error r' b =>
        rw [hclaim] at hfail
        cases hfail
        exact claims_same ((openClaim_yields ha).run_error hclaim)

/-- A stream whose newest segment has a header cut short: opening it fails, and a slot is taken. -/
theorem corrupt_open_claims : ¬ FailsFreely (Cfg.small true false true 280)
    (run (Cfg.small true false true 280) (App.boot { Sys.blank (fun _ => false) with
      files := [(⟨segmentPath (Cfg.small true false true 280) [65] 0, [0]⟩ : (_ : Path) × Bytes)].toAList }) []) 0 [65] := by
  intro hfree
  have hrun : (tsOpen (Cfg.small true false true 280) 0 [65]).run
      (run (Cfg.small true false true 280) (App.boot { Sys.blank (fun _ => false) with
        files := [(⟨segmentPath (Cfg.small true false true 280) [65] 0, [0]⟩ : (_ : Path) × Bytes)].toAList }) []) =
      .error Status.ERR_IO _ := rfl
  exact absurd (hfree _ _ hrun).1 (by decide +kernel)

/-- A stream has a slot, with an ingest block, exactly while a handle on it is open, and only one. -/
structure SlotsFollowHandles (a : App) : Prop where
  held : ∀ i, (a.slotAt i).inUse = true →
    (a.slotAt i).ingestBuf.isSome = true ∧ ∃ h, a.handles h = some (a.slotAt i).name
  unique : ∀ i j, (a.slotAt i).inUse = true → (a.slotAt j).inUse = true →
    (a.slotAt i).name = (a.slotAt j).name → i = j
  found : ∀ h name, a.handles h = some name → ∃ i, a.slotFind name = some i

/-- The same with the numbers: each slot counts the handles on its stream. -/
structure Served (a : App) : Prop where
  finite : ∀ name, (a.holders name).Finite
  block : ∀ i, (slotTag (a.slotAt i)).2 = (slotTag (a.slotAt i)).1.isSome
  count : ∀ i name n, (slotTag (a.slotAt i)).1 = some (name, n) → 0 < n ∧ n = (a.holders name).ncard
  unique : ∀ i j name m n, (slotTag (a.slotAt i)).1 = some (name, m) → (slotTag (a.slotAt j)).1 = some (name, n) → i = j
  found : ∀ h name, a.handles h = some name → ∃ i n, (slotTag (a.slotAt i)).1 = some (name, n)

def Op.succeeds (cfg : Cfg) (a : App) : Op → Bool
  | .open h name => (outcome (tsOpen cfg h name) a).isOk
  | .close h => (outcome (tsClose cfg h) a).isOk
  | _ => true

def Op.lasting : Op → Bool
  | .init | .deinit => false
  | _ => true

/-- Every open and close of a run succeeds, and the instance runs all along. -/
def allSucceed (cfg : Cfg) : App → List Op → Bool
  | _, [] => true
  | a, op :: ops => op.lasting && op.succeeds cfg a && allSucceed cfg (step cfg a op).2 ops

def Mannered (a : App) : Op → Prop
  | .open h name => a.handles h = none ∧ (a.holders name).ncard < 255
  | _ => True

def MannerlyRun (cfg : Cfg) : App → List Op → Prop
  | _, [] => True
  | a, op :: ops => Mannered a op ∧ MannerlyRun cfg (step cfg a op).2 ops

section Served
variable {cfg : Cfg} {a b : App} {name : Bytes} {h : Nat}

theorem tag_some {i n : Nat} : (slotTag (a.slotAt i)).1 = some (name, n) ↔
    (a.slotAt i).inUse = true ∧ (a.slotAt i).name = name ∧ (a.slotAt i).openCount = n := by
  simp only [slotTag, slotKey]
  cases (a.slotAt i).inUse <;> simp

theorem Served.follow (hs : Served a) : SlotsFollowHandles a where
  held i hi := by
    have htag := tag_some.mpr ⟨hi, rfl, rfl⟩
    have hblock := hs.block i
    rw [htag] at hblock
    obtain ⟨hpos, hcount⟩ := hs.count i _ _ htag
    obtain ⟨k, hk⟩ := Set.nonempty_of_ncard_ne_zero (hcount ▸ Nat.pos_iff_ne_zero.mp hpos)
    exact ⟨hblock, k, hk⟩
  unique i j hi hj hn := hs.unique i j _ _ _ (tag_some.mpr ⟨hi, rfl, rfl⟩) (tag_some.mpr ⟨hj, hn.symm, rfl⟩)
  found k n hk := by
    obtain ⟨i, m, hi⟩ := hs.found k n hk
    obtain ⟨hin, hname, _⟩ := tag_some.mp hi
    cases hf : a.slotFind n with
    | some j => exact ⟨j, rfl⟩
    | none => exact absurd hname (slotFind_none.mp hf i hin)

theorem served_of_held (hs : Served a) (hheld : b.held cfg = a.held cfg) : Served b := by
  have htag := slotTag_of_held hheld
  have hh := handles_of_held hheld
  have hholders : ∀ n, b.holders n = a.holders n := fun n => by rw [App.holders, App.holders, hh]
  refine ⟨fun n => hholders n ▸ hs.finite n, fun i => ?_, fun i n m hi => ?_, fun i j n m m' hi hj => ?_,
    fun k n hk => ?_⟩
  · rw [htag]
    exact hs.block i
  · rw [htag] at hi
    rw [hholders]
    exact hs.count i n m hi
  · rw [htag] at hi hj
    exact hs.unique i j n m m' hi hj
  · rw [hh] at hk
    obtain ⟨i, m, hi⟩ := hs.found k n hk
    exact ⟨i, m, by rw [htag]; exact hi⟩

theorem Served.find (hs : Served a) {i : Nat} (hi : a.slotFind name = some i) :
    0 < (a.slotAt i).openCount ∧ (a.slotAt i).openCount = (a.holders name).ncard := by
  obtain ⟨hin, hname⟩ := slotFind_some hi
  exact hs.count i name _ (tag_some.mpr ⟨hin, hname, rfl⟩)

theorem holders_none (hs : Served a) (hnone : a.slotFind name = none) : a.holders name = ∅ := by
  apply Set.eq_empty_iff_forall_notMem.mpr
  intro k hk
  obtain ⟨i, hi⟩ := hs.follow.found k name hk
  rw [hnone] at hi
  cases hi

theorem holders_open (hh : b.handles = Function.update a.handles h (some name)) (hfree : a.handles h = none) (n : Bytes) :
    b.holders n = if n = name then insert h (a.holders name) else a.holders n := by
  ext k
  simp only [App.holders, hh, Set.mem_ofPred_eq, Function.update_apply]
  by_cases hn : n = name
  · subst hn
    by_cases hk : k = h <;> simp [hk]
  · rw [if_neg hn]
    by_cases hk : k = h
    · subst hk
      simp [hfree, Ne.symm hn]
    · simp [hk]

theorem holders_close (hh : b.handles = Function.update a.handles h none) (hopen : a.handles h = some name) (n : Bytes) :
    b.holders n = if n = name then a.holders name \ {h} else a.holders n := by
  ext k
  simp only [App.holders, hh, Set.mem_ofPred_eq, Function.update_apply]
  by_cases hn : n = name
  · subst hn
    by_cases hk : k = h <;> simp [hk]
  · rw [if_neg hn]
    by_cases hk : k = h
    · subst hk
      simp [hopen, Ne.symm hn]
    · simp [hk]

theorem Served.set (hs : Served a) {i n : Nat} (htag : ∀ j, slotTag (b.slotAt j) = if j = i then (some (name, n), true) else slotTag (a.slotAt j))
    (hpos : 0 < n) (hcount : n = (b.holders name).ncard) (hfin : (b.holders name).Finite)
    (hother : ∀ m, m ≠ name → b.holders m = a.holders m)
    (hmine : ∀ j m, (slotTag (a.slotAt j)).1 = some (name, m) → j = i)
    (hi : ∀ m k, (slotTag (a.slotAt i)).1 = some (m, k) → m = name) : Served b := by
  have hkey : ∀ {j m k}, (slotTag (b.slotAt j)).1 = some (m, k) →
      (j = i ∧ m = name ∧ k = n) ∨ (j ≠ i ∧ m ≠ name ∧ (slotTag (a.slotAt j)).1 = some (m, k)) := by
    intro j m k hj
    rw [htag] at hj
    by_cases hji : j = i
    · rw [if_pos hji] at hj
      cases hj
      exact .inl ⟨hji, rfl, rfl⟩
    · rw [if_neg hji] at hj
      exact .inr ⟨hji, fun hm => hji (hmine j k (hm ▸ hj)), hj⟩
  refine ⟨fun m => ?_, fun j => ?_, fun j m k hj => ?_, fun j j' m k k' hj hj' => ?_, fun k m hk => ?_⟩
  · by_cases hm : m = name
    · exact hm ▸ hfin
    · rw [hother m hm]
      exact hs.finite m
  · rw [htag]
    split
    · rfl
    · exact hs.block j
  · rcases hkey hj with ⟨_, rfl, rfl⟩ | ⟨_, hm, hold⟩
    · exact ⟨hpos, hcount⟩
    · rw [hother m hm]
      exact hs.count j m k hold
  · rcases hkey hj with ⟨hji, hm, _⟩ | ⟨_, hm, hold⟩
    · rcases hkey hj' with ⟨hji', _⟩ | ⟨_, hm', _⟩
      · exact hji.trans hji'.symm
      · exact absurd hm hm'
    · rcases hkey hj' with ⟨_, hm', _⟩ | ⟨_, _, hold'⟩
      · exact absurd hm' hm
      · exact hs.unique j j' m k k' hold hold'
  · by_cases hm : m = name
    · exact ⟨i, n, by rw [htag, if_pos rfl, hm]⟩
    · have hk' : a.handles k = some m := by
        have hmem : k ∈ a.holders m := hother m hm ▸ hk
        exact hmem
      obtain ⟨j, l, hj⟩ := hs.found k m hk'
      have hji : j ≠ i := fun hji => hm (hi m l (hji ▸ hj))
      exact ⟨j, l, by rw [htag, if_neg hji]; exact hj⟩

theorem served_open (hs : Served a) (hcl : Claimed cfg name a b)
    (hh : b.handles = Function.update a.handles h (some name)) (hfree : a.handles h = none)
    (hfew : (a.holders name).ncard < 255) : Served b := by
  have hholders := holders_open hh hfree
  have hnew : b.holders name = insert h (a.holders name) := by rw [hholders, if_pos rfl]
  have hnot : h ∉ a.holders name := by
    intro hmem
    rw [show a.handles h = some name from hmem] at hfree
    cases hfree
  have hcard : (b.holders name).ncard = (a.holders name).ncard + 1 := by
    rw [hnew, Set.ncard_insert_of_notMem hnot (hs.finite name)]
  have hfin : (b.holders name).Finite := hnew ▸ (hs.finite name).insert h
  cases hcl with
  | again i hi hb =>
    obtain ⟨hin, hname⟩ := slotFind_some hi
    obtain ⟨_, hcount⟩ := hs.find hi
    have hblock := hs.block i
    rw [slotTag_of_find hi] at hblock
    have htag := slotTag_of_set (lt_length_of_inUse cfg hin) hb
    rw [show (a.slotAt i).ingestBuf.isSome = true from hblock] at htag
    refine hs.set htag ?_ ?_ hfin (fun m hm => by rw [hholders, if_neg hm]) (fun j m hj => ?_) fun m k hk => ?_
    · unfold countUp
      split <;> omega
    · rw [countUp, if_pos (by omega), hcard, hcount]
    · exact hs.unique j i name m _ hj (tag_some.mpr ⟨hin, hname, rfl⟩)
    · exact (tag_some.mp hk).2.1.symm.trans hname
  | fresh i hnone hlt hunused hb =>
    have hempty := holders_none hs hnone
    refine hs.set (slotTag_of_set hlt hb) (by omega) ?_ hfin (fun m hm => by rw [hholders, if_neg hm])
      (fun j m hj => ?_) fun m k hk => ?_
    · rw [hcard, hempty, Set.ncard_empty]
    · obtain ⟨hin, hname, _⟩ := tag_some.mp hj
      exact absurd hname (slotFind_none.mp hnone j hin)
    · rw [(tag_some.mp hk).1] at hunused
      cases hunused

theorem served_close (hs : Served a) (hrel : Released cfg name a b) (hopen : a.handles h = some name)
    (hh : b.handles = Function.update a.handles h none) : Served b := by
  have hholders := holders_close hh hopen
  have hnew : b.holders name = a.holders name \ {h} := by rw [hholders, if_pos rfl]
  have hmem : h ∈ a.holders name := hopen
  have hcard : (b.holders name).ncard = (a.holders name).ncard - 1 := by
    rw [hnew, Set.ncard_sdiff_singleton_of_mem hmem]
  have hfin : (b.holders name).Finite := hnew ▸ (hs.finite name).sdiff
  obtain ⟨i, hi⟩ := hs.follow.found h name hopen
  obtain ⟨hin, hname⟩ := slotFind_some hi
  obtain ⟨hpos, hcount⟩ := hs.find hi
  have hlt := lt_length_of_inUse cfg hin
  have hblock := hs.block i
  rw [slotTag_of_find hi] at hblock
  cases hrel with
  | absent hnone => rw [hi] at hnone; cases hnone
  | shared j hj hmany hb =>
    obtain rfl : i = j := Option.some.inj (hi.symm.trans hj)
    have htag := slotTag_of_set hlt hb
    rw [show (a.slotAt i).ingestBuf.isSome = true from hblock] at htag
    refine hs.set htag (by omega) (by omega) hfin (fun m hm => by rw [hholders, if_neg hm]) (fun j m hj => ?_)
      fun m k hk => (tag_some.mp hk).2.1.symm.trans hname
    exact hs.unique j i name m _ hj (tag_some.mpr ⟨hin, hname, rfl⟩)
  | last j hj hfew hb =>
    obtain rfl : i = j := Option.some.inj (hi.symm.trans hj)
    have htag := slotTag_of_set hlt hb
    -- It was the stream's last handle.
    have hempty : b.holders name = ∅ := (Set.ncard_eq_zero hfin).mp (by omega)
    have hkey : ∀ {j m k}, (slotTag (b.slotAt j)).1 = some (m, k) →
        j ≠ i ∧ m ≠ name ∧ (slotTag (a.slotAt j)).1 = some (m, k) := by
      intro j m k hk
      rw [htag] at hk
      by_cases hji : j = i
      · rw [if_pos hji] at hk
        cases hk
      · rw [if_neg hji] at hk
        exact ⟨hji, fun hm => hji (hs.unique j i m k _ hk (tag_some.mpr ⟨hin, hname.trans hm.symm, rfl⟩)), hk⟩
    refine ⟨fun m => ?_, fun j => ?_, fun j m k hk => ?_, fun j j' m k k' hk hk' => ?_, fun k m hk => ?_⟩
    · by_cases hm : m = name
      · exact hm ▸ hfin
      · rw [hholders, if_neg hm]
        exact hs.finite m
    · rw [htag]
      split
      · rfl
      · exact hs.block j
    · obtain ⟨_, hm, hold⟩ := hkey hk
      rw [hholders, if_neg hm]
      exact hs.count j m k hold
    · exact hs.unique j j' m k k' (hkey hk).2.2 (hkey hk').2.2
    · have hm : m ≠ name := by
        rintro rfl
        have hk' : k ∈ b.holders m := hk
        rw [hempty] at hk'
        exact hk'
      have hk' : k ∈ a.holders m := by
        rw [← show b.holders m = a.holders m by rw [hholders, if_neg hm]]
        exact hk
      obtain ⟨j, l, hj⟩ := hs.found k m hk'
      have hji : j ≠ i := fun hji => hm ((tag_some.mp (hji ▸ hj)).2.1.symm.trans hname)
      exact ⟨j, l, by rw [htag, if_neg hji]; exact hj⟩

theorem served_boot (env : Sys) : Served (App.boot env) := by
  have hzero : ∀ i, slotTag ((App.boot env).slotAt i) = (none, false) := fun i => by
    rw [slotAt_zero rfl]
    rfl
  have hempty : ∀ n, (App.boot env).holders n = ∅ := fun n =>
    Set.eq_empty_iff_forall_notMem.mpr fun k hk => by cases hk
  refine ⟨fun n => hempty n ▸ Set.finite_empty, fun i => by rw [hzero]; rfl, fun i n m hi => ?_,
    fun i j n m m' hi => ?_, fun k n hk => by cases hk⟩
  · rw [hzero] at hi
    cases hi
  · rw [hzero] at hi
    cases hi

theorem served_step (hs : Served a) {op : Op} (hl : op.lasting = true) (hok : op.succeeds cfg a = true)
    (hm : Mannered a op) : Served (step cfg a op).2 := by
  by_cases hmod : op.modest = true
  · exact served_of_held hs (held_step op hmod a)
  · cases op with
    | init => cases hl
    | deinit => cases hl
    | «open» k name =>
      have htidy : Tidy a := tidy_iff.mpr fun i hi => by rw [hs.block i, hi]; rfl
      show Served (post (tsOpen cfg k name) a)
      cases hrun : (tsOpen cfg k name).run a with
      | error r b =>
        have hout : outcome (tsOpen cfg k name) a = .error r := by rw [outcome, hrun]
        have hok' : (outcome (tsOpen cfg k name) a).isOk = true := hok
        rw [hout] at hok'
        cases hok'
      | ok x b =>
        obtain ⟨hcl, hh⟩ := (tsOpen_yields k htidy).run_ok hrun
        rw [post_of_run hrun]
        exact served_open hs hcl hh hm.1 hm.2
    | close k =>
      show Served (post (tsClose cfg k) a)
      cases hh : a.handles k with
      | none =>
        unfold tsClose
        rw [post_get_bind, hh]
        exact hs
      | some name =>
        obtain ⟨hrel, hclosed⟩ := @tsClose_released cfg _ _ _ hh
        exact served_close hs hrel hh hclosed
    | _ => exact absurd rfl hmod

theorem served_run (hs : Served a) {ops : List Op} (hok : allSucceed cfg a ops = true) (hm : MannerlyRun cfg a ops)
    (n : Nat) : Served (run cfg a (ops.take n)) := by
  induction ops generalizing a n with
  | nil => cases n <;> exact hs
  | cons op ops ih =>
    obtain ⟨hhere, hrest⟩ := hm
    simp only [allSucceed, Bool.and_eq_true] at hok
    obtain ⟨⟨hl, hopok⟩, hokrest⟩ := hok
    cases n with
    | zero => exact hs
    | succ n => exact ih (served_step hs hl hopok hhere) hokrest hrest n

end Served

/-- In every state that successful opens and closes lead to, together with any other calls, slots follow
handles, as long as handles are opened in a mannerly way. -/
theorem slots_follow_handles (cfg : Cfg) (env : Sys) (ops : List Op) (n : Nat)
    (hok : allSucceed cfg (App.boot env) ops = true) (hm : MannerlyRun cfg (App.boot env) ops) :
    SlotsFollowHandles (run cfg (App.boot env) (ops.take n)) :=
  (served_run (served_boot env) hok hm n).follow

/-- Two handles on one stream, the first of them closed again. -/
theorem pair_followed : SlotsFollowHandles
    (run (Cfg.small true false false 280) (App.boot (Sys.blank fun _ => false))
      ([Op.open 0 [65], .open 1 [65], .close 0].take 3)) := by
  refine slots_follow_handles _ _ _ 3 (by decide +kernel) ⟨⟨rfl, ?_⟩, ⟨rfl, ?_⟩, trivial, trivial⟩
  · have hempty : (App.boot (Sys.blank fun _ => false)).holders [65] = ∅ :=
      Set.eq_empty_iff_forall_notMem.mpr fun k hk => nomatch (hk : (none : Option Bytes) = some [65])
    rw [hempty, Set.ncard_empty]
    exact Nat.zero_lt_succ 254
  · refine Nat.lt_of_le_of_lt (Set.ncard_le_ncard (t := {0}) fun k hk => ?_) ?_
    · by_contra hne
      have hk' : Function.update (fun _ : Nat => (none : Option Bytes)) 0 (some [65]) k = some [65] := hk
      rw [Function.update_of_ne hne] at hk'
      cases hk'
    · rw [Set.ncard_singleton]
      exact Nat.one_lt_succ_succ 253

/-- A stream is opened by 256 handles and closed by 255: its count saturates, and the slot is freed under the
handle that is left. -/
theorem handle_outlives_slot :
    let cfg := Cfg.small true false false 280
    let ops := (List.range 256).map (Op.open · [65]) ++ (List.range 255).map Op.close
    let a := run cfg (App.boot (Sys.blank fun _ => false)) ops
    allSucceed cfg (App.boot (Sys.blank fun _ => false)) ops = true ∧ a.handles 255 = some [65] ∧
      a.slotFind [65] = none ∧ ¬ SlotsFollowHandles a := by
  have hrun : allSucceed (Cfg.small true false false 280) (App.boot (Sys.blank fun _ => false))
      ((List.range 256).map (Op.open · [65]) ++ (List.range 255).map Op.close) = true := by decide +kernel
  have hend : (run (Cfg.small true false false 280) (App.boot (Sys.blank fun _ => false))
      ((List.range 256).map (Op.open · [65]) ++ (List.range 255).map Op.close)).handles 255 = some [65] ∧
      (run (Cfg.small true false false 280) (App.boot (Sys.blank fun _ => false))
        ((List.range 256).map (Op.open · [65]) ++ (List.range 255).map Op.close)).slotFind [65] = none := by
    decide +kernel
  refine ⟨hrun, hend.1, hend.2, fun hf => ?_⟩
  obtain ⟨i, hi⟩ := hf.found 255 [65] hend.1
  rw [hend.2] at hi
  cases hi

end ZephyrDB.Ts
