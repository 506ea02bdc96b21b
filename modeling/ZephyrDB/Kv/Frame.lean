import ZephyrDB.Kv.Run

/-!
What the calls leave alone, whatever the backend does: the bookkeeping of the
index touches no record, a block of the slab is given back, and a read changes
nothing. The value a key has depends on the one cell its id names.
-/

set_option autoImplicit false

namespace ZephyrDB.Kv

open Lib

theorem stored_congr {cfg : KvCfg} {cells cells' : Cells} {k : NsKey}
    (h : cells' (recordId cfg k.1 k.2) = cells (recordId cfg k.1 k.2)) :
    stored cfg cells' k = stored cfg cells k := by
  unfold stored
  rw [h]

theorem recordCheck_match {buf : Bytes} {ns key : CString} {off : Nat}
    (h : recordCheck buf ns key = .MATCH off) :
    isRecord buf = true ∧ nsLen buf = ns.val.length ∧ keyLen buf = key.val.length ∧
      slice buf REC_HDR_SIZE (nsLen buf) = ns.val ∧
      slice buf (REC_HDR_SIZE + nsLen buf) (keyLen buf) = key.val ∧ off = headLen buf := by
  unfold recordCheck at h
  split at h
  · cases h
  · rename_i hrec
    split at h
    · cases h
    · rename_i hsame
      simp only [not_or, not_not] at hsame
      cases h
      exact ⟨by simpa using hrec, hsame.1, hsame.2.1, hsame.2.2.1, hsame.2.2.2, rfl⟩

theorem match_unique {buf : Bytes} {k k' : NsKey} {off off' : Nat}
    (h : recordCheck buf k.1 k.2 = .MATCH off) (h' : recordCheck buf k'.1 k'.2 = .MATCH off') : k = k' := by
  obtain ⟨-, -, -, hns, hkey, -⟩ := recordCheck_match h
  obtain ⟨-, -, -, hns', hkey', -⟩ := recordCheck_match h'
  exact Prod.ext (Subtype.ext (hns.symm.trans hns')) (Subtype.ext (hkey.symm.trans hkey'))

theorem stored_eq_some {cfg : KvCfg} {cells : Cells} {k : NsKey} {value : Bytes} :
    stored cfg cells k = some value ↔ ∃ record off, cells (recordId cfg k.1 k.2) = some record ∧
      recordCheck record k.1 k.2 = .MATCH off ∧ record.drop off = value := by
  unfold stored
  cases h : cells (recordId cfg k.1 k.2) with
  | none => simp
  | some record => cases hc : recordCheck record k.1 k.2 <;> simp [hc]

theorem recordOf_congr {cfg : KvCfg} {cells cells' : Cells} {k : NsKey}
    (h : cells' (recordId cfg k.1 k.2) = cells (recordId cfg k.1 k.2)) :
    recordOf cfg cells' k = recordOf cfg cells k := by
  unfold recordOf
  rw [h]

theorem recordOf_eq_some {cfg : KvCfg} {cells : Cells} {k : NsKey} {record : Bytes} :
    recordOf cfg cells k = some record ↔
      cells (recordId cfg k.1 k.2) = some record ∧ ∃ off, recordCheck record k.1 k.2 = .MATCH off := by
  unfold recordOf
  rw [Option.filter_eq_some_iff]
  apply and_congr_right
  intro _
  cases recordCheck record k.1 k.2 <;> simp

theorem stored_unique {cfg : KvCfg} {cells : Cells} {k k' : NsKey}
    (hid : recordId cfg k.1 k.2 = recordId cfg k'.1 k'.2) (h : stored cfg cells k ≠ none)
    (h' : stored cfg cells k' ≠ none) : k = k' := by
  obtain ⟨v, hv⟩ := Option.ne_none_iff_exists'.mp h
  obtain ⟨v', hv'⟩ := Option.ne_none_iff_exists'.mp h'
  obtain ⟨record, off, hcell, hmatch, -⟩ := stored_eq_some.mp hv
  obtain ⟨record', off', hcell', hmatch', -⟩ := stored_eq_some.mp hv'
  rw [hid, hcell'] at hcell
  obtain rfl := Option.some.inj hcell
  exact match_unique hmatch hmatch'

theorem stored_recordBuild {cfg : KvCfg} {cells : Cells} {ns key : CString} {value : Bytes}
    (hns : keyValid cfg ns = true) (hkey : keyValid cfg key = true) (k : NsKey)
    (hid : cells (recordId cfg k.1 k.2) = some (recordBuild ns key value)) :
    stored cfg cells k = if k = (ns, key) then some value else none := by
  unfold stored
  rw [hid]
  simp only [Option.bind_some]
  rw [recordCheck_recordBuild value (keyValid_lt hns) (keyValid_lt hkey)]
  by_cases h : k = (ns, key)
  · subst h
    rw [if_pos ⟨rfl, rfl⟩, if_pos rfl]
    simp only [recordBuild_drop]
  · have hne : ¬ (k.1 = ns ∧ k.2 = key) := fun hk => h (Prod.ext hk.1 hk.2)
    rw [if_neg hne, if_neg h]

/-- Only cells of `P` may differ, and the slab and the heap are as before. -/
structure Confined (P : UInt32 → Prop) (s t : KvSt) : Prop where
  flash : IdStore.Within P s.flash t.flash
  ioFree : t.ioFree = s.ioFree
  heapRoom : t.heapRoom = s.heapRoom

theorem confined_chains (P : UInt32 → Prop) : Chains (Confined P) where
  refl s := ⟨(IdStore.within_chains P).refl s.flash, rfl, rfl⟩
  trans h k := ⟨(IdStore.within_chains P).trans h.flash k.flash, k.ioFree.trans h.ioFree,
    k.heapRoom.trans h.heapRoom⟩

abbrev IndexSlot (cfg : KvCfg) (id : UInt32) : Prop := id = indexRecId cfg

theorem Confined.recordOf {cfg : KvCfg} {s t : KvSt} (h : Confined (IndexSlot cfg) s t) (k : NsKey) :
    recordOf cfg t.flash.cells k = recordOf cfg s.flash.cells k :=
  recordOf_congr (h.flash.cells _ (recordId_ne_index cfg k.1 k.2))

theorem Confined.stored {cfg : KvCfg} {s t : KvSt} (h : Confined (IndexSlot cfg) s t) (k : NsKey) :
    stored cfg t.flash.cells k = stored cfg s.flash.cells k :=
  stored_congr (h.flash.cells _ (recordId_ne_index cfg k.1 k.2))

section Keeps
variable {ε α : Type} {P : UInt32 → Prop} {s : KvSt}

theorem keeps_onFlash {m : EStateM ε IdStore α} (h : Keeps (IdStore.Within P) m s.flash) :
    Keeps (Confined P) (onFlash m) s := by
  unfold Keeps onFlash
  rw [post_zoom]
  exact ⟨h, rfl, rfl⟩

theorem keeps_ctx (P : UInt32 → Prop) (s : KvSt) (ctx : Option (List IndexEntry)) :
    Confined P s { s with ctx := ctx } :=
  ⟨(IdStore.within_chains P).refl s.flash, rfl, rfl⟩

theorem keeps_indexStore (cfg : KvCfg) (s : KvSt) : Keeps (Confined (IndexSlot cfg)) (indexStore cfg) s := by
  unfold indexStore
  apply keeps_get_bind
  cases s.ctx with
  | none => exact keeps_pure (confined_chains _) _ _
  | some entries =>
    refine keeps_bind (confined_chains _) (keeps_attempt (keeps_onFlash ?_)) fun _ _ _ =>
      keeps_pure (confined_chains _) _ _
    have hslot : IndexSlot cfg (indexRecId cfg) := rfl
    exact IdStore.keeps_write s.flash hslot _

theorem keeps_loadEntries (cfg : KvCfg) (P : UInt32 → Prop) (ids : List UInt32) (s : KvSt) :
    Keeps (Confined P) (loadEntries cfg ids) s := by
  have hchain := confined_chains P
  induction ids generalizing s with
  | nil => exact keeps_pure hchain _ _
  | cons id ids ih =>
    apply keeps_bind hchain (keeps_attempt (keeps_onFlash (IdStore.keeps_read _ _ _)))
    intro r t _
    rcases r with err | ⟨rd, record⟩
    · apply keeps_bind hchain (ih t)
      intro _ _ _
      exact keeps_pure hchain _ _
    · dsimp only
      cases entryOf cfg id rd record with
      | none => exact keeps_bind hchain (ih t) fun _ _ _ => keeps_pure hchain _ _
      | some entry =>
        exact keeps_bind hchain (keeps_ctx P t _) fun _ u _ => ih u

theorem loadEntries_total (cfg : KvCfg) (ids : List UInt32) : Total (loadEntries cfg ids) := by
  induction ids with
  | nil => exact total_pure _
  | cons id ids ih =>
    apply total_bind (total_attempt _)
    intro r
    rcases r with err | ⟨rd, record⟩
    · exact total_bind ih fun _ => total_pure _
    · dsimp only
      cases entryOf cfg id rd record with
      | none => exact total_bind ih fun _ => total_pure _
      | some entry => exact total_bind (total_modify _) fun _ => ih

theorem indexStore_total (cfg : KvCfg) : Total (indexStore cfg) := by
  apply total_bind total_get
  intro s
  cases s.ctx with
  | none => exact total_pure _
  | some entries => exact total_bind (total_attempt _) fun _ => total_pure _

def loadWithBlock (cfg : KvCfg) (ids : List UInt32) : KvM Status Unit := do
  modify fun s => { s with ioFree := s.ioFree - 1 }
  let pruned ← loadEntries cfg ids
  modify fun s => { s with ioFree := s.ioFree + 1 }
  if pruned then indexStore cfg

theorem indexLoad_eq (cfg : KvCfg) : indexLoad cfg = (do
    match ← attempt (onFlash (IdStore.read (indexRecId cfg) (indexMaxBytes cfg))) with
    | .error _ => return ()
    | .ok (rd, raw) =>
      match indexIds cfg rd raw with
      | none => return ()
      | some ids => if (← get).ioFree ≠ 0 then loadWithBlock cfg ids else pure ()) := rfl

/-- The state with one block of the slab taken. -/
def KvSt.hold (s : KvSt) : KvSt := { s with ioFree := s.ioFree - 1 }

def KvSt.release (s : KvSt) : KvSt := { s with ioFree := s.ioFree + 1 }

theorem Confined.released {P : UInt32 → Prop} {s t : KvSt} (h : Confined P s.hold t) (hio : s.ioFree ≠ 0) :
    Confined P s t.release := by
  refine ⟨h.flash, ?_, h.heapRoom⟩
  show t.ioFree + 1 = s.ioFree
  rw [h.ioFree]
  exact Nat.succ_pred_eq_of_ne_zero hio

theorem loadWithBlock_run (cfg : KvCfg) (ids : List UInt32) (s : KvSt) :
    ∃ pruned, (loadEntries cfg ids).run s.hold = .ok pruned (post (loadEntries cfg ids) s.hold) ∧
      (loadWithBlock cfg ids).run s =
        (if pruned then indexStore cfg else pure ()).run (post (loadEntries cfg ids) s.hold).release := by
  obtain ⟨pruned, hrun⟩ := loadEntries_total cfg ids s.hold
  exact ⟨pruned, hrun, run_then (t := s.hold) (a := ()) rfl (run_then hrun rfl)⟩

theorem keeps_loadWithBlock (cfg : KvCfg) (ids : List UInt32) {s : KvSt} (hio : s.ioFree ≠ 0) :
    Keeps (Confined (IndexSlot cfg)) (loadWithBlock cfg ids) s := by
  obtain ⟨pruned, hrun, hload⟩ := loadWithBlock_run cfg ids s
  have hback : Confined (IndexSlot cfg) s (post (loadEntries cfg ids) s.hold).release :=
    (keeps_loadEntries cfg _ ids s.hold).released hio
  unfold Keeps post
  rw [hload]
  cases pruned with
  | true => exact (confined_chains _).trans hback (keeps_indexStore cfg _)
  | false => exact hback

theorem loadWithBlock_total (cfg : KvCfg) (ids : List UInt32) : Total (loadWithBlock cfg ids) := by
  apply total_bind (total_modify _)
  intro _
  apply total_bind (loadEntries_total cfg ids)
  intro pruned
  apply total_bind (total_modify _)
  intro _
  cases pruned with
  | true => exact indexStore_total cfg
  | false => exact total_pure _

theorem keeps_indexLoad (cfg : KvCfg) (s : KvSt) : Keeps (Confined (IndexSlot cfg)) (indexLoad cfg) s := by
  have hchain := confined_chains (IndexSlot cfg)
  rw [indexLoad_eq]
  apply keeps_bind hchain (keeps_attempt (keeps_onFlash (IdStore.keeps_read _ _ _)))
  intro r t _
  rcases r with err | ⟨rd, raw⟩
  · exact keeps_pure hchain _ _
  · dsimp only
    cases indexIds cfg rd raw with
    | none => exact keeps_pure hchain _ _
    | some ids =>
      apply keeps_get_bind
      by_cases hio : t.ioFree ≠ 0
      · rw [if_pos hio]
        exact keeps_loadWithBlock cfg ids hio
      · rw [if_neg hio]
        exact keeps_pure hchain _ _

theorem indexLoad_total (cfg : KvCfg) : Total (indexLoad cfg) := by
  rw [indexLoad_eq]
  apply total_bind (total_attempt _)
  intro r
  rcases r with err | ⟨rd, raw⟩
  · exact total_pure _
  · dsimp only
    cases indexIds cfg rd raw with
    | none => exact total_pure _
    | some ids =>
      apply total_bind total_get
      intro t
      by_cases hio : t.ioFree ≠ 0
      · rw [if_pos hio]
        exact loadWithBlock_total cfg ids
      · rw [if_neg hio]
        exact total_pure _

theorem loadPersisted_total (cfg : KvCfg) : Total (loadPersisted cfg) := by
  unfold loadPersisted
  split
  · exact indexLoad_total cfg
  · exact total_pure _

theorem storePersisted_total (cfg : KvCfg) : Total (storePersisted cfg) := by
  unfold storePersisted
  split
  · exact indexStore_total cfg
  · exact total_pure _

theorem ctxGetOrAlloc_total (cfg : KvCfg) : Total (ctxGetOrAlloc cfg) := by
  apply total_bind total_get
  intro s
  cases s.ctx with
  | some entries => exact total_pure _
  | none =>
    dsimp only
    by_cases hroom : s.heapRoom = true
    · simp only [hroom, if_true]
      exact total_bind (total_set _) fun _ => total_bind (loadPersisted_total cfg) fun _ => total_pure _
    · simp only [hroom]
      exact total_pure _

theorem trackSet_total (cfg : KvCfg) (ns key : CString) (id : UInt32) : Total (trackSet cfg ns key id) := by
  apply total_bind (ctxGetOrAlloc_total cfg)
  intro there
  cases there with
  | false => exact total_pure _
  | true =>
    apply total_bind total_get
    intro t
    dsimp only
    cases findEntry (t.ctx.getD []) ns key with
    | some i => exact total_bind (total_set _) fun _ => total_pure _
    | none =>
      by_cases hfull : cfg.indexMax ≤ (t.ctx.getD []).length
      · simp only [hfull, if_true]
        exact total_pure _
      · simp only [hfull, if_false]
        exact total_bind (total_set _) fun _ => total_bind (storePersisted_total cfg) fun _ => total_pure _

theorem trackDelete_total (cfg : KvCfg) (ns key : CString) : Total (trackDelete cfg ns key) := by
  apply total_bind total_get
  intro s
  cases s.ctx with
  | none => exact total_pure _
  | some entries =>
    dsimp only
    cases findEntry entries ns key with
    | none => exact total_pure _
    | some i =>
      exact total_bind (total_set _) fun _ => storePersisted_total cfg

theorem finishSet_ok {cfg : KvCfg} {ns key : CString} {status : Status} {s : KvSt}
    (h : outcome (finishSet cfg ns key status) s = .ok ()) : status = .OK := by
  obtain ⟨_, htrack⟩ := trackDelete_total cfg ns key s
  cases status
  case OK => rfl
  all_goals
    exfalso
    unfold finishSet at h
    rw [outcome_bind_ok (outcome_of_run htrack)] at h
    cases h

theorem keeps_loadPersisted (cfg : KvCfg) (s : KvSt) : Keeps (Confined (IndexSlot cfg)) (loadPersisted cfg) s := by
  unfold loadPersisted
  split
  · exact keeps_indexLoad cfg s
  · exact keeps_pure (confined_chains _) _ _

theorem keeps_storePersisted (cfg : KvCfg) (s : KvSt) :
    Keeps (Confined (IndexSlot cfg)) (storePersisted cfg) s := by
  unfold storePersisted
  split
  · exact keeps_indexStore cfg s
  · exact keeps_pure (confined_chains _) _ _

theorem keeps_ctxGetOrAlloc (cfg : KvCfg) (s : KvSt) :
    Keeps (Confined (IndexSlot cfg)) (ctxGetOrAlloc cfg) s := by
  have hchain := confined_chains (IndexSlot cfg)
  unfold ctxGetOrAlloc
  apply keeps_get_bind
  cases s.ctx with
  | some entries => exact keeps_pure hchain _ _
  | none =>
    by_cases hroom : s.heapRoom = true
    · simp only [hroom, if_true]
      apply keeps_bind hchain (hroom ▸ keeps_ctx _ s _)
      intro _ t _
      apply keeps_bind hchain (keeps_loadPersisted cfg t)
      intro _ _ _
      exact keeps_pure hchain _ _
    · simp only [hroom]
      exact keeps_pure hchain _ _

theorem keeps_trackSet (cfg : KvCfg) (ns key : CString) (id : UInt32) (s : KvSt) :
    Keeps (Confined (IndexSlot cfg)) (trackSet cfg ns key id) s := by
  have hchain := confined_chains (IndexSlot cfg)
  unfold trackSet
  apply keeps_bind hchain (keeps_ctxGetOrAlloc cfg s)
  intro there t _
  cases there with
  | false => exact keeps_pure hchain _ _
  | true =>
    apply keeps_get_bind
    dsimp only
    cases findEntry (t.ctx.getD []) ns key with
    | some i => exact keeps_bind hchain (keeps_ctx _ t _) fun _ _ _ => keeps_pure hchain _ _
    | none =>
      by_cases hfull : cfg.indexMax ≤ (t.ctx.getD []).length
      · simp only [hfull, if_true]
        exact keeps_pure hchain _ _
      · simp only [hfull, if_false]
        refine keeps_bind hchain (keeps_ctx _ t _) fun _ u _ => ?_
        apply keeps_bind hchain (keeps_storePersisted cfg u)
        intro _ _ _
        exact keeps_pure hchain _ _

theorem keeps_trackDelete (cfg : KvCfg) (ns key : CString) (s : KvSt) :
    Keeps (Confined (IndexSlot cfg)) (trackDelete cfg ns key) s := by
  have hchain := confined_chains (IndexSlot cfg)
  unfold trackDelete
  apply keeps_get_bind
  cases s.ctx with
  | none => exact keeps_pure hchain _ _
  | some entries =>
    dsimp only
    cases findEntry entries ns key with
    | none => exact keeps_pure hchain _ _
    | some i =>
      exact keeps_bind hchain (keeps_ctx _ s _) fun _ t _ => keeps_storePersisted cfg t

theorem withBlock_none {m : KvM Status α} (h : s.ioFree = 0) : (withBlock m).run s = .error .ERR_NOMEM s := by
  have hm : withBlock m = get >>= fun u => if u.ioFree = 0 then throw .ERR_NOMEM else
      modify (fun v => { v with ioFree := v.ioFree - 1 }) >>= fun _ => attempt m >>= fun r =>
        modify (fun v => { v with ioFree := v.ioFree + 1 }) >>= fun _ => rethrow r := rfl
  rw [hm, EStateM.run_bind]
  show (if s.ioFree = 0 then throw .ERR_NOMEM else _ : KvM Status α).run s = _
  rw [if_pos h]
  rfl

theorem withBlock_run {m : KvM Status α} (h : s.ioFree ≠ 0) :
    (withBlock m).run s = (rethrow (outcome m s.hold)).run (post m s.hold).release := by
  have hm : withBlock m = get >>= fun u => if u.ioFree = 0 then throw .ERR_NOMEM else
      modify (fun v => { v with ioFree := v.ioFree - 1 }) >>= fun _ => attempt m >>= fun r =>
        modify (fun v => { v with ioFree := v.ioFree + 1 }) >>= fun _ => rethrow r := rfl
  rw [hm, EStateM.run_bind]
  show (if s.ioFree = 0 then throw .ERR_NOMEM else _ : KvM Status α).run s = _
  rw [if_neg h]
  rfl

theorem post_withBlock {m : KvM Status α} (h : s.ioFree ≠ 0) :
    post (withBlock m) s = (post m s.hold).release := by
  unfold post
  rw [withBlock_run h]
  cases outcome m s.hold <;> rfl

theorem outcome_withBlock {m : KvM Status α} (h : s.ioFree ≠ 0) :
    outcome (withBlock m) s = outcome m s.hold := by
  have hrun : (withBlock m).run s = _ := withBlock_run h
  unfold outcome at hrun ⊢
  rw [hrun]
  cases m.run s.hold <;> rfl

theorem keeps_withBlock {m : KvM Status α} (h : s.ioFree ≠ 0 → Keeps (Confined P) m s.hold) :
    Keeps (Confined P) (withBlock m) s := by
  by_cases hio : s.ioFree = 0
  · unfold Keeps post
    rw [withBlock_none hio]
    exact (confined_chains P).refl s
  · unfold Keeps
    rw [post_withBlock hio]
    exact Confined.released (h hio) hio

theorem post_kvOpen {cfg : KvCfg} {ns : CString} {f : Unit → KvM Status α} {s : KvSt} :
    post (kvOpen cfg ns >>= f) s = if keyValid cfg ns = true then post (f ()) s else s := by
  unfold kvOpen
  split
  · rw [pure_bind]
  · rfl

theorem outcome_kvOpen {cfg : KvCfg} {ns : CString} {f : Unit → KvM Status α} {s : KvSt} :
    outcome (kvOpen cfg ns >>= f) s = if keyValid cfg ns = true then outcome (f ()) s else .error .ERR_INVAL := by
  unfold kvOpen
  split
  · rw [pure_bind]
  · rfl

theorem post_opened {cfg : KvCfg} {ns : CString} {m : KvM Status α} {f : α → KvAnswer} {s : KvSt} :
    post (kvOpen cfg ns >>= fun _ => m >>= fun a => pure (f a)) s = if keyValid cfg ns = true then post m s else s := by
  rw [post_kvOpen]
  by_cases hns : keyValid cfg ns = true
  · rw [if_pos hns, if_pos hns, post_map]
  · rw [if_neg hns, if_neg hns]

theorem outcome_kvGet {cfg : KvCfg} {ns key : CString} {s : KvSt} (hkey : keyValid cfg key = true)
    (hio : s.ioFree ≠ 0) (capacity : Nat) : outcome (kvGet cfg ns key capacity) s =
      match s.flash.fault (.read (recordId cfg ns key)), s.flash.cells (recordId cfg ns key) with
      | some err, _ => .error (statusFromErrno err)
      | none, none => .error .ERR_NOT_FOUND
      | none, some bs =>
        match recordCheck (bs.take cfg.blockSize) ns key with
        | .MATCH off => .ok (slice (bs.take cfg.blockSize) off
            (min (min (bs.length - off) capacity) ((bs.take cfg.blockSize).length - off)), bs.length - off)
        | _ => .error .ERR_NOT_FOUND := by
  have hread : outcome (withBlock (toStatus (onFlash (IdStore.read (recordId cfg ns key) cfg.blockSize)))) s =
      (outcome (IdStore.read (recordId cfg ns key) cfg.blockSize) s.flash).mapError statusFromErrno := by
    rw [outcome_withBlock hio, toStatus, onFlash, outcome_adaptExcept, outcome_zoom]
    rfl
  rw [IdStore.outcome_read] at hread
  simp only [kvGet, hkey, Bool.not_true, Bool.false_eq_true, if_false]
  cases hfault : s.flash.fault (.read (recordId cfg ns key)) with
  | some err =>
    rw [hfault] at hread
    exact outcome_bind_error hread
  | none =>
    rw [hfault] at hread
    cases hcell : s.flash.cells (recordId cfg ns key) with
    | none =>
      rw [hcell] at hread
      exact outcome_bind_error hread
    | some bs =>
      rw [hcell] at hread
      rw [outcome_bind_ok hread]
      dsimp only
      cases recordCheck (bs.take cfg.blockSize) ns key <;> rfl

theorem keeps_kvGet (cfg : KvCfg) (P : UInt32 → Prop) (ns key : CString) (capacity : Nat) (s : KvSt) :
    Keeps (Confined P) (kvGet cfg ns key capacity) s := by
  have hchain := confined_chains P
  unfold kvGet
  cases keyValid cfg key with
  | false => exact keeps_throw hchain _ _
  | true =>
    refine keeps_bind hchain (keeps_withBlock fun _ => ?_) fun r t _ => ?_
    · exact keeps_adaptExcept _ (keeps_onFlash (IdStore.keeps_read _ _ _))
    · obtain ⟨rd, record⟩ := r
      dsimp only
      cases recordCheck record ns key with
      | MATCH off => exact keeps_pure hchain _ _
      | MISMATCH => exact keeps_throw hchain _ _
      | FOREIGN => exact keeps_throw hchain _ _

end Keeps

end ZephyrDB.Kv
