import ZephyrDB.Kv.Reset

/-!
The store over a backend that accepts every operation: each slot holds a record
of a key that has its id, and a set, a get or a delete acts on the values the
keys hold as on a map in which two keys of one id exclude each other.
-/

set_option autoImplicit false

namespace ZephyrDB.Kv

open Lib

variable {cfg : KvCfg}

def Proper (cfg : KvCfg) (id : UInt32) (record : Bytes) : Prop :=
  ∃ ns key value, keyValid cfg ns = true ∧ keyValid cfg key = true ∧ recordId cfg ns key = id ∧
    record = recordBuild ns key value ∧ record.length ≤ cfg.blockSize

/-- Every slot but that of the index holds nothing or such a record. -/
def Orderly (cfg : KvCfg) (cells : Cells) : Prop :=
  ∀ id record, id ≠ indexRecId cfg → cells id = some record → Proper cfg id record

def Tidy (cfg : KvCfg) (s t : KvSt) : Prop :=
  ∀ id, id ≠ indexRecId cfg → t.flash.cells id = s.flash.cells id ∨ t.flash.cells id = none ∨
    ∃ record, t.flash.cells id = some record ∧ Proper cfg id record

theorem tidy_chains (cfg : KvCfg) : Chains (Tidy cfg) where
  refl _ := fun _ _ => .inl rfl
  trans {a b c} h k := fun id hid => by
    rcases k id hid with hk | hk | hk
    · rw [hk]
      exact h id hid
    · exact .inr (.inl hk)
    · exact .inr (.inr hk)

theorem Tidy.orderly {s t : KvSt} (h : Tidy cfg s t) (hs : Orderly cfg s.flash.cells) :
    Orderly cfg t.flash.cells := by
  intro id record hid hcell
  rcases h id hid with hk | hk | ⟨record', hk, hproper⟩
  · exact hs id record hid (hk ▸ hcell)
  · rw [hk] at hcell
    cases hcell
  · rw [hk] at hcell
    obtain rfl := Option.some.inj hcell
    exact hproper

theorem Confined.tidy {s t : KvSt} (h : Confined (IndexSlot cfg) s t) : Tidy cfg s t :=
  fun id hid => .inl (h.flash.cells id hid)

theorem tidy_kvSet {ns key : CString} (value : Option Bytes) (s : KvSt) (hns : keyValid cfg ns = true) :
    Keeps (Tidy cfg) (kvSet cfg ns key value) s := by
  intro id hid
  by_cases hthrough : ∃ v, value = some v ∧ LetThrough cfg s ns key v
  · obtain ⟨v, rfl, hlet⟩ := hthrough
    rw [post_kvSet_through hlet]
    have hcells := setLocked_cells cfg s.hold ns key v hid
    by_cases heq : id = recordId cfg ns key
    · subst heq
      rw [Function.update_self] at hcells
      split at hcells
      · exact .inr (.inr ⟨_, hcells, ns, key, v, hns, hlet.key_valid, rfl, rfl, hlet.fits⟩)
      · exact .inl hcells
    · rw [Function.update_of_ne heq, ite_self] at hcells
      exact .inl hcells
  · rw [post_kvSet_stopped hns fun v hv hlet => hthrough ⟨v, hv, hlet⟩]
    exact .inl rfl

theorem tidy_deleteLocked (ns key : CString) (s : KvSt) : Keeps (Tidy cfg) (deleteLocked cfg ns key) s := by
  have hchain := tidy_chains cfg
  have hread : Keeps (Confined (IndexSlot cfg))
      (toStatus (onFlash (IdStore.read (recordId cfg ns key) cfg.blockSize)) : KvM Status _) s :=
    keeps_adaptExcept _ (keeps_onFlash (IdStore.keeps_read _ _ _))
  apply keeps_bind hchain (Confined.tidy hread)
  intro r t _
  obtain ⟨rd, record⟩ := r
  dsimp only
  cases recordCheck record ns key with
  | MISMATCH => exact keeps_throw hchain _ _
  | FOREIGN => exact keeps_throw hchain _ _
  | MATCH off =>
    refine keeps_bind hchain (fun id hid => ?_) fun _ u _ => Confined.tidy (keeps_trackDelete cfg ns key u)
    unfold toStatus onFlash
    rw [post_adaptExcept, post_zoom]
    by_cases heq : id = recordId cfg ns key
    · subst heq
      rcases delete_cells (recordId cfg ns key) t.flash with h | h
      · exact .inl h
      · exact .inr (.inl h)
    · have hdel : Keeps (IdStore.Within (· = recordId cfg ns key)) (IdStore.delete (recordId cfg ns key)) t.flash :=
        IdStore.keeps_delete t.flash (Eq.refl (recordId cfg ns key))
      exact .inl (hdel.cells id heq)

theorem tidy_kvDelete (ns key : CString) (s : KvSt) : Keeps (Tidy cfg) (kvDelete cfg ns key) s := by
  unfold kvDelete
  split
  · exact keeps_throw (tidy_chains cfg) _ _
  · by_cases hio : s.ioFree = 0
    · unfold Keeps post
      rw [withBlock_none hio]
      exact (tidy_chains cfg).refl s
    · unfold Keeps
      rw [post_withBlock hio]
      exact tidy_deleteLocked ns key s.hold

theorem tidy_throughout (cfg : KvCfg) : Throughout cfg (Tidy cfg) where
  chains := tidy_chains cfg
  get ns key capacity s := Confined.tidy (keeps_kvGet cfg _ ns key capacity s)
  set _ _ value s hns := tidy_kvSet value s hns
  delete := tidy_kvDelete
  context s := Confined.tidy (keeps_ctxGetOrAlloc cfg s)
  untrack ns key s := Confined.tidy (keeps_trackDelete cfg ns key s)

section Orderly
variable {cells : Cells} (ho : Orderly cfg cells)
include ho

theorem Orderly.owner {id : UInt32} {record : Bytes} (hid : id ≠ indexRecId cfg) (hcell : cells id = some record) :
    ∃ k : NsKey, ∃ value, keyValid cfg k.1 = true ∧ keyValid cfg k.2 = true ∧ recordId cfg k.1 k.2 = id ∧
      record = recordBuild k.1 k.2 value ∧ record.length ≤ cfg.blockSize ∧ stored cfg cells k = some value := by
  obtain ⟨ns, key, value, hns, hkey, hrid, hrec, hlen⟩ := ho id record hid hcell
  refine ⟨(ns, key), value, hns, hkey, hrid, hrec, hlen, ?_⟩
  rw [stored_recordBuild hns hkey (ns, key) (by rw [hrid, hcell, hrec]), if_pos rfl]

theorem Orderly.record {k : NsKey} {value : Bytes} (h : stored cfg cells k = some value) :
    cells (recordId cfg k.1 k.2) = some (recordBuild k.1 k.2 value) ∧
      keyValid cfg k.1 = true ∧ keyValid cfg k.2 = true ∧
      (recordBuild k.1 k.2 value).length ≤ cfg.blockSize := by
  obtain ⟨record, off, hcell, hmatch, -⟩ := stored_eq_some.mp h
  obtain ⟨k', value', hns, hkey, hid, hrec, hlen, hstored⟩ := ho.owner (recordId_ne_index cfg k.1 k.2) hcell
  have heq : k = k' := stored_unique hid.symm (by rw [h]; simp) (by rw [hstored]; simp)
  subst heq
  rw [h] at hstored
  obtain rfl := Option.some.inj hstored
  exact ⟨hcell.trans (congrArg some hrec), hns, hkey, hrec ▸ hlen⟩

end Orderly

def Taken (cfg : KvCfg) (cells : Cells) (k : NsKey) : Prop :=
  ∃ k', k' ≠ k ∧ recordId cfg k'.1 k'.2 = recordId cfg k.1 k.2 ∧ stored cfg cells k' ≠ none

theorem writtenStatus_sound {s : KvSt} (hs : s.flash.Answers) {ns key : CString} {value : Bytes} (hlet : Writable cfg ns key value) :
    writtenStatus cfg s ns key value = .OK := by
  have htracked := tracked_confined cfg s ns key
  obtain ⟨n, t, hrun, -, -, -, -, -, hn⟩ := IdStore.write_accepted _ (recordId cfg ns key)
    ((htracked.flash.answers hs).write _) (recordBuild ns key value)
  unfold writtenStatus
  rw [outcome_of_run hrun]
  have hland : landed (recordBuild ns key value).length (preRead cfg s ns key) n = true := by
    rcases hn with rfl | ⟨rfl, hsame⟩
    · simp [landed]
    · -- the bytes were there already, so the pre-read was a match
      have hcell : s.flash.cells (recordId cfg ns key) = some (recordBuild ns key value) := by
        rw [← htracked.flash.cells _ (recordId_ne_index cfg ns key)]
        exact hsame
      have hmatch : preRead cfg s ns key = some (.MATCH (REC_HDR_SIZE + ns.val.length + key.val.length)) := by
        unfold preRead
        rw [IdStore.outcome_read, hs.read, hcell]
        simp only [probe, Option.map_some, Option.elim_some, List.take_of_length_le hlet.fits]
        rw [recordCheck_recordBuild value (keyValid_lt hlet.ns_valid) (keyValid_lt hlet.key_valid),
          if_pos ⟨rfl, rfl⟩]
      rw [hmatch]
      rfl
  simp only [writeStatus, hland, if_true]

theorem setLocked_runs {s : KvSt} (hs : s.flash.Answers) {ns key : CString} {value : Bytes} (hlet : Writable cfg ns key value)
    (hgo : preRead cfg s ns key ≠ some .MISMATCH) :
    (setLocked cfg ns key value).run s = .ok () (written cfg s ns key value) := by
  have hlocked := setLocked_writes hgo value
  rw [writtenStatus_sound hs hlet] at hlocked
  exact hlocked

section Sound
variable {s : KvSt} (hs : s.flash.Sound) (ho : Orderly cfg s.flash.cells)
include hs ho

theorem preRead_taken {ns key : CString} (hroom : REC_HDR_SIZE ≤ cfg.blockSize) :
    preRead cfg s ns key = some .MISMATCH ↔ Taken cfg s.flash.cells (ns, key) := by
  rw [preRead_mismatch hroom]
  constructor
  · rintro ⟨-, record, hcell, -, hcheck⟩
    obtain ⟨k, value, hns, hkey, hid, hrec, -, hstored⟩ := ho.owner (recordId_ne_index cfg ns key) hcell
    refine ⟨k, ?_, hid, by rw [hstored]; simp⟩
    rintro rfl
    rw [hrec, recordCheck_recordBuild value (keyValid_lt hns) (keyValid_lt hkey), if_pos ⟨rfl, rfl⟩] at hcheck
    cases hcheck
  · rintro ⟨k, hne, hid, hstored⟩
    obtain ⟨value, hvalue⟩ := Option.ne_none_iff_exists'.mp hstored
    obtain ⟨hcell, hns, hkey, hlen⟩ := ho.record hvalue
    refine ⟨IdStore.fault_none hs _, _, hid ▸ hcell, ?_, ?_⟩
    · rw [headLen_recordBuild value (keyValid_lt hns) (keyValid_lt hkey)]
      rw [recordBuild_length] at hlen
      omega
    · rw [recordCheck_recordBuild value (keyValid_lt hns) (keyValid_lt hkey), if_neg]
      exact fun h => hne (Prod.ext h.1.symm h.2.symm)

/-- A set whose slot is taken fails and changes nothing; any other that is let through gives the key its
value. -/
theorem setLocked_sound {ns key : CString} {value : Bytes} (hlet : Writable cfg ns key value) :
    (Taken cfg s.flash.cells (ns, key) → outcome (setLocked cfg ns key value) s = .error .ERR_COLLISION ∧
      (post (setLocked cfg ns key value) s) = s.counted (.read (recordId cfg ns key))) ∧
    (¬ Taken cfg s.flash.cells (ns, key) → outcome (setLocked cfg ns key value) s = .ok () ∧
      post (setLocked cfg ns key value) s = written cfg s ns key value) := by
  have hpre := @preRead_taken cfg s hs ho ns key hlet.room
  constructor
  · intro htaken
    have hrun := setLocked_collides (hpre.mpr htaken) value
    unfold outcome post
    rw [hrun]
    exact ⟨rfl, rfl⟩
  · intro hfree
    have hrun := setLocked_runs hs.answers hlet fun h => hfree (hpre.mp h)
    exact ⟨outcome_of_run hrun, post_of_run hrun⟩

end Sound

theorem stored_claim {cells cells' : Cells} {ns key : CString} {value : Bytes} (hns : keyValid cfg ns = true)
    (hkey : keyValid cfg key = true) (hfree : ¬ Taken cfg cells (ns, key))
    (hcells : ∀ id, id ≠ indexRecId cfg → cells' id =
      Function.update cells (recordId cfg ns key) (some (recordBuild ns key value)) id) (k : NsKey) :
    stored cfg cells' k = if k = (ns, key) then some value else stored cfg cells k := by
  have hk := hcells _ (recordId_ne_index cfg k.1 k.2)
  by_cases hid : recordId cfg k.1 k.2 = recordId cfg ns key
  · rw [hid, Function.update_self, ← hid] at hk
    rw [stored_recordBuild hns hkey k hk]
    split
    · rfl
    · rename_i hne
      by_contra hstored
      exact hfree ⟨k, hne, hid, fun h => hstored h.symm⟩
  · rw [Function.update_of_ne hid] at hk
    rw [stored_congr hk, if_neg]
    rintro rfl
    exact hid rfl

theorem stored_vacate {cells cells' : Cells} {ns key : CString} (hown : stored cfg cells (ns, key) ≠ none)
    (hcells : ∀ id, id ≠ indexRecId cfg → cells' id = Function.update cells (recordId cfg ns key) none id)
    (k : NsKey) : stored cfg cells' k = if k = (ns, key) then none else stored cfg cells k := by
  have hk := hcells _ (recordId_ne_index cfg k.1 k.2)
  by_cases hid : recordId cfg k.1 k.2 = recordId cfg ns key
  · rw [hid, Function.update_self, ← hid] at hk
    have hnone : stored cfg cells' k = none := by
      unfold stored
      rw [hk]
      rfl
    rw [hnone]
    split
    · rfl
    · rename_i hne
      by_contra hstored
      exact hne (stored_unique hid (fun h => hstored h.symm) hown)
  · rw [Function.update_of_ne hid] at hk
    rw [stored_congr hk, if_neg]
    rintro rfl
    exact hid rfl

section Calls
variable {s : KvSt} (hs : s.flash.Sound) (ho : Orderly cfg s.flash.cells)
include hs ho

theorem kvSet_sound {ns key : CString} {value : Bytes} (hlet : LetThrough cfg s ns key value) :
    (Taken cfg s.flash.cells (ns, key) → outcome (kvSet cfg ns key (some value)) s = .error .ERR_COLLISION ∧
      ∀ k, stored cfg (post (kvSet cfg ns key (some value)) s).flash.cells k = stored cfg s.flash.cells k) ∧
    (¬ Taken cfg s.flash.cells (ns, key) → outcome (kvSet cfg ns key (some value)) s = .ok () ∧
      ∀ k, stored cfg (post (kvSet cfg ns key (some value)) s).flash.cells k =
        if k = (ns, key) then some value else stored cfg s.flash.cells k) := by
  obtain ⟨htaken, hfree⟩ := @setLocked_sound cfg s.hold hs ho ns key value hlet.toWritable
  have hout : outcome (kvSet cfg ns key (some value)) s = outcome (setLocked cfg ns key value) s.hold := by
    rw [hlet.toWritable.kvSet, outcome_withBlock hlet.block]
  rw [hout, post_kvSet_through hlet]
  constructor
  · intro h
    obtain ⟨ho', hpost⟩ := htaken h
    refine ⟨ho', fun k => ?_⟩
    rw [hpost]
    rfl
  · intro h
    obtain ⟨ho', hpost⟩ := hfree h
    refine ⟨ho', stored_claim hlet.ns_valid hlet.key_valid h fun id hid => ?_⟩
    have hcells := setLocked_cells cfg s.hold ns key value hid
    rw [if_pos] at hcells
    · exact hcells
    · exact ⟨fun hshown => h ((preRead_taken hs ho hlet.room).mp hshown), IdStore.fault_none hs _⟩

omit hs in
theorem kvGet_unfaulted {ns key : CString} (hkey : keyValid cfg key = true) (hio : s.ioFree ≠ 0)
    (hfault : s.flash.fault (.read (recordId cfg ns key)) = none) (capacity : Nat) :
    outcome (kvGet cfg ns key capacity) s = match stored cfg s.flash.cells (ns, key) with
      | some value => .ok (value.take capacity, value.length)
      | none => .error .ERR_NOT_FOUND := by
  rw [outcome_kvGet hkey hio, hfault]
  cases hstored : stored cfg s.flash.cells (ns, key) with
  | some value =>
    obtain ⟨hcell, hns, -, hlen⟩ := ho.record hstored
    have hcell' : s.flash.cells (recordId cfg ns key) = some (recordBuild ns key value) := hcell
    rw [hcell']
    simp only [List.take_of_length_le hlen]
    rw [recordCheck_recordBuild value (keyValid_lt hns) (keyValid_lt hkey), if_pos ⟨rfl, rfl⟩]
    have hrest : (recordBuild ns key value).length - (REC_HDR_SIZE + ns.val.length + key.val.length) =
        value.length := by
      rw [recordBuild_length]
      omega
    simp only [hrest, slice, recordBuild_drop]
    congr 2
    rw [List.take_eq_take_iff]
    omega
  | none =>
    cases hcell : s.flash.cells (recordId cfg ns key) with
    | none => rfl
    | some record =>
      obtain ⟨k, value, hns, hkey', hid, hrec, hlen, hk⟩ := ho.owner (recordId_ne_index cfg ns key) hcell
      have hne : k ≠ (ns, key) := by
        rintro rfl
        rw [hstored] at hk
        cases hk
      simp only [List.take_of_length_le hlen]
      rw [hrec, recordCheck_recordBuild value (keyValid_lt hns) (keyValid_lt hkey'),
        if_neg fun h => hne (Prod.ext h.1.symm h.2.symm)]

theorem kvGet_sound {ns key : CString} (hkey : keyValid cfg key = true) (hio : s.ioFree ≠ 0) (capacity : Nat) :
    outcome (kvGet cfg ns key capacity) s = match stored cfg s.flash.cells (ns, key) with
      | some value => .ok (value.take capacity, value.length)
      | none => .error .ERR_NOT_FOUND :=
  kvGet_unfaulted ho hkey hio (IdStore.fault_none hs _) capacity

omit hs in
theorem check_absent {ns key : CString} (hstored : stored cfg s.flash.cells (ns, key) = none) {record : Bytes}
    (hcell : s.flash.cells (recordId cfg ns key) = some record) :
    recordCheck (record.take cfg.blockSize) ns key = .MISMATCH := by
  obtain ⟨k, value, hns, hkey, hid, hrec, hlen, hk⟩ := ho.owner (recordId_ne_index cfg ns key) hcell
  have hne : k ≠ (ns, key) := by
    rintro rfl
    rw [hstored] at hk
    cases hk
  rw [List.take_of_length_le hlen, hrec, recordCheck_recordBuild value (keyValid_lt hns) (keyValid_lt hkey),
    if_neg fun h => hne (Prod.ext h.1.symm h.2.symm)]

omit ho in
theorem run_flash_read {id : UInt32} {record : Bytes} (hcell : s.flash.cells id = some record) (capacity : Nat) :
    (toStatus (onFlash (IdStore.read id capacity)) : KvM Status _).run s =
      .ok (record.length, record.take capacity) (s.counted (.read id)) :=
  run_adapt (run_zoom (IdStore.read_present hs hcell capacity))

omit ho in
theorem run_flash_absent {id : UInt32} (hcell : s.flash.cells id = none) (capacity : Nat) :
    (toStatus (onFlash (IdStore.read id capacity)) : KvM Status _).run s =
      .error .ERR_NOT_FOUND (s.counted (.read id)) :=
  run_adapt_error (run_zoom_error (IdStore.read_absent hs hcell capacity))

theorem deleteLocked_absent {ns key : CString} (hstored : stored cfg s.flash.cells (ns, key) = none) :
    (deleteLocked cfg ns key).run s = .error .ERR_NOT_FOUND (s.counted (.read (recordId cfg ns key))) := by
  cases hcell : s.flash.cells (recordId cfg ns key) with
  | none => exact run_fails (run_flash_absent hs hcell cfg.blockSize)
  | some record =>
    apply run_then (run_flash_read hs hcell cfg.blockSize)
    simp only [check_absent ho hstored hcell]
    rfl

def KvSt.removed (s : KvSt) (id : UInt32) : KvSt :=
  { s with flash := ((s.flash.count (.read id)).count (.delete id)).put id none }

theorem deleteLocked_present {ns key : CString} {value : Bytes}
    (hstored : stored cfg s.flash.cells (ns, key) = some value) :
    (deleteLocked cfg ns key).run s = (trackDelete cfg ns key).run (s.removed (recordId cfg ns key)) := by
  obtain ⟨hcell, hns, hkey, hlen⟩ := ho.record hstored
  apply run_then (run_flash_read hs hcell cfg.blockSize)
  simp only [List.take_of_length_le hlen]
  rw [recordCheck_recordBuild value (keyValid_lt hns) (keyValid_lt hkey), if_pos ⟨rfl, rfl⟩]
  have hsound : (s.counted (.read (recordId cfg ns key))).flash.Sound := hs
  exact run_then (run_adapt (run_zoom (IdStore.delete_accepted _ _ (IdStore.fault_none hsound _)))) rfl

theorem kvDelete_sound {ns key : CString} (hkey : keyValid cfg key = true) (hio : s.ioFree ≠ 0) :
    (stored cfg s.flash.cells (ns, key) = none → outcome (kvDelete cfg ns key) s = .error .ERR_NOT_FOUND ∧
      ∀ k, stored cfg (post (kvDelete cfg ns key) s).flash.cells k = stored cfg s.flash.cells k) ∧
    (stored cfg s.flash.cells (ns, key) ≠ none → outcome (kvDelete cfg ns key) s = .ok () ∧
      ∀ k, stored cfg (post (kvDelete cfg ns key) s).flash.cells k =
        if k = (ns, key) then none else stored cfg s.flash.cells k) := by
  have hdel : kvDelete cfg ns key = withBlock (deleteLocked cfg ns key) := by
    simp only [kvDelete, hkey, Bool.not_true, Bool.false_eq_true, if_false]
  rw [hdel, outcome_withBlock hio, post_withBlock hio]
  have hs' : s.hold.flash.Sound := hs
  have ho' : Orderly cfg s.hold.flash.cells := ho
  constructor
  · intro hstored
    have hrun := deleteLocked_absent hs' ho' hstored
    refine ⟨?_, fun k => ?_⟩
    · unfold outcome
      rw [hrun]
    · unfold post
      rw [hrun]
      rfl
  · intro hstored
    obtain ⟨value, hvalue⟩ := Option.ne_none_iff_exists'.mp hstored
    have hrun := deleteLocked_present hs' ho' hvalue
    obtain ⟨_, htrack⟩ := trackDelete_total cfg ns key (s.hold.removed (recordId cfg ns key))
    rw [htrack] at hrun
    refine ⟨outcome_of_run hrun, ?_⟩
    have hconf := keeps_trackDelete cfg ns key (s.hold.removed (recordId cfg ns key))
    apply stored_vacate hstored
    intro id hid
    rw [post_of_run hrun]
    exact hconf.flash.cells id hid

end Calls

def KvOp.key? : KvOp → Option NsKey
  | .set ns key _ => some (ns, key)
  | .get ns key _ => some (ns, key)
  | .delete ns key => some (ns, key)
  | _ => none

theorem outcome_set (s : KvSt) (ns key : CString) (value : Option Bytes) :
    outcome ((KvOp.set ns key value).run cfg) s =
      if keyValid cfg ns = true then (outcome (kvSet cfg ns key value) s).map fun _ => KvAnswer.none
      else .error .ERR_INVAL := by
  show outcome (kvOpen cfg ns >>= fun _ => kvSet cfg ns key value >>= fun _ => pure KvAnswer.none) s = _
  rw [outcome_kvOpen, outcome_map]

theorem outcome_get (s : KvSt) (ns key : CString) (capacity : Nat) :
    outcome ((KvOp.get ns key capacity).run cfg) s =
      if keyValid cfg ns = true then (outcome (kvGet cfg ns key capacity) s).map fun r => KvAnswer.value r.1 r.2
      else .error .ERR_INVAL := by
  show outcome (kvOpen cfg ns >>= fun _ => kvGet cfg ns key capacity >>= fun r => pure (KvAnswer.value r.1 r.2)) s = _
  rw [outcome_kvOpen, outcome_map]

theorem outcome_delete (s : KvSt) (ns key : CString) : outcome ((KvOp.delete ns key).run cfg) s =
    if keyValid cfg ns = true then (outcome (kvDelete cfg ns key) s).map fun _ => KvAnswer.none
    else .error .ERR_INVAL := by
  show outcome (kvOpen cfg ns >>= fun _ => kvDelete cfg ns key >>= fun _ => pure KvAnswer.none) s = _
  rw [outcome_kvOpen, outcome_map]

theorem outcome_kvSet_stopped {s : KvSt} {ns key : CString} {value : Option Bytes} (hns : keyValid cfg ns = true)
    (h : ∀ v, value = some v → ¬ LetThrough cfg s ns key v) : ∃ status, outcome (kvSet cfg ns key value) s = .error status ∧
      (status = .ERR_INVAL ∨ status = .ERR_NOMEM) := by
  cases value with
  | none => exact ⟨_, rfl, .inl rfl⟩
  | some v =>
    simp only [kvSet]
    by_cases hkey : keyValid cfg key = true
    · by_cases hfits : cfg.blockSize < (recordBuild ns key v).length
      · simp only [hkey, hfits, Bool.not_true, Bool.false_eq_true, if_false, if_true]
        exact ⟨_, rfl, .inr rfl⟩
      · have hio : s.ioFree = 0 := by
          by_contra hio
          exact h v rfl ⟨⟨hns, hkey, Nat.not_lt.mp hfits⟩, hio⟩
        simp only [hkey, hfits, Bool.not_true, Bool.false_eq_true, if_false]
        refine ⟨.ERR_NOMEM, ?_, .inr rfl⟩
        unfold outcome
        rw [withBlock_none hio]
    · simp only [hkey]
      exact ⟨_, rfl, .inl rfl⟩

theorem stored_step {s : KvSt} (hs : s.flash.Sound) (ho : Orderly cfg s.flash.cells) (hio : s.ioFree ≠ 0)
    {op : KvOp} {named : NsKey} (hop : op.key? = some named) (k : NsKey) :
    stored cfg (post (op.run cfg) s).flash.cells k =
      after k (stored cfg s.flash.cells k) (op, outcome (op.run cfg) s) := by
  cases op with
  | get ns key capacity =>
    have hget : Keeps (Confined (IndexSlot cfg)) ((KvOp.get ns key capacity).run cfg) s :=
      keeps_opened (confined_chains _) fun _ => keeps_kvGet cfg _ ns key capacity s
    exact hget.stored k
  | set ns key value =>
    rw [post_set, outcome_set]
    by_cases hns : keyValid cfg ns = true
    · rw [if_pos hns, if_pos hns]
      by_cases hthrough : ∃ v, value = some v ∧ LetThrough cfg s ns key v
      · obtain ⟨v, rfl, hlet⟩ := hthrough
        obtain ⟨htaken, hfree⟩ := kvSet_sound hs ho hlet
        by_cases h : Taken cfg s.flash.cells (ns, key)
        · rw [(htaken h).1, (htaken h).2 k]
          rfl
        · rw [(hfree h).1, (hfree h).2 k]
          simp only [Except.map, after, eq_comm]
      · have hstop : ∀ v, value = some v → ¬ LetThrough cfg s ns key v := fun v hv hlet => hthrough ⟨v, hv, hlet⟩
        obtain ⟨status, hout, -⟩ := outcome_kvSet_stopped hns hstop
        rw [post_kvSet_stopped hns hstop, hout]
        rfl
    · rw [if_neg hns, if_neg hns]
      rfl
  | delete ns key =>
    rw [post_delete, outcome_delete]
    by_cases hns : keyValid cfg ns = true
    · rw [if_pos hns, if_pos hns]
      by_cases hkey : keyValid cfg key = true
      · obtain ⟨habsent, hpresent⟩ := @kvDelete_sound cfg s hs ho ns key hkey hio
        by_cases h : stored cfg s.flash.cells (ns, key) = none
        · rw [(habsent h).1, (habsent h).2 k]
          rfl
        · rw [(hpresent h).1, (hpresent h).2 k]
          simp only [Except.map, after, eq_comm]
      · have hdel : kvDelete cfg ns key = throw .ERR_INVAL := by simp [kvDelete, hkey]
        rw [hdel]
        rfl
    · rw [if_neg hns, if_neg hns]
      rfl
  | iterOpen _ => cases hop
  | iterNext _ _ _ _ => cases hop
  | reset _ => cases hop
  | defaults _ => cases hop

structure Working (cfg : KvCfg) (s : KvSt) : Prop where
  sound : s.flash.Sound
  orderly : Orderly cfg s.flash.cells
  block : s.ioFree ≠ 0

theorem Working.boot {flash : IdStore} {ioFree : Nat} (hs : flash.Sound) (hempty : flash.cells = fun _ => none)
    (hio : ioFree ≠ 0) (heapRoom : Bool) : Working cfg (.boot flash ioFree heapRoom) := by
  refine ⟨hs, fun id record _ hcell => ?_, hio⟩
  have hnone : flash.cells id = none := by rw [hempty]
  exact absurd (hnone.symm.trans hcell) (by simp)

theorem Working.step {s : KvSt} (h : Working cfg s) (op : KvOp) : Working cfg (post (op.run cfg) s) := by
  have hconf : Confined AnySlot s (post (op.run cfg) s) := keeps_op (confined_throughout cfg) op s
  refine ⟨fun o n => ?_, Tidy.orderly (keeps_op (tidy_throughout cfg) op s) h.orderly, hconf.ioFree ▸ h.block⟩
  rw [hconf.flash.faults]
  exact h.sound o n

theorem Working.run {s : KvSt} (h : Working cfg s) (ops : List KvOp) : Working cfg (kvRun cfg s ops).1 := by
  induction ops generalizing s with
  | nil => exact h
  | cons op ops ih => exact ih (h.step op)

theorem stored_kvRun {s : KvSt} (h : Working cfg s) {ops : List KvOp} (hops : ∀ op ∈ ops, op.key?.isSome) (k : NsKey) :
    stored cfg (kvRun cfg s ops).1.flash.cells k =
      (kvRun cfg s ops).2.foldl (after k) (stored cfg s.flash.cells k) := by
  induction ops generalizing s with
  | nil => rfl
  | cons op ops ih =>
    obtain ⟨named, hnamed⟩ := Option.isSome_iff_exists.mp (hops op (by simp))
    have hrest := ih (h.step op) fun o ho => hops o (by simp [ho])
    rw [stored_step h.sound h.orderly h.block hnamed k] at hrest
    exact hrest

/-- What a get on a handle answers. -/
def shows (held : Option Bytes) (capacity : Nat) : Except Status KvAnswer :=
  match held with
  | some value => .ok (.value (value.take capacity) value.length)
  | none => .error .ERR_NOT_FOUND

theorem outcome_get_working {s : KvSt} (h : Working cfg s) {ns key : CString} (hns : keyValid cfg ns = true)
    (hkey : keyValid cfg key = true) (capacity : Nat) :
    outcome ((KvOp.get ns key capacity).run cfg) s = shows (stored cfg s.flash.cells (ns, key)) capacity := by
  rw [outcome_get, if_pos hns, kvGet_sound h.sound h.orderly hkey h.block]
  cases stored cfg s.flash.cells (ns, key) <;> rfl

theorem outcome_set_collision {s : KvSt} (h : Working cfg s) {ns key : CString} {value : Bytes}
    (hw : Writable cfg ns key value) : outcome ((KvOp.set ns key (some value)).run cfg) s = .error .ERR_COLLISION ↔
      Taken cfg s.flash.cells (ns, key) := by
  obtain ⟨htaken, hfree⟩ := kvSet_sound h.sound h.orderly ⟨hw, h.block⟩
  rw [outcome_set, if_pos hw.ns_valid]
  constructor
  · intro hout
    by_contra hn
    rw [(hfree hn).1] at hout
    cases hout
  · intro ht
    rw [(htaken ht).1]
    rfl

theorem outcome_kvGet_congr {s t : KvSt} (hs : Working cfg s) (ht : Working cfg t) {ns key : CString}
    (h : stored cfg t.flash.cells (ns, key) = stored cfg s.flash.cells (ns, key)) (capacity : Nat) :
    outcome (kvGet cfg ns key capacity) t = outcome (kvGet cfg ns key capacity) s := by
  by_cases hkey : keyValid cfg key = true
  · rw [kvGet_sound hs.sound hs.orderly hkey hs.block, kvGet_sound ht.sound ht.orderly hkey ht.block, h]
  · have hget : kvGet cfg ns key capacity = throw .ERR_INVAL := by simp [kvGet, hkey]
    rw [hget]
    rfl

theorem outcome_get_congr {s t : KvSt} (hs : Working cfg s) (ht : Working cfg t) {ns key : CString}
    (h : stored cfg t.flash.cells (ns, key) = stored cfg s.flash.cells (ns, key)) (capacity : Nat) :
    outcome ((KvOp.get ns key capacity).run cfg) t = outcome ((KvOp.get ns key capacity).run cfg) s := by
  rw [outcome_get, outcome_get, outcome_kvGet_congr hs ht h]

theorem after_of_ne {k named : NsKey} {op : KvOp} (hop : op.key? = some named) (hne : k ≠ named)
    (held : Option Bytes) (r : Except Status KvAnswer) : after k held (op, r) = held := by
  cases op <;> cases hop <;> cases r <;> first | rfl | exact if_neg hne.symm

theorem stored_of_named {s : KvSt} (h : Working cfg s) (hempty : ∀ k, stored cfg s.flash.cells k = none)
    {keys : List NsKey} {ops : List KvOp} (hops : ∀ op ∈ ops, ∃ named ∈ keys, op.key? = some named) {k : NsKey}
    (hk : stored cfg (kvRun cfg s ops).1.flash.cells k ≠ none) : k ∈ keys := by
  by_contra hout
  have hfold : ∀ (ops : List KvOp) (s : KvSt), (∀ op ∈ ops, ∃ named ∈ keys, op.key? = some named) →
      ∀ held, (kvRun cfg s ops).2.foldl (after k) held = held := by
    intro ops
    induction ops with
    | nil => exact fun _ _ _ => rfl
    | cons op ops ih =>
      intro s hops held
      rw [List.forall_mem_cons] at hops
      obtain ⟨⟨named, hnamed, hop⟩, hrest⟩ := hops
      rw [kvRun, List.foldl_cons, after_of_ne hop fun heq : k = named => hout (heq ▸ hnamed)]
      exact ih _ hrest held
  have hsome : ∀ op ∈ ops, op.key?.isSome := fun op hop => by
    obtain ⟨named, -, hnamed⟩ := hops op hop
    rw [hnamed]
    rfl
  rw [stored_kvRun h hsome, hfold ops s hops, hempty] at hk
  exact hk rfl

/-- A get of any admitted key, at any point of a run from an empty store, reports the value of the key's last
successful set unless a successful delete followed; a set collides iff another key that holds a value has its
id, and then changes nothing; and a call on one key changes what a get of no other key reports. -/
theorem store_is_map {flash : IdStore} {ioFree : Nat} {heapRoom : Bool} {ops : List KvOp} {s : KvSt}
    {history : List (KvOp × Except Status KvAnswer)} (hs : flash.Sound) (hempty : flash.cells = fun _ => none)
    (hio : ioFree ≠ 0) (hops : ∀ op ∈ ops, op.key?.isSome)
    (hrun : kvRun cfg (.boot flash ioFree heapRoom) ops = (s, history)) :
    (∀ ns key capacity, keyValid cfg ns = true → keyValid cfg key = true →
      outcome ((KvOp.get ns key capacity).run cfg) s = shows (recollect history (ns, key)) capacity) ∧
    (∀ ns key value, Writable cfg ns key value →
      (outcome ((KvOp.set ns key (some value)).run cfg) s = .error .ERR_COLLISION ↔
        ∃ k : NsKey, k ≠ (ns, key) ∧ recordId cfg k.1 k.2 = recordId cfg ns key ∧ recollect history k ≠ none)) ∧
    (∀ (op : KvOp) named, op.key? = some named → ∀ ns key capacity,
      (ns, key) ≠ named ∨ outcome (op.run cfg) s = .error .ERR_COLLISION →
        outcome ((KvOp.get ns key capacity).run cfg) (post (op.run cfg) s) =
          outcome ((KvOp.get ns key capacity).run cfg) s) := by
  have hboot : Working cfg (.boot flash ioFree heapRoom) := .boot hs hempty hio heapRoom
  have hw := hboot.run ops
  have hrecall : ∀ k, stored cfg (kvRun cfg (.boot flash ioFree heapRoom) ops).1.flash.cells k =
      recollect (kvRun cfg (.boot flash ioFree heapRoom) ops).2 k := by
    intro k
    have hstart : stored cfg (KvSt.boot flash ioFree heapRoom).flash.cells k = none := by
      show stored cfg flash.cells k = none
      rw [hempty]
      rfl
    rw [stored_kvRun hboot hops k, hstart]
    rfl
  rw [hrun] at hw hrecall
  refine ⟨fun ns key capacity hns hkey => ?_, fun ns key value hwr => ?_, fun op named hop ns key capacity hne => ?_⟩
  · rw [outcome_get_working hw hns hkey, hrecall]
  · rw [outcome_set_collision hw hwr]
    unfold Taken
    simp only [hrecall]
  · refine outcome_get_congr hw (hw.step op) ?_ capacity
    rw [stored_step hw.sound hw.orderly hw.block hop]
    rcases hne with hne | hcoll
    · exact after_of_ne hop hne _ _
    · rw [hcoll]
      cases op <;> rfl

def setColliding : KvSt × List (KvOp × Except Status KvAnswer) :=
  kvRun (.nvs true 128 []) (.boot (.blank fun _ _ => none) 2 true)
    [.set nsN keyCyx (some [1]), .set nsN keyFdb (some [2]), .delete nsN keyAb]

/-- Two keys of one id: the second set collides, and the first key still reads back. -/
theorem colliding_keys_kept :
    outcome ((KvOp.get nsN keyCyx 8).run (.nvs true 128 [])) setColliding.1 =
      shows (recollect setColliding.2 (nsN, keyCyx)) 8 :=
  (store_is_map (fun _ _ => rfl) rfl (by decide) (by decide) rfl).1 _ _ _ (by decide) (by decide)

end ZephyrDB.Kv
