import ZephyrDB.Kv.Frame

/-!
Which records a set, a delete or a reset can change, over a backend whose every
operation may be refused.
-/

set_option autoImplicit false

namespace ZephyrDB.Kv

open Lib

variable {cfg : KvCfg}

def preRead (cfg : KvCfg) (s : KvSt) (ns key : CString) : Option RecCheck :=
  probe ns key (outcome (IdStore.read (recordId cfg ns key) cfg.blockSize) s.flash)

def KvSt.counted (s : KvSt) (op : IdOp) : KvSt := { s with flash := s.flash.count op }

theorem run_onFlash_read (id : UInt32) (capacity : Nat) (s : KvSt) :
    (attempt (onFlash (IdStore.read id capacity)) : KvM Status _).run s =
      .ok (outcome (IdStore.read id capacity) s.flash) (s.counted (.read id)) := by
  unfold onFlash
  rw [run_attempt, outcome_zoom, post_zoom, IdStore.post_read]
  rfl

theorem setLocked_collides {s : KvSt} {ns key : CString} (h : preRead cfg s ns key = some .MISMATCH)
    (value : Bytes) : (setLocked cfg ns key value).run s =
      .error .ERR_COLLISION (s.counted (.read (recordId cfg ns key))) := by
  apply run_then (run_onFlash_read _ _ s)
  show (if preRead cfg s ns key = some .MISMATCH then throw .ERR_COLLISION else _ : KvM Status Unit).run _ = _
  rw [if_pos h]
  rfl

def tracked (cfg : KvCfg) (s : KvSt) (ns key : CString) : KvSt :=
  post (trackSet cfg ns key (recordId cfg ns key)) (s.counted (.read (recordId cfg ns key)))

theorem counted_read_confined (P : UInt32 → Prop) (s : KvSt) (id : UInt32) :
    Confined P s (s.counted (.read id)) := by
  have hread : Keeps (IdStore.Within P) (IdStore.read id 0) s.flash := IdStore.keeps_read s.flash id 0
  unfold Keeps at hread
  rw [IdStore.post_read] at hread
  exact ⟨hread, rfl, rfl⟩

theorem tracked_confined (cfg : KvCfg) (s : KvSt) (ns key : CString) :
    Confined (IndexSlot cfg) s (tracked cfg s ns key) :=
  (confined_chains _).trans (counted_read_confined _ s _) (keeps_trackSet cfg ns key _ _)

def written (cfg : KvCfg) (s : KvSt) (ns key : CString) (value : Bytes) : KvSt :=
  { tracked cfg s ns key with
    flash := post (IdStore.write (recordId cfg ns key) (recordBuild ns key value)) (tracked cfg s ns key).flash }

def writtenStatus (cfg : KvCfg) (s : KvSt) (ns key : CString) (value : Bytes) : Status :=
  writeStatus (recordBuild ns key value).length (preRead cfg s ns key)
    (outcome (IdStore.write (recordId cfg ns key) (recordBuild ns key value)) (tracked cfg s ns key).flash)

theorem setLocked_writes {s : KvSt} {ns key : CString} (h : preRead cfg s ns key ≠ some .MISMATCH)
    (value : Bytes) : (setLocked cfg ns key value).run s =
      (finishSet cfg ns key (writtenStatus cfg s ns key value)).run (written cfg s ns key value) := by
  obtain ⟨indexed, htrack⟩ := trackSet_total cfg ns key (recordId cfg ns key) (s.counted (.read (recordId cfg ns key)))
  apply run_then (run_onFlash_read _ _ s)
  show (if preRead cfg s ns key = some .MISMATCH then throw .ERR_COLLISION else _ : KvM Status Unit).run _ = _
  rw [if_neg h]
  apply run_then htrack
  apply run_then (run_attempt _ _)
  unfold onFlash
  rw [outcome_zoom, post_zoom]
  rfl

theorem keeps_finishSet (cfg : KvCfg) (ns key : CString) (status : Status) (s : KvSt) :
    Keeps (Confined (IndexSlot cfg)) (finishSet cfg ns key status) s := by
  have hchain := confined_chains (IndexSlot cfg)
  cases status <;> first
    | exact keeps_pure hchain _ _
    | exact keeps_bind hchain (keeps_trackDelete cfg ns key s) fun _ _ _ => keeps_throw hchain _ _

theorem post_setLocked {s : KvSt} {ns key : CString} (h : preRead cfg s ns key ≠ some .MISMATCH)
    (value : Bytes) : Confined (IndexSlot cfg) (written cfg s ns key value) (post (setLocked cfg ns key value) s) := by
  have hpost : post (setLocked cfg ns key value) s =
      post (finishSet cfg ns key (writtenStatus cfg s ns key value)) (written cfg s ns key value) := by
    unfold post
    rw [setLocked_writes h]
  rw [hpost]
  exact keeps_finishSet cfg ns key _ _

section Written
variable (cfg) (s : KvSt) (ns key : CString) (value : Bytes)

theorem written_refused {err : Errno} (hw : s.flash.fault (.write (recordId cfg ns key)) = some err) :
    (written cfg s ns key value).flash = (tracked cfg s ns key).flash.count (.write (recordId cfg ns key)) := by
  have hfault := (tracked_confined cfg s ns key).flash.fault_write (recordId_ne_index cfg ns key)
  unfold written post
  rw [IdStore.write_refused _ _ (hfault.trans hw)]

theorem written_accepted (hw : s.flash.fault (.write (recordId cfg ns key)) = none) :
    (written cfg s ns key value).flash.cells = Function.update (tracked cfg s ns key).flash.cells
        (recordId cfg ns key) (some (recordBuild ns key value)) ∧
      (written cfg s ns key value).flash.made =
        ((tracked cfg s ns key).flash.count (.write (recordId cfg ns key))).made := by
  have hfault := (tracked_confined cfg s ns key).flash.fault_write (recordId_ne_index cfg ns key)
  obtain ⟨n, t, hrun, hcells, -, -, hmade, -⟩ := IdStore.write_accepted _ _ (hfault.trans hw) (recordBuild ns key value)
  unfold written
  rw [post_of_run hrun]
  exact ⟨hcells, hmade⟩

/-- The cells after the locked part of a set, but for that of the index: the slot is overwritten where the
pre-read shows no other key and the write is accepted. -/
theorem setLocked_cells {id : UInt32} (hid : id ≠ indexRecId cfg) :
    (post (setLocked cfg ns key value) s).flash.cells id =
      if preRead cfg s ns key ≠ some .MISMATCH ∧ s.flash.fault (.write (recordId cfg ns key)) = none then
        Function.update s.flash.cells (recordId cfg ns key) (some (recordBuild ns key value)) id
      else s.flash.cells id := by
  by_cases h : preRead cfg s ns key = some .MISMATCH
  · rw [if_neg (by simp [h])]
    unfold post
    rw [setLocked_collides h]
    rfl
  · have htracked := (tracked_confined cfg s ns key).flash.cells id hid
    rw [(post_setLocked h value).flash.cells id hid]
    cases hw : s.flash.fault (.write (recordId cfg ns key)) with
    | some err =>
      rw [written_refused cfg s ns key value hw, if_neg (by simp)]
      exact htracked
    | none =>
      rw [(written_accepted cfg s ns key value hw).1, if_pos ⟨h, rfl⟩]
      by_cases heq : id = recordId cfg ns key
      · subst heq
        simp
      · rw [Function.update_of_ne heq, Function.update_of_ne heq]
        exact htracked

theorem setLocked_made : (post (setLocked cfg ns key value) s).flash.made (.write (recordId cfg ns key)) =
    s.flash.made (.write (recordId cfg ns key)) + if preRead cfg s ns key = some .MISMATCH then 0 else 1 := by
  have hid := recordId_ne_index cfg ns key
  by_cases h : preRead cfg s ns key = some .MISMATCH
  · rw [if_pos h]
    unfold post
    rw [setLocked_collides h]
    exact IdStore.made_count_of_ne _ (by simp)
  · have htracked := (tracked_confined cfg s ns key).flash.made _ hid
    rw [(post_setLocked h value).flash.made _ hid, if_neg h]
    have hcount : ((tracked cfg s ns key).flash.count (.write (recordId cfg ns key))).made
        (.write (recordId cfg ns key)) = s.flash.made (.write (recordId cfg ns key)) + 1 := by
      simp [IdStore.count, htracked]
    cases hw : s.flash.fault (.write (recordId cfg ns key)) with
    | some err => rw [written_refused cfg s ns key value hw, hcount]
    | none => rw [(written_accepted cfg s ns key value hw).2, hcount]

end Written

theorem preRead_mismatch {s : KvSt} {ns key : CString} (hroom : REC_HDR_SIZE ≤ cfg.blockSize) :
    preRead cfg s ns key = some .MISMATCH ↔ s.flash.fault (.read (recordId cfg ns key)) = none ∧
      ∃ record, s.flash.cells (recordId cfg ns key) = some record ∧ headLen record ≤ cfg.blockSize ∧
        recordCheck record ns key = .MISMATCH := by
  unfold preRead
  rw [IdStore.outcome_read]
  cases hfault : s.flash.fault (.read (recordId cfg ns key)) with
  | some err => simp [probe]
  | none =>
    cases hcell : s.flash.cells (recordId cfg ns key) with
    | none => simp [probe]
    | some record =>
      by_cases hhead : headLen record ≤ cfg.blockSize <;> simp [probe, recordCheck_take hroom, hhead]

theorem mismatch_of_match {record : Bytes} {k k' : NsKey} {off : Nat} (hne : k ≠ k')
    (h : recordCheck record k.1 k.2 = .MATCH off) : recordCheck record k'.1 k'.2 = .MISMATCH := by
  cases h' : recordCheck record k'.1 k'.2 with
  | MISMATCH => rfl
  | MATCH off' => exact absurd (match_unique h h') hne
  | FOREIGN =>
    obtain ⟨hrec, -⟩ := recordCheck_match h
    simp only [recordCheck, hrec, Bool.not_true, Bool.false_eq_true, if_false] at h'
    split at h' <;> cases h'

/-- The arguments of a set that is not refused for them. -/
structure Writable (cfg : KvCfg) (ns key : CString) (value : Bytes) : Prop where
  ns_valid : keyValid cfg ns = true
  key_valid : keyValid cfg key = true
  fits : (recordBuild ns key value).length ≤ cfg.blockSize

/-- A set that gets as far as its pre-read. -/
structure LetThrough (cfg : KvCfg) (s : KvSt) (ns key : CString) (value : Bytes) : Prop
    extends Writable cfg ns key value where
  block : s.ioFree ≠ 0

theorem Writable.kvSet {ns key : CString} {value : Bytes} (h : Writable cfg ns key value) :
    kvSet cfg ns key (some value) = withBlock (setLocked cfg ns key value) := by
  simp only [Kv.kvSet, h.key_valid, Bool.not_true, Bool.false_eq_true, if_false, if_neg (Nat.not_lt.mpr h.fits)]

theorem post_kvSet_through {s : KvSt} {ns key : CString} {value : Bytes}
    (h : LetThrough cfg s ns key value) : post (kvSet cfg ns key (some value)) s =
      (post (setLocked cfg ns key value) s.hold).release := by
  rw [h.toWritable.kvSet, post_withBlock h.block]

theorem post_kvSet_stopped {s : KvSt} {ns key : CString} {value : Option Bytes} (hns : keyValid cfg ns = true)
    (h : ∀ v, value = some v → ¬ LetThrough cfg s ns key v) : post (kvSet cfg ns key value) s = s := by
  cases value with
  | none => rfl
  | some v =>
    simp only [kvSet]
    by_cases hkey : keyValid cfg key = true
    · by_cases hfits : cfg.blockSize < (recordBuild ns key v).length
      · simp only [hkey, hfits, Bool.not_true, Bool.false_eq_true, if_false, if_true]
        rfl
      · have hio : s.ioFree = 0 := by
          by_contra hio
          exact h v rfl ⟨⟨hns, hkey, Nat.not_lt.mp hfits⟩, hio⟩
        simp only [hkey, hfits, Bool.not_true, Bool.false_eq_true, if_false]
        unfold post
        rw [withBlock_none hio]
    · simp only [hkey]
      rfl

theorem post_set (cfg : KvCfg) (s : KvSt) (ns key : CString) (value : Option Bytes) :
    post ((KvOp.set ns key value).run cfg) s =
      if keyValid cfg ns = true then post (kvSet cfg ns key value) s else s :=
  post_opened (m := kvSet cfg ns key value) (f := fun _ => KvAnswer.none)

/-- The set reaches its write although the slot holds a record of another key of `P`: the pre-read is
refused, or the head of that record does not fit the block. -/
def Overlooks (cfg : KvCfg) (s : KvSt) (ns key : CString) (P : NsKey → Prop) : Prop :=
  ∃ k record, P k ∧ recordId cfg k.1 k.2 = recordId cfg ns key ∧
    recordOf cfg s.flash.cells k = some record ∧
    (s.flash.fault (.read (recordId cfg ns key)) ≠ none ∨ cfg.blockSize < headLen record)

/-- The set overwrites the record of another key of `P`. -/
def Clobbers (cfg : KvCfg) (s : KvSt) (ns key : CString) (value : Option Bytes) (P : NsKey → Prop) : Prop :=
  (∃ v, value = some v ∧ LetThrough cfg s ns key v) ∧ s.flash.fault (.write (recordId cfg ns key)) = none ∧
    Overlooks cfg s ns key P

theorem Writable.room {ns key : CString} {value : Bytes} (h : Writable cfg ns key value) :
    REC_HDR_SIZE ≤ cfg.blockSize := by
  have hfits := h.fits
  rw [recordBuild_length] at hfits
  omega

theorem overlooks_iff {s : KvSt} {ns key : CString} {P : NsKey → Prop} (hroom : REC_HDR_SIZE ≤ cfg.blockSize)
    (hP : ∀ k, P k → k ≠ (ns, key)) : Overlooks cfg s ns key P ↔ preRead cfg s ns key ≠ some .MISMATCH ∧
      ∃ k record, P k ∧ recordId cfg k.1 k.2 = recordId cfg ns key ∧
        recordOf cfg s.flash.cells k = some record := by
  constructor
  · rintro ⟨k, record, hk, hid, hrec, hcut⟩
    refine ⟨fun hshown => ?_, k, record, hk, hid, hrec⟩
    obtain ⟨hread, record', hcell, hhead, -⟩ := (preRead_mismatch hroom).mp hshown
    have hrec' := (recordOf_eq_some.mp hrec).1
    rw [hid, hcell] at hrec'
    obtain rfl := Option.some.inj hrec'
    rcases hcut with hcut | hcut
    · exact hcut hread
    · omega
  · rintro ⟨hshown, k, record, hk, hid, hrec⟩
    refine ⟨k, record, hk, hid, hrec, ?_⟩
    by_contra hall
    simp only [not_or, not_not, Nat.not_lt] at hall
    obtain ⟨hcell, off, hmatch⟩ := recordOf_eq_some.mp hrec
    rw [hid] at hcell
    exact hshown ((preRead_mismatch hroom).mpr
      ⟨hall.1, record, hcell, hall.2, mismatch_of_match (hP k hk) hmatch⟩)

theorem recordOf_recordBuild_ne {cells : Cells} {ns key : CString} {value : Bytes} {k : NsKey}
    (hns : keyValid cfg ns = true) (hkey : keyValid cfg key = true) (hne : k ≠ (ns, key))
    (hcell : cells (recordId cfg k.1 k.2) = some (recordBuild ns key value)) : recordOf cfg cells k = none := by
  cases hrec : recordOf cfg cells k with
  | none => rfl
  | some record =>
    obtain ⟨hcell', off, hmatch⟩ := recordOf_eq_some.mp hrec
    rw [hcell] at hcell'
    obtain rfl := Option.some.inj hcell'
    rw [recordCheck_recordBuild value (keyValid_lt hns) (keyValid_lt hkey),
      if_neg fun h => hne (Prod.ext h.1 h.2)] at hmatch
    cases hmatch

theorem recordOf_kvSet {s : KvSt} {ns key : CString} (value : Option Bytes) {P : NsKey → Prop}
    (hns : keyValid cfg ns = true) (hP : ∀ k, P k → k ≠ (ns, key)) :
    (∀ k, P k → recordOf cfg (post (kvSet cfg ns key value) s).flash.cells k = recordOf cfg s.flash.cells k) ↔
      ¬ Clobbers cfg s ns key value P := by
  by_cases hthrough : ∃ v, value = some v ∧ LetThrough cfg s ns key v
  · obtain ⟨v, rfl, hlet⟩ := hthrough
    have hcells : ∀ k : NsKey, (post (kvSet cfg ns key (some v)) s).flash.cells (recordId cfg k.1 k.2) =
        if preRead cfg s ns key ≠ some .MISMATCH ∧ s.flash.fault (.write (recordId cfg ns key)) = none then
          Function.update s.flash.cells (recordId cfg ns key) (some (recordBuild ns key v)) (recordId cfg k.1 k.2)
        else s.flash.cells (recordId cfg k.1 k.2) := fun k => by
      rw [post_kvSet_through hlet]
      exact setLocked_cells cfg s.hold ns key v (recordId_ne_index cfg k.1 k.2)
    have hafter : ∀ k, P k → recordId cfg k.1 k.2 = recordId cfg ns key →
        preRead cfg s ns key ≠ some .MISMATCH → s.flash.fault (.write (recordId cfg ns key)) = none →
        recordOf cfg (post (kvSet cfg ns key (some v)) s).flash.cells k = none := by
      intro k hk hid hshown hwrite
      refine recordOf_recordBuild_ne hns hlet.key_valid (hP k hk) (?_ : _ = some (recordBuild ns key v))
      rw [hcells k, if_pos ⟨hshown, hwrite⟩, hid, Function.update_self]
    unfold Clobbers
    rw [overlooks_iff hlet.room hP]
    constructor
    · rintro hsame ⟨-, hwrite, hshown, k, record, hk, hid, hrec⟩
      have hnone := hafter k hk hid hshown hwrite
      rw [hsame k hk, hrec] at hnone
      cases hnone
    · intro hspare k hk
      by_cases hid : recordId cfg k.1 k.2 = recordId cfg ns key
      · by_cases hgo : preRead cfg s ns key ≠ some .MISMATCH ∧ s.flash.fault (.write (recordId cfg ns key)) = none
        · rw [hafter k hk hid hgo.1 hgo.2]
          cases hrec : recordOf cfg s.flash.cells k with
          | none => rfl
          | some record => exact absurd ⟨⟨v, rfl, hlet⟩, hgo.2, hgo.1, k, record, hk, hid, hrec⟩ hspare
        · exact recordOf_congr (by rw [hcells k, if_neg hgo])
      · apply recordOf_congr
        rw [hcells k, Function.update_of_ne hid, ite_self]
  · have hstop : post (kvSet cfg ns key value) s = s :=
      post_kvSet_stopped hns fun v hv hlet => hthrough ⟨v, hv, hlet⟩
    rw [hstop]
    exact ⟨fun _ h => hthrough h.1, fun _ _ _ => rfl⟩

/-- The pre-read is answered, and the slot is empty, holds no record, or holds the key's own. -/
def Established (cfg : KvCfg) (s : KvSt) (ns key : CString) : Prop :=
  s.flash.fault (.read (recordId cfg ns key)) = none ∧
    ∀ record, s.flash.cells (recordId cfg ns key) = some record → isRecord record = true →
      ∃ off, recordCheck record ns key = .MATCH off

/-- The set goes by a pre-read that is refused or does not hold the head of the record there. -/
def Presumes (cfg : KvCfg) (s : KvSt) (ns key : CString) (value : Option Bytes) : Prop :=
  (∃ v, value = some v ∧ LetThrough cfg s ns key v) ∧
    (s.flash.fault (.read (recordId cfg ns key)) ≠ none ∨
      ∃ record, s.flash.cells (recordId cfg ns key) = some record ∧ isRecord record = true ∧
        cfg.blockSize < headLen record)

theorem established_kvSet {s : KvSt} {ns key : CString} (value : Option Bytes) (hns : keyValid cfg ns = true) :
    ((post (kvSet cfg ns key value) s).flash.made (.write (recordId cfg ns key)) ≠
        s.flash.made (.write (recordId cfg ns key)) → Established cfg s ns key) ↔
      ¬ Presumes cfg s ns key value := by
  by_cases hthrough : ∃ v, value = some v ∧ LetThrough cfg s ns key v
  · obtain ⟨v, rfl, hlet⟩ := hthrough
    have hmade : (post (kvSet cfg ns key (some v)) s).flash.made (.write (recordId cfg ns key)) ≠
        s.flash.made (.write (recordId cfg ns key)) ↔ preRead cfg s ns key ≠ some .MISMATCH := by
      have h := setLocked_made cfg s.hold ns key v
      rw [post_kvSet_through hlet]
      show (post (setLocked cfg ns key v) s.hold).flash.made _ ≠ s.hold.flash.made _ ↔
        preRead cfg s.hold ns key ≠ some .MISMATCH
      rw [h]
      by_cases hshown : preRead cfg s.hold ns key = some .MISMATCH <;> simp [hshown]
    rw [hmade, ne_eq, preRead_mismatch hlet.room]
    constructor
    · rintro hest ⟨-, hread | ⟨record, hcell, hrec, hcut⟩⟩
      · exact hread (hest fun h => hread h.1).1
      · -- the head of the key's own record fits the block, so that record is another key's
        obtain ⟨-, hown⟩ := hest fun ⟨_, record', hcell', hhead, _⟩ => by
          rw [hcell] at hcell'
          obtain rfl := Option.some.inj hcell'
          omega
        obtain ⟨off, hmatch⟩ := hown record hcell hrec
        obtain ⟨-, hnsl, hkeyl, -⟩ := recordCheck_match hmatch
        have hfits := hlet.fits
        rw [recordBuild_length] at hfits
        unfold headLen at hcut
        omega
    · intro hpre hgo
      have hread : s.flash.fault (.read (recordId cfg ns key)) = none := by
        by_contra h
        exact hpre ⟨⟨v, rfl, hlet⟩, .inl h⟩
      refine ⟨hread, fun record hcell hrec => ?_⟩
      have hhead : headLen record ≤ cfg.blockSize := by
        by_contra h
        exact hpre ⟨⟨v, rfl, hlet⟩, .inr ⟨record, hcell, hrec, Nat.lt_of_not_le h⟩⟩
      cases hcheck : recordCheck record ns key with
      | MATCH off => exact ⟨off, rfl⟩
      | MISMATCH => exact absurd ⟨hread, record, hcell, hhead, hcheck⟩ hgo
      | FOREIGN =>
        simp only [recordCheck, hrec, Bool.not_true, Bool.false_eq_true, if_false] at hcheck
        split at hcheck <;> cases hcheck
  · have hstop : post (kvSet cfg ns key value) s = s :=
      post_kvSet_stopped hns fun v hv hlet => hthrough ⟨v, hv, hlet⟩
    rw [hstop]
    exact ⟨fun _ h => hthrough h.1, fun _ h => absurd rfl h⟩

structure Spares (cfg : KvCfg) (P : NsKey → Prop) (s t : KvSt) : Prop where
  records : ∀ k, P k → recordOf cfg t.flash.cells k = recordOf cfg s.flash.cells k
  faults : t.flash.faults = s.flash.faults
  terse : t.flash.terse = s.flash.terse
  made : ∀ op, s.flash.made op ≤ t.flash.made op
  ioFree : t.ioFree = s.ioFree
  heapRoom : t.heapRoom = s.heapRoom

theorem spares_chains (cfg : KvCfg) (P : NsKey → Prop) : Chains (Spares cfg P) where
  refl _ := ⟨fun _ _ => rfl, rfl, rfl, fun _ => Nat.le_refl _, rfl, rfl⟩
  trans h k := ⟨fun j hj => (k.records j hj).trans (h.records j hj), k.faults.trans h.faults,
    k.terse.trans h.terse, fun op => (h.made op).trans (k.made op), k.ioFree.trans h.ioFree,
    k.heapRoom.trans h.heapRoom⟩

theorem Confined.spares {s t : KvSt} (h : Confined (IndexSlot cfg) s t) (P : NsKey → Prop) :
    Spares cfg P s t :=
  ⟨fun k _ => h.recordOf k, h.flash.faults, h.flash.terse, h.flash.grows, h.ioFree, h.heapRoom⟩

theorem match_of_take {record : Bytes} {room off : Nat} {ns key : CString}
    (h : recordCheck (record.take room) ns key = .MATCH off) : recordCheck record ns key = .MATCH off := by
  obtain ⟨hrec, -⟩ := recordCheck_match h
  have hroom : REC_HDR_SIZE ≤ room := by
    simp only [isRecord, Bool.and_eq_true, decide_eq_true_eq, List.length_take] at hrec
    omega
  rw [recordCheck_take hroom] at h
  split at h
  · exact h
  · cases h

theorem run_read_ok {id : UInt32} {capacity : Nat} {s t : KvSt} {r : Nat × Bytes}
    (h : (toStatus (onFlash (IdStore.read id capacity)) : KvM Status _).run s = .ok r t) :
    t = s.counted (.read id) ∧ s.flash.fault (.read id) = none ∧
      ∃ record, s.flash.cells id = some record ∧ r = (record.length, record.take capacity) := by
  have hout := outcome_of_run h
  have hpost := post_of_run h
  unfold toStatus onFlash at hout hpost
  rw [outcome_adaptExcept, outcome_zoom, IdStore.outcome_read] at hout
  rw [post_adaptExcept, post_zoom, IdStore.post_read] at hpost
  refine ⟨hpost.symm, ?_⟩
  cases hfault : s.flash.fault (.read id) with
  | some err =>
    rw [hfault] at hout
    cases hout
  | none =>
    rw [hfault] at hout
    cases hcell : s.flash.cells id with
    | none =>
      rw [hcell] at hout
      cases hout
    | some record =>
      rw [hcell] at hout
      exact ⟨rfl, record, rfl, (Except.ok.inj hout).symm⟩

theorem recordOf_of_other {cells : Cells} {k : NsKey} {ns key : CString} {record : Bytes} {off : Nat}
    (hcell : cells (recordId cfg k.1 k.2) = some record) (hmatch : recordCheck record ns key = .MATCH off)
    (hne : k ≠ (ns, key)) : recordOf cfg cells k = none := by
  cases hrec : recordOf cfg cells k with
  | none => rfl
  | some record' =>
    obtain ⟨hcell', off', hmatch'⟩ := recordOf_eq_some.mp hrec
    rw [hcell] at hcell'
    obtain rfl := Option.some.inj hcell'
    have hown : recordCheck record (ns, key).1 (ns, key).2 = .MATCH off := hmatch
    exact absurd (match_unique hmatch' hown) hne

theorem delete_cells (id : UInt32) (f : IdStore) :
    (post (IdStore.delete id) f).cells id = f.cells id ∨ (post (IdStore.delete id) f).cells id = none := by
  cases h : f.fault (.delete id) with
  | some err =>
    refine .inl ?_
    unfold post
    rw [IdStore.delete_refused f id h]
    rfl
  | none =>
    refine .inr ?_
    rw [post_of_run (IdStore.delete_accepted f id h)]
    exact Function.update_self _ _ _

theorem keeps_deleteLocked (ns key : CString) (s : KvSt) :
    Keeps (Spares cfg (· ≠ (ns, key))) (deleteLocked cfg ns key) s := by
  have hchain := spares_chains cfg (· ≠ (ns, key))
  have hread : Keeps (Confined (IndexSlot cfg))
      (toStatus (onFlash (IdStore.read (recordId cfg ns key) cfg.blockSize)) : KvM Status _) s :=
    keeps_adaptExcept _ (keeps_onFlash (IdStore.keeps_read _ _ _))
  apply keeps_bind hchain (Confined.spares hread _)
  intro r t hrun
  obtain ⟨rfl, -, record, hcell, rfl⟩ := run_read_ok hrun
  dsimp only
  cases hcheck : recordCheck (record.take cfg.blockSize) ns key with
  | MISMATCH => exact keeps_throw hchain _ _
  | FOREIGN => exact keeps_throw hchain _ _
  | MATCH off =>
    refine keeps_bind hchain ?_ fun _ u _ => Confined.spares (keeps_trackDelete cfg ns key u) _
    have hwithin : Keeps (Confined (· = recordId cfg ns key))
        (toStatus (onFlash (IdStore.delete (recordId cfg ns key))) : KvM Status _)
        (s.counted (.read (recordId cfg ns key))) :=
      by
      apply keeps_adaptExcept _
      apply keeps_onFlash
      exact IdStore.keeps_delete (s.counted (.read (recordId cfg ns key))).flash (Eq.refl (recordId cfg ns key))
    refine ⟨fun k hk => ?_, hwithin.flash.faults, hwithin.flash.terse, hwithin.flash.grows, hwithin.ioFree,
      hwithin.heapRoom⟩
    by_cases hid : recordId cfg k.1 k.2 = recordId cfg ns key
    · -- the slot holds the record that is deleted
      have hcell' : s.flash.cells (recordId cfg k.1 k.2) = some record := by
        rw [hid]
        exact hcell
      have hmatch := match_of_take hcheck
      have hnone : recordOf cfg s.flash.cells k = none := recordOf_of_other hcell' hmatch hk
      have hafter := delete_cells (recordId cfg ns key) (s.counted (.read (recordId cfg ns key))).flash
      rw [← hid] at hafter
      show recordOf cfg (post (toStatus (onFlash (IdStore.delete _)) : KvM Status _) _).flash.cells k =
        recordOf cfg s.flash.cells k
      unfold toStatus onFlash
      rw [post_adaptExcept, post_zoom, hnone, ← hid]
      rcases hafter with hafter | hafter
      · exact (recordOf_congr hafter).trans hnone
      · unfold recordOf
        rw [hafter]
        rfl
    · exact recordOf_congr (hwithin.flash.cells _ hid)

theorem Spares.released {P : NsKey → Prop} {s t : KvSt} (h : Spares cfg P s.hold t) (hio : s.ioFree ≠ 0) :
    Spares cfg P s t.release := by
  refine ⟨h.records, h.faults, h.terse, h.made, ?_, h.heapRoom⟩
  show t.ioFree + 1 = s.ioFree
  rw [h.ioFree]
  exact Nat.succ_pred_eq_of_ne_zero hio

theorem keeps_withBlock_spares {α : Type} {P : NsKey → Prop} {m : KvM Status α} {s : KvSt}
    (h : Keeps (Spares cfg P) m s.hold) : Keeps (Spares cfg P) (withBlock m) s := by
  by_cases hio : s.ioFree = 0
  · unfold Keeps post
    rw [withBlock_none hio]
    exact (spares_chains cfg P).refl s
  · unfold Keeps
    rw [post_withBlock hio]
    exact Spares.released h hio

theorem keeps_kvDelete (ns key : CString) (s : KvSt) :
    Keeps (Spares cfg (· ≠ (ns, key))) (kvDelete cfg ns key) s := by
  unfold kvDelete
  split
  · exact keeps_throw (spares_chains cfg _) _ _
  · exact keeps_withBlock_spares (keeps_deleteLocked ns key s.hold)

theorem post_delete (s : KvSt) (ns key : CString) : post ((KvOp.delete ns key).run cfg) s =
    if keyValid cfg ns = true then post (kvDelete cfg ns key) s else s :=
  post_opened (m := kvDelete cfg ns key) (f := fun _ => KvAnswer.none)

end ZephyrDB.Kv
