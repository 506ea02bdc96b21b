import ZephyrDB.Kv.Delivery
import ZephyrDB.Kv.Rollback

/-!
The defaults table over any store content: which slots an entry may write, what
a pass over the table leaves of the values that were there, and what a second
pass does.
-/

set_option autoImplicit false

namespace ZephyrDB.Kv

open Lib

variable {cfg : KvCfg}

def applyEntry (cfg : KvCfg) (filter : Option CString) (d : Default) : KvM Status Unit :=
  match d.namespaceName, d.key with
  | some ns, some key => if filter.all (ns == ·) then applyDefault cfg ns key d.value else pure ()
  | _, _ => throw .ERR_INVAL

def Names (filter : Option CString) (d : Default) (k : NsKey) : Prop :=
  d.namespaceName = some k.1 ∧ d.key = some k.2 ∧ filter.all (k.1 == ·) = true

def HeadFits (cfg : KvCfg) (k : NsKey) : Prop := REC_HDR_SIZE + k.1.val.length + k.2.val.length ≤ cfg.blockSize

def Legible (cfg : KvCfg) (record : Bytes) : Prop := isRecord record = true ∧ headLen record ≤ cfg.blockSize

def Held (cfg : KvCfg) (cells : Cells) (k : NsKey) : Prop := stored cfg cells k ≠ none ∧ HeadFits cfg k

theorem headLen_of_match {record : Bytes} {k : NsKey} {off : Nat} (h : recordCheck record k.1 k.2 = .MATCH off) :
    isRecord record = true ∧ headLen record = REC_HDR_SIZE + k.1.val.length + k.2.val.length := by
  obtain ⟨hrec, hnsLen, hkeyLen, -⟩ := recordCheck_match h
  exact ⟨hrec, by rw [headLen, hnsLen, hkeyLen]⟩

theorem Held.legible {cells : Cells} {k : NsKey} (h : Held cfg cells k) :
    ∃ record, cells (recordId cfg k.1 k.2) = some record ∧ Legible cfg record := by
  obtain ⟨value, hvalue⟩ := Option.ne_none_iff_exists'.mp h.1
  obtain ⟨record, off, hcell, hmatch, -⟩ := stored_eq_some.mp hvalue
  obtain ⟨hrec, hhead⟩ := headLen_of_match hmatch
  exact ⟨record, hcell, hrec, hhead ▸ h.2⟩

theorem headFits_of_legible {cells : Cells} {k : NsKey} {record : Bytes}
    (hcell : cells (recordId cfg k.1 k.2) = some record) (hlegible : Legible cfg record)
    (hstored : stored cfg cells k ≠ none) : HeadFits cfg k := by
  obtain ⟨value, hvalue⟩ := Option.ne_none_iff_exists'.mp hstored
  obtain ⟨record', off, hcell', hmatch, -⟩ := stored_eq_some.mp hvalue
  rw [hcell] at hcell'
  obtain rfl := Option.some.inj hcell'
  unfold HeadFits
  rw [← (headLen_of_match hmatch).2]
  exact hlegible.2

abbrev NoSlot (_ : UInt32) : Prop := False

def Amends (cfg : KvCfg) (k : NsKey) (s u : KvSt) : Prop :=
  ∀ entries, s.ctx = some entries → ∃ entries', u.ctx = some entries' ∧
    (∀ e ∈ entries', e ∈ entries ∨ e.nsKey = k ∧ e.id = recordId cfg k.1 k.2) ∧
    entries'.filter (fun e => decide (e.nsKey ≠ k)) = entries.filter (fun e => decide (e.nsKey ≠ k))

/-- What a default may do: leave the store alone, or write its key's record into a slot in which no legible
record is. -/
inductive Merging (cfg : KvCfg) (k : NsKey) (value : Option Bytes) (s u : KvSt) (r : Except Status Unit) : Prop
  | kept (still : Confined NoSlot s u) (ctx : u.ctx = s.ctx) (told : r ≠ .error .OK)
      (held : r = .ok () → Held cfg s.flash.cells k ∧ s.ioFree ≠ 0)
      (tried : ∀ v, value = some v → LetThrough cfg s k.1 k.2 v →
        ∃ record, s.flash.cells (recordId cfg k.1 k.2) = some record ∧ Legible cfg record)
  | wrote (v : Bytes) (given : value = some v) (lets : LetThrough cfg s k.1 k.2 v)
      (blank : ∀ record, s.flash.cells (recordId cfg k.1 k.2) = some record → ¬ Legible cfg record)
      (ok : r = .ok ()) (confined : Confined AnySlot s u) (amends : Amends cfg k s u)
      (cells : ∀ id, id ≠ indexRecId cfg →
        u.flash.cells id = Function.update s.flash.cells (recordId cfg k.1 k.2) (some (recordBuild k.1 k.2 v)) id)

theorem Writable.headFits {ns key : CString} {value : Bytes} (h : Writable cfg ns key value) : HeadFits cfg (ns, key) := by
  have hfits := h.fits
  rw [recordBuild_length] at hfits
  show REC_HDR_SIZE + ns.val.length + key.val.length ≤ cfg.blockSize
  omega

theorem Writable.legible {ns key : CString} {value : Bytes} (h : Writable cfg ns key value) :
    Legible cfg (recordBuild ns key value) := by
  have hns := keyValid_lt h.ns_valid
  have hkey := keyValid_lt h.key_valid
  exact ⟨isRecord_recordBuild value hns hkey, (headLen_recordBuild value hns hkey) ▸ h.headFits⟩

theorem preRead_legible {s : KvSt} (hs : s.flash.Answers) {ns key : CString} {record : Bytes}
    (hroom : REC_HDR_SIZE ≤ cfg.blockSize) (hcell : s.flash.cells (recordId cfg ns key) = some record)
    (hlegible : Legible cfg record) (habsent : stored cfg s.flash.cells (ns, key) = none) :
    preRead cfg s ns key = some .MISMATCH := by
  refine (preRead_mismatch hroom).mpr ⟨hs.read _, record, hcell, hlegible.2, ?_⟩
  cases hcheck : recordCheck record ns key with
  | MISMATCH => rfl
  | MATCH off =>
    have hsome : stored cfg s.flash.cells (ns, key) = some (record.drop off) :=
      (@stored_eq_some cfg _ (ns, key) _).mpr ⟨record, off, hcell, hcheck, rfl⟩
    rw [habsent] at hsome
    cases hsome
  | FOREIGN =>
    unfold recordCheck at hcheck
    rw [hlegible.1] at hcheck
    simp only [Bool.not_true, Bool.false_eq_true, if_false] at hcheck
    split at hcheck <;> cases hcheck

theorem preRead_shows_legible {s : KvSt} {ns key : CString} (hroom : REC_HDR_SIZE ≤ cfg.blockSize)
    (h : preRead cfg s ns key = some .MISMATCH) :
    ∃ record, s.flash.cells (recordId cfg ns key) = some record ∧ Legible cfg record := by
  obtain ⟨-, record, hcell, hhead, hcheck⟩ := (preRead_mismatch hroom).mp h
  refine ⟨record, hcell, ?_, hhead⟩
  by_contra hrec
  unfold recordCheck at hcheck
  rw [Bool.eq_false_iff.mpr hrec] at hcheck
  cases hcheck

theorem outcome_applyDefault (ns key : CString) (value : Option Bytes) (s : KvSt) :
    outcome (applyDefault cfg ns key value) s =
      if keyValid cfg ns = true then
        match outcome (kvGet cfg ns key 0) s with
        | .ok _ => .ok ()
        | .error .ERR_NOT_FOUND => outcome (kvSet cfg ns key value) (post (kvGet cfg ns key 0) s)
        | .error status => .error status
      else .error .ERR_INVAL := by
  unfold applyDefault
  rw [outcome_kvOpen]
  split
  · rw [outcome_then (run_attempt _ s)]
    cases outcome (kvGet cfg ns key 0) s with
    | ok r => rfl
    | error status => cases status <;> rfl
  · rfl

theorem outcome_kvGet_sound {s : KvSt} (hs : s.flash.Answers) {ns key : CString} (hkey : keyValid cfg key = true)
    (hio : s.ioFree ≠ 0) :
    (Held cfg s.flash.cells (ns, key) → ∃ got, outcome (kvGet cfg ns key 0) s = .ok got) ∧
      (¬ Held cfg s.flash.cells (ns, key) → outcome (kvGet cfg ns key 0) s = .error .ERR_NOT_FOUND) := by
  have href : refusal cfg s ns key = none := by
    rw [refusal, if_neg hio, hs.read]
    rfl
  rw [outcome_kvGet_stored hkey, href]
  cases hstored : stored cfg s.flash.cells (ns, key) with
  | none => exact ⟨fun h => absurd hstored h.1, fun _ => rfl⟩
  | some value =>
    dsimp only
    by_cases hfit : REC_HDR_SIZE + ns.val.length + key.val.length ≤ cfg.blockSize
    · rw [if_pos hfit]
      exact ⟨fun _ => ⟨_, rfl⟩, fun h => absurd ⟨by rw [hstored]; simp, hfit⟩ h⟩
    · rw [if_neg hfit]
      exact ⟨fun h => absurd h.2 hfit, fun _ => rfl⟩

theorem outcome_kvGet_refused {s : KvSt} {ns key : CString} (h : ¬ (keyValid cfg key = true ∧ s.ioFree ≠ 0)) :
    ∃ status, outcome (kvGet cfg ns key 0) s = .error status ∧ status ≠ .ERR_NOT_FOUND ∧ status ≠ .OK := by
  by_cases hkey : keyValid cfg key = true
  · have hio : s.ioFree = 0 := by
      by_contra hio
      exact h ⟨hkey, hio⟩
    refine ⟨.ERR_NOMEM, ?_, by decide, by decide⟩
    rw [outcome_kvGet_stored hkey, refusal, if_pos hio]
  · have hdef : kvGet cfg ns key 0 = throw .ERR_INVAL := by simp [kvGet, hkey]
    exact ⟨.ERR_INVAL, by rw [hdef]; rfl, by decide, by decide⟩

theorem filter_modify_id {entries : List IndexEntry} {k : NsKey} {i : Nat} (hi : i < entries.length)
    (hkey : entries[i].nsKey = k) (id : UInt32) :
    (entries.modify i fun e => { e with id := id }).filter (fun e => decide (e.nsKey ≠ k)) =
      entries.filter (fun e => decide (e.nsKey ≠ k)) := by
  induction entries generalizing i with
  | nil => exact absurd hi (Nat.not_lt_zero i)
  | cons e entries ih =>
    cases i with
    | zero =>
      have hhead : e.nsKey = k := hkey
      have hnew : IndexEntry.nsKey { e with id := id } = k := hhead
      rw [List.modify_zero_cons, List.filter_cons_of_neg (by simp [hnew]), List.filter_cons_of_neg (by simp [hhead])]
    | succ i =>
      rw [List.modify_succ_cons, List.filter_cons, List.filter_cons, ih (Nat.lt_of_succ_lt_succ hi) hkey]

theorem written_amends (s : KvSt) (ns key : CString) (value : Bytes) :
    Amends cfg (ns, key) s (written cfg s ns key value) := by
  intro entries hctx
  have hcounted : (s.counted (.read (recordId cfg ns key))).ctx = some entries := hctx
  show ∃ entries', (tracked cfg s ns key).ctx = some entries' ∧ _
  rw [tracked, post_trackSet hcounted]
  cases hfind : findEntry entries ns key with
  | some i =>
    obtain ⟨hi, hkey⟩ := findEntry_some hfind
    refine ⟨_, rfl, fun e he => ?_, filter_modify_id hi hkey _⟩
    obtain ⟨j, hj, rfl⟩ := List.getElem_of_mem he
    rw [List.getElem_modify]
    split
    · rename_i hij
      subst hij
      exact .inr ⟨hkey, rfl⟩
    · exact .inl (List.getElem_mem _)
  | none =>
    dsimp only
    by_cases hfull : cfg.indexMax ≤ entries.length
    · rw [if_pos hfull]
      exact ⟨entries, hctx, fun e he => .inl he, rfl⟩
    · rw [if_neg hfull]
      refine ⟨_, (storePersisted_recorded rfl).ctx, fun e he => ?_, ?_⟩
      · rcases List.mem_append.mp he with he | he
        · exact .inl he
        · rw [List.mem_singleton.mp he]
          exact .inr ⟨rfl, rfl⟩
      · rw [List.filter_append, List.filter_cons_of_neg (by simp [IndexEntry.nsKey]), List.filter_nil, List.append_nil]

theorem kvSet_merging {s : KvSt} (hs : s.flash.Answers) {ns key : CString} (hns : keyValid cfg ns = true)
    (value : Option Bytes) (hheld : ¬ Held cfg s.flash.cells (ns, key)) :
    Merging cfg (ns, key) value s (post (kvSet cfg ns key value) s) (outcome (kvSet cfg ns key value) s) := by
  by_cases hthrough : ∃ v, value = some v ∧ LetThrough cfg s ns key v
  · obtain ⟨v, rfl, hlet⟩ := hthrough
    have hroom := hlet.toWritable.room
    have habsent : stored cfg s.flash.cells (ns, key) = none := by
      by_contra hstored
      exact hheld ⟨hstored, hlet.toWritable.headFits⟩
    rw [post_kvSet_through hlet, hlet.toWritable.kvSet, outcome_withBlock hlet.block]
    by_cases hshown : preRead cfg s.hold ns key = some .MISMATCH
    · have hrun := setLocked_collides hshown v
      rw [outcome_of_error hrun, post_of_error hrun]
      refine .kept ((counted_read_confined NoSlot s.hold _).released hlet.block) rfl (by simp) (fun h => by cases h) fun v' _ _ => ?_
      exact preRead_shows_legible (s := s.hold) hroom hshown
    · have hanswers : s.hold.flash.Answers := hs
      have hrun := setLocked_runs hanswers hlet.toWritable hshown
      have hconf : Confined AnySlot s.hold (post (setLocked cfg ns key v) s.hold) := keeps_setLocked ns key v s.hold
      refine .wrote v rfl hlet (fun record hcell hlegible => ?_) (outcome_of_run hrun) (hconf.released hlet.block) ?_ fun id hid => ?_
      · exact hshown (preRead_legible hanswers hroom hcell hlegible habsent)
      · rw [post_of_run hrun]
        exact @written_amends cfg s.hold ns key v
      · have hcells := setLocked_cells cfg s.hold ns key v hid
        rw [if_pos ⟨hshown, hanswers.write _⟩] at hcells
        exact hcells
  · obtain ⟨status, hout, hstatus⟩ := outcome_kvSet_stopped hns fun v hv hlet => hthrough ⟨v, hv, hlet⟩
    rw [hout, post_kvSet_stopped hns fun v hv hlet => hthrough ⟨v, hv, hlet⟩]
    refine .kept ((confined_chains NoSlot).refl s) rfl ?_ (fun h => by cases h) fun v hv hlet => absurd ⟨v, hv, hlet⟩ hthrough
    rcases hstatus with rfl | rfl <;> simp

theorem Merging.behind {k : NsKey} {value : Option Bytes} {s t u : KvSt} {r : Except Status Unit}
    (h : Confined NoSlot s t) (hctx : t.ctx = s.ctx) (m : Merging cfg k value t u r) : Merging cfg k value s u r := by
  have hcells : t.flash.cells = s.flash.cells := funext fun id => h.flash.cells id not_false
  have hlet : ∀ {v}, LetThrough cfg s k.1 k.2 v → LetThrough cfg t k.1 k.2 v := fun hv => hv.along h.ioFree.symm
  cases m with
  | kept still ctx told held tried =>
    rw [hcells] at held tried
    exact .kept ((confined_chains NoSlot).trans h still) (ctx.trans hctx) told (fun hr => ⟨(held hr).1, h.ioFree ▸ (held hr).2⟩)
      fun v hv hthrough => tried v hv (hlet hthrough)
  | wrote v given lets blank ok confined amends cells =>
    rw [hcells] at blank cells
    exact .wrote v given (lets.along h.ioFree) blank ok
      ((confined_chains AnySlot).trans (h.weaken fun _ hid => hid.elim) confined) (fun entries he => amends entries (hctx.trans he)) cells

theorem applyDefault_merging {s : KvSt} (hs : s.flash.Answers) (ns key : CString) (value : Option Bytes) :
    Merging cfg (ns, key) value s (post (applyDefault cfg ns key value) s) (outcome (applyDefault cfg ns key value) s) := by
  have hget : Confined NoSlot s (post (kvGet cfg ns key 0) s) := keeps_kvGet cfg NoSlot ns key 0 s
  have hctx := (@still_kvGet cfg ns key 0 s).ctx
  rw [outcome_applyDefault, post_applyDefault]
  by_cases hns : keyValid cfg ns = true
  swap
  · rw [if_neg hns, if_neg hns]
    exact .kept ((confined_chains NoSlot).refl s) rfl (by simp) (fun h => by cases h) fun v _ hlet => absurd hlet.ns_valid hns
  rw [if_pos hns, if_pos hns]
  by_cases hlet : keyValid cfg key = true ∧ s.ioFree ≠ 0
  swap
  · obtain ⟨status, hout, hne, hok⟩ := @outcome_kvGet_refused cfg s ns key hlet
    have hfails : (match (Except.error status : Except Status (Bytes × Nat)) with
        | .ok _ => .ok ()
        | .error .ERR_NOT_FOUND => outcome (kvSet cfg ns key value) (post (kvGet cfg ns key 0) s)
        | .error status => .error status) = (.error status : Except Status Unit) := by
      cases status <;> first | exact absurd rfl hne | rfl
    rw [hout, if_neg fun h => hne (Except.error.inj h), hfails]
    exact .kept hget hctx (fun h => hok (Except.error.inj h)) (fun h => by cases h)
      fun v _ hthrough => absurd ⟨hthrough.key_valid, hthrough.block⟩ hlet
  obtain ⟨hfound, hmissing⟩ := @outcome_kvGet_sound cfg s hs ns key hlet.1 hlet.2
  by_cases hheld : Held cfg s.flash.cells (ns, key)
  · obtain ⟨got, hout⟩ := hfound hheld
    rw [hout, if_neg (by simp)]
    exact .kept hget hctx (by simp) (fun _ => ⟨hheld, hlet.2⟩) fun v _ _ => hheld.legible
  · rw [hmissing hheld, if_pos rfl]
    apply Merging.behind hget hctx
    apply kvSet_merging (hget.flash.answers hs) hns value
    rwa [show (post (kvGet cfg ns key 0) s).flash.cells = s.flash.cells from funext fun id => hget.flash.cells id not_false]

section Merging
variable {k : NsKey} {value : Option Bytes} {s u : KvSt} {r : Except Status Unit}

theorem stored_wrote {v : Bytes} (hlet : LetThrough cfg s k.1 k.2 v)
    (hcells : ∀ id, id ≠ indexRecId cfg →
      u.flash.cells id = Function.update s.flash.cells (recordId cfg k.1 k.2) (some (recordBuild k.1 k.2 v)) id) (j : NsKey) :
    stored cfg u.flash.cells j = if j = k then some v
      else if recordId cfg j.1 j.2 = recordId cfg k.1 k.2 then none else stored cfg s.flash.cells j := by
  have hj := hcells _ (recordId_ne_index cfg j.1 j.2)
  by_cases hid : recordId cfg j.1 j.2 = recordId cfg k.1 k.2
  · rw [hid, Function.update_self, ← hid] at hj
    rw [stored_recordBuild hlet.ns_valid hlet.key_valid j hj, if_pos hid]
  · rw [Function.update_of_ne hid] at hj
    rw [stored_congr hj, if_neg hid, if_neg]
    rintro rfl
    exact hid rfl

theorem Confined.unchanged (h : Confined NoSlot s u) : u.flash.cells = s.flash.cells :=
  funext fun id => h.flash.cells id not_false

theorem Merging.told (m : Merging cfg k value s u r) : r ≠ .error .OK := by
  cases m with
  | kept still ctx told held tried => exact told
  | wrote v given lets blank ok confined amends cells =>
    rw [ok]
    simp

theorem Merging.confined (m : Merging cfg k value s u r) : Confined AnySlot s u := by
  cases m with
  | kept still ctx told held tried => exact still.weaken fun _ hid => hid.elim
  | wrote v given lets blank ok confined amends cells => exact confined

theorem Merging.legible_stays (m : Merging cfg k value s u r) {id : UInt32} (hid : id ≠ indexRecId cfg) {record : Bytes}
    (hcell : s.flash.cells id = some record) (hlegible : Legible cfg record) : u.flash.cells id = some record := by
  cases m with
  | kept still ctx told held tried => rw [still.unchanged, hcell]
  | wrote v given lets blank ok confined amends cells =>
    have hne : id ≠ recordId cfg k.1 k.2 := by
      rintro rfl
      exact blank record hcell hlegible
    rw [cells id hid, Function.update_of_ne hne, hcell]

theorem Merging.absent (m : Merging cfg k value s u r) {j : NsKey} (hother : HeadFits cfg j → j ≠ k)
    (hnone : stored cfg s.flash.cells j = none) : stored cfg u.flash.cells j = none := by
  cases m with
  | kept still ctx told held tried => rw [still.unchanged, hnone]
  | wrote v given lets blank ok confined amends cells =>
    have hne : j ≠ k := by
      rintro rfl
      exact hother lets.toWritable.headFits rfl
    rw [stored_wrote lets cells, if_neg hne]
    split
    · rfl
    · exact hnone

theorem Merging.lacks (m : Merging cfg k value s u r) {j : NsKey} (hne : j ≠ k) (hnone : ¬ Held cfg s.flash.cells j) :
    ¬ Held cfg u.flash.cells j := by
  rintro ⟨hsome, hfits⟩
  exact hsome (m.absent (fun _ => hne) (by_contra fun h => hnone ⟨h, hfits⟩))

theorem Merging.present (m : Merging cfg k value s u r) {j : NsKey} (hsome : stored cfg s.flash.cells j ≠ none) :
    stored cfg u.flash.cells j = stored cfg s.flash.cells j ∨
      ¬ HeadFits cfg j ∧ j ≠ k ∧ recordId cfg j.1 j.2 = recordId cfg k.1 k.2 ∧
        ∃ v, value = some v ∧ LetThrough cfg s k.1 k.2 v := by
  cases m with
  | kept still ctx told held tried => exact .inl (by rw [still.unchanged])
  | wrote v given lets blank ok confined amends cells =>
    by_cases hid : recordId cfg j.1 j.2 = recordId cfg k.1 k.2
    · have hhead : ¬ HeadFits cfg j := by
        intro hfits
        obtain ⟨record, hcell, hlegible⟩ := Held.legible ⟨hsome, hfits⟩
        exact blank record (hid ▸ hcell) hlegible
      have hne : j ≠ k := by
        rintro rfl
        exact hhead lets.toWritable.headFits
      exact .inr ⟨hhead, hne, hid, v, given, lets⟩
    · have hne : j ≠ k := by
        rintro rfl
        exact hid rfl
      rw [stored_wrote lets cells, if_neg hne, if_neg hid]
      exact .inl rfl

theorem Merging.succeeds (m : Merging cfg k value s u r) (hok : r = .ok ()) :
    Held cfg u.flash.cells k ∧ s.ioFree ≠ 0 ∧
      (¬ Held cfg s.flash.cells k → stored cfg u.flash.cells k = value) := by
  cases m with
  | kept still ctx told held tried =>
    obtain ⟨hheld, hio⟩ := held hok
    rw [still.unchanged]
    exact ⟨hheld, hio, fun hnone => absurd hheld hnone⟩
  | wrote v given lets blank ok confined amends cells =>
    have hstored := stored_wrote lets cells k
    rw [if_pos rfl] at hstored
    refine ⟨⟨by rw [hstored]; simp, lets.toWritable.headFits⟩, lets.block, fun _ => ?_⟩
    rw [hstored, given]

theorem Merging.slot_taken (m : Merging cfg k value s u r) {v : Bytes} (hvalue : value = some v)
    (hlet : LetThrough cfg s k.1 k.2 v) :
    ∃ record, u.flash.cells (recordId cfg k.1 k.2) = some record ∧ Legible cfg record := by
  cases m with
  | kept still ctx told held tried =>
    rw [still.unchanged]
    exact tried v hvalue hlet
  | wrote v' given lets blank ok confined amends cells =>
    rw [cells _ (recordId_ne_index cfg k.1 k.2), Function.update_self]
    exact ⟨_, rfl, lets.toWritable.legible⟩

theorem Merging.idle (m : Merging cfg k value s u r) (hheld : Held cfg s.flash.cells k) : Confined NoSlot s u := by
  cases m with
  | kept still ctx told held tried => exact still
  | wrote v given lets blank ok confined amends cells =>
    obtain ⟨record, hcell, hlegible⟩ := hheld.legible
    exact absurd hlegible (blank record hcell)

end Merging

theorem names_unique {filter : Option CString} {d : Default} {k k' : NsKey} (h : Names filter d k) (h' : Names filter d k') :
    k = k' :=
  Prod.ext (Option.some.inj (h.1.symm.trans h'.1)) (Option.some.inj (h.2.1.symm.trans h'.2.1))

theorem applyEntry_cases (cfg : KvCfg) (filter : Option CString) (d : Default) :
    (∃ k, Names filter d k ∧ applyEntry cfg filter d = applyDefault cfg k.1 k.2 d.value) ∨
      ((∀ k, ¬ Names filter d k) ∧ applyEntry cfg filter d = pure () ∧ d.namespaceName ≠ none ∧ d.key ≠ none) ∨
      ((∀ k, ¬ Names filter d k) ∧ applyEntry cfg filter d = throw .ERR_INVAL) := by
  unfold applyEntry Names
  cases d.namespaceName with
  | none => exact .inr (.inr ⟨fun k hk => (by cases hk.1), rfl⟩)
  | some ns =>
    cases d.key with
    | none => exact .inr (.inr ⟨fun k hk => (by cases hk.2.1), rfl⟩)
    | some key =>
      dsimp only
      by_cases hfilter : filter.all (ns == ·) = true
      · exact .inl ⟨(ns, key), ⟨rfl, rfl, hfilter⟩, if_pos hfilter⟩
      · refine .inr (.inl ⟨fun k hk => hfilter ?_, if_neg hfilter, by simp, by simp⟩)
        rw [Option.some.inj hk.1]
        exact hk.2.2

theorem applyDefaults_cons (filter : Option CString) (d : Default) (ds : List Default) (first : Status) (s : KvSt) :
    (applyDefaults cfg filter (d :: ds) first).run s =
      (applyDefaults cfg filter ds (firstError first (outcome (applyEntry cfg filter d) s))).run
        (post (applyEntry cfg filter d) s) := by
  have hskip : ∀ first : Status, firstError first (.ok ()) = first := by
    intro first
    cases first <;> rfl
  unfold applyEntry
  rw [applyDefaults]
  cases d.namespaceName with
  | none => rfl
  | some ns =>
    cases d.key with
    | none => rfl
    | some key =>
      dsimp only
      by_cases hfilter : filter.all (ns == ·) = true
      · rw [if_pos hfilter, if_pos hfilter]
        exact run_then (run_attempt _ s) rfl
      · rw [if_neg hfilter, if_neg hfilter]
        show _ = (applyDefaults cfg filter ds (firstError first (.ok ()))).run s
        rw [hskip]

section Pass
variable {filter : Option CString}

/-- Some entry that could be written has its slot taken by the record of this key, whose header is too long for
a block. -/
def Exposes (cfg : KvCfg) (filter : Option CString) (ds : List Default) (s : KvSt) (j : NsKey) : Prop :=
  stored cfg s.flash.cells j ≠ none ∧ ¬ HeadFits cfg j ∧
    ∃ d ∈ ds, ∃ k v, Names filter d k ∧ d.value = some v ∧ LetThrough cfg s k.1 k.2 v ∧ recordId cfg j.1 j.2 = recordId cfg k.1 k.2

theorem applyEntry_merging (cfg : KvCfg) (filter : Option CString) (d : Default) {s : KvSt} (hs : s.flash.Answers) :
    (∃ k, Names filter d k ∧
        Merging cfg k d.value s (post (applyEntry cfg filter d) s) (outcome (applyEntry cfg filter d) s)) ∨
      ((∀ k, ¬ Names filter d k) ∧ post (applyEntry cfg filter d) s = s ∧
        outcome (applyEntry cfg filter d) s ≠ .error .OK ∧
        (outcome (applyEntry cfg filter d) s = .ok () → d.namespaceName ≠ none ∧ d.key ≠ none)) := by
  rcases applyEntry_cases cfg filter d with ⟨k, hk, heq⟩ | ⟨hnone, heq, hwell⟩ | ⟨hnone, heq⟩
  · rw [heq]
    exact .inl ⟨k, hk, applyDefault_merging hs k.1 k.2 d.value⟩
  · rw [heq]
    exact .inr ⟨hnone, rfl, (fun h => by cases h), fun _ => hwell⟩
  · rw [heq]
    exact .inr ⟨hnone, rfl, (fun h => by cases h), fun h => by cases h⟩

theorem applyEntry_told (cfg : KvCfg) (filter : Option CString) (d : Default) {s : KvSt} (hs : s.flash.Answers) :
    outcome (applyEntry cfg filter d) s ≠ .error .OK := by
  rcases applyEntry_merging cfg filter d hs with ⟨k, -, m⟩ | ⟨-, -, htold, -⟩
  · exact m.told
  · exact htold

theorem applyEntry_confined (cfg : KvCfg) (filter : Option CString) (d : Default) {s : KvSt} (hs : s.flash.Answers) :
    Confined AnySlot s (post (applyEntry cfg filter d) s) := by
  rcases applyEntry_merging cfg filter d hs with ⟨k, -, m⟩ | ⟨-, hpost, -, -⟩
  · exact m.confined
  · rw [hpost]
    exact (confined_chains AnySlot).refl s

theorem post_applyDefaults_cons (d : Default) (ds : List Default) (first : Status) (s : KvSt) :
    post (applyDefaults cfg filter (d :: ds) first) s =
      post (applyDefaults cfg filter ds (firstError first (outcome (applyEntry cfg filter d) s)))
        (post (applyEntry cfg filter d) s) := by
  unfold post
  rw [applyDefaults_cons]
  rfl

theorem outcome_applyDefaults_cons (d : Default) (ds : List Default) (first : Status) (s : KvSt) :
    outcome (applyDefaults cfg filter (d :: ds) first) s =
      outcome (applyDefaults cfg filter ds (firstError first (outcome (applyEntry cfg filter d) s)))
        (post (applyEntry cfg filter d) s) := by
  unfold outcome
  rw [applyDefaults_cons]
  rfl

theorem pass_keeps {R : KvSt → KvSt → Prop} (hR : Chains R) (ds : List Default)
    (hstep : ∀ d ∈ ds, ∀ s : KvSt, s.flash.Answers → Keeps R (applyEntry cfg filter d) s) (first : Status) (s : KvSt)
    (hs : s.flash.Answers) : Keeps R (applyDefaults cfg filter ds first) s := by
  induction ds generalizing first s with
  | nil => exact hR.refl s
  | cons d ds ih =>
    unfold Keeps
    rw [post_applyDefaults_cons]
    have hu := (applyEntry_confined cfg filter d hs).flash.answers hs
    exact hR.trans (hstep d List.mem_cons_self s hs) (ih (fun d' hd' => hstep d' (List.mem_cons_of_mem d hd')) _ _ hu)

theorem pass_confined (ds : List Default) (first : Status) {s : KvSt} (hs : s.flash.Answers) :
    Confined AnySlot s (post (applyDefaults cfg filter ds first) s) :=
  pass_keeps (confined_chains AnySlot) ds (fun d _ _ ht => applyEntry_confined cfg filter d ht) first s hs

theorem pass_legible_stays (ds : List Default) (first : Status) {s : KvSt} (hs : s.flash.Answers) {id : UInt32}
    (hid : id ≠ indexRecId cfg) {record : Bytes} (hcell : s.flash.cells id = some record) (hlegible : Legible cfg record) :
    (post (applyDefaults cfg filter ds first) s).flash.cells id = some record := by
  have hchain : Chains fun s t : KvSt => s.flash.cells id = some record → t.flash.cells id = some record :=
    ⟨fun _ h => h, fun h k hcell => k (h hcell)⟩
  refine pass_keeps hchain ds (fun d _ t ht hcell => ?_) first s hs hcell
  rcases applyEntry_merging cfg filter d ht with ⟨k, -, m⟩ | ⟨-, hpost, -, -⟩
  · exact m.legible_stays hid hcell hlegible
  · rw [hpost, hcell]

theorem pass_held (ds : List Default) (first : Status) {s : KvSt} (hs : s.flash.Answers) {k : NsKey}
    (hheld : Held cfg s.flash.cells k) :
    stored cfg (post (applyDefaults cfg filter ds first) s).flash.cells k = stored cfg s.flash.cells k := by
  obtain ⟨record, hcell, hlegible⟩ := hheld.legible
  have hstays := @pass_legible_stays cfg filter ds first s hs _ (recordId_ne_index cfg k.1 k.2) record hcell hlegible
  exact stored_congr (hstays.trans hcell.symm)

theorem pass_absent (ds : List Default) (first : Status) {s : KvSt} (hs : s.flash.Answers) {j : NsKey}
    (hother : ∀ d ∈ ds, ∀ k, Names filter d k → HeadFits cfg j → j ≠ k) (hnone : stored cfg s.flash.cells j = none) :
    stored cfg (post (applyDefaults cfg filter ds first) s).flash.cells j = none := by
  have hchain : Chains fun s t : KvSt => stored cfg s.flash.cells j = none → stored cfg t.flash.cells j = none :=
    ⟨fun _ h => h, fun h k hnone => k (h hnone)⟩
  refine pass_keeps hchain ds (fun d hd t ht hnone => ?_) first s hs hnone
  rcases applyEntry_merging cfg filter d ht with ⟨k, hk, m⟩ | ⟨-, hpost, -, -⟩
  · exact m.absent (hother d hd k hk) hnone
  · rw [hpost, hnone]

theorem pass_present (ds : List Default) (first : Status) {s : KvSt} (hs : s.flash.Answers)
    {j : NsKey} (hsafe : ¬ Exposes cfg filter ds s j) (hsome : stored cfg s.flash.cells j ≠ none) :
    stored cfg (post (applyDefaults cfg filter ds first) s).flash.cells j = stored cfg s.flash.cells j := by
  by_cases hhead : HeadFits cfg j
  · exact pass_held ds first hs ⟨hsome, hhead⟩
  induction ds generalizing first s with
  | nil => rfl
  | cons d ds ih =>
    rw [post_applyDefaults_cons]
    have hconf := applyEntry_confined cfg filter d hs
    have hhere : stored cfg (post (applyEntry cfg filter d) s).flash.cells j = stored cfg s.flash.cells j := by
      rcases applyEntry_merging cfg filter d hs with ⟨k, hk, m⟩ | ⟨-, hpost, -, -⟩
      · rcases m.present hsome with heq | ⟨-, -, hid, v, hv, hlet⟩
        · exact heq
        · exact absurd ⟨hsome, hhead, d, List.mem_cons_self, k, v, hk, hv, hlet, hid⟩ hsafe
      · rw [hpost]
    refine (ih _ (hconf.flash.answers hs) ?_ (hhere ▸ hsome)).trans hhere
    rintro ⟨-, hlong, d', hd', k, v, hk, hv, hlet, hid⟩
    exact hsafe ⟨hsome, hlong, d', List.mem_cons_of_mem d hd', k, v, hk, hv, hlet.along hconf.ioFree, hid⟩

theorem pass_exposes (ds : List Default) (first : Status) {s : KvSt} (hs : s.flash.Answers) {j : NsKey}
    (h : Exposes cfg filter ds s j) :
    stored cfg (post (applyDefaults cfg filter ds first) s).flash.cells j = none := by
  induction ds generalizing first s with
  | nil => exact absurd h.2.2.choose_spec.1 List.not_mem_nil
  | cons d ds ih =>
    obtain ⟨hsome, hlong, d', hd', k, v, hk, hv, hlet, hid⟩ := h
    have hconf := applyEntry_confined cfg filter d hs
    rw [post_applyDefaults_cons]
    by_cases hgone : stored cfg (post (applyEntry cfg filter d) s).flash.cells j = none
    · exact pass_absent ds _ (hconf.flash.answers hs) (fun _ _ _ _ hfits => absurd hfits hlong) hgone
    · refine ih _ (hconf.flash.answers hs) ⟨hgone, hlong, d', ?_, k, v, hk, hv, hlet.along hconf.ioFree.symm, hid⟩
      rcases List.mem_cons.mp hd' with rfl | hmem
      · -- this entry leaves a legible record in the slot
        exfalso
        rcases applyEntry_merging cfg filter d' hs with ⟨k', hk', m⟩ | ⟨hnone, -, -, -⟩
        · obtain rfl := names_unique hk hk'
          obtain ⟨record, hcell, hlegible⟩ := m.slot_taken hv hlet
          rw [← hid] at hcell
          exact hlong (headFits_of_legible hcell hlegible hgone)
        · exact hnone k hk
      · exact hmem

theorem pass_tried (ds : List Default) (first : Status) {s : KvSt} (hs : s.flash.Answers) {d : Default} (hd : d ∈ ds)
    {k : NsKey} (hk : Names filter d k) {v : Bytes} (hv : d.value = some v) (hlet : LetThrough cfg s k.1 k.2 v) :
    ∃ record, (post (applyDefaults cfg filter ds first) s).flash.cells (recordId cfg k.1 k.2) = some record ∧
      Legible cfg record := by
  induction ds generalizing first s with
  | nil => exact absurd hd List.not_mem_nil
  | cons e ds ih =>
    have hconf := applyEntry_confined cfg filter e hs
    rw [post_applyDefaults_cons]
    rcases List.mem_cons.mp hd with rfl | hmem
    · rcases applyEntry_merging cfg filter d hs with ⟨k', hk', m⟩ | ⟨hnone, -, -, -⟩
      · obtain rfl := names_unique hk hk'
        obtain ⟨record, hcell, hlegible⟩ := m.slot_taken hv hlet
        exact ⟨record, pass_legible_stays ds _ (hconf.flash.answers hs) (recordId_ne_index cfg k.1 k.2) hcell hlegible, hlegible⟩
      · exact absurd hk (hnone k)
    · exact ih _ (hconf.flash.answers hs) hmem (hlet.along hconf.ioFree.symm)

/-- A pass that meets no failure: every entry is well formed and its key has a value that a get finds, that of
its first entry where it had none. -/
theorem pass_succeeds (ds : List Default) (first : Status) {s : KvSt} (hs : s.flash.Answers)
    (hok : outcome (applyDefaults cfg filter ds first) s = .ok .OK) :
    first = .OK ∧ ∀ d ∈ ds, d.namespaceName ≠ none ∧ d.key ≠ none ∧ ∀ k, Names filter d k →
      s.ioFree ≠ 0 ∧ Held cfg (post (applyDefaults cfg filter ds first) s).flash.cells k := by
  induction ds generalizing first s with
  | nil => exact ⟨Except.ok.inj hok, fun d hd => absurd hd List.not_mem_nil⟩
  | cons e ds ih =>
    rw [outcome_applyDefaults_cons] at hok
    have hconf := applyEntry_confined cfg filter e hs
    obtain ⟨hfirst, hrest⟩ := ih _ (hconf.flash.answers hs) hok
    obtain ⟨hfirst', hentry⟩ : first = .OK ∧ outcome (applyEntry cfg filter e) s = .ok () := by
      have htold := applyEntry_told cfg filter e hs
      cases hentry : outcome (applyEntry cfg filter e) s with
      | ok u =>
        rw [hentry] at hfirst
        cases first <;> first | exact ⟨rfl, rfl⟩ | cases hfirst
      | error status =>
        rw [hentry] at hfirst htold
        cases first <;> first | exact absurd (congrArg Except.error hfirst) htold | cases hfirst
    refine ⟨hfirst', fun d hd => ?_⟩
    rw [post_applyDefaults_cons]
    rcases List.mem_cons.mp hd with rfl | hmem
    · rcases applyEntry_merging cfg filter d hs with ⟨k', hk', m⟩ | ⟨hnone, -, -, hwell⟩
      · refine ⟨by rw [hk'.1]; simp, by rw [hk'.2.1]; simp, fun k hk => ?_⟩
        obtain rfl := names_unique hk hk'
        obtain ⟨hheld, hio, -⟩ := m.succeeds hentry
        have hkept := @pass_held cfg filter ds (firstError first (outcome (applyEntry cfg filter d) s)) _ (hconf.flash.answers hs) k hheld
        exact ⟨hio, by rw [hkept]; exact hheld.1, hheld.2⟩
      · exact ⟨(hwell hentry).1, (hwell hentry).2, fun k hk => absurd hk (hnone k)⟩
    · obtain ⟨hns, hkey, hall⟩ := hrest d hmem
      exact ⟨hns, hkey, fun k hk => ⟨hconf.ioFree ▸ (hall k hk).1, (hall k hk).2⟩⟩

theorem pass_first (ds : List Default) (first : Status) {s : KvSt} (hs : s.flash.Answers)
    (hok : outcome (applyDefaults cfg filter ds first) s = .ok .OK) {k : NsKey}
    (hnone : ¬ Held cfg s.flash.cells k) {before after : List Default} {d : Default} (hsplit : ds = before ++ d :: after)
    (hbefore : ∀ d ∈ before, ¬ Names filter d k) (hk : Names filter d k) :
    stored cfg (post (applyDefaults cfg filter ds first) s).flash.cells k = d.value := by
  induction ds generalizing first s before with
  | nil => exact absurd hsplit (by simp)
  | cons e ds ih =>
    have hconf := applyEntry_confined cfg filter e hs
    rw [post_applyDefaults_cons]
    cases before with
    | nil =>
      obtain ⟨rfl, -⟩ := List.cons.inj hsplit
      have hentry : outcome (applyEntry cfg filter e) s = .ok () := by
        rw [outcome_applyDefaults_cons] at hok
        have hfirst := (pass_succeeds ds _ (hconf.flash.answers hs) hok).1
        have htold := applyEntry_told cfg filter e hs
        cases hentry : outcome (applyEntry cfg filter e) s with
        | ok u => rfl
        | error status =>
          rw [hentry] at hfirst htold
          cases first <;> first | exact absurd (congrArg Except.error hfirst) htold | cases hfirst
      rcases applyEntry_merging cfg filter e hs with ⟨k', hk', m⟩ | ⟨hnot, -, -, -⟩
      · obtain rfl := names_unique hk hk'
        obtain ⟨hheld, -, hvalue⟩ := m.succeeds hentry
        rw [pass_held ds _ (hconf.flash.answers hs) hheld, hvalue hnone]
      · exact absurd hk (hnot k)
    | cons b before =>
      obtain ⟨rfl, hrest⟩ := List.cons.inj hsplit
      rw [outcome_applyDefaults_cons] at hok
      refine ih _ (hconf.flash.answers hs) hok ?_ hrest fun d hd => hbefore d (List.mem_cons_of_mem e hd)
      rcases applyEntry_merging cfg filter e hs with ⟨k', hk', m⟩ | ⟨-, hpost, -, -⟩
      · refine m.lacks (fun heq => hbefore e List.mem_cons_self ?_) hnone
        rw [heq]
        exact hk'
      · rw [hpost]
        exact hnone

theorem pass_idle (ds : List Default) (first : Status) {s : KvSt} (hs : s.flash.Answers)
    (hheld : ∀ d ∈ ds, ∀ k, Names filter d k → Held cfg s.flash.cells k) :
    Confined NoSlot s (post (applyDefaults cfg filter ds first) s) := by
  induction ds generalizing first s with
  | nil => exact (confined_chains NoSlot).refl s
  | cons d ds ih =>
    rw [post_applyDefaults_cons]
    have hhere : Confined NoSlot s (post (applyEntry cfg filter d) s) := by
      rcases applyEntry_merging cfg filter d hs with ⟨k, hk, m⟩ | ⟨-, hpost, -, -⟩
      · exact m.idle (hheld d List.mem_cons_self k hk)
      · rw [hpost]
        exact (confined_chains NoSlot).refl s
    refine (confined_chains NoSlot).trans hhere (ih _ (hhere.flash.answers hs) fun d' hd' k hk => ?_)
    rw [hhere.unchanged]
    exact hheld d' (List.mem_cons_of_mem d hd') k hk

end Pass

/-- `zdb_kv_defaults_apply`. -/
def kvDefaultsApply (cfg : KvCfg) : KvM Status Unit := kvDefaultsApplyNs cfg none

/-- What is promised of a pass over the table in this state. -/
structure Merged (cfg : KvCfg) (s : KvSt) : Prop where
  kept : ∀ k, stored cfg s.flash.cells k ≠ none →
    stored cfg (post (kvDefaultsApply cfg) s).flash.cells k = stored cfg s.flash.cells k
  untouched : ∀ k, (∀ d ∈ cfg.defaults, ¬ Names none d k) →
    stored cfg (post (kvDefaultsApply cfg) s).flash.cells k = stored cfg s.flash.cells k
  /-- It does not stop early: each entry that could be written finds its slot in use or uses it. -/
  tried : ∀ d ∈ cfg.defaults, ∀ k v, Names none d k → d.value = some v → LetThrough cfg s k.1 k.2 v →
    ∃ record, (post (kvDefaultsApply cfg) s).flash.cells (recordId cfg k.1 k.2) = some record ∧ Legible cfg record
  present : outcome (kvDefaultsApply cfg) s = .ok () → ∀ d ∈ cfg.defaults, ∃ k, Names none d k ∧
    stored cfg (post (kvDefaultsApply cfg) s).flash.cells k ≠ none
  first : outcome (kvDefaultsApply cfg) s = .ok () → ∀ k before d after, stored cfg s.flash.cells k = none →
    cfg.defaults = before ++ d :: after → (∀ d ∈ before, ¬ Names none d k) → Names none d k →
    stored cfg (post (kvDefaultsApply cfg) s).flash.cells k = d.value
  settled : outcome (kvDefaultsApply cfg) s = .ok () → ∀ id,
    (post (kvDefaultsApply cfg) (post (kvDefaultsApply cfg) s)).flash.made (.write id) =
      (post (kvDefaultsApply cfg) s).flash.made (.write id)

theorem outcome_kvDefaultsApplyNs {filter : Option CString} {s : KvSt}
    (h : outcome (kvDefaultsApplyNs cfg filter) s = .ok ()) :
    outcome (applyDefaults cfg filter cfg.defaults .OK) s = .ok .OK := by
  unfold kvDefaultsApplyNs at h
  obtain ⟨first, t, hrun, hrest⟩ := of_run_bind (run_of_outcome h)
  split at hrest
  · rename_i hfirst
    rw [outcome_of_run hrun, hfirst]
  · cases hrest

/-- A pass over the table merges it into any store, unless an entry that could be written meets, in its slot, the
record of another key whose header is longer than a block: that record it overwrites. -/
theorem defaults_merged_iff {s : KvSt} (hs : s.flash.Answers) :
    Merged cfg s ↔ ∀ j, ¬ Exposes cfg none cfg.defaults s j := by
  have hpost : ∀ t, post (kvDefaultsApply cfg) t = post (applyDefaults cfg none cfg.defaults .OK) t :=
    fun t => post_kvDefaultsApplyNs cfg none t
  constructor
  · intro h j hj
    have hkept := h.kept j hj.1
    rw [hpost, pass_exposes cfg.defaults .OK hs hj] at hkept
    exact hj.1 hkept.symm
  · intro hsafe
    have hkept : ∀ k, stored cfg s.flash.cells k ≠ none →
        stored cfg (post (kvDefaultsApply cfg) s).flash.cells k = stored cfg s.flash.cells k := fun k hk => by
      rw [hpost]
      exact pass_present cfg.defaults .OK hs (hsafe k) hk
    refine ⟨hkept, fun k hk => ?_, fun d hd k v hk hv hlet => ?_, fun hok d hd => ?_,
      fun hok k before d after hnone hsplit hbefore hk => ?_, fun hok id => ?_⟩
    · by_cases hnone : stored cfg s.flash.cells k = none
      · rw [hpost, hnone]
        refine pass_absent cfg.defaults .OK hs (fun d hd k' hk' _ heq => hk d hd ?_) hnone
        rw [heq]
        exact hk'
      · exact hkept k hnone
    · rw [hpost]
      exact pass_tried cfg.defaults .OK hs hd hk hv hlet
    · obtain ⟨hns, hkey, hall⟩ := (pass_succeeds cfg.defaults .OK hs (outcome_kvDefaultsApplyNs hok)).2 d hd
      obtain ⟨ns, hns⟩ := Option.ne_none_iff_exists'.mp hns
      obtain ⟨key, hkey⟩ := Option.ne_none_iff_exists'.mp hkey
      have hnames : Names none d (ns, key) := ⟨hns, hkey, rfl⟩
      refine ⟨(ns, key), hnames, ?_⟩
      rw [hpost]
      exact (hall _ hnames).2.1
    · rw [hpost]
      exact pass_first cfg.defaults .OK hs (outcome_kvDefaultsApplyNs hok) (fun h => h.1 hnone) hsplit hbefore hk
    · have hall := (pass_succeeds cfg.defaults .OK hs (outcome_kvDefaultsApplyNs hok)).2
      rw [← hpost] at hall
      have hconf := @pass_confined cfg none cfg.defaults .OK s hs
      rw [← hpost] at hconf
      have hidle := @pass_idle cfg none cfg.defaults .OK _ (hconf.flash.answers hs)
        fun d hd k hk => ((hall d hd).2.2 k hk).2
      rw [← hpost] at hidle
      exact hidle.flash.made id not_false

/-- Defaults for a key that has a value, for one whose slot another key holds, for a new key twice, and an entry
without a key. -/
def seedTable : List Default :=
  [⟨some nsN, some keyAb, some [1]⟩, ⟨some nsN, some keyFdb, some [2]⟩, ⟨some nsN, some keyA, some [3]⟩,
    ⟨some nsN, some keyA, some [4]⟩, ⟨some nsN, none, some [5]⟩]

def seededSets : List KvOp := [.set nsN keyAb (some [7]), .set nsN keyCyx (some [8]), .set nsN keyK (some [9])]

def seeded : KvSt := (kvRun (.nvs false 64 seedTable) (.boot (.blank fun _ _ => none) 2 true) seededSets).1

theorem seeds_merged : Merged (.nvs false 64 seedTable) seeded := by
  have hboot : Working (.nvs false 64 seedTable) (.boot (.blank fun _ _ => none) 2 true) :=
    .boot (fun _ _ => rfl) rfl (by decide) true
  refine (defaults_merged_iff (hboot.run seededSets).sound.answers).mpr fun j h => h.2.1 ?_
  have hmem : j ∈ [(nsN, keyAb), (nsN, keyCyx), (nsN, keyK)] :=
    @stored_of_named _ _ hboot (fun _ => rfl) _ seededSets (by decide) j h.1
  have hfits : ∀ k ∈ [(nsN, keyAb), (nsN, keyCyx), (nsN, keyK)], REC_HDR_SIZE + k.1.val.length + k.2.val.length ≤ 64 := by
    decide
  exact hfits j hmem

/-- "serial_numkre", which has the id of "ab" on NVS. -/
def longKey : CString := ⟨[115, 101, 114, 105, 97, 108, 95, 110, 117, 109, 107, 114, 101], by decide⟩

/-- A default for "ab", with blocks of 16 bytes. -/
def shortBlocks : KvCfg := .nvs false 16 [⟨some nsN, some keyAb, some [1]⟩]

/-- The slot of "ab" holds the record of the long key, written with larger blocks. -/
def longStored : KvSt :=
  .boot { IdStore.blank fun _ _ => none with cells := fun id => if id = 50636 then some (recordBuild nsN longKey [7]) else none }
    2 true

/-- The pass reports success, and the value of the long key is gone. -/
theorem long_record_overwritten :
    stored shortBlocks longStored.flash.cells (nsN, longKey) = some [7] ∧
      outcome (kvDefaultsApply shortBlocks) longStored = .ok () ∧
      stored shortBlocks (post (kvDefaultsApply shortBlocks) longStored).flash.cells (nsN, longKey) = none := by
  refine ⟨?_, ?_, ?_⟩
  · decide +kernel
  · decide +kernel
  · decide +kernel

end ZephyrDB.Kv
