import ZephyrDB.Kv.Spec

/-!
The index of the keys and its record: the ids the record lists are read back,
and a load rebuilds the entries whose records are there.
-/

set_option autoImplicit false

namespace ZephyrDB.Kv

open Lib

variable {cfg : KvCfg}

theorem indexBytes_length (entries : List IndexEntry) :
    (indexBytes entries).length = INDEX_HDR_SIZE + 4 * entries.length := by
  have hids : (entries.flatMap fun e => leBytes 4 e.id.toNat).length = 4 * entries.length := by
    rw [List.length_flatMap]
    simp
    omega
  simp [indexBytes, hids, INDEX_HDR_SIZE]
  omega

theorem indexBytes_count (entries : List IndexEntry) :
    slice (indexBytes entries) 2 2 = leBytes 2 entries.length := by
  have h := slice_field [INDEX_TAG, INDEX_VERSION] (leBytes 2 entries.length)
    (entries.flatMap fun e => leBytes 4 e.id.toNat)
  simpa [indexBytes] using h

theorem indexBytes_id (entries : List IndexEntry) {i : Nat} (hi : i < entries.length) :
    slice (indexBytes entries) (INDEX_HDR_SIZE + i * 4) 4 = leBytes 4 (entries[i]).id.toNat := by
  have hhead : indexBytes entries = ([INDEX_TAG, INDEX_VERSION] ++ leBytes 2 entries.length) ++
      entries.flatMap fun e => leBytes 4 e.id.toNat := by
    simp [indexBytes]
  have hlen : ([INDEX_TAG, INDEX_VERSION] ++ leBytes 2 entries.length).length = INDEX_HDR_SIZE := by
    simp [INDEX_HDR_SIZE]
  rw [hhead, slice_append_right _ _ _ _ (by rw [hlen]; omega), hlen, Nat.add_sub_cancel_left]
  exact @slice_flatMap _ (fun e : IndexEntry => leBytes 4 e.id.toNat) 4 entries (by simp) i hi

theorem indexIds_indexBytes {entries : List IndexEntry} (h : entries.length ≤ cfg.indexMax) :
    indexIds cfg (indexBytes entries).length ((indexBytes entries).take (indexMaxBytes cfg)) =
      some (entries.map (·.id)) := by
  have hlen := indexBytes_length entries
  have hmax := cfg.indexMax_le
  have hall : (indexBytes entries).take (indexMaxBytes cfg) = indexBytes entries := by
    rw [List.take_of_length_le]
    rw [hlen, indexMaxBytes]
    omega
  have hcount : min (leNat (slice (indexBytes entries) 2 2)) cfg.indexMax = entries.length := by
    rw [indexBytes_count, leNat_leBytes_of_lt (by omega)]
    omega
  have htag : ¬ ((indexBytes entries).getD 0 0 ≠ INDEX_TAG ∨ (indexBytes entries).getD 1 0 ≠ INDEX_VERSION) := by
    simp [indexBytes]
  rw [hall]
  simp only [indexIds, hcount, hlen, if_neg htag, Nat.lt_irrefl, if_false, Nat.not_lt.mpr (Nat.le_add_right _ _)]
  congr 1
  apply List.ext_getElem (by simp)
  intro i h₁ h₂
  have hi : i < entries.length := by simpa using h₂
  simp only [List.getElem_map, List.getElem_range]
  rw [indexBytes_id entries hi, leNat_leBytes_of_lt (UInt32.toNat_lt _)]
  exact UInt32.ofNat_toNat

/-- The ids the stored index lists, where the build keeps one. -/
def persistedIds (cfg : KvCfg) (cells : Cells) : List UInt32 :=
  if cfg.persistIndex then
    match cells (indexRecId cfg) with
    | none => []
    | some raw => (indexIds cfg raw.length (raw.take (indexMaxBytes cfg))).getD []
  else []

theorem persistedIds_store (hp : cfg.persistIndex = true) {entries : List IndexEntry}
    (h : entries.length ≤ cfg.indexMax) (cells : Cells) :
    persistedIds cfg (Function.update cells (indexRecId cfg) (some (indexBytes entries))) = entries.map (·.id) := by
  unfold persistedIds
  rw [if_pos hp, Function.update_self]
  simp only [indexIds_indexBytes h, Option.getD_some]

theorem persistedIds_congr {cells cells' : Cells} (h : cells' (indexRecId cfg) = cells (indexRecId cfg)) :
    persistedIds cfg cells' = persistedIds cfg cells := by
  unfold persistedIds
  rw [h]

theorem persistedIds_length (cfg : KvCfg) (cells : Cells) : (persistedIds cfg cells).length ≤ cfg.indexMax := by
  unfold persistedIds
  split
  · split
    · exact Nat.zero_le _
    · unfold indexIds
      split
      · exact Nat.zero_le _
      · split
        · exact Nat.zero_le _
        · dsimp only
          split
          · exact Nat.zero_le _
          · simp
  · exact Nat.zero_le _

def entryAt (cfg : KvCfg) (cells : Cells) (id : UInt32) : Option IndexEntry :=
  (cells id).bind fun record => entryOf cfg id record.length (record.take cfg.blockSize)

theorem entryAt_id {cells : Cells} {id : UInt32} {e : IndexEntry} (h : entryAt cfg cells id = some e) : e.id = id := by
  obtain ⟨record, -, he⟩ := Option.bind_eq_some_iff.mp h
  unfold entryOf at he
  split at he
  · cases he
  · split at he
    · cases he
    · obtain rfl := Option.some.inj he
      rfl

theorem map_filterMap_entryAt {cells : Cells} {ids : List UInt32}
    (h : (ids.any fun id => (entryAt cfg cells id).isNone) = false) :
    (ids.filterMap (entryAt cfg cells)).map (·.id) = ids := by
  induction ids with
  | nil => rfl
  | cons id ids ih =>
    simp only [List.any_cons, Bool.or_eq_false_iff] at h
    cases he : entryAt cfg cells id with
    | none =>
      rw [he] at h
      exact absurd h.1 (by simp)
    | some e => rw [List.filterMap_cons_some he, List.map_cons, ih h.2, entryAt_id he]

theorem entryOf_recordBuild {ns key : CString} {value : Bytes} (hns : keyValid cfg ns = true)
    (hkey : keyValid cfg key = true) (id : UInt32) :
    entryOf cfg id (recordBuild ns key value).length (recordBuild ns key value) = some ⟨ns, key, id⟩ := by
  have hns' := keyValid_iff.mp hns
  have hkey' := keyValid_iff.mp hkey
  have hlen := recordBuild_length ns key value
  have hnspos : ns.val.length ≠ 0 := by simpa using hns'.1
  have hkeypos : key.val.length ≠ 0 := by simpa using hkey'.1
  have htag : (recordBuild ns key value).getD 0 0 = REC_TAG := rfl
  have hsize : ¬ (recordBuild ns key value).length < REC_HDR_SIZE := by omega
  have hok : ¬ ((recordBuild ns key value).getD 0 0 ≠ REC_TAG ∨ nsLen (recordBuild ns key value) = 0 ∨
      keyLen (recordBuild ns key value) = 0 ∨ cfg.maxKeyLen < nsLen (recordBuild ns key value) ∨
      cfg.maxKeyLen < keyLen (recordBuild ns key value) ∨
      (recordBuild ns key value).length < headLen (recordBuild ns key value)) := by
    rw [htag, headLen_recordBuild value (keyValid_lt hns) (keyValid_lt hkey), nsLen_recordBuild value (keyValid_lt hns),
      keyLen_recordBuild value (keyValid_lt hkey)]
    simp only [ne_eq, not_true, false_or]
    omega
  rw [entryOf, if_neg hsize, if_neg hok, nsSlice_recordBuild value (keyValid_lt hns),
    keySlice_recordBuild value (keyValid_lt hns) (keyValid_lt hkey), CString.ofBytes_val, CString.ofBytes_val]

theorem Orderly.entryAt {cells : Cells} (ho : Orderly cfg cells) {k : NsKey} {value : Bytes}
    (h : stored cfg cells k = some value) :
    entryAt cfg cells (recordId cfg k.1 k.2) = some ⟨k.1, k.2, recordId cfg k.1 k.2⟩ := by
  obtain ⟨hcell, hns, hkey, hlen⟩ := ho.record h
  unfold Kv.entryAt
  rw [hcell, Option.bind_some, List.take_of_length_le hlen]
  exact entryOf_recordBuild hns hkey _

theorem Orderly.of_entryAt {cells : Cells} (ho : Orderly cfg cells) {id : UInt32} {e : IndexEntry}
    (hid : id ≠ indexRecId cfg) (h : Kv.entryAt cfg cells id = some e) :
    e.id = id ∧ recordId cfg e.namespaceName e.key = id ∧ stored cfg cells (e.namespaceName, e.key) ≠ none := by
  unfold Kv.entryAt at h
  cases hcell : cells id with
  | none =>
    rw [hcell] at h
    cases h
  | some record =>
    obtain ⟨k, value, hns, hkey, hrid, hrec, hlen, hk⟩ := ho.owner hid hcell
    rw [hcell, Option.bind_some, List.take_of_length_le hlen, hrec, entryOf_recordBuild hns hkey] at h
    obtain rfl := Option.some.inj h
    exact ⟨rfl, hrid, by rw [hk]; simp⟩

def loaded (cfg : KvCfg) (cells : Cells) : List IndexEntry :=
  (persistedIds cfg cells).filterMap (entryAt cfg cells)

/-- The context and the cells a run ends with, with only contents that satisfy `P` on the way. -/
structure Arrives (P : Cells → Prop) (s : KvSt) (ctx : Option (List IndexEntry)) (cells : Cells) (t : KvSt) : Prop where
  flash : IdStore.Leads P s.flash cells t.flash
  ctx : t.ctx = ctx
  ioFree : t.ioFree = s.ioFree
  heapRoom : t.heapRoom = s.heapRoom

section Arrives
variable {P : Cells → Prop}

theorem Arrives.trans {s t u : KvSt} {c d : Option (List IndexEntry)} {a b : Cells} (h : Arrives P s c a t)
    (k : Arrives P t d b u) : Arrives P s d b u :=
  ⟨h.flash.trans k.flash, k.ctx, k.ioFree.trans h.ioFree, k.heapRoom.trans h.heapRoom⟩

theorem Arrives.sound {s t : KvSt} {c : Option (List IndexEntry)} {a : Cells} (h : Arrives P s c a t)
    (hs : s.flash.Sound) : t.flash.Sound :=
  h.flash.sound hs

theorem arrives_refl (s : KvSt) : Arrives P s s.ctx s.flash.cells s := ⟨.refl _, rfl, rfl, rfl⟩

theorem arrives_counted (s : KvSt) (op : IdOp) : Arrives P s s.ctx s.flash.cells (s.counted op) :=
  ⟨IdStore.leads_count _ _, rfl, rfl, rfl⟩

def withIndex (cfg : KvCfg) (cells : Cells) (entries : List IndexEntry) : Cells :=
  Function.update cells (indexRecId cfg) (some (indexBytes entries))

theorem indexStore_run {s : KvSt} (hs : s.flash.Sound) (hp : P s.flash.cells) {entries : List IndexEntry}
    (hctx : s.ctx = some entries) :
    ∃ t, (indexStore cfg).run s = .ok () t ∧ Arrives P s (some entries) (withIndex cfg s.flash.cells entries) t := by
  obtain ⟨n, f, hwrite, hleads, -⟩ := IdStore.write_ok hs hp (indexRecId cfg) (indexBytes entries)
  obtain ⟨ctx, ioFree, heapRoom, flash⟩ := s
  obtain rfl : ctx = some entries := hctx
  refine ⟨⟨some entries, ioFree, heapRoom, f⟩, ?_, hleads, rfl, rfl, rfl⟩
  exact run_then (a := ⟨some entries, ioFree, heapRoom, flash⟩) rfl (run_then (run_attempt_ok (run_zoom hwrite)) rfl)

theorem loadEntries_run {s : KvSt} (hs : s.flash.Sound) {acc : List IndexEntry} (hctx : s.ctx = some acc)
    (ids : List UInt32) :
    ∃ t, (loadEntries cfg ids).run s = .ok (ids.any fun id => (entryAt cfg s.flash.cells id).isNone) t ∧
      Arrives P s (some (acc ++ ids.filterMap (entryAt cfg s.flash.cells))) s.flash.cells t := by
  induction ids generalizing s acc with
  | nil => exact ⟨s, rfl, by simpa [hctx] using arrives_refl s⟩
  | cons id ids ih =>
    have hcount : Arrives P s s.ctx s.flash.cells (s.counted (.read id)) := arrives_counted s (.read id)
    cases hcell : s.flash.cells id with
    | none =>
      have hentry : entryAt cfg s.flash.cells id = none := by simp [entryAt, hcell]
      obtain ⟨t, hrun, ht⟩ := ih (hcount.sound hs) hctx
      refine ⟨t, ?_, ?_⟩
      · apply run_then (run_attempt_error (run_zoom_error (IdStore.read_absent hs hcell _)))
        simp only [List.any_cons, hentry, Option.isNone_none, Bool.true_or]
        exact run_then hrun rfl
      · rw [List.filterMap_cons_none hentry]
        exact hcount.trans ht
    | some record =>
      have hentry : entryAt cfg s.flash.cells id = entryOf cfg id record.length (record.take cfg.blockSize) := by
        simp [entryAt, hcell]
      have hread : (attempt (onFlash (IdStore.read id cfg.blockSize)) : KvM Status _).run s =
          .ok (.ok (record.length, record.take cfg.blockSize)) (s.counted (.read id)) :=
        run_attempt_ok (run_zoom (IdStore.read_present hs hcell _))
      cases he : entryOf cfg id record.length (record.take cfg.blockSize) with
      | none =>
        obtain ⟨t, hrun, ht⟩ := ih (hcount.sound hs) hctx
        refine ⟨t, ?_, ?_⟩
        · apply run_then hread
          simp only [he, List.any_cons, hentry, Option.isNone_none, Bool.true_or]
          exact run_then hrun rfl
        · rw [List.filterMap_cons_none (hentry.trans he)]
          exact hcount.trans ht
      | some e =>
        have hadd : Arrives P s (some (acc ++ [e])) s.flash.cells
            { s.counted (.read id) with ctx := some (acc ++ [e]) } := ⟨hcount.flash, rfl, rfl, rfl⟩
        obtain ⟨t, hrun, ht⟩ := ih (hadd.sound hs) hadd.ctx
        refine ⟨t, ?_, ?_⟩
        · apply run_then hread
          simp only [he, List.any_cons, hentry, Option.isNone_some, Bool.false_or]
          refine run_then (t := { s.counted (.read id) with ctx := some (acc ++ [e]) }) (a := ()) ?_ hrun
          show EStateM.Result.ok () { s.counted (.read id) with ctx := s.ctx.map (· ++ [e]) } = _
          rw [hctx]
          rfl
        · rw [List.filterMap_cons_some (hentry.trans he)]
          rw [List.append_cons]
          exact hadd.trans ht

theorem loaded_length (cfg : KvCfg) (cells : Cells) : (loaded cfg cells).length ≤ cfg.indexMax :=
  (List.length_filterMap_le _ _).trans (persistedIds_length cfg cells)

theorem loadPersisted_run {s : KvSt} (hs : s.flash.Sound) (hp : P s.flash.cells) (hctx : s.ctx = some [])
    (hio : s.ioFree ≠ 0) :
    ∃ t cells, (loadPersisted cfg).run s = .ok () t ∧ Arrives P s (some (loaded cfg s.flash.cells)) cells t ∧
      (cells = s.flash.cells ∨ cells = withIndex cfg s.flash.cells (loaded cfg s.flash.cells)) ∧
      persistedIds cfg cells = (loaded cfg s.flash.cells).map (·.id) := by
  have hnothing : persistedIds cfg s.flash.cells = [] → ∀ t : KvSt, Arrives P s (some []) s.flash.cells t →
      Arrives P s (some (loaded cfg s.flash.cells)) s.flash.cells t ∧
        persistedIds cfg s.flash.cells = (loaded cfg s.flash.cells).map (·.id) := by
    intro h t ht
    unfold loaded
    rw [h]
    exact ⟨ht, rfl⟩
  have hcount : Arrives P s (some []) s.flash.cells (s.counted (.read (indexRecId cfg))) :=
    ⟨IdStore.leads_count _ _, hctx, rfl, rfl⟩
  unfold loadPersisted
  by_cases hpersist : cfg.persistIndex = true
  · rw [if_pos hpersist]
    cases hcell : s.flash.cells (indexRecId cfg) with
    | none =>
      rw [indexLoad_eq]
      obtain ⟨ht, hids⟩ := hnothing (by simp [persistedIds, hcell]) _ hcount
      exact ⟨_, _, run_then (run_attempt_error (run_zoom_error (IdStore.read_absent hs hcell _))) rfl, ht, .inl rfl, hids⟩
    | some raw =>
      have hread : (attempt (onFlash (IdStore.read (indexRecId cfg) (indexMaxBytes cfg))) : KvM Status _).run s =
          .ok (.ok (raw.length, raw.take (indexMaxBytes cfg))) (s.counted (.read (indexRecId cfg))) :=
        run_attempt_ok (run_zoom (IdStore.read_present hs hcell _))
      cases hids : indexIds cfg raw.length (raw.take (indexMaxBytes cfg)) with
      | none =>
        rw [indexLoad_eq]
        obtain ⟨ht, hids'⟩ := hnothing (by simp [persistedIds, hcell, hids]) _ hcount
        refine ⟨_, _, run_then hread ?_, ht, .inl rfl, hids'⟩
        simp only [hids]
        rfl
      | some ids =>
        have hlisted : persistedIds cfg s.flash.cells = ids := by simp [persistedIds, hpersist, hcell, hids]
        have hloaded : loaded cfg s.flash.cells = ids.filterMap (entryAt cfg s.flash.cells) := by
          rw [loaded, hlisted]
        obtain ⟨t₁, hentries, ht₁⟩ := @loadEntries_run cfg P (s.counted (.read (indexRecId cfg))).hold
          (hcount.sound hs) [] hctx ids
        obtain ⟨pruned, hpruned, hload⟩ := loadWithBlock_run cfg ids (s.counted (.read (indexRecId cfg)))
        have hpost := post_of_run hentries
        rw [hentries, hpost] at hpruned
        rw [hpost] at hload
        have hback : Arrives P s (some (loaded cfg s.flash.cells)) s.flash.cells t₁.release := by
          refine ⟨hcount.flash.trans ht₁.flash, ?_, ?_, ht₁.heapRoom⟩
          · rw [hloaded]
            exact ht₁.ctx
          · show t₁.ioFree + 1 = s.ioFree
            rw [ht₁.ioFree]
            exact Nat.succ_pred_eq_of_ne_zero hio
        have hrun : ∀ u, (if pruned = true then indexStore cfg else pure () : KvM Status Unit).run t₁.release = .ok () u →
            (loadWithBlock cfg ids).run (s.counted (.read (indexRecId cfg))) = .ok () u := fun u hu => hload.trans hu
        have hgo : ∀ u, (loadWithBlock cfg ids).run (s.counted (.read (indexRecId cfg))) = .ok () u →
            (indexLoad cfg).run s = .ok () u := by
          intro u hu
          rw [indexLoad_eq]
          apply run_then hread
          simp only [hids]
          refine run_then (a := s.counted (.read (indexRecId cfg))) rfl ?_
          have hio' : (s.counted (.read (indexRecId cfg))).ioFree ≠ 0 := hio
          rw [if_pos hio']
          exact hu
        obtain ⟨hflag, -⟩ := EStateM.Result.ok.inj hpruned
        cases hp' : pruned with
        | false =>
          rw [hp'] at hrun hflag
          refine ⟨_, _, hgo _ (hrun _ rfl), hback, .inl rfl, ?_⟩
          have hall : (ids.any fun id => (entryAt cfg s.flash.cells id).isNone) = false := hflag
          rw [hlisted, hloaded, map_filterMap_entryAt hall]
        | true =>
          have hpt : P t₁.release.flash.cells := by
            rw [hback.flash.cells]
            exact hp
          obtain ⟨u, hstore, hu⟩ := @indexStore_run cfg P _ (hback.sound hs) hpt _ hback.ctx
          rw [hback.flash.cells] at hu
          rw [hp'] at hrun
          exact ⟨u, _, hgo _ (hrun _ hstore), hback.trans hu, .inr rfl,
            persistedIds_store hpersist (loaded_length cfg _) _⟩
  · obtain ⟨ht, hids⟩ := hnothing (by simp [persistedIds, hpersist]) s ⟨.refl _, hctx, rfl, rfl⟩
    rw [if_neg hpersist]
    exact ⟨_, _, rfl, ht, .inl rfl, hids⟩

end Arrives

end ZephyrDB.Kv
