import ZephyrDB.Kv.Index

/-!
The invariant of the persisted index: it lists the id of every key that holds a
value, and once it is loaded the entries are just the keys that do.
-/

set_option autoImplicit false

namespace ZephyrDB.Kv

open Lib

variable {cfg : KvCfg}

def IndexEntry.nsKey (e : IndexEntry) : NsKey := (e.namespaceName, e.key)

structure Charted (cfg : KvCfg) (cells : Cells) : Prop where
  orderly : Orderly cfg cells
  nodup : (persistedIds cfg cells).Nodup
  slots : ∀ id ∈ persistedIds cfg cells, id ≠ indexRecId cfg
  covers : ∀ k : NsKey, stored cfg cells k ≠ none → recordId cfg k.1 k.2 ∈ persistedIds cfg cells

/-- What of this holds even where the index does not list every key. -/
structure Filed (cfg : KvCfg) (cells : Cells) : Prop where
  orderly : Orderly cfg cells
  nodup : (persistedIds cfg cells).Nodup
  slots : ∀ id ∈ persistedIds cfg cells, id ≠ indexRecId cfg

/-- The stored index lists a key no more whose record is still there. -/
def Forgets (cfg : KvCfg) (cells cells' : Cells) : Prop :=
  ∃ k : NsKey, recordId cfg k.1 k.2 ∈ persistedIds cfg cells ∧ stored cfg cells' k ≠ none ∧
    recordId cfg k.1 k.2 ∉ persistedIds cfg cells'

theorem not_forgets_of_ids {cells cells' : Cells}
    (h : ∀ k : NsKey, stored cfg cells' k ≠ none → recordId cfg k.1 k.2 ∈ persistedIds cfg cells →
      recordId cfg k.1 k.2 ∈ persistedIds cfg cells') : ¬ Forgets cfg cells cells' := by
  rintro ⟨k, hlisted, hstored, hgone⟩
  exact hgone (h k hstored hlisted)

theorem Charted.filed {cells : Cells} (h : Charted cfg cells) : Filed cfg cells := ⟨h.orderly, h.nodup, h.slots⟩

theorem Filed.charted {cells cells' : Cells} (h : Filed cfg cells') (hnot : ¬ Forgets cfg cells cells')
    (hc : Charted cfg cells) (hstored : ∀ k, stored cfg cells' k ≠ none → stored cfg cells k ≠ none) :
    Charted cfg cells' := by
  refine ⟨h.orderly, h.nodup, h.slots, fun k hk => ?_⟩
  by_contra hgone
  exact hnot ⟨k, hc.covers k (hstored k hk), hk, hgone⟩

def Live (cfg : KvCfg) (cells : Cells) (e : IndexEntry) : Prop :=
  e.id = recordId cfg e.namespaceName e.key ∧ stored cfg cells e.nsKey ≠ none

structure Listed (cfg : KvCfg) (cells : Cells) (entries : List IndexEntry) : Prop where
  agree : persistedIds cfg cells = entries.map (·.id)
  live : ∀ e ∈ entries, Live cfg cells e

section Listed
variable {cells : Cells} {entries : List IndexEntry}

theorem Listed.length (hl : Listed cfg cells entries) : entries.length ≤ cfg.indexMax := by
  have h := persistedIds_length cfg cells
  rwa [hl.agree, List.length_map] at h

theorem Listed.ids_nodup (hc : Filed cfg cells) (hl : Listed cfg cells entries) : (entries.map (·.id)).Nodup :=
  hl.agree ▸ hc.nodup

theorem Listed.keys_nodup (hc : Filed cfg cells) (hl : Listed cfg cells entries) :
    (entries.map (·.nsKey)).Nodup := by
  have hids := hl.ids_nodup hc
  refine (List.Nodup.of_map _ hids).map_on fun e he e' he' hkey => ?_
  apply List.inj_on_of_nodup_map hids he he'
  have hns : e.namespaceName = e'.namespaceName := congrArg Prod.fst hkey
  have hk : e.key = e'.key := congrArg Prod.snd hkey
  rw [(hl.live e he).1, (hl.live e' he').1, hns, hk]

theorem Listed.mem_iff (hc : Charted cfg cells) (hl : Listed cfg cells entries) (k : NsKey) :
    k ∈ entries.map (·.nsKey) ↔ stored cfg cells k ≠ none := by
  constructor
  · intro hk
    obtain ⟨e, he, rfl⟩ := List.mem_map.mp hk
    exact (hl.live e he).2
  · intro hk
    have hid := hc.covers k hk
    rw [hl.agree] at hid
    obtain ⟨e, he, hide⟩ := List.mem_map.mp hid
    have hkey : e.nsKey = k := stored_unique ((hl.live e he).1.symm.trans hide) (hl.live e he).2 hk
    exact List.mem_map.mpr ⟨e, he, hkey⟩

end Listed

theorem findEntry_none {entries : List IndexEntry} {ns key : CString} :
    findEntry entries ns key = none ↔ (ns, key) ∉ entries.map (·.nsKey) := by
  unfold findEntry
  rw [List.findIdx?_eq_none_iff]
  simp only [IndexEntry.nsKey, List.mem_map, Prod.mk.injEq, not_exists, not_and, Bool.and_eq_false_iff,
    beq_eq_false_iff_ne]
  exact forall_congr' fun e => ⟨fun h he hns hkey => (h he).elim (· hns) (· hkey), fun h he => by
    by_cases hns : e.namespaceName = ns
    · exact .inr (h he hns)
    · exact .inl hns⟩

theorem findEntry_some {entries : List IndexEntry} {ns key : CString} {i : Nat} (h : findEntry entries ns key = some i) :
    ∃ hi : i < entries.length, entries[i].nsKey = (ns, key) := by
  unfold findEntry at h
  obtain ⟨hi, hp, -⟩ := List.findIdx?_eq_some_iff_getElem.mp h
  simp only [Bool.and_eq_true, beq_iff_eq] at hp
  exact ⟨hi, Prod.ext hp.1 hp.2⟩

def SameRecords (cfg : KvCfg) (cells cells' : Cells) : Prop := ∀ id, id ≠ indexRecId cfg → cells' id = cells id

theorem SameRecords.stored {cells cells' : Cells} (h : SameRecords cfg cells cells') (k : NsKey) :
    stored cfg cells' k = stored cfg cells k :=
  stored_congr (h _ (recordId_ne_index cfg k.1 k.2))

theorem SameRecords.orderly {cells cells' : Cells} (h : SameRecords cfg cells cells') (ho : Orderly cfg cells) :
    Orderly cfg cells' :=
  fun id record hid hcell => ho id record hid (h id hid ▸ hcell)

theorem SameRecords.live {cells cells' : Cells} (h : SameRecords cfg cells cells') {e : IndexEntry}
    (he : Live cfg cells e) : Live cfg cells' e :=
  ⟨he.1, by rw [h.stored]; exact he.2⟩

theorem sameRecords_withIndex (cfg : KvCfg) (cells : Cells) (entries : List IndexEntry) :
    SameRecords cfg cells (withIndex cfg cells entries) :=
  fun _ hid => Function.update_of_ne hid _ _

theorem loaded_listed {cells cells' : Cells} (hc : Filed cfg cells) (hsame : SameRecords cfg cells cells')
    (hids : persistedIds cfg cells' = (loaded cfg cells).map (·.id)) :
    Filed cfg cells' ∧ Listed cfg cells' (loaded cfg cells) ∧ ¬ Forgets cfg cells cells' := by
  have hlive : ∀ e ∈ loaded cfg cells, Live cfg cells e ∧ e.id ∈ persistedIds cfg cells := by
    intro e he
    obtain ⟨id, hid, hentry⟩ := List.mem_filterMap.mp he
    obtain ⟨heid, hrid, hstored⟩ := hc.orderly.of_entryAt (hc.slots id hid) hentry
    exact ⟨⟨heid.trans hrid.symm, hstored⟩, heid ▸ hid⟩
  have hsub : ∀ id ∈ persistedIds cfg cells', id ∈ persistedIds cfg cells := by
    intro id hid
    rw [hids] at hid
    obtain ⟨e, he, rfl⟩ := List.mem_map.mp hid
    exact (hlive e he).2
  refine ⟨⟨hsame.orderly hc.orderly, ?_, fun id hid => hc.slots id (hsub id hid)⟩,
    ⟨hids, fun e he => hsame.live (hlive e he).1⟩, not_forgets_of_ids fun k hk hlisted => ?_⟩
  · -- the ids of the entries are a sublist of those that were listed
    rw [hids]
    have hsublist : ((loaded cfg cells).map (·.id)).Sublist (persistedIds cfg cells) := by
      unfold loaded
      generalize persistedIds cfg cells = ids
      induction ids with
      | nil => exact .slnil
      | cons id ids ih =>
        cases he : entryAt cfg cells id with
        | none =>
          rw [List.filterMap_cons_none he]
          exact ih.cons id
        | some e =>
          rw [List.filterMap_cons_some he, List.map_cons, entryAt_id he]
          exact ih.cons_cons id
    exact hsublist.nodup hc.nodup
  · rw [hsame.stored] at hk
    obtain ⟨value, hvalue⟩ := Option.ne_none_iff_exists'.mp hk
    rw [hids]
    refine List.mem_map.mpr ⟨⟨k.1, k.2, recordId cfg k.1 k.2⟩, ?_, rfl⟩
    exact List.mem_filterMap.mpr ⟨_, hlisted, hc.orderly.entryAt hvalue⟩

structure Current (cfg : KvCfg) (s : KvSt) : Prop where
  charted : Charted cfg s.flash.cells
  listed : ∀ entries, s.ctx = some entries → Listed cfg s.flash.cells entries

def CanLoad (s : KvSt) : Prop := s.ctx = none → s.heapRoom = true ∧ s.ioFree ≠ 0

section Context
variable {P : Cells → Prop} {s : KvSt} (hs : s.flash.Sound) (hcur : Current cfg s) (hload : CanLoad s)
  (hP : ∀ cells, Charted cfg cells → SameRecords cfg s.flash.cells cells → P cells)
include hs hcur hload hP

theorem context_run : ∃ t entries cells, (ctxGetOrAlloc cfg).run s = .ok true t ∧
    Arrives P s (some entries) cells t ∧ SameRecords cfg s.flash.cells cells ∧ Charted cfg cells ∧
    Listed cfg cells entries := by
  have hrefl : SameRecords cfg s.flash.cells s.flash.cells := fun _ _ => rfl
  obtain ⟨ctx, ioFree, heapRoom, flash⟩ := s
  cases ctx with
  | some entries =>
    exact ⟨_, entries, flash.cells, rfl, arrives_refl _, hrefl, hcur.charted, hcur.listed entries rfl⟩
  | none =>
    obtain ⟨hroom, hio⟩ := hload rfl
    obtain rfl : heapRoom = true := hroom
    have hset : Arrives P ⟨none, ioFree, true, flash⟩ (some []) flash.cells ⟨some [], ioFree, true, flash⟩ :=
      ⟨.refl _, rfl, rfl, rfl⟩
    obtain ⟨t, cells, hrun, ht, hcells, hids⟩ :=
      @loadPersisted_run cfg P ⟨some [], ioFree, true, flash⟩ hs (hP _ hcur.charted hrefl) rfl hio
    have hsame : SameRecords cfg flash.cells cells := by
      rcases hcells with rfl | rfl
      · exact hrefl
      · exact sameRecords_withIndex cfg _ _
    obtain ⟨hf, hl, hnot⟩ := loaded_listed hcur.charted.filed hsame hids
    have hc : Charted cfg cells := hf.charted hnot hcur.charted fun k hk => by rwa [hsame.stored] at hk
    refine ⟨t, _, cells, ?_, hset.trans ht, hsame, hc, hl⟩
    exact run_then (a := (⟨none, ioFree, true, flash⟩ : KvSt)) rfl
      (run_then (t := (⟨some [], ioFree, true, flash⟩ : KvSt)) rfl (run_then hrun rfl))

end Context

structure ListedBut (cfg : KvCfg) (cells : Cells) (entries : List IndexEntry) (k : NsKey) : Prop where
  agree : persistedIds cfg cells = entries.map (·.id)
  live : ∀ e ∈ entries, e.nsKey ≠ k → Live cfg cells e
  own : ∀ e ∈ entries, e.nsKey = k → e.id = recordId cfg k.1 k.2

structure Tracked (cfg : KvCfg) (cells : Cells) (entries : List IndexEntry) (k : NsKey) : Prop
    extends ListedBut cfg cells entries k where
  indexed : k ∈ entries.map (·.nsKey) ∨ cfg.indexMax ≤ entries.length

theorem modify_id {entries : List IndexEntry} {i : Nat} {id : UInt32} (hi : i < entries.length)
    (h : entries[i].id = id) : (entries.modify i fun e => { e with id := id }) = entries := by
  apply List.ext_getElem (by simp)
  intro j h₁ h₂
  rw [List.getElem_modify]
  split
  · rename_i heq
    subst heq
    subst h
    rfl
  · rfl

theorem filed_track (hp : cfg.persistIndex = true) {cells : Cells} {entries : List IndexEntry} {ns key : CString}
    (hc : Filed cfg cells) (hl : Listed cfg cells entries) (hfree : ¬ Taken cfg cells (ns, key))
    (hnew : (ns, key) ∉ entries.map (·.nsKey)) (hroom : entries.length < cfg.indexMax) :
    let added := entries ++ [IndexEntry.mk ns key (recordId cfg ns key)]
    Filed cfg (withIndex cfg cells added) ∧ Tracked cfg (withIndex cfg cells added) added (ns, key) ∧
      ¬ Forgets cfg cells (withIndex cfg cells added) := by
  intro added
  have hsame := sameRecords_withIndex cfg cells added
  have hids : persistedIds cfg (withIndex cfg cells added) = entries.map (·.id) ++ [recordId cfg ns key] := by
    have hlen : added.length ≤ cfg.indexMax := by simp [added]; omega
    rw [withIndex, persistedIds_store hp hlen, List.map_append]
    rfl
  have hfresh : recordId cfg ns key ∉ entries.map (·.id) := by
    intro hmem
    obtain ⟨e, he, hid⟩ := List.mem_map.mp hmem
    obtain ⟨heid, hstored⟩ := hl.live e he
    refine hfree ⟨e.nsKey, fun hkey => hnew ?_, heid.symm.trans hid, hstored⟩
    exact hkey ▸ List.mem_map.mpr ⟨e, he, rfl⟩
  refine ⟨⟨hsame.orderly hc.orderly, ?_, ?_⟩, ⟨⟨?_, ?_, ?_⟩, .inl ?_⟩, not_forgets_of_ids fun k _ hlisted => ?_⟩
  · rw [hids]
    exact List.nodup_append'.mpr ⟨hl.ids_nodup hc, List.nodup_singleton _, by simpa using hfresh⟩
  · intro id hid
    rw [hids, List.mem_append, List.mem_singleton] at hid
    rcases hid with hid | rfl
    · exact hc.slots id (hl.agree ▸ hid)
    · exact recordId_ne_index cfg ns key
  · rw [hids]
    simp [added]
  · intro e he hne
    rcases List.mem_append.mp he with he | he
    · exact hsame.live (hl.live e he)
    · rw [List.mem_singleton] at he
      subst he
      exact absurd rfl hne
  · intro e he hkey
    rcases List.mem_append.mp he with he | he
    · exact absurd (List.mem_map.mpr ⟨e, he, hkey⟩) hnew
    · rw [List.mem_singleton] at he
      rw [he]
  · simp [added, IndexEntry.nsKey]
  · rw [hids, ← hl.agree]
    exact List.mem_append_left _ hlisted

theorem Listed.but {cells : Cells} {entries : List IndexEntry} (hl : Listed cfg cells entries) (k : NsKey) :
    ListedBut cfg cells entries k where
  agree := hl.agree
  live e he _ := hl.live e he
  own e he hkey := by
    rw [(hl.live e he).1, ← hkey]
    rfl

theorem Listed.tracked {cells : Cells} {entries : List IndexEntry} {k : NsKey} (hl : Listed cfg cells entries)
    (hindexed : k ∈ entries.map (·.nsKey) ∨ cfg.indexMax ≤ entries.length) : Tracked cfg cells entries k :=
  ⟨hl.but k, hindexed⟩

end ZephyrDB.Kv
