import ZephyrDB.Kv.Chart

/-!
The calls over a backend that accepts every operation, with the contents they
pass through: the index stays charted at every point, and the keys a call does
not concern keep their values.
-/

set_option autoImplicit false

namespace ZephyrDB.Kv

open Lib

variable {cfg : KvCfg}

def Crowded (cfg : KvCfg) (cells : Cells) : Prop :=
  ∃ keys : List NsKey, keys.Nodup ∧ (∀ k ∈ keys, stored cfg cells k ≠ none) ∧ cfg.indexMax < keys.length

theorem SameRecords.refl (cells : Cells) : SameRecords cfg cells cells := fun _ _ => rfl

theorem SameRecords.trans {a b c : Cells} (h : SameRecords cfg a b) (k : SameRecords cfg b c) : SameRecords cfg a c :=
  fun id hid => (k id hid).trans (h id hid)

theorem SameRecords.taken {cells cells' : Cells} (h : SameRecords cfg cells cells') (k : NsKey) :
    Taken cfg cells' k ↔ Taken cfg cells k := by
  unfold Taken
  simp only [h.stored]

theorem trackSet_loaded {s u : KvSt} {entries : List IndexEntry} (hctx : (ctxGetOrAlloc cfg).run s = .ok true u)
    (hu : u.ctx = some entries) (ns key : CString) (id : UInt32) : (trackSet cfg ns key id).run s =
      match findEntry entries ns key with
      | some i => .ok true { u with ctx := some (entries.modify i fun e => { e with id := id }) }
      | none => if cfg.indexMax ≤ entries.length then .ok false u
        else .ok true (post (storePersisted cfg) { u with ctx := some (entries ++ [IndexEntry.mk ns key id]) }) := by
  apply run_then hctx
  show (match findEntry (u.ctx.getD []) ns key with | some i => _ | none => _ : KvM Status Bool).run u = _
  rw [hu]
  dsimp only [Option.getD_some]
  cases findEntry entries ns key with
  | some i => rfl
  | none =>
    dsimp only
    split
    · rfl
    · obtain ⟨_, hstore⟩ := storePersisted_total cfg { u with ctx := some (entries ++ [IndexEntry.mk ns key id]) }
      exact run_then (a := ()) rfl (run_then hstore rfl)

theorem Listed.found {cells : Cells} {entries : List IndexEntry} (hl : Listed cfg cells entries) {ns key : CString}
    {i : Nat} (hfind : findEntry entries ns key = some i) :
    (entries.modify i fun e => { e with id := recordId cfg ns key }) = entries ∧ (ns, key) ∈ entries.map (·.nsKey) := by
  obtain ⟨hi, hkey⟩ := findEntry_some hfind
  refine ⟨modify_id hi ?_, hkey ▸ List.mem_map.mpr ⟨_, List.getElem_mem hi, rfl⟩⟩
  rw [(hl.live _ (List.getElem_mem hi)).1, show entries[i].namespaceName = ns from congrArg Prod.fst hkey,
    show entries[i].key = key from congrArg Prod.snd hkey]

section Context
variable {P : Cells → Prop} {s : KvSt} (hs : s.flash.Sound) (hcur : Current cfg s) (hload : CanLoad s)
  (hP : ∀ cells, Charted cfg cells → SameRecords cfg s.flash.cells cells → P cells)
  (hpersist : cfg.persistIndex = true)
include hs hcur hload hP hpersist

theorem trackSet_run {ns key : CString} (hfree : ¬ Taken cfg s.flash.cells (ns, key)) :
    ∃ t b entries cells, (trackSet cfg ns key (recordId cfg ns key)).run s = .ok b t ∧
      Arrives P s (some entries) cells t ∧ SameRecords cfg s.flash.cells cells ∧ Charted cfg cells ∧
      Tracked cfg cells entries (ns, key) := by
  obtain ⟨u, entries, cells, hctx, hu, hsame, hc, hl⟩ := context_run hs hcur hload hP
  have hfree' : ¬ Taken cfg cells (ns, key) := fun h => hfree ((hsame.taken _).mp h)
  have hrun := trackSet_loaded hctx hu.ctx ns key (recordId cfg ns key)
  cases hfind : findEntry entries ns key with
  | some i =>
    obtain ⟨hid, hin⟩ := hl.found hfind
    have hset : Arrives P s (some entries) cells { u with ctx := some entries } :=
      ⟨hu.flash, rfl, hu.ioFree, hu.heapRoom⟩
    simp only [hfind, hid] at hrun
    exact ⟨_, true, entries, cells, hrun, hset, hsame, hc, hl.tracked (.inl hin)⟩
  | none =>
    have hnew := findEntry_none.mp hfind
    simp only [hfind] at hrun
    by_cases hfull : cfg.indexMax ≤ entries.length
    · rw [if_pos hfull] at hrun
      exact ⟨u, false, entries, cells, hrun, hu, hsame, hc, hl.tracked (.inr hfull)⟩
    · rw [if_neg hfull] at hrun
      obtain ⟨hf, ht, hnot⟩ := filed_track hpersist hc.filed hl hfree' hnew (Nat.lt_of_not_le hfull)
      have hadd := sameRecords_withIndex cfg cells (entries ++ [⟨ns, key, recordId cfg ns key⟩])
      have hset : Arrives P s (some (entries ++ [⟨ns, key, recordId cfg ns key⟩])) cells
          { u with ctx := some (entries ++ [⟨ns, key, recordId cfg ns key⟩]) } :=
        ⟨hu.flash, rfl, hu.ioFree, hu.heapRoom⟩
      obtain ⟨t, hstore, ht'⟩ := @indexStore_run cfg P _ (hset.sound hs)
        (hset.flash.cells ▸ hP _ hc hsame) _ hset.ctx
      rw [hset.flash.cells] at ht'
      rw [storePersisted, if_pos hpersist, post_of_run hstore] at hrun
      have hc' := hf.charted hnot hc fun k hk => by rwa [hadd.stored] at hk
      exact ⟨t, true, _, _, hrun, hset.trans ht', hsame.trans hadd, hc', ht⟩

end Context

theorem ListedBut.listed {cells : Cells} {entries : List IndexEntry} {k : NsKey} (ht : ListedBut cfg cells entries k)
    (hnew : k ∉ entries.map (·.nsKey)) : Listed cfg cells entries :=
  ⟨ht.agree, fun e he => ht.live e he fun hkey => hnew (hkey ▸ List.mem_map.mpr ⟨e, he, rfl⟩)⟩

theorem Filed.written {cells : Cells} {ns key : CString} {value : Bytes} (hc : Filed cfg cells)
    (hfree : ¬ Taken cfg cells (ns, key)) (hw : Writable cfg ns key value) {cells' : Cells}
    (hcells : cells' = Function.update cells (recordId cfg ns key) (some (recordBuild ns key value))) :
    Filed cfg cells' ∧ persistedIds cfg cells' = persistedIds cfg cells ∧
      ∀ k, stored cfg cells' k = if k = (ns, key) then some value else stored cfg cells k := by
  have hids : persistedIds cfg cells' = persistedIds cfg cells := by
    apply persistedIds_congr
    rw [hcells, Function.update_of_ne (recordId_ne_index cfg ns key).symm]
  refine ⟨⟨fun id record hid hcell => ?_, hids ▸ hc.nodup, fun id hid => hc.slots id (hids ▸ hid)⟩, hids,
    stored_claim hw.ns_valid hw.key_valid hfree fun id _ => by rw [hcells]⟩
  rw [hcells] at hcell
  by_cases heq : id = recordId cfg ns key
  · subst heq
    rw [Function.update_self] at hcell
    obtain rfl := Option.some.inj hcell
    exact ⟨ns, key, value, hw.ns_valid, hw.key_valid, rfl, rfl, hw.fits⟩
  · rw [Function.update_of_ne heq] at hcell
    exact hc.orderly id record hid hcell

theorem ListedBut.written {cells cells' : Cells} {entries : List IndexEntry} {k : NsKey}
    (ht : ListedBut cfg cells entries k) (hids : persistedIds cfg cells' = persistedIds cfg cells)
    (hown : stored cfg cells' k ≠ none) (hothers : ∀ k', k' ≠ k → stored cfg cells' k' = stored cfg cells k') :
    Listed cfg cells' entries := by
  refine ⟨hids.trans ht.agree, fun e he => ?_⟩
  by_cases hkey : e.nsKey = k
  · have hid := ht.own e he hkey
    subst hkey
    exact ⟨hid, hown⟩
  · obtain ⟨hid, hk⟩ := ht.live e he hkey
    exact ⟨hid, by rw [hothers _ hkey]; exact hk⟩

theorem Tracked.written {cells : Cells} {entries : List IndexEntry} {ns key : CString} {value : Bytes}
    (hc : Charted cfg cells) (ht : Tracked cfg cells entries (ns, key)) (hfree : ¬ Taken cfg cells (ns, key))
    (hw : Writable cfg ns key value) {cells' : Cells}
    (hcells : cells' = Function.update cells (recordId cfg ns key) (some (recordBuild ns key value))) :
    Crowded cfg cells' ∨ (Charted cfg cells' ∧ Listed cfg cells' entries) := by
  obtain ⟨hf, hids, hstored⟩ := hc.filed.written hfree hw hcells
  have hown : stored cfg cells' (ns, key) ≠ none := by rw [hstored, if_pos rfl]; simp
  have hl' := ht.toListedBut.written hids hown fun k hk => by rw [hstored, if_neg hk]
  by_cases hin : (ns, key) ∈ entries.map (·.nsKey)
  · obtain ⟨own, hmem, hownkey⟩ := List.mem_map.mp hin
    refine .inr ⟨⟨hf.orderly, hf.nodup, hf.slots, fun k hk => ?_⟩, hl'⟩
    rw [hids]
    by_cases hkey : k = (ns, key)
    · subst hkey
      rw [ht.agree]
      exact List.mem_map.mpr ⟨own, hmem, ht.own own hmem hownkey⟩
    · rw [hstored, if_neg hkey] at hk
      exact hc.covers k hk
  · -- the index is full of other keys
    have hl := ht.toListedBut.listed hin
    refine .inl ⟨(ns, key) :: entries.map (·.nsKey), List.nodup_cons.mpr ⟨hin, hl.keys_nodup hc.filed⟩, fun k hk => ?_, ?_⟩
    · rw [hstored]
      split
      · simp
      · rename_i hne
        exact (hl.mem_iff hc k).mp ((List.mem_cons.mp hk).resolve_left hne)
    · have hfull := ht.indexed.resolve_left hin
      rw [List.length_cons, List.length_map]
      omega

theorem trackDelete_eq (s : KvSt) (ns key : CString) : (trackDelete cfg ns key).run s =
    match s.ctx.bind fun entries => (findEntry entries ns key).map entries.eraseIdx with
    | none => .ok () s
    | some left => .ok () (post (storePersisted cfg) { s with ctx := some left }) := by
  show (match s.ctx with | none => _ | some entries => _ : KvM Status Unit).run s = _
  cases s.ctx with
  | none => rfl
  | some entries =>
    dsimp only [Option.bind_some]
    cases findEntry entries ns key with
    | none => rfl
    | some i =>
      obtain ⟨_, hstore⟩ := storePersisted_total cfg { s with ctx := some (entries.eraseIdx i) }
      exact run_then (a := ()) rfl hstore

theorem ListedBut.dropped (hpersist : cfg.persistIndex = true) {cells : Cells} {entries : List IndexEntry} {k : NsKey}
    (hc : Filed cfg cells) (ht : ListedBut cfg cells entries k) (hgone : cells (recordId cfg k.1 k.2) = none)
    {i : Nat} (hi : i < entries.length) (hkey : entries[i].nsKey = k) {cells' : Cells}
    (hcells : cells' = withIndex cfg cells (entries.eraseIdx i)) :
    Filed cfg cells' ∧ Listed cfg cells' (entries.eraseIdx i) ∧ ¬ Forgets cfg cells cells' := by
  have hsame : SameRecords cfg cells cells' := hcells ▸ sameRecords_withIndex cfg cells _
  have hmax : entries.length ≤ cfg.indexMax := by
    have h := persistedIds_length cfg cells
    rwa [ht.agree, List.length_map] at h
  have hids : persistedIds cfg cells' = (entries.eraseIdx i).map (·.id) := by
    rw [hcells]
    exact persistedIds_store hpersist ((List.length_eraseIdx_le _ _).trans hmax) _
  have hnodup : (entries.map (·.id)).Nodup := ht.agree ▸ hc.nodup
  have hsub : ((entries.eraseIdx i).map (·.id)).Sublist (entries.map (·.id)) :=
    (List.eraseIdx_sublist entries i).map _
  -- an entry that is left is not the one of the key: no two have its id
  have hleft : ∀ e ∈ entries.eraseIdx i, e ∈ entries ∧ e.nsKey ≠ k := by
    intro e he
    obtain ⟨j, hj, hne, rfl⟩ := List.mem_eraseIdx_iff_getElem.mp he
    refine ⟨List.getElem_mem hj, fun hkey' => hne ?_⟩
    have hid : entries[j].id = entries[i].id := by
      rw [ht.own _ (List.getElem_mem hj) hkey', ht.own _ (List.getElem_mem hi) hkey]
    have hsame : entries[j] = entries[i] :=
      List.inj_on_of_nodup_map hnodup (List.getElem_mem hj) (List.getElem_mem hi) hid
    exact (List.Nodup.getElem_inj_iff (List.Nodup.of_map _ hnodup)).mp hsame
  refine ⟨⟨hsame.orderly hc.orderly, ?_, ?_⟩, ⟨hids, fun e he => ?_⟩, not_forgets_of_ids fun k' hk' hcover => ?_⟩
  · rw [hids]
    exact hsub.nodup hnodup
  · intro id hid
    rw [hids] at hid
    exact hc.slots id (ht.agree ▸ hsub.subset hid)
  · obtain ⟨hmem, hne⟩ := hleft e he
    exact hsame.live (ht.live e hmem hne)
  · rw [hsame.stored] at hk'
    rw [ht.agree] at hcover
    obtain ⟨e, he, hid⟩ := List.mem_map.mp hcover
    obtain ⟨j, hj, rfl⟩ := List.mem_iff_getElem.mp he
    rw [hids]
    refine List.mem_map.mpr ⟨entries[j], List.mem_eraseIdx_iff_getElem.mpr ⟨j, hj, ?_, rfl⟩, hid⟩
    rintro rfl
    apply hk'
    unfold stored
    rw [← hid, ht.own _ he hkey, hgone]
    rfl

theorem trackDelete_run {P : Cells → Prop} (hpersist : cfg.persistIndex = true) {s : KvSt} (hs : s.flash.Sound)
    {ns key : CString} (hgone : s.flash.cells (recordId cfg ns key) = none) (hc : Charted cfg s.flash.cells)
    (hbut : ∀ entries, s.ctx = some entries → ListedBut cfg s.flash.cells entries (ns, key)) (hp : P s.flash.cells) :
    ∃ t ctx cells, (trackDelete cfg ns key).run s = .ok () t ∧ Arrives P s ctx cells t ∧
      SameRecords cfg s.flash.cells cells ∧ Charted cfg cells ∧ (∀ entries, ctx = some entries → Listed cfg cells entries) ∧
      (ctx = none → s.ctx = none) := by
  have hrun := @trackDelete_eq cfg s ns key
  obtain ⟨ctx, ioFree, heapRoom, flash⟩ := s
  cases ctx with
  | none => exact ⟨_, none, flash.cells, hrun, arrives_refl _, .refl _, hc, by simp, by simp⟩
  | some entries =>
    have ht := hbut entries rfl
    simp only [Option.bind_some] at hrun
    cases hfind : findEntry entries ns key with
    | none =>
      rw [hfind] at hrun
      refine ⟨_, some entries, flash.cells, hrun, arrives_refl _, .refl _, hc, ?_, by simp⟩
      rintro _ ⟨rfl⟩
      exact ht.listed (findEntry_none.mp hfind)
    | some i =>
      obtain ⟨hi, hkey⟩ := findEntry_some hfind
      have hset : Arrives P ⟨some entries, ioFree, heapRoom, flash⟩ (some (entries.eraseIdx i)) flash.cells
          ⟨some (entries.eraseIdx i), ioFree, heapRoom, flash⟩ := ⟨.refl _, rfl, rfl, rfl⟩
      obtain ⟨t, hstore, ht'⟩ := @indexStore_run cfg P _ (hset.sound hs) hp _ hset.ctx
      obtain ⟨hf, hl, hnot⟩ := ht.dropped hpersist hc.filed hgone hi hkey rfl
      have hsame := sameRecords_withIndex cfg flash.cells (entries.eraseIdx i)
      rw [hfind] at hrun
      simp only [Option.map_some] at hrun
      rw [storePersisted, if_pos hpersist, post_of_run hstore] at hrun
      refine ⟨t, _, _, hrun, hset.trans ht', hsame, hf.charted hnot hc fun k hk => ?_, ?_, by simp⟩
      · rwa [hsame.stored] at hk
      · rintro _ ⟨rfl⟩
        exact hl

/-- The contents that a call replaced and those it leaves satisfy `P`. -/
def Passes (P : Cells → Prop) (s t : KvSt) : Prop :=
  (∃ new, t.flash.past = new ++ s.flash.past ∧ ∀ c ∈ new, P c) ∧ P t.flash.cells

section Passes
variable {P Q : Cells → Prop} {s t u : KvSt}

theorem Passes.imp (h : Passes P s t) (hPQ : ∀ c, P c → Q c) : Passes Q s t := by
  obtain ⟨⟨new, hnew, hp⟩, hlast⟩ := h
  exact ⟨⟨new, hnew, fun c hc => hPQ c (hp c hc)⟩, hPQ _ hlast⟩

theorem Passes.trans (h : Passes P s t) (k : Passes P t u) : Passes P s u := by
  obtain ⟨⟨old, hold, hp⟩, -⟩ := h
  obtain ⟨⟨new, hnew, hq⟩, hlast⟩ := k
  refine ⟨⟨new ++ old, by rw [hnew, hold, List.append_assoc], fun c hc => ?_⟩, hlast⟩
  rcases List.mem_append.mp hc with hc | hc
  · exact hq c hc
  · exact hp c hc

theorem Arrives.passes {ctx : Option (List IndexEntry)} {cells : Cells} (h : Arrives P s ctx cells t)
    (hp : P cells) : Passes P s t :=
  ⟨h.flash.passed, by rw [h.flash.cells]; exact hp⟩

end Passes

/-- What a call that is not cut short leaves, and what it passes through: the keys of `Q` keep their values. -/
structure Sails (cfg : KvCfg) (Q : NsKey → Prop) (s t : KvSt) : Prop where
  current : Current cfg t
  passes : Passes (fun c => Charted cfg c ∧ ∀ k, Q k → stored cfg c k = stored cfg s.flash.cells k) s t
  unloaded : t.ctx = none → s.ctx = none

def Awaits (cfg : KvCfg) (s t : KvSt) : Prop := t.ctx = none → SameRecords cfg s.flash.cells t.flash.cells

structure Swells (cfg : KvCfg) (Q : NsKey → Prop) (s t : KvSt) : Prop where
  crowded : Crowded cfg t.flash.cells
  passes : Passes (fun c => (Charted cfg c ∨ Crowded cfg c) ∧ ∀ k, Q k → stored cfg c k = stored cfg s.flash.cells k) s t

section Sails
variable {Q : NsKey → Prop} {s t u : KvSt}

theorem Sails.values (h : Sails cfg Q s t) {k : NsKey} (hk : Q k) :
    stored cfg t.flash.cells k = stored cfg s.flash.cells k :=
  h.passes.2.2 k hk

theorem Sails.trans (h : Sails cfg Q s t) (k : Sails cfg Q t u) : Sails cfg Q s u := by
  refine ⟨k.current, h.passes.trans (k.passes.imp fun _ hc => ⟨hc.1, fun j hj => ?_⟩),
    fun hctx => h.unloaded (k.unloaded hctx)⟩
  rw [hc.2 j hj, h.values hj]

theorem Swells.values (h : Swells cfg Q s t) {k : NsKey} (hk : Q k) :
    stored cfg t.flash.cells k = stored cfg s.flash.cells k :=
  h.passes.2.2 k hk

theorem Swells.trans (h : Swells cfg Q s t) (k : Swells cfg Q t u) : Swells cfg Q s u :=
  ⟨k.crowded, h.passes.trans (k.passes.imp fun _ hc => ⟨hc.1, fun j hj => (hc.2 j hj).trans (h.values hj)⟩)⟩

theorem Sails.swells (h : Sails cfg Q s t) (k : Swells cfg Q t u) : Swells cfg Q s u := by
  have hbefore : Passes (fun c => (Charted cfg c ∨ Crowded cfg c) ∧
      ∀ k, Q k → stored cfg c k = stored cfg s.flash.cells k) s t := h.passes.imp fun _ hc => ⟨.inl hc.1, hc.2⟩
  exact ⟨k.crowded, hbefore.trans (k.passes.imp fun _ hc => ⟨hc.1, fun j hj => (hc.2 j hj).trans (h.values hj)⟩)⟩

structure Still (s t : KvSt) : Prop where
  ctx : t.ctx = s.ctx
  cells : t.flash.cells = s.flash.cells
  past : t.flash.past = s.flash.past

theorem still_chains : Chains Still where
  refl _ := ⟨rfl, rfl, rfl⟩
  trans h k := ⟨k.ctx.trans h.ctx, k.cells.trans h.cells, k.past.trans h.past⟩

theorem still_counted (s : KvSt) (op : IdOp) : Still s (s.counted op) := ⟨rfl, rfl, rfl⟩

theorem Still.sails (h : Still s t) (hcur : Current cfg s) : Sails cfg Q s t := by
  obtain ⟨hctx, hcells, hpast⟩ := h
  refine ⟨⟨hcells ▸ hcur.charted, fun entries hentries => ?_⟩, ⟨⟨[], hpast, by simp⟩, ?_⟩, fun hnone => hctx ▸ hnone⟩
  · rw [hcells]
    exact hcur.listed entries (hctx ▸ hentries)
  · rw [hcells]
    exact ⟨hcur.charted, fun _ _ => rfl⟩

theorem Still.awaits (h : Still s t) : Awaits cfg s t := fun _ => h.cells ▸ .refl _

theorem Still.swells (h : Still s t) (hcrowded : Crowded cfg s.flash.cells) : Swells cfg Q s t := by
  refine ⟨h.cells ▸ hcrowded, ⟨⟨[], h.past, by simp⟩, ?_⟩⟩
  rw [h.cells]
  exact ⟨.inr hcrowded, fun _ _ => rfl⟩

theorem Swells.released (h : Swells cfg Q s.hold t) : Swells cfg Q s t.release := ⟨h.crowded, h.passes⟩

theorem Sails.released (h : Sails cfg Q s.hold t) : Sails cfg Q s t.release :=
  ⟨⟨h.current.charted, h.current.listed⟩, h.passes, h.unloaded⟩

end Sails

theorem post_kvGet (ns key : CString) (capacity : Nat) (s : KvSt) : post (kvGet cfg ns key capacity) s =
    if keyValid cfg key = true ∧ s.ioFree ≠ 0 then s.counted (.read (recordId cfg ns key)) else s := by
  by_cases hkey : keyValid cfg key = true
  · simp only [kvGet, hkey, Bool.not_true, Bool.false_eq_true, if_false, true_and]
    rw [post_bind_still]
    · by_cases hio : s.ioFree = 0
      · rw [if_neg (by simp [hio])]
        unfold post
        rw [withBlock_none hio]
      · rw [if_pos hio, post_withBlock hio, toStatus, onFlash, post_adaptExcept, post_zoom, IdStore.post_read]
        obtain ⟨ctx, ioFree, heapRoom, flash⟩ := s
        show KvSt.mk ctx (ioFree - 1 + 1) heapRoom _ = KvSt.mk ctx ioFree heapRoom _
        rw [Nat.sub_add_cancel (Nat.one_le_iff_ne_zero.mpr hio)]
        rfl
    · rintro ⟨rd, record⟩ t
      cases recordCheck record ns key <;> rfl
  · rw [if_neg fun h => hkey h.1]
    simp only [kvGet, hkey]
    rfl

theorem still_kvGet (ns key : CString) (capacity : Nat) (s : KvSt) :
    Still s (post (kvGet cfg ns key capacity) s) := by
  rw [post_kvGet]
  split
  · exact still_counted s _
  · exact still_chains.refl s

theorem context_cases {s : KvSt} (hblock : s.ctx = none → s.heapRoom = true → s.ioFree ≠ 0) :
    (ctxGetOrAlloc cfg).run s = .ok false s ∨ CanLoad s := by
  obtain ⟨ctx, ioFree, heapRoom, flash⟩ := s
  cases ctx with
  | some entries => exact .inr fun h => absurd h (by simp)
  | none =>
    cases heapRoom with
    | false => exact .inl rfl
    | true => exact .inr fun _ => ⟨rfl, hblock rfl rfl⟩

section Calls
variable {Q : NsKey → Prop} {s : KvSt} (hs : s.flash.Sound) (hcur : Current cfg s)

include hs hcur

theorem sails_context (hload : CanLoad s) :
    ∃ t, (ctxGetOrAlloc cfg).run s = .ok true t ∧ Sails cfg Q s t ∧ t.ctx ≠ none := by
  obtain ⟨t, entries, cells, hrun, ht, hsame, hc, hl⟩ :=
    @context_run cfg (fun c => Charted cfg c ∧ ∀ k, Q k → stored cfg c k = stored cfg s.flash.cells k) s hs hcur hload
      fun c hc hsame => ⟨hc, fun k _ => hsame.stored k⟩
  have hloaded : t.ctx ≠ none := by
    rw [ht.ctx]
    simp
  refine ⟨t, hrun, ⟨⟨ht.flash.cells ▸ hc, fun entries' h => ?_⟩, ht.passes ⟨hc, fun k _ => hsame.stored k⟩,
    fun h => absurd h hloaded⟩, hloaded⟩
  rw [ht.ctx] at h
  obtain rfl := Option.some.inj h
  exact ht.flash.cells ▸ hl

theorem sails_setLocked (hpersist : cfg.persistIndex = true) {ns key : CString} {value : Bytes}
    (hw : Writable cfg ns key value) (hload : ¬ Taken cfg s.flash.cells (ns, key) → CanLoad s)
    (hQ : ∀ k, Q k → k ≠ (ns, key)) :
    (Sails cfg Q s (post (setLocked cfg ns key value) s) ∧ Awaits cfg s (post (setLocked cfg ns key value) s)) ∨
      Swells cfg Q s (post (setLocked cfg ns key value) s) := by
  obtain ⟨htaken, hfree⟩ := @setLocked_sound cfg s hs hcur.charted.orderly ns key value hw
  by_cases h : Taken cfg s.flash.cells (ns, key)
  · rw [(htaken h).2]
    exact .inl ⟨(still_counted s _).sails hcur, fun _ => .refl _⟩
  · let P : Cells → Prop := fun c => Charted cfg c ∧ ∀ k, Q k → stored cfg c k = stored cfg s.flash.cells k
    have hcount : Current cfg (s.counted (.read (recordId cfg ns key))) := ⟨hcur.charted, hcur.listed⟩
    obtain ⟨t, b, entries, cells, hrun, ht, hsame, hc, htr⟩ :=
      @trackSet_run cfg P (s.counted (.read (recordId cfg ns key))) hs hcount (hload h)
        (fun c hc hsame => ⟨hc, fun k _ => hsame.stored k⟩) hpersist ns key h
    have htracked : tracked cfg s ns key = t := post_of_run hrun
    have hfree' : ¬ Taken cfg cells (ns, key) := fun h' => h ((hsame.taken _).mp h')
    have hpt : P t.flash.cells := ht.flash.cells ▸ ⟨hc, fun k _ => hsame.stored k⟩
    obtain ⟨n, f, hwrite, hleads, -⟩ := IdStore.write_ok (ht.sound hs) hpt (recordId cfg ns key) (recordBuild ns key value)
    have hend : post (setLocked cfg ns key value) s = { t with flash := f } := by
      rw [(hfree h).2, written, htracked, post_of_run hwrite]
    rw [ht.flash.cells] at hleads
    have hfinal : f.cells = Function.update cells (recordId cfg ns key) (some (recordBuild ns key value)) := hleads.cells
    obtain ⟨new, hnew, hpassed⟩ := (ht.flash.trans hleads).passed
    have hvalues : ∀ k, Q k → stored cfg f.cells k = stored cfg s.flash.cells k := by
      intro k hk
      rw [stored_claim hw.ns_valid hw.key_valid hfree' (fun id _ => by rw [hfinal]), if_neg (hQ k hk), hsame.stored]
      rfl
    have hloaded : t.ctx ≠ none := by
      rw [ht.ctx]
      simp
    rw [hend]
    rcases htr.written hc hfree' hw hfinal with hcrowded | ⟨hc', hl'⟩
    · exact .inr ⟨hcrowded, ⟨new, hnew, fun c hc => ⟨.inl (hpassed c hc).1, (hpassed c hc).2⟩⟩, .inr hcrowded, hvalues⟩
    · refine .inl ⟨⟨⟨hc', fun entries' h' => ?_⟩, ⟨⟨new, hnew, hpassed⟩, hc', hvalues⟩, fun h' => absurd h' hloaded⟩,
        fun h' => absurd h' hloaded⟩
      rw [show t.ctx = some entries from ht.ctx] at h'
      obtain rfl := Option.some.inj h'
      exact hl'

theorem sails_kvSet (hpersist : cfg.persistIndex = true) {ns key : CString} {value : Option Bytes}
    (hns : keyValid cfg ns = true)
    (hload : ∀ v, value = some v → LetThrough cfg s ns key v → ¬ Taken cfg s.flash.cells (ns, key) → CanLoad s.hold)
    (hQ : ∀ k, Q k → k ≠ (ns, key)) :
    (Sails cfg Q s (post (kvSet cfg ns key value) s) ∧ Awaits cfg s (post (kvSet cfg ns key value) s)) ∨
      Swells cfg Q s (post (kvSet cfg ns key value) s) := by
  by_cases hthrough : ∃ v, value = some v ∧ LetThrough cfg s ns key v
  · obtain ⟨v, rfl, hlet⟩ := hthrough
    rw [post_kvSet_through hlet]
    have hcur' : Current cfg s.hold := ⟨hcur.charted, hcur.listed⟩
    rcases @sails_setLocked cfg Q s.hold hs hcur' hpersist ns key v hlet.toWritable (hload v rfl hlet) hQ
      with ⟨hsails, hawaits⟩ | hswells
    · exact .inl ⟨hsails.released, hawaits⟩
    · exact .inr hswells.released
  · rw [post_kvSet_stopped hns fun v hv hlet => hthrough ⟨v, hv, hlet⟩]
    exact .inl ⟨(still_chains.refl s).sails hcur, fun _ => .refl _⟩

theorem sails_deleteLocked (hpersist : cfg.persistIndex = true) (ns key : CString) (hQ : ∀ k, Q k → k ≠ (ns, key)) :
    Sails cfg Q s (post (deleteLocked cfg ns key) s) := by
  have ho := hcur.charted.orderly
  cases hstored : stored cfg s.flash.cells (ns, key) with
  | none =>
    have hrun := deleteLocked_absent hs ho hstored
    unfold post
    rw [hrun]
    exact (still_counted s _).sails hcur
  | some value =>
    let P : Cells → Prop := fun c => Charted cfg c ∧ ∀ k, Q k → stored cfg c k = stored cfg s.flash.cells k
    have hrun := deleteLocked_present hs ho hstored
    have hremoved : (s.removed (recordId cfg ns key)).flash.cells =
        Function.update s.flash.cells (recordId cfg ns key) none := rfl
    have hvalues : ∀ k, stored cfg (s.removed (recordId cfg ns key)).flash.cells k =
        if k = (ns, key) then none else stored cfg s.flash.cells k :=
      stored_vacate (by rw [hstored]; simp) fun id _ => by rw [hremoved]
    have hids : persistedIds cfg (s.removed (recordId cfg ns key)).flash.cells = persistedIds cfg s.flash.cells := by
      apply persistedIds_congr
      rw [hremoved, Function.update_of_ne (recordId_ne_index cfg ns key).symm]
    have hc : Charted cfg (s.removed (recordId cfg ns key)).flash.cells := by
      refine ⟨fun id record hid hcell => ?_, hids ▸ hcur.charted.nodup,
        fun id hid => hcur.charted.slots id (hids ▸ hid), fun k hk => hids ▸ hcur.charted.covers k ?_⟩
      · rw [hremoved] at hcell
        by_cases heq : id = recordId cfg ns key
        · subst heq
          rw [Function.update_self] at hcell
          cases hcell
        · rw [Function.update_of_ne heq] at hcell
          exact ho id record hid hcell
      · rw [hvalues] at hk
        split at hk
        · exact absurd rfl hk
        · exact hk
    have hbut : ∀ entries, (s.removed (recordId cfg ns key)).ctx = some entries →
        ListedBut cfg (s.removed (recordId cfg ns key)).flash.cells entries (ns, key) := by
      intro entries hctx
      have hl := (hcur.listed entries hctx).but (ns, key)
      refine ⟨hids ▸ hl.agree, fun e he hne => ?_, hl.own⟩
      obtain ⟨hid, hk⟩ := hl.live e he hne
      exact ⟨hid, by rw [hvalues, if_neg hne]; exact hk⟩
    have hp : P (s.removed (recordId cfg ns key)).flash.cells :=
      ⟨hc, fun k hk => by rw [hvalues, if_neg (hQ k hk)]⟩
    obtain ⟨t, ctx, cells, htrack, ht, hsame, hc', hl', hctx⟩ :=
      @trackDelete_run cfg P hpersist (s.removed (recordId cfg ns key)) hs ns key (by simp [hremoved]) hc hbut hp
    rw [htrack] at hrun
    rw [post_of_run hrun]
    have hvals : P cells := ⟨hc', fun k hk => by rw [hsame.stored, hp.2 k hk]⟩
    refine ⟨⟨ht.flash.cells ▸ hc', fun entries h => ht.flash.cells ▸ hl' entries (ht.ctx ▸ h)⟩, ⟨?_, ?_⟩,
      fun h => hctx (ht.ctx ▸ h)⟩
    · obtain ⟨new, hnew, hpassed⟩ := ht.flash.passed
      refine ⟨new ++ [s.flash.cells], by rw [hnew, List.append_assoc]; rfl, fun c hc => ?_⟩
      rcases List.mem_append.mp hc with hc | hc
      · exact hpassed c hc
      · obtain rfl := List.mem_singleton.mp hc
        exact ⟨hcur.charted, fun _ _ => rfl⟩
    · rw [ht.flash.cells]
      exact hvals

theorem sails_kvDelete (hpersist : cfg.persistIndex = true) (ns key : CString) (hQ : ∀ k, Q k → k ≠ (ns, key)) :
    Sails cfg Q s (post (kvDelete cfg ns key) s) := by
  unfold kvDelete
  split
  · exact (still_chains.refl s).sails hcur
  · by_cases hio : s.ioFree = 0
    · unfold post
      rw [withBlock_none hio]
      exact (still_chains.refl s).sails hcur
    · rw [post_withBlock hio]
      have hcur' : Current cfg s.hold := ⟨hcur.charted, hcur.listed⟩
      exact Sails.released (@sails_deleteLocked cfg Q s.hold hs hcur' hpersist ns key hQ)

end Calls

theorem Confined.sound {P : UInt32 → Prop} {s t : KvSt} (h : Confined P s t) (hs : s.flash.Sound) : t.flash.Sound := by
  intro op n
  rw [h.flash.faults]
  exact hs op n

theorem Crowded.along {cells cells' : Cells} (h : Crowded cfg cells)
    (hkept : ∀ k, stored cfg cells k ≠ none → stored cfg cells' k ≠ none) : Crowded cfg cells' := by
  obtain ⟨keys, hnodup, hkeys, hmax⟩ := h
  exact ⟨keys, hnodup, fun k hk => hkept k (hkeys k hk), hmax⟩

theorem swells_setLocked {Q : NsKey → Prop} {s : KvSt} (hs : s.flash.Sound) (ho : Orderly cfg s.flash.cells)
    (hcrowded : Crowded cfg s.flash.cells) {ns key : CString} {value : Bytes} (hw : Writable cfg ns key value)
    (hQ : ∀ k, Q k → k ≠ (ns, key)) : Swells cfg Q s (post (setLocked cfg ns key value) s) := by
  obtain ⟨htaken, hfree⟩ := @setLocked_sound cfg s hs ho ns key value hw
  by_cases h : Taken cfg s.flash.cells (ns, key)
  · rw [(htaken h).2]
    exact (still_counted s _).swells hcrowded
  · let P : Cells → Prop := fun c => (Charted cfg c ∨ Crowded cfg c) ∧ ∀ k, Q k → stored cfg c k = stored cfg s.flash.cells k
    have htracked := tracked_confined cfg s ns key
    have hsame : SameRecords cfg s.flash.cells (tracked cfg s ns key).flash.cells := htracked.flash.cells
    have hrecords : ∀ c, SameRecords cfg s.flash.cells c → P c := fun c hc =>
      ⟨.inr (hcrowded.along fun k hk => by rwa [hc.stored]), fun k _ => hc.stored k⟩
    obtain ⟨old, hold, hbefore, -⟩ := htracked.flash.remembers
    have hsound : (tracked cfg s ns key).flash.Sound := htracked.sound hs
    obtain ⟨n, f, hwrite, hleads, -⟩ := IdStore.write_ok hsound (hrecords _ hsame) (recordId cfg ns key)
      (recordBuild ns key value)
    obtain ⟨new, hnew, hpassed⟩ := hleads.passed
    have hvalues : ∀ k, stored cfg f.cells k = if k = (ns, key) then some value else stored cfg s.flash.cells k := by
      apply stored_claim hw.ns_valid hw.key_valid h
      intro id hid
      rw [hleads.cells]
      by_cases heq : id = recordId cfg ns key
      · rw [heq, Function.update_self, Function.update_self]
      · rw [Function.update_of_ne heq, Function.update_of_ne heq]
        exact hsame id hid
    have hfull : Crowded cfg f.cells := hcrowded.along fun k hk => by
      rw [hvalues]
      split
      · simp
      · exact hk
    rw [(hfree h).2, written, post_of_run hwrite]
    refine ⟨hfull, ⟨new ++ old, ?_, fun c hc => ?_⟩, .inr hfull, fun k hk => ?_⟩
    · show f.past = _
      rw [hnew, hold, List.append_assoc]
    · rcases List.mem_append.mp hc with hc | hc
      · exact hpassed c hc
      · exact hrecords c (hbefore c hc)
    · exact (hvalues k).trans (if_neg (hQ k hk))

theorem swells_kvSet {Q : NsKey → Prop} {s : KvSt} (hs : s.flash.Sound) (ho : Orderly cfg s.flash.cells)
    (hcrowded : Crowded cfg s.flash.cells) {ns key : CString} {value : Option Bytes} (hns : keyValid cfg ns = true)
    (hQ : ∀ k, Q k → k ≠ (ns, key)) : Swells cfg Q s (post (kvSet cfg ns key value) s) := by
  by_cases hthrough : ∃ v, value = some v ∧ LetThrough cfg s ns key v
  · obtain ⟨v, rfl, hlet⟩ := hthrough
    rw [post_kvSet_through hlet]
    exact Swells.released (@swells_setLocked cfg Q s.hold hs ho hcrowded ns key v hlet.toWritable hQ)
  · rw [post_kvSet_stopped hns fun v hv hlet => hthrough ⟨v, hv, hlet⟩]
    exact (still_chains.refl s).swells hcrowded

theorem post_applyDefault (ns key : CString) (value : Option Bytes) (s : KvSt) :
    post (applyDefault cfg ns key value) s =
      if keyValid cfg ns = true then
        if outcome (kvGet cfg ns key 0) s = .error .ERR_NOT_FOUND then
          post (kvSet cfg ns key value) (post (kvGet cfg ns key 0) s)
        else post (kvGet cfg ns key 0) s
      else s := by
  unfold applyDefault
  rw [post_kvOpen]
  split
  · rw [post_then (run_attempt _ s)]
    cases outcome (kvGet cfg ns key 0) s with
    | ok r => rfl
    | error status => cases status <;> rfl
  · rfl

def Due (cfg : KvCfg) (filter : Option CString) (s : KvSt) (ns key : CString) (value : Bytes) : Prop :=
  (∃ d ∈ cfg.defaults, d.namespaceName = some ns ∧ d.key = some key ∧ d.value = some value) ∧
    filter.all (ns == ·) = true ∧ LetThrough cfg s ns key value ∧ stored cfg s.flash.cells (ns, key) = none ∧
    ¬ Taken cfg s.flash.cells (ns, key)

def Supplied (cfg : KvCfg) (filter : Option CString) (s : KvSt) : Prop :=
  s.ctx = none → ∀ ns key value, Due cfg filter s ns key value → s.heapRoom = true ∧ s.ioFree ≠ 1

structure Steady (cfg : KvCfg) (filter : Option CString) (Q : NsKey → Prop) (s t : KvSt) : Prop where
  confined : Confined AnySlot s t
  tidy : Tidy cfg s t
  sails : s.flash.Sound → Current cfg s → Supplied cfg filter s →
    (Sails cfg Q s t ∧ Awaits cfg s t) ∨ Swells cfg Q s t
  swells : s.flash.Sound → Orderly cfg s.flash.cells → Crowded cfg s.flash.cells → Swells cfg Q s t

theorem Supplied.along {filter : Option CString} {s t : KvSt} (h : Supplied cfg filter s) {P : UInt32 → Prop}
    (hst : Confined P s t) (hctx : t.ctx = none → s.ctx = none) (hawaits : Awaits cfg s t) : Supplied cfg filter t := by
  rintro hnone ns key value ⟨hd, hfilter, hlet, hstored, hfree⟩
  have hsame := hawaits hnone
  rw [hst.heapRoom, hst.ioFree]
  refine h (hctx hnone) ns key value ⟨hd, hfilter, hlet.along hst.ioFree, ?_, ?_⟩
  · rw [← hsame.stored]
    exact hstored
  · rw [← hsame.taken]
    exact hfree

theorem steady_chains (cfg : KvCfg) (filter : Option CString) (Q : NsKey → Prop) : Chains (Steady cfg filter Q) where
  refl s := ⟨(confined_chains _).refl s, (tidy_chains cfg).refl s, fun _ hcur _ => .inl ⟨(still_chains.refl s).sails hcur, fun _ => .refl _⟩,
    fun _ _ h => (still_chains.refl s).swells h⟩
  trans h k := by
    refine ⟨(confined_chains _).trans h.confined k.confined, (tidy_chains cfg).trans h.tidy k.tidy,
      fun hs hcur hsup => ?_, fun hs ho hcrowded => ?_⟩
    · have ht := h.confined.sound hs
      rcases h.sails hs hcur hsup with ⟨hsails, hawaits⟩ | hswells
      · rcases k.sails ht hsails.current (hsup.along h.confined hsails.unloaded hawaits) with ⟨hsails', hawaits'⟩ | hswells
        · exact .inl ⟨hsails.trans hsails', fun hctx => (hawaits (hsails'.unloaded hctx)).trans (hawaits' hctx)⟩
        · exact .inr (hsails.swells hswells)
      · exact .inr (hswells.trans (k.swells ht (h.tidy.orderly hcur.charted.orderly) hswells.crowded))
    · have hswells := h.swells hs ho hcrowded
      exact hswells.trans (k.swells (h.confined.sound hs) (h.tidy.orderly ho) hswells.crowded)

theorem steady_applyDefault (hpersist : cfg.persistIndex = true) {filter : Option CString} {Q : NsKey → Prop}
    {d : Default} (hd : d ∈ cfg.defaults) {ns key : CString} (hdns : d.namespaceName = some ns) (hdkey : d.key = some key)
    (hfilter : filter.all (ns == ·) = true) (hQ : ∀ k, Q k → k ≠ (ns, key)) (s : KvSt) :
    Keeps (Steady cfg filter Q) (applyDefault cfg ns key d.value) s := by
  have hget : Confined AnySlot s (post (kvGet cfg ns key 0) s) := keeps_kvGet cfg AnySlot ns key 0 s
  refine ⟨keeps_defaults (confined_throughout cfg) ns key d.value s, keeps_defaults (tidy_throughout cfg) ns key d.value s,
    fun hs hcur hsup => ?_, fun hs ho hcrowded => ?_⟩
  · rw [post_applyDefault]
    split
    · rename_i hns
      have hstill : Still s (post (kvGet cfg ns key 0) s) := still_kvGet ns key 0 s
      have hgot : Sails cfg Q s (post (kvGet cfg ns key 0) s) := hstill.sails hcur
      by_cases hout : outcome (kvGet cfg ns key 0) s = .error .ERR_NOT_FOUND
      · rw [if_pos hout]
        have hstored : ∀ v, LetThrough cfg (post (kvGet cfg ns key 0) s) ns key v →
            stored cfg s.flash.cells (ns, key) = none := by
          intro v hlet
          rw [kvGet_sound hs hcur.charted.orderly hlet.key_valid (hget.ioFree ▸ hlet.block)] at hout
          cases h : stored cfg s.flash.cells (ns, key) with
          | none => rfl
          | some value =>
            rw [h] at hout
            cases hout
        have hload : ∀ v, d.value = some v → LetThrough cfg (post (kvGet cfg ns key 0) s) ns key v →
            ¬ Taken cfg (post (kvGet cfg ns key 0) s).flash.cells (ns, key) →
            CanLoad (post (kvGet cfg ns key 0) s).hold := by
          intro v hv hlet hfree hctx
          have hdue : Due cfg filter (post (kvGet cfg ns key 0) s) ns key v := by
            refine ⟨⟨d, hd, hdns, hdkey, hv⟩, hfilter, hlet, ?_, hfree⟩
            rw [(hstill.awaits hctx).stored]
            exact hstored v hlet
          obtain ⟨hheap, hone⟩ := hsup.along hget hgot.unloaded hstill.awaits hctx ns key v hdue
          have hpos := hlet.block
          refine ⟨hheap, ?_⟩
          show (post (kvGet cfg ns key 0) s).ioFree - 1 ≠ 0
          omega
        rcases sails_kvSet (hget.sound hs) hgot.current hpersist hns hload hQ with ⟨hsails, hawaits⟩ | hswells
        · exact .inl ⟨hgot.trans hsails, fun hctx => (hstill.awaits (hsails.unloaded hctx)).trans (hawaits hctx)⟩
        · exact .inr (hgot.swells hswells)
      · rw [if_neg hout]
        exact .inl ⟨hgot, hstill.awaits⟩
    · exact .inl ⟨(still_chains.refl s).sails hcur, fun _ => .refl _⟩
  · rw [post_applyDefault]
    split
    · rename_i hns
      have hgot : Swells cfg Q s (post (kvGet cfg ns key 0) s) := (still_kvGet ns key 0 s).swells hcrowded
      have hgo : Orderly cfg (post (kvGet cfg ns key 0) s).flash.cells :=
        Tidy.orderly ((tidy_throughout cfg).get ns key 0 s) ho
      split
      · exact hgot.trans (swells_kvSet (hget.sound hs) hgo hgot.crowded hns hQ)
      · exact hgot
    · exact (still_chains.refl s).swells hcrowded

def Defaulted (cfg : KvCfg) (filter : Option CString) (k : NsKey) : Prop :=
  filter.all (k.1 == ·) = true ∧ ∃ d ∈ cfg.defaults, d.namespaceName = some k.1 ∧ d.key = some k.2

theorem steady_kvDefaultsApplyNs (hpersist : cfg.persistIndex = true) (filter : Option CString) {Q : NsKey → Prop}
    (hQ : ∀ k, Q k → ¬ Defaulted cfg filter k) (s : KvSt) :
    Keeps (Steady cfg filter Q) (kvDefaultsApplyNs cfg filter) s := by
  apply keeps_kvDefaultsApplyNs (steady_chains cfg filter Q) filter s
  intro d hd ns key hdns hdkey hfilter t _
  refine steady_applyDefault hpersist hd hdns hdkey hfilter (fun k hk => ?_) t
  rintro rfl
  exact hQ _ hk ⟨hfilter, d, hd, hdns, hdkey⟩

end ZephyrDB.Kv
