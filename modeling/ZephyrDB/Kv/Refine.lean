import Mathlib.Data.List.InsertIdx
import ZephyrDB.Kv.Clear
import ZephyrDB.Kv.Forget
import ZephyrDB.Kv.Table

/-!
The store against its table, over whole runs: a store that shows a table gives
every answer that the table gives, and shows it afterwards, across reboots too.
-/

set_option autoImplicit false

namespace ZephyrDB.Kv

open Lib

/-- The calls, through a handle on the namespace where they need one. -/
def Call.run (cfg : KvCfg) : Call → KvM Status Answer
  | .set ns key value => do
    kvOpen cfg ns
    kvSet cfg ns key value
    return .done
  | .get ns key capacity => do
    kvOpen cfg ns
    let r ← kvGet cfg ns key capacity
    return .value r.1 r.2
  | .delete ns key => do
    kvOpen cfg ns
    kvDelete cfg ns key
    return .done
  | .iterate ns keyCapacity valueCapacity => do
    kvOpen cfg ns
    let r ← kvIterate cfg ns keyCapacity valueCapacity
    return .items r.1 r.2
  | .reset ns => do
    kvOpen cfg ns
    kvResetNamespace cfg ns
    return .done
  | .defaults filter => do
    kvDefaultsApplyNs cfg filter
    return .done
  | .reboot => do
    modify fun s => .boot s.flash s.ioFree s.heapRoom
    return .done

/-- The answers to calls, each of which finds so many free blocks of the slab, and heap for the index. -/
def callAnswers (cfg : KvCfg) : KvSt → List (Nat × Call) → List (Except Status Answer)
  | _, [] => []
  | s, (blocks, call) :: calls =>
    outcome (call.run cfg) (s.given blocks true) :: callAnswers cfg (post (call.run cfg) (s.given blocks true)) calls

/-- The store after such calls. -/
def callRun (cfg : KvCfg) (s : KvSt) (calls : List (Nat × Call)) : KvSt :=
  calls.foldl (fun s c => post (c.2.run cfg) (s.given c.1 true)) s

variable {cfg : KvCfg}

structure Depicts (cfg : KvCfg) (T : Table) (s : KvSt) : Prop where
  sound : s.flash.Sound
  kept : Kept cfg s
  values : ∀ k, stored cfg s.flash.cells k = T.values k
  listed : (loaded cfg s.flash.cells).map (·.nsKey) = T.listed

structure Equipped (s : KvSt) : Prop where
  blocks : 2 ≤ s.ioFree
  heap : s.heapRoom = true

theorem Equipped.along {s t : KvSt} {P : UInt32 → Prop} (h : Equipped s) (hst : Confined P s t) : Equipped t :=
  ⟨hst.ioFree ▸ h.blocks, hst.heapRoom ▸ h.heap⟩

theorem Listed.loaded {cells : Cells} {entries : List IndexEntry} (ho : Orderly cfg cells) (hl : Listed cfg cells entries) :
    loaded cfg cells = entries := by
  have hentry : ∀ e ∈ entries, entryAt cfg cells e.id = some e := by
    intro e he
    obtain ⟨hid, hstored⟩ := hl.live e he
    obtain ⟨value, hvalue⟩ := Option.ne_none_iff_exists'.mp hstored
    have h := ho.entryAt hvalue
    rw [hid]
    apply h.trans
    apply congrArg some
    obtain ⟨ns, key, id⟩ := e
    obtain rfl : id = recordId cfg ns key := hid
    rfl
  unfold Kv.loaded
  rw [hl.agree]
  clear hl
  induction entries with
  | nil => rfl
  | cons e entries ih =>
    rw [List.map_cons, List.filterMap_cons_some (hentry e (by simp)), ih fun e' he' => hentry e' (by simp [he'])]

section Depicts
variable {T : Table} {s t : KvSt}

theorem Depicts.orderly (h : Depicts cfg T s) : Orderly cfg s.flash.cells := h.kept.filed.orderly

theorem Depicts.entries (h : Depicts cfg T s) {entries : List IndexEntry} (hctx : s.ctx = some entries) :
    entries.map (·.nsKey) = T.listed := by
  rw [← h.listed, (h.kept.listed entries hctx).loaded h.orderly]

theorem Depicts.of_entries {entries : List IndexEntry} (hs : s.flash.Sound) (hk : Kept cfg s)
    (hvalues : ∀ k, stored cfg s.flash.cells k = T.values k) (hctx : s.ctx = some entries)
    (hlisted : entries.map (·.nsKey) = T.listed) : Depicts cfg T s := by
  refine ⟨hs, hk, hvalues, ?_⟩
  rw [(hk.listed entries hctx).loaded hk.filed.orderly, hlisted]

theorem Depicts.given (h : Depicts cfg T s) (blocks : Nat) (heapRoom : Bool) : Depicts cfg T (s.given blocks heapRoom) :=
  ⟨h.sound, ⟨h.kept.filed, h.kept.listed⟩, h.values, h.listed⟩

theorem Depicts.boot (h : Depicts cfg T s) (blocks : Nat) (heapRoom : Bool) :
    Depicts cfg T (.boot s.flash blocks heapRoom) :=
  ⟨h.sound, ⟨h.kept.filed, fun _ hctx => by cases hctx⟩, h.values, h.listed⟩

theorem Depicts.taken (h : Depicts cfg T s) (k : NsKey) : Taken cfg s.flash.cells k ↔ T.Taken cfg k := by
  unfold Kv.Taken Table.Taken
  simp only [h.values]

theorem Depicts.still (h : Depicts cfg T s) (hst : Still s t) (hsound : t.flash.Sound) : Depicts cfg T t := by
  refine ⟨hsound, (hst.minds h.kept).kept, fun k => ?_, ?_⟩
  · rw [hst.cells]
    exact h.values k
  · rw [hst.cells]
    exact h.listed

theorem Depicts.live (h : Depicts cfg T s) {k : NsKey} (hk : k ∈ T.listed) : T.values k ≠ none := by
  rw [← h.listed] at hk
  obtain ⟨e, he, rfl⟩ := List.mem_map.mp hk
  obtain ⟨id, hid, hentry⟩ := List.mem_filterMap.mp he
  rw [← h.values]
  exact (h.orderly.of_entryAt (h.kept.filed.slots id hid) hentry).2.2

end Depicts

theorem context_entries {s : KvSt} (hs : s.flash.Sound) (hheap : s.heapRoom = true) (hio : s.ioFree ≠ 0) :
    ∃ t, (ctxGetOrAlloc cfg).run s = .ok true t ∧ t.ctx = some (s.ctx.getD (loaded cfg s.flash.cells)) := by
  obtain ⟨ctx, ioFree, heapRoom, flash⟩ := s
  cases ctx with
  | some entries => exact ⟨_, rfl, rfl⟩
  | none =>
    obtain rfl : heapRoom = true := hheap
    obtain ⟨t, cells, hrun, ht, -, -⟩ :=
      @loadPersisted_run cfg (fun _ => True) ⟨some [], ioFree, true, flash⟩ hs trivial rfl hio
    refine ⟨t, ?_, ht.ctx⟩
    exact run_then (a := (⟨none, ioFree, true, flash⟩ : KvSt)) rfl
      (run_then (t := (⟨some [], ioFree, true, flash⟩ : KvSt)) rfl (run_then hrun rfl))

theorem loaded_vacated {cells : Cells} (hf : Filed cfg cells) {k : NsKey} (hk : stored cfg cells k ≠ none) :
    (loaded cfg (Function.update cells (recordId cfg k.1 k.2) none)).map (·.nsKey) =
      ((loaded cfg cells).map (·.nsKey)).filter fun k' => decide (k' ≠ k) := by
  have hids : persistedIds cfg (Function.update cells (recordId cfg k.1 k.2) none) = persistedIds cfg cells :=
    persistedIds_congr (Function.update_of_ne (recordId_ne_index cfg k.1 k.2).symm _ _)
  have hslots := hf.slots
  unfold loaded
  rw [hids]
  generalize persistedIds cfg cells = ids at hslots
  induction ids with
  | nil => rfl
  | cons id ids ih =>
    have hrest := ih fun id' hid => hslots id' (by simp [hid])
    by_cases hid : id = recordId cfg k.1 k.2
    · obtain ⟨value, hvalue⟩ := Option.ne_none_iff_exists'.mp hk
      have hgone : entryAt cfg (Function.update cells (recordId cfg k.1 k.2) none) id = none := by
        rw [entryAt, hid, Function.update_self]
        rfl
      have hentry := hf.orderly.entryAt hvalue
      rw [← hid] at hentry
      rw [List.filterMap_cons_none hgone, List.filterMap_cons_some hentry, List.map_cons,
        List.filter_cons_of_neg (by simp [IndexEntry.nsKey]), hrest]
    · have hsame : entryAt cfg (Function.update cells (recordId cfg k.1 k.2) none) id = entryAt cfg cells id := by
        rw [entryAt, Function.update_of_ne hid]
        rfl
      cases hentry : entryAt cfg cells id with
      | none => rw [List.filterMap_cons_none (hsame.trans hentry), List.filterMap_cons_none hentry, hrest]
      | some e =>
        have hne : e.nsKey ≠ k := by
          rintro rfl
          exact hid (hf.orderly.of_entryAt (hslots id (by simp)) hentry).2.1.symm
        rw [List.filterMap_cons_some (hsame.trans hentry), List.filterMap_cons_some hentry, List.map_cons, List.map_cons,
          List.filter_cons_of_pos (by simpa using hne), hrest]

theorem dropped_keys {entries : List IndexEntry} (hnodup : (entries.map (·.nsKey)).Nodup) (ns key : CString) :
    (dropped ns key entries).map (·.nsKey) = (entries.map (·.nsKey)).filter fun k => decide (k ≠ (ns, key)) := by
  unfold dropped
  cases hfind : findEntry entries ns key with
  | none =>
    refine (List.filter_eq_self.mpr fun k hk => ?_).symm
    rw [decide_eq_true_eq]
    rintro rfl
    exact findEntry_none.mp hfind hk
  | some i =>
    obtain ⟨hi, hkey⟩ := findEntry_some hfind
    have hi' : i < (entries.map (·.nsKey)).length := by rwa [List.length_map]
    have hget : (entries.map (·.nsKey))[i] = (ns, key) := by rw [List.getElem_map, hkey]
    show (entries.eraseIdx i).map (·.nsKey) = _
    rw [← List.eraseIdx_map, ← hget, ← hnodup.erase_getElem i hi', hnodup.erase_eq_filter]
    exact List.filter_congr fun k _ => Bool.eq_iff_iff.mpr (by simp)

section Calls
variable {T : Table} {s : KvSt} (hpersist : cfg.persistIndex = true) (hd : Depicts cfg T s)
include hpersist hd

theorem context_depicts (hheap : s.heapRoom = true) (hio : s.ioFree ≠ 0) :
    ∃ t entries, (ctxGetOrAlloc cfg).run s = .ok true t ∧ t.ctx = some entries ∧ Depicts cfg T t ∧
      Confined (IndexSlot cfg) s t := by
  have hconf := keeps_ctxGetOrAlloc cfg s
  obtain ⟨u, hload, hu⟩ := @context_entries cfg s hd.sound hheap hio
  rcases minds_context hd.sound hd.kept hpersist (fun _ _ _ => hio) with ⟨-, -, hroom⟩ | ⟨t, entries, hrun, hctx, hminds, hsame⟩
  · rw [hheap] at hroom
    cases hroom
  · obtain rfl : t = u := by
      rw [hrun] at hload
      exact (EStateM.Result.ok.inj hload).2
    rw [Keeps, post_of_run hrun] at hconf
    refine ⟨t, entries, hrun, hctx, .of_entries (hconf.sound hd.sound) hminds.kept (fun k => ?_) hctx ?_, hconf⟩
    · rw [hsame.stored]
      exact hd.values k
    · rw [hctx, Option.some.injEq] at hu
      rw [hu]
      cases hentries : s.ctx with
      | none => exact hd.listed
      | some entries' => exact hd.entries hentries

theorem tracked_entries (hheap : s.heapRoom = true) (hio : s.ioFree ≠ 0) (ns key : CString) (value : Bytes) :
    ∃ entries, (tracked cfg s ns key).ctx = some entries ∧
      entries.map (·.nsKey) = (T.put cfg (ns, key) value).listed := by
  have hcounted : Depicts cfg T (s.counted (.read (recordId cfg ns key))) := hd.still (still_counted s _) hd.sound
  obtain ⟨u, entries, hrun, hu, hdu, -⟩ := context_depicts hpersist hcounted hheap hio
  have hlisted := hdu.entries hu
  have htrack := trackSet_loaded hrun hu ns key (recordId cfg ns key)
  have hlen : entries.length = T.listed.length := by rw [← hlisted, List.length_map]
  unfold tracked Table.put
  rw [← hlisted, List.length_map]
  dsimp only
  cases hfind : findEntry entries ns key with
  | some i =>
    obtain ⟨hi, hkey⟩ := findEntry_some hfind
    simp only [hfind] at htrack
    rw [post_of_run htrack, if_pos (.inl (List.mem_map.mpr ⟨_, List.getElem_mem hi, hkey⟩))]
    refine ⟨_, rfl, List.ext_getElem (by simp) fun j h₁ h₂ => ?_⟩
    rw [List.getElem_map, List.getElem_map, List.getElem_modify]
    split <;> rfl
  | none =>
    simp only [hfind] at htrack
    by_cases hfull : cfg.indexMax ≤ entries.length
    · rw [if_pos hfull] at htrack
      rw [post_of_run htrack, if_pos (.inr hfull)]
      exact ⟨entries, hu, rfl⟩
    · rw [if_neg hfull] at htrack
      rw [post_of_run htrack, if_neg (not_or.mpr ⟨findEntry_none.mp hfind, hfull⟩)]
      refine ⟨_, (storePersisted_recorded rfl).ctx, ?_⟩
      rw [List.map_append]
      rfl

theorem kvSet_depicts (he : Equipped s) {ns key : CString} (hns : keyValid cfg ns = true) (value : Option Bytes) :
    outcome (kvSet cfg ns key value) s = (T.set cfg (ns, key) value).1 ∧
      Depicts cfg (T.set cfg (ns, key) value).2 (post (kvSet cfg ns key value) s) := by
  have hio : s.ioFree ≠ 0 := by have := he.blocks; omega
  have hconf : Confined AnySlot s (post (kvSet cfg ns key value) s) := keeps_kvSet ns key value s
  cases value with
  | none => exact ⟨rfl, hd⟩
  | some v =>
    unfold Table.set
    dsimp only
    rw [← recordBuild_length ns key v]
    by_cases hkey : keyValid cfg key = true
    swap
    · rw [if_pos (Bool.eq_false_iff.mpr hkey)]
      have hrun : (kvSet cfg ns key (some v)).run s = .error .ERR_INVAL s := by
        simp only [kvSet, hkey]
        rfl
      rw [outcome_of_error hrun, post_of_error hrun]
      exact ⟨rfl, hd⟩
    rw [if_neg (by simp [hkey])]
    by_cases hfits : cfg.blockSize < (recordBuild ns key v).length
    · have hrun : (kvSet cfg ns key (some v)).run s = .error .ERR_NOMEM s := by
        simp only [kvSet, hkey, hfits, Bool.not_true, Bool.false_eq_true, if_false, if_true]
        rfl
      rw [if_pos hfits, outcome_of_error hrun, post_of_error hrun]
      exact ⟨rfl, hd⟩
    rw [if_neg hfits]
    have hlet : LetThrough cfg s ns key v := ⟨⟨hns, hkey, Nat.not_lt.mp hfits⟩, hio⟩
    obtain ⟨htaken, hfree⟩ := kvSet_sound hd.sound hd.orderly hlet
    by_cases h : Taken cfg s.flash.cells (ns, key)
    · obtain ⟨hout, -⟩ := htaken h
      have hstill : Still s (post (kvSet cfg ns key (some v)) s) := by
        rw [post_kvSet_through hlet, (setLocked_sound (s := s.hold) hd.sound hd.orderly hlet.toWritable).1 h |>.2]
        exact ⟨rfl, rfl, rfl⟩
      rw [if_pos ((hd.taken _).mp h)]
      exact ⟨hout, hd.still hstill (hconf.sound hd.sound)⟩
    · obtain ⟨hout, hvalues⟩ := hfree h
      rw [if_neg fun ht => h ((hd.taken _).mpr ht)]
      refine ⟨hout, ?_⟩
      have hblock : s.hold.ioFree ≠ 0 := by
        have := he.blocks
        show s.ioFree - 1 ≠ 0
        omega
      obtain ⟨hminds, -⟩ := @minds_kvSet cfg s hd.sound hd.kept hpersist ns key (some v) hns
        fun _ _ _ _ _ _ _ => hblock
      obtain ⟨entries, hctx, hlisted⟩ :=
        tracked_entries (s := s.hold) hpersist (hd.given (s.ioFree - 1) s.heapRoom) he.heap hblock ns key v
      have hpost : (post (kvSet cfg ns key (some v)) s).ctx = some entries := by
        rw [post_kvSet_through hlet, (setLocked_sound (s := s.hold) hd.sound hd.orderly hlet.toWritable).2 h |>.2]
        exact hctx
      refine .of_entries (hconf.sound hd.sound) hminds.kept (fun k => ?_) hpost hlisted
      rw [hvalues, hd.values]
      exact (Table.put_values cfg T (ns, key) v k).symm

theorem kvDelete_depicts (he : Equipped s) (ns key : CString) :
    outcome (kvDelete cfg ns key) s = (T.delete cfg (ns, key)).1 ∧
      Depicts cfg (T.delete cfg (ns, key)).2 (post (kvDelete cfg ns key) s) := by
  have hio : s.ioFree ≠ 0 := by have := he.blocks; omega
  have hconf : Confined AnySlot s (post (kvDelete cfg ns key) s) := confined_kvDelete ns key s
  have hminds : Minds cfg s (post (kvDelete cfg ns key) s) := minds_kvDelete hd.sound hd.kept hpersist ns key
  unfold Table.delete
  by_cases hkey : keyValid cfg key = true
  swap
  · have hrun : (kvDelete cfg ns key).run s = .error .ERR_INVAL s := by
      simp only [kvDelete, hkey]
      rfl
    rw [if_pos (Bool.eq_false_iff.mpr hkey), outcome_of_error hrun, post_of_error hrun]
    exact ⟨rfl, hd⟩
  rw [if_neg (by simp [hkey])]
  obtain ⟨habsent, hpresent⟩ := @kvDelete_sound cfg s hd.sound hd.orderly ns key hkey hio
  have hpost : post (kvDelete cfg ns key) s = (post (deleteLocked cfg ns key) s.hold).release := by
    simp only [kvDelete, hkey, Bool.not_true, Bool.false_eq_true, if_false]
    rw [post_withBlock hio]
  cases hstored : stored cfg s.flash.cells (ns, key) with
  | none =>
    have hrun := deleteLocked_absent (s := s.hold) hd.sound hd.orderly hstored
    rw [if_pos ((hd.values _).symm.trans hstored)]
    refine ⟨(habsent hstored).1, hd.still ?_ (hconf.sound hd.sound)⟩
    rw [hpost, post_of_error hrun]
    exact ⟨rfl, rfl, rfl⟩
  | some value =>
    have hsome : stored cfg s.flash.cells (ns, key) ≠ none := by rw [hstored]; simp
    obtain ⟨hout, hvalues⟩ := hpresent hsome
    rw [if_neg fun h => hsome ((hd.values _).trans h)]
    refine ⟨hout, ?_⟩
    have hleft : ∀ k, stored cfg (post (kvDelete cfg ns key) s).flash.cells k = (T.erase (ns, key)).values k := fun k => by
      rw [hvalues, hd.values]
      exact (Table.erase_values T (ns, key) k).symm
    cases hctx : s.ctx with
    | some entries =>
      have hdeleting := @kvDelete_deleting cfg ns key s
      rw [hout] at hdeleting
      cases hdeleting with
      | gone _ _ ctx _ _ _ =>
        rw [hctx, Option.map_some] at ctx
        refine .of_entries (hconf.sound hd.sound) hminds.kept hleft ctx ?_
        rw [dropped_keys ((hd.kept.listed entries hctx).keys_nodup hd.kept.filed), hd.entries hctx]
        rfl
    | none =>
      -- the stored index still lists the id, and a load steps over it
      have hrun := deleteLocked_present (s := s.hold) hd.sound hd.orderly hstored
      rw [trackDelete_eq, show (s.hold.removed (recordId cfg ns key)).ctx = none from hctx] at hrun
      have hcells : (post (kvDelete cfg ns key) s).flash.cells =
          Function.update s.flash.cells (recordId cfg ns key) none := by
        rw [hpost, post_of_run hrun]
        rfl
      refine ⟨hconf.sound hd.sound, hminds.kept, hleft, ?_⟩
      rw [hcells, loaded_vacated (k := (ns, key)) hd.kept.filed hsome, hd.listed]
      rfl

omit hpersist in
theorem kvGet_depicts (hio : s.ioFree ≠ 0) (ns key : CString) (capacity : Nat) :
    outcome (kvGet cfg ns key capacity) s = T.get cfg (ns, key) capacity ∧
      Depicts cfg T (post (kvGet cfg ns key capacity) s) := by
  have hconf : Confined AnySlot s (post (kvGet cfg ns key capacity) s) := keeps_kvGet cfg AnySlot ns key capacity s
  refine ⟨?_, hd.still (still_kvGet ns key capacity s) (hconf.sound hd.sound)⟩
  unfold Table.get
  by_cases hkey : keyValid cfg key = true
  · rw [if_neg (by simp [hkey]), kvGet_sound hd.sound hd.orderly hkey hio, hd.values]
    cases T.values (ns, key) <;> rfl
  · have hrun : (kvGet cfg ns key capacity).run s = .error .ERR_INVAL s := by
      simp only [kvGet, hkey]
      rfl
    rw [if_pos (Bool.eq_false_iff.mpr hkey), outcome_of_error hrun]

theorem applyEntry_depicts (he : Equipped s) (filter : Option CString) (d : Default) :
    outcome (applyEntry cfg filter d) s = (T.seed cfg filter d).1 ∧
      Depicts cfg (T.seed cfg filter d).2 (post (applyEntry cfg filter d) s) := by
  have hio : s.ioFree ≠ 0 := by have := he.blocks; omega
  unfold applyEntry Table.seed
  cases d.namespaceName with
  | none => exact ⟨rfl, hd⟩
  | some ns =>
    cases d.key with
    | none => exact ⟨rfl, hd⟩
    | some key =>
      dsimp only
      by_cases hfilter : filter.all (ns == ·) = true
      swap
      · rw [if_neg hfilter, if_neg hfilter]
        exact ⟨rfl, hd⟩
      rw [if_pos hfilter, if_pos hfilter, outcome_applyDefault, post_applyDefault]
      by_cases hns : keyValid cfg ns = true
      swap
      · rw [if_neg hns, if_neg hns, if_pos (Bool.eq_false_iff.mpr hns)]
        exact ⟨rfl, hd⟩
      rw [if_pos hns, if_pos hns, if_neg (by simp [hns])]
      obtain ⟨hout, hd'⟩ := kvGet_depicts hd hio ns key 0
      have he' : Equipped (post (kvGet cfg ns key 0) s) := he.along (keeps_kvGet cfg AnySlot ns key 0 s)
      rw [hout]
      cases hgot : T.get cfg (ns, key) 0 with
      | ok r => exact ⟨rfl, hd'⟩
      | error status =>
        by_cases hmissing : status = .ERR_NOT_FOUND
        · subst hmissing
          rw [if_pos rfl]
          exact kvSet_depicts hpersist hd' he' hns d.value
        · rw [if_neg fun h => hmissing (Except.error.inj h)]
          cases status <;> first | exact absurd rfl hmissing | exact ⟨rfl, hd'⟩

theorem applyDefaults_depicts (he : Equipped s) (filter : Option CString) (ds : List Default) (first : Status) :
    ∃ t, (applyDefaults cfg filter ds first).run s = .ok (Table.seedAll cfg filter ds first T).1 t ∧
      Depicts cfg (Table.seedAll cfg filter ds first T).2 t := by
  induction ds generalizing first T s with
  | nil => exact ⟨s, rfl, hd⟩
  | cons d ds ih =>
    obtain ⟨hout, hd'⟩ := applyEntry_depicts hpersist hd he filter d
    have he' : Equipped (post (applyEntry cfg filter d) s) := he.along (applyEntry_confined cfg filter d hd.sound.answers)
    obtain ⟨t, hrun, ht⟩ := ih hd' he' (firstError first (T.seed cfg filter d).1)
    refine ⟨t, ?_, ht⟩
    rw [applyDefaults_cons, hout]
    exact hrun

theorem kvDefaultsApplyNs_depicts (he : Equipped s) (filter : Option CString) :
    outcome (kvDefaultsApplyNs cfg filter) s = (T.applyDefaults cfg filter).1 ∧
      Depicts cfg (T.applyDefaults cfg filter).2 (post (kvDefaultsApplyNs cfg filter) s) := by
  obtain ⟨t, hrun, ht⟩ := applyDefaults_depicts hpersist hd he filter cfg.defaults .OK
  unfold Table.applyDefaults
  rw [post_kvDefaultsApplyNs, post_of_run hrun]
  refine ⟨?_, ht⟩
  unfold kvDefaultsApplyNs
  rw [outcome_then hrun]
  dsimp only
  split <;> rfl

end Calls

theorem Table.clear_erase {T : Table} {k : NsKey} (hk : k ∈ T.listed) : (T.erase k).clear k.1 = T.clear k.1 := by
  have hmem : ∀ k', k' ∈ (T.erase k).listed ↔ k' ∈ T.listed ∧ k' ≠ k := fun k' => by simp
  unfold Table.clear
  congr 1
  · funext k'
    simp only [hmem, Table.erase_values]
    by_cases heq : k' = k
    · subst heq
      simp [hk]
    · simp [heq]
  · rw [Table.erase_listed, List.filter_filter]
    apply List.filter_congr
    intro k' _
    by_cases hns : k'.1 = k.1
    · simp [hns]
    · have hne : k' ≠ k := fun h => hns (congrArg Prod.fst h)
      simp [hns, hne]

theorem Table.clear_done {T : Table} {ns : CString} (h : ∀ k ∈ T.listed, k.1 ≠ ns) : T.clear ns = T := by
  unfold Table.clear
  congr 1
  · funext k
    rw [if_neg fun hk => h k hk.1 hk.2]
  · exact List.filter_eq_self.mpr fun k hk => decide_eq_true (h k hk)

section Reset
variable {T : Table} {s : KvSt} (hpersist : cfg.persistIndex = true)
include hpersist

theorem resetKeys_depicts (hd : Depicts cfg T s) (he : Equipped s) {ns : CString} {entries : List IndexEntry}
    (hctx : s.ctx = some entries) {fuel : Nat} (hfuel : entries.length < fuel) :
    ∃ t, (resetKeys cfg ns fuel 0 .OK).run s = .ok .OK t ∧ Depicts cfg (T.clear ns) t ∧ Equipped t := by
  induction fuel generalizing T s entries with
  | zero => exact absurd hfuel (Nat.not_lt_zero _)
  | succ fuel ih =>
    have hgetD : s.ctx.getD [] = entries := by rw [hctx]; rfl
    cases hnext : nextKeyInNs entries ns 0 with
    | none =>
      refine ⟨s, resetKeys_stop (by rw [hgetD]; exact hnext) fuel .OK, ?_, he⟩
      rw [Table.clear_done fun k hk hns => ?_]
      · exact hd
      · rw [← hd.entries hctx] at hk
        obtain ⟨e, hmem, rfl⟩ := List.mem_map.mp hk
        have hnone := ahead_none hnext
        unfold ahead at hnone
        exact List.filter_eq_nil_iff.mp hnone e hmem (beq_iff_eq.mpr hns)
    | some i =>
      obtain ⟨-, hi, e, hentry, hns⟩ := entry_at hnext
      have hround := @resetKeys_round cfg ns 0 i s e (by rw [hgetD]; exact hnext) (by rw [hgetD]; exact hentry) fuel .OK
      have hmem : e ∈ entries := List.mem_of_getElem? hentry
      have hkey : (ns, e.key) ∈ T.listed := by
        rw [← hd.entries hctx, ← hns]
        exact List.mem_map_of_mem hmem
      have hvalue := hd.live hkey
      have hvalid : keyValid cfg e.key = true := by
        rw [← hd.values] at hvalue
        obtain ⟨value, hv⟩ := Option.ne_none_iff_exists'.mp hvalue
        exact (hd.orderly.record hv).2.2.1
      have hdelete : T.delete cfg (ns, e.key) = (.ok (), T.erase (ns, e.key)) := by
        unfold Table.delete
        rw [if_neg (by simp [hvalid]), if_neg hvalue]
      obtain ⟨hout, hd'⟩ := kvDelete_depicts hpersist hd he ns e.key
      rw [hdelete] at hout hd'
      rw [hout] at hround
      have he' : Equipped (post (kvDelete cfg ns e.key) s) := he.along (confined_kvDelete ns e.key s)
      have hctx' : (post (kvDelete cfg ns e.key) s).ctx = some (dropped ns e.key entries) := by
        have hdeleting := @kvDelete_deleting cfg ns e.key s
        rw [hout] at hdeleting
        cases hdeleting with
        | gone _ _ ctx _ _ _ => rw [ctx, hctx, Option.map_some]
      have hless := dropped_length hmem
      rw [hns] at hless
      obtain ⟨t, hrun, ht, het⟩ := ih hd' he' hctx' (by omega)
      rw [show (T.erase (ns, e.key)).clear ns = T.clear ns from Table.clear_erase hkey] at ht
      exact ⟨t, hround.trans hrun, ht, het⟩

theorem kvResetNamespace_depicts (hd : Depicts cfg T s) (he : Equipped s) (ns : CString) :
    outcome (kvResetNamespace cfg ns) s = ((T.clear ns).applyDefaults cfg (some ns)).1 ∧
      Depicts cfg ((T.clear ns).applyDefaults cfg (some ns)).2 (post (kvResetNamespace cfg ns) s) := by
  have hio : s.ioFree ≠ 0 := by have := he.blocks; omega
  obtain ⟨t, entries, hload, hctx, ht, hconf⟩ := context_depicts hpersist hd he.heap hio
  have hget : t.ctx.getD [] = entries := by rw [hctx]; rfl
  obtain ⟨u, hloop, hu, heu⟩ := @resetKeys_depicts cfg T t hpersist ht (he.along hconf) ns entries hctx _ (Nat.lt_succ_self _)
  obtain ⟨hout, hd'⟩ := kvDefaultsApplyNs_depicts hpersist hu heu (some ns)
  rw [← hget] at hloop
  rw [post_kvResetNamespace hload, post_of_run hloop]
  refine ⟨?_, hd'⟩
  rw [outcome_kvResetNamespace hload hloop, hout]
  unfold Table.applyDefaults
  dsimp only
  cases (Table.seedAll cfg (some ns) cfg.defaults .OK (T.clear ns)).1 <;> rfl

end Reset

section Iterate
variable {T : Table} {s : KvSt} {ns : CString} {keyCapacity : Nat} (hcap : keyCapacity ≠ 0) (valueCapacity : Nat)
include hcap

/-- One call of the iterator: it stops at the next key of the namespace, whether there is room for that or not. -/
theorem kvIterNext_depicts (hd : Depicts cfg T s) (hio : s.ioFree ≠ 0) {entries : List IndexEntry}
    (hctx : s.ctx = some entries) (pos : Nat) :
    (nextKeyInNs entries ns pos = none → (kvIterNext cfg ns keyCapacity valueCapacity pos).run s =
        .ok (max pos entries.length, .error .ERR_NOT_FOUND) s) ∧
    (∀ i e, nextKeyInNs entries ns pos = some i → entries[i]? = some e → e.namespaceName = ns →
      (keyCapacity < e.key.val.length + 1 → (kvIterNext cfg ns keyCapacity valueCapacity pos).run s =
        .ok (i + 1, .error .ERR_NOMEM) s) ∧
      (¬ keyCapacity < e.key.val.length + 1 →
        let value := (T.values e.nsKey).getD []
        (kvIterNext cfg ns keyCapacity valueCapacity pos).run s =
          .ok (i + 1, .ok (e.key, value.take valueCapacity, value.length))
            (post (kvGet cfg ns e.key valueCapacity) s))) := by
  have hnext : (kvIterNext cfg ns keyCapacity valueCapacity pos).run s =
      (iterScan cfg ns keyCapacity valueCapacity ((s.ctx.getD []).length + 1) pos).run s := by
    unfold kvIterNext
    rw [if_neg hcap]
    rfl
  rw [hnext]
  refine ⟨fun h => iterScan_end hctx h valueCapacity _, fun i e h he hns => ?_⟩
  have hkey : e.nsKey ∈ T.listed := by
    rw [← hd.entries hctx]
    exact List.mem_map_of_mem (List.mem_of_getElem? he)
  obtain ⟨value, hvalue⟩ := Option.ne_none_iff_exists'.mp (hd.live hkey)
  have hstored : stored cfg s.flash.cells e.nsKey = some value := (hd.values _).trans hvalue
  have hvalid : keyValid cfg e.key = true := (hd.orderly.record hstored).2.2.1
  have hempty : e.key.val.isEmpty = false := by simpa using (keyValid_iff.mp hvalid).1
  refine ⟨fun hshort => ?_, fun hroom => ?_⟩
  · refine run_then (a := s) rfl ?_
    simp only [hctx, h, he, hempty, Bool.false_eq_true, if_false, if_pos hshort]
    rfl
  · intro v
    have hv : v = value := by
      show (T.values e.nsKey).getD [] = value
      rw [hvalue]
      rfl
    have hown : (ns, e.key) = e.nsKey := by rw [← hns]; rfl
    have hget : outcome (kvGet cfg ns e.key valueCapacity) s = .ok (value.take valueCapacity, value.length) := by
      rw [kvGet_sound hd.sound hd.orderly hvalid hio, hown, hstored]
    rw [hv]
    exact (iterScan_round hctx h he hempty (by omega)).1 hget

theorem kvIterWalk_depicts (hd : Depicts cfg T s) (hio : s.ioFree ≠ 0) {entries : List IndexEntry}
    (hctx : s.ctx = some entries) {calls pos : Nat} (hcalls : (ahead entries ns pos).length < calls) :
    ∃ t, (kvIterWalk cfg ns keyCapacity valueCapacity calls pos).run s =
        .ok (T.items keyCapacity valueCapacity ((ahead entries ns pos).map (·.nsKey))) t ∧ Depicts cfg T t := by
  induction calls generalizing pos s with
  | zero => exact absurd hcalls (Nat.not_lt_zero _)
  | succ calls ih =>
    obtain ⟨hend, hitem⟩ := @kvIterNext_depicts cfg T s ns keyCapacity hcap valueCapacity hd hio entries hctx pos
    cases h : nextKeyInNs entries ns pos with
    | none =>
      rw [ahead_none h]
      exact ⟨s, run_then (hend h) rfl, hd⟩
    | some i =>
      obtain ⟨e, he, hns, hahead⟩ := ahead_some h
      obtain ⟨hshort, hroom⟩ := hitem i e h he hns
      rw [hahead, List.length_cons] at hcalls
      rw [hahead, List.map_cons, Table.items]
      by_cases hcapacity : keyCapacity < e.nsKey.2.val.length + 1
      · rw [if_pos hcapacity]
        exact ⟨s, run_then (hshort hcapacity) rfl, hd⟩
      · rw [if_neg hcapacity]
        obtain ⟨-, hd'⟩ := kvGet_depicts hd hio ns e.key valueCapacity
        have hconf : Confined AnySlot s (post (kvGet cfg ns e.key valueCapacity) s) :=
          keeps_kvGet cfg AnySlot ns e.key valueCapacity s
        have hrest : (ahead entries ns (i + 1)).length < calls := by omega
        obtain ⟨t, hrun, ht⟩ := ih hd' (hconf.ioFree ▸ hio) ((still_kvGet ns e.key valueCapacity s).ctx.trans hctx) hrest
        exact ⟨t, run_then (hroom hcapacity) (run_then hrun rfl), ht⟩

end Iterate

theorem kvIterate_depicts (hpersist : cfg.persistIndex = true) {T : Table} {s : KvSt} (hd : Depicts cfg T s)
    (he : Equipped s) (ns : CString) (keyCapacity valueCapacity : Nat) :
    ∃ t, (kvIterate cfg ns keyCapacity valueCapacity).run s = .ok (T.iterate ns keyCapacity valueCapacity) t ∧
      Depicts cfg T t := by
  have hio : s.ioFree ≠ 0 := by have := he.blocks; omega
  obtain ⟨u, entries, hload, hctx, hu, hconf⟩ := context_depicts hpersist hd he.heap hio
  have hopen : (kvIterOpen cfg).run s = .ok () u := run_then hload rfl
  unfold Table.iterate
  by_cases hcap : keyCapacity = 0
  · rw [if_pos hcap]
    refine ⟨u, run_then hopen (run_then (a := u) rfl ?_), hu⟩
    subst hcap
    rfl
  · rw [if_neg hcap]
    have hlen : (ahead entries ns 0).length < (u.ctx.getD []).length + 1 := by
      rw [hctx]
      exact Nat.lt_succ_of_le (List.length_filter_le _ _)
    obtain ⟨t, hrun, ht⟩ := @kvIterWalk_depicts cfg T u ns keyCapacity hcap valueCapacity hu (hconf.ioFree ▸ hio) entries hctx _ 0 hlen
    refine ⟨t, run_then hopen (run_then (a := u) rfl ?_), ht⟩
    rw [hrun, ← hu.entries hctx, List.filter_map]
    rfl

theorem opened_depicts {α : Type} {T : Table} {s : KvSt} (hd : Depicts cfg T s) {ns : CString} {m : KvM Status α}
    {r : Except Status α × Table} (f : α → Answer)
    (h : keyValid cfg ns = true → outcome m s = r.1 ∧ Depicts cfg r.2 (post m s)) :
    let call : KvM Status Answer := kvOpen cfg ns >>= fun _ => m >>= fun a => pure (f a)
    outcome call s = (Table.opened cfg T ns f r).1 ∧ Depicts cfg (Table.opened cfg T ns f r).2 (post call s) := by
  intro call
  have hout : outcome call s = _ := outcome_kvOpen
  have hpost : post call s = _ := post_kvOpen
  rw [hout, hpost, outcome_map, post_map]
  unfold Table.opened
  by_cases hns : keyValid cfg ns = true
  · obtain ⟨hr, hd'⟩ := h hns
    rw [if_pos hns, if_pos hns, if_pos hns, hr]
    exact ⟨rfl, hd'⟩
  · rw [if_neg hns, if_neg hns, if_neg hns]
    exact ⟨rfl, hd⟩

section Runs
variable (hpersist : cfg.persistIndex = true)
include hpersist

theorem call_depicts {T : Table} {s : KvSt} (hd : Depicts cfg T s) (he : Equipped s) (call : Call) :
    outcome (call.run cfg) s = (T.step cfg call).1 ∧ Depicts cfg (T.step cfg call).2 (post (call.run cfg) s) := by
  have hio : s.ioFree ≠ 0 := by have := he.blocks; omega
  cases call with
  | set ns key value => exact opened_depicts hd _ fun hns => kvSet_depicts hpersist hd he hns value
  | get ns key capacity =>
    exact opened_depicts (m := kvGet cfg ns key capacity) (r := (T.get cfg (ns, key) capacity, T)) hd
      (fun r => Answer.value r.1 r.2) fun _ => kvGet_depicts hd hio ns key capacity
  | delete ns key => exact opened_depicts hd _ fun _ => kvDelete_depicts hpersist hd he ns key
  | iterate ns keyCapacity valueCapacity =>
    refine opened_depicts (m := kvIterate cfg ns keyCapacity valueCapacity)
      (r := (.ok (T.iterate ns keyCapacity valueCapacity), T)) hd (fun r => Answer.items r.1 r.2) fun _ => ?_
    obtain ⟨t, hrun, ht⟩ := kvIterate_depicts hpersist hd he ns keyCapacity valueCapacity
    rw [outcome_of_run hrun, post_of_run hrun]
    exact ⟨rfl, ht⟩
  | reset ns => exact opened_depicts hd _ fun _ => kvResetNamespace_depicts hpersist hd he ns
  | defaults filter =>
    obtain ⟨hout, hd'⟩ := kvDefaultsApplyNs_depicts hpersist hd he filter
    unfold Call.run Table.step
    rw [outcome_map, post_map, hout]
    exact ⟨rfl, hd'⟩
  | reboot => exact ⟨rfl, hd.boot s.ioFree s.heapRoom⟩

theorem callAnswers_depicts {T : Table} {s : KvSt} (hd : Depicts cfg T s) {calls : List (Nat × Call)}
    (hblocks : ∀ c ∈ calls, 2 ≤ c.1) :
    callAnswers cfg s calls = T.answers cfg (calls.map (·.2)) := by
  induction calls generalizing T s with
  | nil => rfl
  | cons c calls ih =>
    obtain ⟨blocks, call⟩ := c
    have he : Equipped (s.given blocks true) := ⟨hblocks (blocks, call) (by simp), rfl⟩
    obtain ⟨hout, hd'⟩ := call_depicts hpersist (hd.given blocks true) he call
    have hrest := ih hd' fun c hc => hblocks c (by simp [hc])
    rw [List.map_cons, callAnswers, Table.answers, hout, hrest]

theorem callRun_depicts {T : Table} {s : KvSt} (hd : Depicts cfg T s) {calls : List (Nat × Call)}
    (hblocks : ∀ c ∈ calls, 2 ≤ c.1) : Depicts cfg (T.run cfg (calls.map (·.2))) (callRun cfg s calls) := by
  induction calls generalizing T s with
  | nil => exact hd
  | cons c calls ih =>
    obtain ⟨blocks, call⟩ := c
    have he : Equipped (s.given blocks true) := ⟨hblocks (blocks, call) (by simp), rfl⟩
    exact ih (call_depicts hpersist (hd.given blocks true) he call).2 fun c hc => hblocks c (by simp [hc])

end Runs

theorem Depicts.empty {flash : IdStore} (hs : flash.Sound) (hempty : flash.cells = fun _ => none) (ioFree : Nat)
    (heapRoom : Bool) : Depicts cfg .empty (.boot flash ioFree heapRoom) := by
  have hminded : Minded cfg (.boot flash ioFree heapRoom) := .boot hs hempty ioFree heapRoom
  refine ⟨hs, hminded.kept, fun k => ?_, ?_⟩
  · unfold stored
    rw [show (KvSt.boot flash ioFree heapRoom).flash.cells = fun _ => none from hempty]
    rfl
  · unfold loaded persistedIds
    rw [show (KvSt.boot flash ioFree heapRoom).flash.cells = fun _ => none from hempty]
    split <;> rfl

/-- Over a backend that accepts every operation, with two free blocks and heap for the index at each call, an
empty store gives every answer that an empty table gives, in every run of sets, gets, deletes, iterations, resets,
defaults and reboots. -/
theorem answers_of_table (hpersist : cfg.persistIndex = true) {flash : IdStore} (hs : flash.Sound)
    (hempty : flash.cells = fun _ => none) (ioFree : Nat) (heapRoom : Bool) {calls : List (Nat × Call)}
    (hblocks : ∀ c ∈ calls, 2 ≤ c.1) :
    callAnswers cfg (.boot flash ioFree heapRoom) calls = Table.empty.answers cfg (calls.map (·.2)) :=
  callAnswers_depicts hpersist (.empty hs hempty ioFree heapRoom) hblocks

/-- An index of 128 keys that is persisted, over a backend without records. -/
def blank : KvCfg × IdStore :=
  (⟨48, maxKeyLen_default_le, 128, indexMax_default_le, true, false, 128, []⟩,
    ⟨fun _ => none, fun _ _ => none, fun _ _ => false, fun _ => 0, []⟩)

/-- Two keys are set in the namespace "n". -/
def setBoth : List (Nat × Call) := [(2, .set nsN keyB (some [1])), (2, .set nsN keyA (some [2]))]

/-- They are listed after a reboot. -/
def setAndList : List (Nat × Call) := setBoth ++ [(2, .reboot), (2, .iterate nsN 49 8)]

theorem both_listed_after_reboot :
    callAnswers blank.1 (.boot blank.2 0 false) setAndList = Table.empty.answers blank.1 (setAndList.map (·.2)) :=
  answers_of_table rfl (fun _ _ => rfl) rfl 0 false (by decide)

theorem Table.items_keys (T : Table) {keyCapacity : Nat} (valueCapacity : Nat) {ks : List NsKey}
    (hfits : ∀ k ∈ ks, k.2.val.length < keyCapacity) :
    (T.items keyCapacity valueCapacity ks).1.map (·.1) = ks.map (·.2) := by
  induction ks with
  | nil => rfl
  | cons k ks ih =>
    have hk := hfits k (by simp)
    rw [Table.items, if_neg (by omega), List.map_cons, List.map_cons, ih fun k' hk' => hfits k' (by simp [hk'])]

theorem iterate_keys (hpersist : cfg.persistIndex = true) {T : Table} {s : KvSt} (hd : Depicts cfg T s) (he : Equipped s)
    {ns : CString} {keyCapacity valueCapacity : Nat} (hcap : cfg.maxKeyLen < keyCapacity) {items : List Item} {last : Status}
    (hout : outcome ((Call.iterate ns keyCapacity valueCapacity).run cfg) s = .ok (.items items last)) :
    items.map (·.1) = (T.listed.filter fun k => k.1 == ns).map (·.2) := by
  rw [(call_depicts hpersist hd he _).1] at hout
  rw [Table.step, Table.opened] at hout
  split at hout
  · simp only [Except.map, Except.ok.injEq, Answer.items.injEq] at hout
    rw [← hout.1, Table.iterate, if_neg (by omega)]
    apply Table.items_keys T valueCapacity
    intro k hk
    have hlive := hd.live (List.mem_filter.mp hk).1
    rw [← hd.values] at hlive
    obtain ⟨value, hvalue⟩ := Option.ne_none_iff_exists'.mp hlive
    have hvalid := (keyValid_iff.mp (hd.orderly.record hvalue).2.2.1).2
    omega
  · cases hout

/-- In every such run the keys that an iteration has handed out, and that no later call deletes or resets, are
handed out again by each later one, in the same order, whatever is set and however often the store reboots. -/
theorem iteration_keeps_order (hpersist : cfg.persistIndex = true) {flash : IdStore} (hs : flash.Sound)
    (hempty : flash.cells = fun _ => none) (ioFree : Nat) (heapRoom : Bool) {before after : List (Nat × Call)}
    (hblocks : ∀ c ∈ before ++ after, 2 ≤ c.1) {ns : CString} {keyCapacity valueCapacity blocks : Nat}
    (hcap : cfg.maxKeyLen < keyCapacity) (hb : 2 ≤ blocks) {old new : List Item} {last last' : Status}
    (hold : outcome ((Call.iterate ns keyCapacity valueCapacity).run cfg)
      ((callRun cfg (.boot flash ioFree heapRoom) before).given blocks true) = .ok (.items old last))
    (hnew : outcome ((Call.iterate ns keyCapacity valueCapacity).run cfg)
      ((callRun cfg (.boot flash ioFree heapRoom) (before ++ after)).given blocks true) = .ok (.items new last')) :
    ((old.map (·.1)).filter fun key => decide (∀ c ∈ after, ¬ c.2.Removes (ns, key))).Sublist (new.map (·.1)) := by
  have hstart : Depicts cfg .empty (.boot flash ioFree heapRoom) := .empty hs hempty ioFree heapRoom
  have hfirst : Depicts cfg _ (callRun cfg (.boot flash ioFree heapRoom) before) :=
    callRun_depicts hpersist hstart fun c hc => hblocks c (List.mem_append_left _ hc)
  have hsecond : Depicts cfg _ (callRun cfg (callRun cfg (.boot flash ioFree heapRoom) before) after) :=
    callRun_depicts hpersist hfirst fun c hc => hblocks c (List.mem_append_right _ hc)
  have hsplit : callRun cfg (.boot flash ioFree heapRoom) (before ++ after) =
      callRun cfg (callRun cfg (.boot flash ioFree heapRoom) before) after := List.foldl_append
  rw [hsplit] at hnew
  rw [iterate_keys hpersist (hfirst.given blocks true) ⟨hb, rfl⟩ hcap hold,
    iterate_keys hpersist (hsecond.given blocks true) ⟨hb, rfl⟩ hcap hnew]
  have hkept := (Table.listed_run cfg (Table.empty.run cfg (before.map (·.2))) (after.map (·.2))).filter
    fun k => k.1 == ns
  refine List.Sublist.trans ?_ (hkept.map (·.2))
  rw [List.filter_map, List.filter_filter, List.filter_filter]
  refine (List.Sublist.refl _).trans (List.Sublist.map _ ?_)
  refine (List.filter_congr fun k _ => Bool.eq_iff_iff.mpr ?_) ▸ List.Sublist.refl _
  obtain ⟨kns, key⟩ := k
  simp only [Function.comp, Bool.and_eq_true, beq_iff_eq, decide_eq_true_eq, List.forall_mem_map]
  constructor
  · rintro ⟨rfl, h⟩
    exact ⟨h, rfl⟩
  · rintro ⟨h, rfl⟩
    exact ⟨rfl, h⟩

/-- One of them is set again after a reboot. -/
def setAgain : List (Nat × Call) := [(2, .reboot), (2, .set nsN keyB (some [3]))]

/-- The key that is set again stays first. -/
theorem overwritten_key_keeps_place :
    ([keyB, keyA].filter fun key => decide (∀ c ∈ setAgain, ¬ c.2.Removes (nsN, key))).Sublist [keyB, keyA] :=
  @iteration_keeps_order blank.1 rfl blank.2 (fun _ _ => rfl) rfl 0 false setBoth setAgain (by decide) nsN 49 8 2
    (by decide) (by decide) [(keyB, [1], 1), (keyA, [2], 1)] [(keyB, [3], 1), (keyA, [2], 1)] .ERR_NOT_FOUND
    .ERR_NOT_FOUND (by decide +kernel) (by decide +kernel)

end ZephyrDB.Kv
