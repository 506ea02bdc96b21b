import ZephyrDB.Kv.Crash

/-!
Which changes of the backend drop a key from the stored index while its record
is there: none where each load of an index that lists keys finds a block of the
slab, whatever heap the calls find and however full the index is.
-/

set_option autoImplicit false

namespace ZephyrDB.Kv

open Lib

variable {cfg : KvCfg}

/-- A change that leaves the index in order and forgets no key. -/
def Careful (cfg : KvCfg) (cells cells' : Cells) : Prop := Filed cfg cells' ∧ ¬ Forgets cfg cells cells'

theorem careful_of_ids {cells cells' : Cells} (hf : Filed cfg cells')
    (hids : persistedIds cfg cells' = persistedIds cfg cells) : Careful cfg cells cells' :=
  ⟨hf, not_forgets_of_ids fun _ _ hlisted => hids ▸ hlisted⟩

structure Kept (cfg : KvCfg) (s : KvSt) : Prop where
  filed : Filed cfg s.flash.cells
  listed : ∀ entries, s.ctx = some entries → Listed cfg s.flash.cells entries

structure Minds (cfg : KvCfg) (s t : KvSt) : Prop where
  kept : Kept cfg t
  trail : IdStore.Trail (Careful cfg) s.flash t.flash
  unloaded : t.ctx = none → s.ctx = none

def Waits (s t : KvSt) : Prop := s.heapRoom = true → t.ctx = none → t.flash.cells = s.flash.cells

section Minds
variable {s t u : KvSt}

theorem Minds.trans (h : Minds cfg s t) (k : Minds cfg t u) : Minds cfg s u :=
  ⟨k.kept, h.trail.trans k.trail, fun hctx => h.unloaded (k.unloaded hctx)⟩

theorem Minds.released (h : Minds cfg s.hold t) : Minds cfg s t.release :=
  ⟨⟨h.kept.filed, h.kept.listed⟩, h.trail, h.unloaded⟩

theorem Still.minds (h : Still s t) (hk : Kept cfg s) : Minds cfg s t := by
  obtain ⟨hctx, hcells, hpast⟩ := h
  refine ⟨⟨hcells ▸ hk.filed, fun entries hentries => ?_⟩, IdStore.trail_still hcells hpast, fun hnone => hctx ▸ hnone⟩
  rw [hcells]
  exact hk.listed entries (hctx ▸ hentries)

theorem Still.waits (h : Still s t) : Waits s t := fun _ _ => h.cells

theorem indexStore_trail (hs : s.flash.Sound) (hf : Filed cfg s.flash.cells) {entries : List IndexEntry}
    (hctx : s.ctx = some entries) (hcare : Careful cfg s.flash.cells (withIndex cfg s.flash.cells entries)) :
    ∃ t, (indexStore cfg).run s = .ok () t ∧ t.ctx = some entries ∧
      t.flash.cells = withIndex cfg s.flash.cells entries ∧ IdStore.Trail (Careful cfg) s.flash t.flash := by
  obtain ⟨t, hrun, ht⟩ := @indexStore_run cfg (· = s.flash.cells) s hs rfl entries hctx
  have hconf : Confined (IndexSlot cfg) s t := by
    have h := keeps_indexStore cfg s
    rwa [Keeps, post_of_run hrun] at h
  exact ⟨t, hrun, ht.ctx, ht.flash.cells, ht.flash.trail hconf.flash (careful_of_ids hf rfl) hcare⟩

end Minds

theorem loadPersisted_blocked {s : KvSt} (hs : s.flash.Sound) (hpersist : cfg.persistIndex = true) (hio : s.ioFree = 0) :
    (loadPersisted cfg).run s = .ok () (s.counted (.read (indexRecId cfg))) := by
  unfold loadPersisted
  rw [if_pos hpersist, indexLoad_eq]
  cases hcell : s.flash.cells (indexRecId cfg) with
  | none => exact run_then (run_attempt_error (run_zoom_error (IdStore.read_absent hs hcell _))) rfl
  | some raw =>
    apply run_then (run_attempt_ok (run_zoom (IdStore.read_present hs hcell _)))
    dsimp only
    cases indexIds cfg raw.length (raw.take (indexMaxBytes cfg)) with
    | none => rfl
    | some ids =>
      refine run_then (a := s.counted (.read (indexRecId cfg))) rfl ?_
      have hio' : ¬ (s.counted (.read (indexRecId cfg))).ioFree ≠ 0 := not_not.mpr hio
      rw [if_neg hio']
      rfl

def Unhindered (cfg : KvCfg) (s : KvSt) : Prop :=
  s.ctx = none → s.heapRoom = true → persistedIds cfg s.flash.cells ≠ [] → s.ioFree ≠ 0

section Calls
variable {s : KvSt} (hs : s.flash.Sound) (hk : Kept cfg s) (hpersist : cfg.persistIndex = true)
include hs hk hpersist

theorem minds_context (hload : Unhindered cfg s) :
    ((ctxGetOrAlloc cfg).run s = .ok false s ∧ s.ctx = none ∧ s.heapRoom = false) ∨
      ∃ t entries, (ctxGetOrAlloc cfg).run s = .ok true t ∧ t.ctx = some entries ∧ Minds cfg s t ∧
        SameRecords cfg s.flash.cells t.flash.cells := by
  obtain ⟨ctx, ioFree, heapRoom, flash⟩ := s
  cases ctx with
  | some entries => exact .inr ⟨_, entries, rfl, rfl, (still_chains.refl _).minds hk, .refl _⟩
  | none =>
    cases heapRoom with
    | false => exact .inl ⟨rfl, rfl, rfl⟩
    | true =>
      refine .inr ?_
      have hstart : ∀ t, (loadPersisted cfg).run ⟨some [], ioFree, true, flash⟩ = .ok () t →
          (ctxGetOrAlloc cfg).run ⟨none, ioFree, true, flash⟩ = .ok true t := fun t h =>
        run_then (a := (⟨none, ioFree, true, flash⟩ : KvSt)) rfl
          (run_then (t := (⟨some [], ioFree, true, flash⟩ : KvSt)) rfl (run_then h rfl))
      by_cases hio : ioFree = 0
      · have hnothing : persistedIds cfg flash.cells = [] := by
          by_contra hne
          exact hload rfl rfl hne hio
        have hblocked := @loadPersisted_blocked cfg ⟨some [], ioFree, true, flash⟩ hs hpersist hio
        refine ⟨_, [], hstart _ hblocked, rfl, ⟨⟨hk.filed, fun entries hctx => ?_⟩, IdStore.trail_still rfl rfl, nofun⟩, .refl _⟩
        obtain rfl : [] = entries := Option.some.inj hctx
        exact ⟨hnothing, by simp⟩
      · obtain ⟨t, cells, hrun, ht, hcells, hids⟩ :=
          @loadPersisted_run cfg (· = flash.cells) ⟨some [], ioFree, true, flash⟩ hs rfl rfl hio
        have hsame : SameRecords cfg flash.cells cells := by
          rcases hcells with rfl | rfl
          · exact .refl _
          · exact sameRecords_withIndex cfg _ _
        obtain ⟨hf, hl, hnot⟩ := loaded_listed hk.filed hsame hids
        have hconf : Confined (IndexSlot cfg) ⟨some [], ioFree, true, flash⟩ t := by
          have h := keeps_loadPersisted cfg ⟨some [], ioFree, true, flash⟩
          rwa [Keeps, post_of_run hrun] at h
        have htrail : IdStore.Trail (Careful cfg) flash t.flash :=
          ht.flash.trail hconf.flash (careful_of_ids hk.filed rfl) ⟨hf, hnot⟩
        have hcells' : t.flash.cells = cells := ht.flash.cells
        refine ⟨t, _, hstart t hrun, ht.ctx, ⟨⟨hcells' ▸ hf, fun entries hctx => ?_⟩, htrail, fun _ => rfl⟩, hcells' ▸ hsame⟩
        rw [ht.ctx] at hctx
        obtain rfl := Option.some.inj hctx
        exact hcells' ▸ hl

theorem minds_trackSet (hload : Unhindered cfg s) {ns key : CString} (hfree : ¬ Taken cfg s.flash.cells (ns, key)) :
    ∃ b t, (trackSet cfg ns key (recordId cfg ns key)).run s = .ok b t ∧ Filed cfg t.flash.cells ∧
      IdStore.Trail (Careful cfg) s.flash t.flash ∧ SameRecords cfg s.flash.cells t.flash.cells ∧
      (∀ entries, t.ctx = some entries → ListedBut cfg t.flash.cells entries (ns, key)) ∧
      (t.ctx = none → s.ctx = none ∧ s.heapRoom = false) := by
  rcases minds_context hs hk hpersist hload with ⟨hrun, hctx, hroom⟩ | ⟨u, entries, hrun, hu, hminds, hsame⟩
  · refine ⟨true, s, run_then hrun rfl, hk.filed, IdStore.trail_still rfl rfl, .refl _, fun entries h => ?_,
      fun _ => ⟨hctx, hroom⟩⟩
    rw [hctx] at h
    cases h
  · have hl := hminds.kept.listed entries hu
    have hfree' : ¬ Taken cfg u.flash.cells (ns, key) := fun h => hfree ((hsame.taken _).mp h)
    have hsound : u.flash.Sound := by
      have h : Confined (IndexSlot cfg) s (post (ctxGetOrAlloc cfg) s) := keeps_ctxGetOrAlloc cfg s
      rw [post_of_run hrun] at h
      exact h.sound hs
    have htrack := trackSet_loaded hrun hu ns key (recordId cfg ns key)
    cases hfind : findEntry entries ns key with
    | some i =>
      simp only [hfind, (hl.found hfind).1] at htrack
      refine ⟨true, _, htrack, hminds.kept.filed, hminds.trail, hsame, fun entries' h => ?_, nofun⟩
      obtain rfl := Option.some.inj h
      exact hl.but (ns, key)
    | none =>
      simp only [hfind] at htrack
      by_cases hfull : cfg.indexMax ≤ entries.length
      · rw [if_pos hfull] at htrack
        refine ⟨false, u, htrack, hminds.kept.filed, hminds.trail, hsame, fun entries' h => ?_, fun h => ?_⟩
        · exact (hminds.kept.listed entries' h).but (ns, key)
        · rw [hu] at h
          cases h
      · rw [if_neg hfull] at htrack
        obtain ⟨hf, ht, hnot⟩ := filed_track hpersist hminds.kept.filed hl hfree' (findEntry_none.mp hfind)
          (Nat.lt_of_not_le hfull)
        obtain ⟨t, hstore, hctx, hcells, htrail⟩ :=
          @indexStore_trail cfg { u with ctx := some (entries ++ [⟨ns, key, recordId cfg ns key⟩]) } hsound
            hminds.kept.filed _ rfl ⟨hf, hnot⟩
        rw [storePersisted, if_pos hpersist, post_of_run hstore] at htrack
        have hcells' : t.flash.cells = withIndex cfg u.flash.cells (entries ++ [⟨ns, key, recordId cfg ns key⟩]) := hcells
        refine ⟨true, t, htrack, hcells' ▸ hf, hminds.trail.trans htrail, hcells' ▸ hsame.trans (sameRecords_withIndex cfg _ _),
          fun entries' h => ?_, fun h => ?_⟩
        · rw [hctx] at h
          obtain rfl := Option.some.inj h
          exact hcells' ▸ ht.toListedBut
        · rw [hctx] at h
          cases h

theorem minds_setLocked {ns key : CString} {value : Bytes} (hw : Writable cfg ns key value)
    (hload : ¬ Taken cfg s.flash.cells (ns, key) → Unhindered cfg s) :
    Minds cfg s (post (setLocked cfg ns key value) s) ∧ Waits s (post (setLocked cfg ns key value) s) := by
  obtain ⟨htaken, hfree⟩ := @setLocked_sound cfg s hs hk.filed.orderly ns key value hw
  by_cases h : Taken cfg s.flash.cells (ns, key)
  · rw [(htaken h).2]
    exact ⟨(still_counted s _).minds hk, (still_counted s _).waits⟩
  · obtain ⟨b, t, hrun, hf, htrail, hsame, hbut, hnone⟩ := @minds_trackSet cfg (s.counted (.read (recordId cfg ns key)))
      hs ⟨hk.filed, hk.listed⟩ hpersist (hload h) ns key h
    have htracked : tracked cfg s ns key = t := post_of_run hrun
    have hfree' : ¬ Taken cfg t.flash.cells (ns, key) := fun h' => h ((hsame.taken _).mp h')
    have hsound : t.flash.Sound := by
      have h : Confined (IndexSlot cfg) _ (post (trackSet cfg ns key (recordId cfg ns key)) _) :=
        keeps_trackSet cfg ns key (recordId cfg ns key) (s.counted (.read (recordId cfg ns key)))
      rw [post_of_run hrun] at h
      exact h.sound hs
    obtain ⟨n, f, hwrite, hleads, -⟩ := IdStore.write_ok (P := (· = t.flash.cells)) hsound rfl (recordId cfg ns key)
      (recordBuild ns key value)
    have hwithin : IdStore.Within AnySlot t.flash f := by
      have h := @IdStore.keeps_write AnySlot t.flash (recordId cfg ns key) trivial (recordBuild ns key value)
      rwa [Keeps, post_of_run hwrite] at h
    obtain ⟨hf', hids, hstored⟩ := hf.written hfree' hw hleads.cells
    have hend : post (setLocked cfg ns key value) s = { t with flash := f } := by
      rw [(hfree h).2, written, htracked, post_of_run hwrite]
    rw [hend]
    refine ⟨⟨⟨hf', fun entries hctx => ?_⟩, htrail.trans ?_, fun hctx => (hnone hctx).1⟩, fun hroom hctx => ?_⟩
    · exact (hbut entries hctx).written hids (by rw [hstored, if_pos rfl]; simp) fun k hne => by rw [hstored, if_neg hne]
    · exact hleads.trail hwithin (careful_of_ids hf rfl) (careful_of_ids (hleads.cells ▸ hf') (hleads.cells ▸ hids))
    · rw [show s.heapRoom = false from (hnone hctx).2] at hroom
      cases hroom

theorem minds_kvSet {ns key : CString} {value : Option Bytes} (hns : keyValid cfg ns = true)
    (hload : ∀ v, value = some v → LetThrough cfg s ns key v → ¬ Taken cfg s.flash.cells (ns, key) → Unhindered cfg s.hold) :
    Minds cfg s (post (kvSet cfg ns key value) s) ∧ Waits s (post (kvSet cfg ns key value) s) := by
  by_cases hthrough : ∃ v, value = some v ∧ LetThrough cfg s ns key v
  · obtain ⟨v, rfl, hlet⟩ := hthrough
    rw [post_kvSet_through hlet]
    have hk' : Kept cfg s.hold := ⟨hk.filed, hk.listed⟩
    obtain ⟨hminds, hwaits⟩ := @minds_setLocked cfg s.hold hs hk' hpersist ns key v hlet.toWritable (hload v rfl hlet)
    exact ⟨hminds.released, hwaits⟩
  · rw [post_kvSet_stopped hns fun v hv hlet => hthrough ⟨v, hv, hlet⟩]
    exact ⟨(still_chains.refl s).minds hk, (still_chains.refl s).waits⟩

theorem minds_deleteLocked (ns key : CString) : Minds cfg s (post (deleteLocked cfg ns key) s) := by
  have ho := hk.filed.orderly
  cases hstored : stored cfg s.flash.cells (ns, key) with
  | none =>
    unfold post
    rw [deleteLocked_absent hs ho hstored]
    exact (still_counted s _).minds hk
  | some value =>
    have hrun := deleteLocked_present hs ho hstored
    generalize hu : s.removed (recordId cfg ns key) = u at hrun
    have hsound : u.flash.Sound := by
      rw [← hu]
      exact hs
    have hcells : u.flash.cells = Function.update s.flash.cells (recordId cfg ns key) none := by rw [← hu]; rfl
    have hctx : u.ctx = s.ctx := by rw [← hu]; rfl
    have hids : persistedIds cfg u.flash.cells = persistedIds cfg s.flash.cells := by
      apply persistedIds_congr
      rw [hcells, Function.update_of_ne (recordId_ne_index cfg ns key).symm]
    have hvalues : ∀ k, stored cfg u.flash.cells k = if k = (ns, key) then none else stored cfg s.flash.cells k :=
      stored_vacate (by rw [hstored]; simp) fun id _ => by rw [hcells]
    have hf : Filed cfg u.flash.cells := by
      refine ⟨fun id record hid hcell => ?_, hids ▸ hk.filed.nodup, fun id hid => hk.filed.slots id (hids ▸ hid)⟩
      rw [hcells] at hcell
      by_cases heq : id = recordId cfg ns key
      · subst heq
        rw [Function.update_self] at hcell
        cases hcell
      · rw [Function.update_of_ne heq] at hcell
        exact ho id record hid hcell
    have htrail : IdStore.Trail (Careful cfg) s.flash u.flash := by
      rw [← hu]
      refine ⟨[s.flash.cells], [_], rfl, rfl, .cons_cons ?_ (.singleton _)⟩
      rw [hu]
      exact careful_of_ids hf hids
    have hbut : ∀ entries, u.ctx = some entries → ListedBut cfg u.flash.cells entries (ns, key) := by
      intro entries h
      have hl := (hk.listed entries (hctx ▸ h)).but (ns, key)
      refine ⟨hids ▸ hl.agree, fun e he hne => ?_, hl.own⟩
      obtain ⟨hid, hlive⟩ := hl.live e he hne
      exact ⟨hid, by rw [hvalues, if_neg hne]; exact hlive⟩
    have htrack := @trackDelete_eq cfg u ns key
    rw [htrack] at hrun
    cases hentries : u.ctx with
    | none =>
      rw [hentries] at hrun
      rw [post_of_run hrun]
      exact ⟨⟨hf, fun entries h => by rw [hentries] at h; cases h⟩, htrail, fun h => hctx ▸ h⟩
    | some entries =>
      have hl := hbut entries hentries
      rw [hentries] at hrun
      simp only [Option.bind_some] at hrun
      cases hfind : findEntry entries ns key with
      | none =>
        rw [hfind] at hrun
        rw [post_of_run hrun]
        refine ⟨⟨hf, fun entries' h => ?_⟩, htrail, fun h => hctx ▸ h⟩
        rw [hentries] at h
        obtain rfl := Option.some.inj h
        exact hl.listed (findEntry_none.mp hfind)
      | some i =>
        obtain ⟨hi, hkey⟩ := findEntry_some hfind
        have hgone : u.flash.cells (recordId cfg ns key) = none := by rw [hcells, Function.update_self]
        obtain ⟨hf', hl', hnot⟩ := hl.dropped hpersist hf hgone hi hkey rfl
        obtain ⟨t, hstore, hctx', hcells', htrail'⟩ :=
          @indexStore_trail cfg { u with ctx := some (entries.eraseIdx i) } hsound hf _ rfl ⟨hf', hnot⟩
        have hcells'' : t.flash.cells = withIndex cfg u.flash.cells (entries.eraseIdx i) := hcells'
        rw [hfind] at hrun
        simp only [Option.map_some] at hrun
        rw [storePersisted, if_pos hpersist, post_of_run hstore] at hrun
        rw [post_of_run hrun]
        refine ⟨⟨hcells'' ▸ hf', fun entries' h => ?_⟩, htrail.trans htrail', fun h => ?_⟩
        · rw [hctx'] at h
          obtain rfl := Option.some.inj h
          exact hcells'' ▸ hl'
        · rw [hctx'] at h
          cases h

theorem minds_kvDelete (ns key : CString) : Minds cfg s (post (kvDelete cfg ns key) s) := by
  unfold kvDelete
  split
  · exact (still_chains.refl s).minds hk
  · by_cases hio : s.ioFree = 0
    · unfold post
      rw [withBlock_none hio]
      exact (still_chains.refl s).minds hk
    · rw [post_withBlock hio]
      exact Minds.released (@minds_deleteLocked cfg s.hold hs ⟨hk.filed, hk.listed⟩ hpersist ns key)

end Calls

def Stocked (cfg : KvCfg) (filter : Option CString) (s : KvSt) : Prop :=
  s.heapRoom = true → persistedIds cfg s.flash.cells ≠ [] → Supplied cfg filter s

structure Seeding (cfg : KvCfg) (filter : Option CString) (s t : KvSt) : Prop where
  confined : Confined AnySlot s t
  minds : s.flash.Sound → Kept cfg s → Stocked cfg filter s → Minds cfg s t ∧ Waits s t

theorem Stocked.along {filter : Option CString} {s t : KvSt} (h : Stocked cfg filter s) (hst : Confined AnySlot s t)
    (hminds : Minds cfg s t) (hwaits : Waits s t) : Stocked cfg filter t := by
  intro hroom hids hnone
  rw [hst.heapRoom] at hroom
  have hcells := hwaits hroom hnone
  exact Supplied.along (h hroom (hcells ▸ hids)) hst hminds.unloaded (fun _ => hcells ▸ .refl _) hnone

theorem Waits.trans {s t u : KvSt} (h : Waits s t) (k : Waits t u) (hroom : t.heapRoom = s.heapRoom)
    (hunloaded : u.ctx = none → t.ctx = none) : Waits s u :=
  fun hheap hnone => (k (hroom.trans hheap) hnone).trans (h hheap (hunloaded hnone))

theorem seeding_chains (cfg : KvCfg) (filter : Option CString) : Chains (Seeding cfg filter) where
  refl s := ⟨(confined_chains _).refl s, fun _ hk _ => ⟨(still_chains.refl s).minds hk, (still_chains.refl s).waits⟩⟩
  trans h k := by
    refine ⟨(confined_chains _).trans h.confined k.confined, fun hs hk hstock => ?_⟩
    obtain ⟨hminds, hwaits⟩ := h.minds hs hk hstock
    obtain ⟨hminds', hwaits'⟩ := k.minds (h.confined.sound hs) hminds.kept (hstock.along h.confined hminds hwaits)
    exact ⟨hminds.trans hminds', hwaits.trans hwaits' h.confined.heapRoom hminds'.unloaded⟩

theorem seeding_applyDefault (hpersist : cfg.persistIndex = true) {filter : Option CString} {d : Default}
    (hd : d ∈ cfg.defaults) {ns key : CString} (hdns : d.namespaceName = some ns) (hdkey : d.key = some key)
    (hfilter : filter.all (ns == ·) = true) (s : KvSt) :
    Keeps (Seeding cfg filter) (applyDefault cfg ns key d.value) s := by
  have hget : Confined AnySlot s (post (kvGet cfg ns key 0) s) := keeps_kvGet cfg AnySlot ns key 0 s
  have hstill : Still s (post (kvGet cfg ns key 0) s) := still_kvGet ns key 0 s
  refine ⟨keeps_defaults (confined_throughout cfg) ns key d.value s, fun hs hk hstock => ?_⟩
  have hgot : Minds cfg s (post (kvGet cfg ns key 0) s) := hstill.minds hk
  rw [post_applyDefault]
  split
  · rename_i hns
    split
    · rename_i hout
      have hload : ∀ v, d.value = some v → LetThrough cfg (post (kvGet cfg ns key 0) s) ns key v →
          ¬ Taken cfg (post (kvGet cfg ns key 0) s).flash.cells (ns, key) →
          Unhindered cfg (post (kvGet cfg ns key 0) s).hold := by
        intro v hv hlet hfree hctx hroom hids
        have hstored : stored cfg (post (kvGet cfg ns key 0) s).flash.cells (ns, key) = none := by
          rw [kvGet_sound hs hk.filed.orderly hlet.key_valid (hget.ioFree ▸ hlet.block)] at hout
          rw [hstill.cells]
          cases h : stored cfg s.flash.cells (ns, key) with
          | none => rfl
          | some value =>
            rw [h] at hout
            cases hout
        have hpos := hlet.block
        have hone := (hstock.along hget hgot hstill.waits hroom hids hctx ns key v
          ⟨⟨d, hd, hdns, hdkey, hv⟩, hfilter, hlet, hstored, hfree⟩).2
        show (post (kvGet cfg ns key 0) s).ioFree - 1 ≠ 0
        omega
      obtain ⟨hminds, hwaits⟩ := minds_kvSet (hget.sound hs) hgot.kept hpersist hns hload
      exact ⟨hgot.trans hminds, hstill.waits.trans hwaits hget.heapRoom hminds.unloaded⟩
    · exact ⟨hgot, hstill.waits⟩
  · exact ⟨(still_chains.refl s).minds hk, (still_chains.refl s).waits⟩

theorem minds_kvDefaultsApplyNs (hpersist : cfg.persistIndex = true) {filter : Option CString} {s : KvSt}
    (hs : s.flash.Sound) (hk : Kept cfg s) (hstock : Stocked cfg filter s) :
    Minds cfg s (post (kvDefaultsApplyNs cfg filter) s) := by
  have hseeding : Keeps (Seeding cfg filter) (kvDefaultsApplyNs cfg filter) s :=
    keeps_kvDefaultsApplyNs (seeding_chains cfg filter) filter s fun d hd ns key hdns hdkey hfilter t _ =>
      seeding_applyDefault hpersist hd hdns hdkey hfilter t
  exact (hseeding.minds hs hk hstock).1

theorem minds_kvResetNamespace (hpersist : cfg.persistIndex = true) {s : KvSt} (hs : s.flash.Sound) (hk : Kept cfg s)
    (hload : Unhindered cfg s) (ns : CString) : Minds cfg s (post (kvResetNamespace cfg ns) s) := by
  rcases minds_context hs hk hpersist hload with ⟨hrun, -⟩ | ⟨t, entries, hrun, ht, hminds, -⟩
  · unfold kvResetNamespace
    rw [post_then hrun]
    exact (still_chains.refl s).minds hk
  · have hsound : t.flash.Sound := by
      have h : Confined (IndexSlot cfg) s (post (ctxGetOrAlloc cfg) s) := keeps_ctxGetOrAlloc cfg s
      rw [post_of_run hrun] at h
      exact h.sound hs
    have hkeys := @resetKeys_keeps cfg (fun u => u.flash.Sound ∧ Minds cfg t u) ns
      (fun u hu => ⟨hu.1, hu.2.kept.filed.orderly, fun entries h => (hu.2.kept.listed entries h).live⟩)
      (fun key u hu => ⟨Confined.sound (confined_kvDelete ns key u) hu.1, hu.2.trans (minds_kvDelete hu.1 hu.2.kept hpersist ns key)⟩)
      ((t.ctx.getD []).length + 1) 0 .OK t ⟨hsound, (still_chains.refl t).minds hminds.kept⟩
    rw [post_kvResetNamespace hrun]
    apply hminds.trans
    apply hkeys.2.trans
    apply minds_kvDefaultsApplyNs hpersist hkeys.1 hkeys.2.kept
    intro _ _ hnone
    -- the index is loaded by now
    have h := hkeys.2.unloaded hnone
    rw [ht] at h
    cases h

/-- Where a call has an index loaded that lists keys a block of the slab is free for it. -/
def FindsBlock (cfg : KvCfg) (s : KvSt) (op : KvOp) : Prop :=
  s.heapRoom = true → persistedIds cfg s.flash.cells ≠ [] → Provided cfg s op

theorem minds_op (hpersist : cfg.persistIndex = true) {s : KvSt} (hs : s.flash.Sound) (hk : Kept cfg s) (op : KvOp)
    (hp : FindsBlock cfg s op) : Minds cfg s (post (op.run cfg) s) := by
  have hrefl := (still_chains.refl s).minds hk
  cases op with
  | set ns key value =>
    rw [post_set]
    split
    · rename_i hns
      refine (minds_kvSet hs hk hpersist hns fun v hv hlet hfree hctx hroom hids => ?_).1
      have hone := (hp hroom hids hctx v hv hlet hfree).2
      have hpos := hlet.block
      show s.ioFree - 1 ≠ 0
      omega
    · exact hrefl
  | get ns key capacity =>
    have hpost : post ((KvOp.get ns key capacity).run cfg) s = _ :=
      @post_opened _ cfg ns (kvGet cfg ns key capacity) (fun r => KvAnswer.value r.1 r.2) s
    rw [hpost]
    split
    · exact (still_kvGet ns key capacity s).minds hk
    · exact hrefl
  | delete ns key =>
    rw [post_delete]
    split
    · exact minds_kvDelete hs hk hpersist ns key
    · exact hrefl
  | iterOpen ns =>
    have hopened : post ((KvOp.iterOpen ns).run cfg) s = _ :=
      @post_opened _ cfg ns (kvIterOpen cfg) (fun _ => KvAnswer.none) s
    rw [hopened]
    split
    · rename_i hns
      rcases minds_context hs hk hpersist fun hctx hroom hids => hp hroom hids hns hctx hroom with
        ⟨hrun, -⟩ | ⟨t, entries, hrun, -, hminds, -⟩
      · have hpost : post (kvIterOpen cfg) s = s := post_then hrun
        rw [hpost]
        exact hrefl
      · have hpost : post (kvIterOpen cfg) s = t := post_then hrun
        rw [hpost]
        exact hminds
    · exact hrefl
  | iterNext ns keyCapacity valueCapacity position =>
    have hpost : post ((KvOp.iterNext ns keyCapacity valueCapacity position).run cfg) s = _ :=
      @post_opened _ cfg ns (kvIterNext cfg ns keyCapacity valueCapacity position) (fun r => KvAnswer.item r.1 r.2) s
    rw [hpost]
    split
    · have hstill : Still s (post (kvIterNext cfg ns keyCapacity valueCapacity position) s) :=
        keeps_kvIterNext still_chains still_kvGet ns keyCapacity valueCapacity position s
      exact hstill.minds hk
    · exact hrefl
  | reset ns =>
    rw [post_reset]
    split
    · rename_i hns
      exact minds_kvResetNamespace hpersist hs hk (fun hctx hroom hids => hp hroom hids hns hctx hroom) ns
    · exact hrefl
  | defaults filter =>
    have hpost : post ((KvOp.defaults filter).run cfg) s = post (kvDefaultsApplyNs cfg filter) s := post_map _ _ s
    rw [hpost]
    exact minds_kvDefaultsApplyNs hpersist hs hk hp

theorem moments_of_past {s t : KvSt} {new : List Cells} (h : t.flash.past = new ++ s.flash.past) :
    moments s t = (t.flash.cells :: new).reverse := by
  unfold moments
  rw [h, List.length_append, Nat.add_sub_cancel, List.take_left, List.reverse_cons]

theorem Minds.chain {s t : KvSt} (h : Minds cfg s t) : (moments s t).IsChain fun c c' => ¬ Forgets cfg c c' := by
  obtain ⟨new, before, hpast, -, hchain⟩ := h.trail
  rw [moments_of_past hpast, List.isChain_reverse]
  exact hchain.imp fun _ _ hcare => hcare.2

theorem Minds.passes {s t : KvSt} (h : Minds cfg s t) (hk : Kept cfg s) : Passes (Filed cfg) s t := by
  obtain ⟨new, hpast, hall⟩ := h.trail.all (P := Filed cfg) (fun _ _ hcare => hcare.1) hk.filed
  rw [List.forall_mem_cons] at hall
  exact ⟨⟨new, hpast, hall.2⟩, hall.1⟩

/-- The guard of an event. -/
def KvEvent.FindsBlock (cfg : KvCfg) (s : KvSt) (e : KvEvent) : Prop :=
  Kv.FindsBlock cfg (s.given e.ioFree e.heapRoom) e.op

structure Minded (cfg : KvCfg) (s : KvSt) : Prop where
  sound : s.flash.Sound
  kept : Kept cfg s

theorem Minded.boot {flash : IdStore} (hs : flash.Sound) (hempty : flash.cells = fun _ => none) (ioFree : Nat)
    (heapRoom : Bool) : Minded cfg (.boot flash ioFree heapRoom) := by
  have hship := @Shipshape.boot cfg flash hs hempty ioFree heapRoom
  exact ⟨hs, hship.current.charted.filed, hship.current.listed⟩

theorem Minded.given {s : KvSt} (h : Minded cfg s) (ioFree : Nat) (heapRoom : Bool) :
    Minded cfg (s.given ioFree heapRoom) :=
  ⟨h.sound, ⟨h.kept.filed, h.kept.listed⟩⟩

theorem Minded.minds (hpersist : cfg.persistIndex = true) {s : KvSt} (h : Minded cfg s) {e : KvEvent}
    (hb : e.FindsBlock cfg s) :
    Minds cfg (s.given e.ioFree e.heapRoom) (post (e.op.run cfg) (s.given e.ioFree e.heapRoom)) :=
  minds_op (s := s.given e.ioFree e.heapRoom) hpersist h.sound (h.given e.ioFree e.heapRoom).kept e.op hb

theorem Minded.step (hpersist : cfg.persistIndex = true) {s : KvSt} (h : Minded cfg s) {e : KvEvent}
    (hb : e.FindsBlock cfg s) : Minded cfg (e.step cfg s) := by
  have hminds := h.minds hpersist hb
  obtain ⟨ioFree, heapRoom, op, crash⟩ := e
  have hconf : Confined AnySlot (s.given ioFree heapRoom) (post (op.run cfg) (s.given ioFree heapRoom)) :=
    keeps_op (confined_throughout cfg) op _
  have hsound := hconf.sound h.sound
  cases crash with
  | none => exact ⟨hsound, hminds.kept⟩
  | some moment =>
    have hfiled := moment_of_passes (hminds.passes (h.given ioFree heapRoom).kept) moment
    exact ⟨hsound, hfiled, fun entries hctx => absurd hctx (by simp [KvEvent.step, KvSt.boot])⟩

/-- In every run from an empty store of a backend that accepts every operation, crashes included, in which each
load of an index that lists keys finds a block of the slab: no change a call makes drops a key from the stored
index whose record is still there, whatever heap the calls find and however many keys they store. -/
theorem index_never_forgets {flash : IdStore} {ioFree : Nat} {heapRoom : Bool} (hs : flash.Sound)
    (hempty : flash.cells = fun _ => none) {events : List KvEvent} {s : KvSt}
    (hrun : Steps (Guarded (fun s e => e.FindsBlock cfg s) fun s e t => t = KvEvent.step cfg s e)
      (.boot flash ioFree heapRoom) events s) {e : KvEvent} (he : e.FindsBlock cfg s) :
    (moments (s.given e.ioFree e.heapRoom) (post (e.op.run cfg) (s.given e.ioFree e.heapRoom))).IsChain
      fun c c' => ¬ Forgets cfg c c' := by
  by_cases hpersist : cfg.persistIndex = true
  · have h : Minded cfg s := by
      refine Steps.keeps (fun a e b ha hstep => ?_) hrun (Minded.boot hs hempty ioFree heapRoom)
      obtain ⟨hb, rfl⟩ := hstep
      exact ha.step hpersist hb
    exact (h.minds hpersist he).chain
  · -- no index is stored
    have hnone : ∀ cells, persistedIds cfg cells = [] := fun cells => if_neg hpersist
    apply List.isChain_iff_getElem.mpr
    intro i hi
    apply not_forgets_of_ids
    intro k _ hlisted
    rw [hnone] at hlisted
    cases hlisted

def setAndCut (ioFree : Nat) : KvEvent := ⟨ioFree, true, .set nsN keyA (some [1]), some 9⟩

def rebooted (ioFree : Nat) (faults : IdOp → Nat → Option Errno) : KvSt :=
  KvEvent.step (.nvs true 128 []) (.boot (.blank faults) ioFree true) (setAndCut ioFree)

/-- Another key is set with a block to spare. -/
theorem both_keys_listed :
    (moments ((rebooted 2 fun _ _ => none).given 2 true)
      (post ((KvOp.set nsN keyB (some [2])).run (.nvs true 128 [])) ((rebooted 2 fun _ _ => none).given 2 true))).IsChain
      fun c c' => ¬ Forgets (.nvs true 128 []) c c' := by
  have htwo : 2 ≠ 1 := by decide
  have hfirst : ∀ s, (setAndCut 2).FindsBlock (.nvs true 128 []) s := fun _ _ _ _ _ _ _ _ => ⟨rfl, htwo⟩
  have hsecond : ∀ s, KvEvent.FindsBlock (.nvs true 128 []) s ⟨2, true, .set nsN keyB (some [2]), none⟩ :=
    fun _ _ _ _ _ _ _ _ => ⟨rfl, htwo⟩
  exact @index_never_forgets (.nvs true 128 []) _ 2 true (fun _ _ => rfl) rfl [setAndCut 2] _ (.single ⟨hfirst _, rfl⟩)
    ⟨2, true, .set nsN keyB (some [2]), none⟩ (hsecond _)

/-- With a slab of one block a set leaves none for the load: after a reboot the next new key is stored in an
index that lists it alone. So it is with two where the second read of the index record fails. -/
theorem rebooted_key_forgotten :
    (¬ (moments (rebooted 1 fun _ _ => none)
        (post ((KvOp.set nsN keyB (some [2])).run (.nvs true 128 [])) (rebooted 1 fun _ _ => none))).IsChain
          fun c c' => ¬ Forgets (.nvs true 128 []) c c') ∧
      ¬ (moments (rebooted 2 fun op n => if op = .read 65535 ∧ n = 1 then some Errno.EIO else none)
        (post ((KvOp.set nsN keyB (some [2])).run (.nvs true 128 []))
          (rebooted 2 fun op n => if op = .read 65535 ∧ n = 1 then some Errno.EIO else none))).IsChain
            fun c c' => ¬ Forgets (.nvs true 128 []) c c' := by
  refine ⟨fun h => ?_, fun h => ?_⟩
  · refine List.isChain_iff_getElem.mp h 0 (by decide +kernel) ⟨(nsN, keyA), ?_, ?_, ?_⟩
    · decide +kernel
    · decide +kernel
    · decide +kernel
  · refine List.isChain_iff_getElem.mp h 0 (by decide +kernel) ⟨(nsN, keyA), ?_, ?_, ?_⟩
    · decide +kernel
    · decide +kernel
    · decide +kernel

end ZephyrDB.Kv
