import ZephyrDB.Kv.Crash

/-!
A set whose value write is refused, over a backend that may refuse anything:
what it leaves of the values and of the two indexes.
-/

set_option autoImplicit false

namespace ZephyrDB.Kv

open Lib

variable {cfg : KvCfg}

structure Recorded (cfg : KvCfg) (entries : List IndexEntry) (s t : KvSt) : Prop where
  ctx : t.ctx = some entries
  faults : t.flash.faults = s.flash.faults
  made : t.flash.made (.write (indexRecId cfg)) =
    s.flash.made (.write (indexRecId cfg)) + if cfg.persistIndex then 1 else 0
  cells : t.flash.cells =
    if cfg.persistIndex = true ∧ s.flash.fault (.write (indexRecId cfg)) = none then withIndex cfg s.flash.cells entries
    else s.flash.cells

theorem storePersisted_recorded {s : KvSt} {entries : List IndexEntry} (hctx : s.ctx = some entries) :
    Recorded cfg entries s (post (storePersisted cfg) s) := by
  obtain ⟨ctx, ioFree, heapRoom, flash⟩ := s
  obtain rfl : ctx = some entries := hctx
  unfold storePersisted
  by_cases hp : cfg.persistIndex = true
  · have hpost : post (indexStore cfg) ⟨some entries, ioFree, heapRoom, flash⟩ =
        ⟨some entries, ioFree, heapRoom, post (IdStore.write (indexRecId cfg) (indexBytes entries)) flash⟩ := by
      unfold indexStore
      rw [post_get_bind]
      dsimp only
      rw [post_map]
      show post (onFlash _) _ = _
      rw [onFlash, post_zoom]
    rw [if_pos hp, hpost]
    cases hfault : flash.fault (.write (indexRecId cfg)) with
    | some err =>
      have hrun : post (IdStore.write (indexRecId cfg) (indexBytes entries)) flash =
          flash.count (.write (indexRecId cfg)) := by
        unfold post
        rw [IdStore.write_refused _ _ hfault]
      rw [hrun]
      refine ⟨rfl, rfl, ?_, ?_⟩
      · simp [IdStore.count, hp]
      · rw [if_neg (by simp [hfault])]
        rfl
    | none =>
      obtain ⟨n, f, hrun, hcells, hfaults, -, hmade, -⟩ := IdStore.write_accepted _ _ hfault (indexBytes entries)
      rw [post_of_run hrun]
      refine ⟨rfl, hfaults, ?_, ?_⟩
      · show f.made _ = _
        rw [hmade]
        simp [IdStore.count, hp]
      · rw [if_pos ⟨hp, hfault⟩]
        exact hcells
  · rw [if_neg hp]
    refine ⟨rfl, rfl, ?_, ?_⟩
    · rw [if_neg hp]
      rfl
    · rw [if_neg fun h => hp h.1]
      rfl

theorem post_trackSet {s : KvSt} {entries : List IndexEntry} (hctx : s.ctx = some entries) (ns key : CString)
    (id : UInt32) : post (trackSet cfg ns key id) s = match findEntry entries ns key with
      | some i => { s with ctx := some (entries.modify i fun e => { e with id := id }) }
      | none =>
        if cfg.indexMax ≤ entries.length then s
        else post (storePersisted cfg) { s with ctx := some (entries ++ [⟨ns, key, id⟩]) } := by
  have hrun : (ctxGetOrAlloc cfg).run s = .ok true s := by
    obtain ⟨ctx, ioFree, heapRoom, flash⟩ := s
    obtain rfl : ctx = some entries := hctx
    rfl
  have hset := trackSet_loaded hrun hctx ns key id
  cases hfind : findEntry entries ns key with
  | some i =>
    rw [hfind] at hset
    exact post_of_run hset
  | none =>
    simp only [hfind] at hset
    by_cases hfull : cfg.indexMax ≤ entries.length
    · rw [if_pos hfull] at hset
      simp only [if_pos hfull]
      exact post_of_run hset
    · rw [if_neg hfull] at hset
      simp only [if_neg hfull]
      exact post_of_run hset

theorem post_trackDelete {s : KvSt} {entries : List IndexEntry} (hctx : s.ctx = some entries) (ns key : CString) :
    post (trackDelete cfg ns key) s = match findEntry entries ns key with
      | some i => post (storePersisted cfg) { s with ctx := some (entries.eraseIdx i) }
      | none => s := by
  have hrun := @trackDelete_eq cfg s ns key
  rw [hctx, Option.bind_some] at hrun
  cases hfind : findEntry entries ns key with
  | some i =>
    rw [hfind] at hrun
    exact post_of_run hrun
  | none =>
    rw [hfind] at hrun
    exact post_of_run hrun

/-- The index is loaded: one entry a key, each live, and the stored index lists the same. -/
structure UpToDate (cfg : KvCfg) (s : KvSt) (entries : List IndexEntry) : Prop where
  ctx : s.ctx = some entries
  nodup : (entries.map (·.nsKey)).Nodup
  live : ∀ e ∈ entries, Live cfg s.flash.cells e
  persisted : cfg.persistIndex = true → persistedIds cfg s.flash.cells = entries.map (·.id)

/-- A set that gets as far as its value write, which the backend refuses. -/
structure WriteRefused (cfg : KvCfg) (s : KvSt) (ns key : CString) (value : Bytes) : Prop
    extends LetThrough cfg s ns key value where
  goes_on : preRead cfg s ns key ≠ some .MISMATCH
  refused : s.flash.fault (.write (recordId cfg ns key)) ≠ none

/-- The new entry is put on record and cannot be taken off it again: the first write of the index is accepted
and the second refused. -/
def Strands (cfg : KvCfg) (s : KvSt) (entries : List IndexEntry) : Prop :=
  cfg.persistIndex = true ∧ entries.length < cfg.indexMax ∧ s.flash.fault (.write (indexRecId cfg)) = none ∧
    s.flash.faults (.write (indexRecId cfg)) (s.flash.made (.write (indexRecId cfg)) + 1) ≠ none

section Refused
variable {s : KvSt} {ns key : CString} {value : Bytes} (hw : WriteRefused cfg s ns key value)
include hw

theorem kvSet_refused : ∃ status, status ≠ .OK ∧ outcome (kvSet cfg ns key (some value)) s = .error status ∧
    post (kvSet cfg ns key (some value)) s = (post (trackDelete cfg ns key)
      ((tracked cfg s.hold ns key).counted (.write (recordId cfg ns key)))).release := by
  obtain ⟨err, herr⟩ := Option.ne_none_iff_exists'.mp hw.refused
  have hgo : preRead cfg s.hold ns key ≠ some .MISMATCH := hw.goes_on
  have hfault := (tracked_confined cfg s.hold ns key).flash.fault_write (recordId_ne_index cfg ns key)
  have hwrite := IdStore.write_refused (tracked cfg s.hold ns key).flash (recordId cfg ns key) (hfault.trans herr)
    (recordBuild ns key value)
  have hstatus : writtenStatus cfg s.hold ns key value = statusFromErrno err := by
    unfold writtenStatus outcome
    rw [hwrite]
    rfl
  have hwritten : written cfg s.hold ns key value =
      (tracked cfg s.hold ns key).counted (.write (recordId cfg ns key)) := by
    unfold written post
    rw [hwrite]
    rfl
  have hne := statusFromErrno_ne_ok err
  have hlocked := setLocked_writes hgo value
  obtain ⟨_, htrack⟩ := trackDelete_total cfg ns key (written cfg s.hold ns key value)
  have hfinish : (finishSet cfg ns key (statusFromErrno err)).run (written cfg s.hold ns key value) =
      .error (statusFromErrno err) (post (trackDelete cfg ns key) (written cfg s.hold ns key value)) := by
    cases h : statusFromErrno err <;> first
      | exact absurd h hne
      | exact run_then htrack rfl
  rw [hstatus, hfinish] at hlocked
  refine ⟨statusFromErrno err, hne, ?_, ?_⟩
  · rw [hw.toWritable.kvSet, outcome_withBlock hw.block]
    unfold outcome
    rw [hlocked]
  · rw [post_kvSet_through hw.toLetThrough, ← hwritten]
    congr 1
    show post (setLocked cfg ns key value) s.hold = _
    rw [post, hlocked]

theorem refused_records : SameRecords cfg s.flash.cells (post (kvSet cfg ns key (some value)) s).flash.cells := by
  intro id hid
  rw [post_kvSet_through hw.toLetThrough]
  have hcells := setLocked_cells cfg s.hold ns key value hid
  rw [if_neg fun h => hw.refused h.2] at hcells
  exact hcells

variable {entries : List IndexEntry} (hup : UpToDate cfg s entries)
include hup

theorem refused_present {i : Nat} (hfind : findEntry entries ns key = some i) :
    (post (kvSet cfg ns key (some value)) s).ctx = some (entries.eraseIdx i) := by
  obtain ⟨-, -, -, hpost⟩ := kvSet_refused hw
  obtain ⟨hi, hkey⟩ := findEntry_some hfind
  have hctx : (s.hold.counted (.read (recordId cfg ns key))).ctx = some entries := hup.ctx
  have hid : entries[i].id = recordId cfg ns key := by
    rw [(hup.live _ (List.getElem_mem hi)).1, show entries[i].namespaceName = ns from congrArg Prod.fst hkey,
      show entries[i].key = key from congrArg Prod.snd hkey]
  have htracked : ((tracked cfg s.hold ns key).counted (.write (recordId cfg ns key))).ctx = some entries := by
    show (tracked cfg s.hold ns key).ctx = _
    rw [tracked, post_trackSet hctx, hfind]
    simp only [modify_id hi hid]
  rw [hpost, post_trackDelete htracked, hfind]
  exact (storePersisted_recorded rfl).ctx

theorem refused_absent (hfind : findEntry entries ns key = none) :
    (post (kvSet cfg ns key (some value)) s).ctx = some entries ∧
      (¬ Strands cfg s entries → persistedIds cfg (post (kvSet cfg ns key (some value)) s).flash.cells =
        persistedIds cfg s.flash.cells) ∧
      (Strands cfg s entries → persistedIds cfg (post (kvSet cfg ns key (some value)) s).flash.cells =
        persistedIds cfg s.flash.cells ++ [recordId cfg ns key]) := by
  obtain ⟨-, -, -, hpost⟩ := kvSet_refused hw
  have hctx : (s.hold.counted (.read (recordId cfg ns key))).ctx = some entries := hup.ctx
  by_cases hfull : cfg.indexMax ≤ entries.length
  · have htracked : tracked cfg s.hold ns key = s.hold.counted (.read (recordId cfg ns key)) := by
      rw [tracked, post_trackSet hctx, hfind]
      simp only [if_pos hfull]
    have hctx' : ((tracked cfg s.hold ns key).counted (.write (recordId cfg ns key))).ctx = some entries := by
      rw [htracked]
      exact hup.ctx
    rw [hpost, post_trackDelete hctx', hfind, htracked]
    exact ⟨hup.ctx, fun _ => rfl, fun h => absurd h.2.1 (Nat.not_lt.mpr hfull)⟩
  · let added := entries ++ [IndexEntry.mk ns key (recordId cfg ns key)]
    let before : KvSt := { s.hold.counted (.read (recordId cfg ns key)) with ctx := some added }
    have htracked : tracked cfg s.hold ns key = post (storePersisted cfg) before := by
      rw [tracked, post_trackSet hctx, hfind]
      simp only [if_neg hfull]
      rfl
    have hstore : Recorded cfg added before (post (storePersisted cfg) before) := storePersisted_recorded rfl
    have hlast : findEntry added ns key = some entries.length := by
      unfold findEntry at hfind ⊢
      rw [List.findIdx?_append, hfind]
      simp
    have herase : added.eraseIdx entries.length = entries := by
      rw [List.eraseIdx_append_of_length_le (Nat.le_refl _)]
      simp
    have hctx' : ((tracked cfg s.hold ns key).counted (.write (recordId cfg ns key))).ctx = some added := by
      rw [htracked]
      exact hstore.ctx
    have hpost' : post (kvSet cfg ns key (some value)) s = _ := hpost
    rw [post_trackDelete hctx', hlast] at hpost'
    dsimp only at hpost'
    rw [herase] at hpost'
    generalize hmid : ({ (tracked cfg s.hold ns key).counted (.write (recordId cfg ns key)) with ctx := some entries } : KvSt)
      = middle at hpost'
    have hundone : Recorded cfg entries middle (post (storePersisted cfg) middle) :=
      storePersisted_recorded (by rw [← hmid])
    have hcells : middle.flash.cells = (post (storePersisted cfg) before).flash.cells := by
      rw [← hmid, ← htracked]
      rfl
    have hfault : middle.flash.fault (.write (indexRecId cfg)) =
        s.flash.faults (.write (indexRecId cfg))
          (s.flash.made (.write (indexRecId cfg)) + if cfg.persistIndex then 1 else 0) := by
      have hmade : middle.flash.made (.write (indexRecId cfg)) =
          (post (storePersisted cfg) before).flash.made (.write (indexRecId cfg)) := by
        rw [← hmid, ← htracked]
        apply IdStore.made_count_of_ne _
        intro h
        apply recordId_ne_index cfg ns key
        exact (IdOp.write.inj h).symm
      have hbefore : before.flash.made (.write (indexRecId cfg)) = s.flash.made (.write (indexRecId cfg)) :=
        IdStore.made_count_of_ne _ (by simp)
      have hfaults : middle.flash.faults = s.flash.faults := by
        rw [← hmid]
        show (tracked cfg s.hold ns key).flash.faults = _
        rw [htracked, hstore.faults]
        rfl
      unfold IdStore.fault
      rw [hmade, hstore.made, hbefore, hfaults]
    have hfirst : before.flash.fault (.write (indexRecId cfg)) = s.flash.fault (.write (indexRecId cfg)) :=
      congrArg (s.flash.faults _) (IdStore.made_count_of_ne _ (by simp))
    have hend : (post (kvSet cfg ns key (some value)) s).flash.cells = (post (storePersisted cfg) middle).flash.cells := by
      rw [hpost']
      rfl
    have hstart : before.flash.cells = s.flash.cells := rfl
    refine ⟨by rw [hpost']; exact hundone.ctx, ?_⟩
    rw [hend, hundone.cells, hcells, hstore.cells, hstart, hfault, hfirst]
    unfold Strands
    by_cases hp : cfg.persistIndex = true
    · simp only [hp, true_and, if_true]
      have hlt := Nat.lt_of_not_le hfull
      by_cases hsecond : s.flash.faults (.write (indexRecId cfg)) (s.flash.made (.write (indexRecId cfg)) + 1) = none
      · rw [if_pos hsecond]
        refine ⟨fun _ => ?_, fun h => absurd hsecond h.2.2⟩
        rw [withIndex, persistedIds_store hp hlt.le, hup.persisted hp]
      · rw [if_neg hsecond]
        by_cases hone : s.flash.fault (.write (indexRecId cfg)) = none
        · rw [if_pos hone]
          refine ⟨fun h => absurd ⟨hlt, hone, hsecond⟩ h, fun _ => ?_⟩
          have hlen : added.length ≤ cfg.indexMax := by
            simp [added]
            omega
          rw [withIndex, persistedIds_store hp hlen, hup.persisted hp, List.map_append]
          rfl
        · rw [if_neg hone]
          exact ⟨fun _ => rfl, fun h => absurd h.2.1 hone⟩
    · rw [if_neg fun h => hp h.1, if_neg fun h => hp h.1]
      exact ⟨fun _ => rfl, fun h => absurd h.1 hp⟩

end Refused

/-- The state seen through a backend that accepts every operation, with heap and these blocks. -/
def KvSt.calm (s : KvSt) (ioFree : Nat) : KvSt :=
  { s with ioFree := ioFree, heapRoom := true, flash := { s.flash with faults := fun _ _ => none } }

/-- The same after a reboot. -/
def KvSt.reboot (s : KvSt) (ioFree : Nat) : KvSt := { s.calm ioFree with ctx := none }

/-- Gets, and iterations in this boot and after a reboot, answer as before. -/
structure Unchanged (cfg : KvCfg) (s t : KvSt) : Prop where
  gets : ∀ ns key capacity ioFree, outcome (kvGet cfg ns key capacity) (t.calm ioFree) =
    outcome (kvGet cfg ns key capacity) (s.calm ioFree)
  iterates : ∀ ns keyCapacity valueCapacity ioFree, cfg.maxKeyLen < keyCapacity → ioFree ≠ 0 →
    outcome (kvIterate cfg ns keyCapacity valueCapacity) (t.calm ioFree) =
      outcome (kvIterate cfg ns keyCapacity valueCapacity) (s.calm ioFree)
  reboots : ∀ ns keyCapacity valueCapacity ioFree, cfg.maxKeyLen < keyCapacity → ioFree ≠ 0 →
    outcome (kvIterate cfg ns keyCapacity valueCapacity) (t.reboot ioFree) =
      outcome (kvIterate cfg ns keyCapacity valueCapacity) (s.reboot ioFree)

theorem outcome_kvGet_calm {s t : KvSt} (h : SameRecords cfg s.flash.cells t.flash.cells) (ns key : CString)
    (capacity ioFree : Nat) : outcome (kvGet cfg ns key capacity) (t.calm ioFree) =
      outcome (kvGet cfg ns key capacity) (s.calm ioFree) := by
  by_cases hkey : keyValid cfg key = true
  · by_cases hio : ioFree = 0
    · have hnone : ∀ u : KvSt, u.ioFree = 0 → outcome (kvGet cfg ns key capacity) u = .error .ERR_NOMEM := by
        intro u hu
        have hrun : (kvGet cfg ns key capacity).run u = .error .ERR_NOMEM u := by
          simp only [kvGet, hkey, Bool.not_true, Bool.false_eq_true, if_false]
          exact run_fails (withBlock_none hu)
        unfold outcome
        rw [hrun]
      rw [hnone _ hio, hnone _ hio]
    · have hcell : t.flash.cells (recordId cfg ns key) = s.flash.cells (recordId cfg ns key) :=
        h _ (recordId_ne_index cfg ns key)
      rw [outcome_kvGet hkey (s := s.calm ioFree) hio, outcome_kvGet hkey (s := t.calm ioFree) hio]
      rw [show (t.calm ioFree).flash.cells = t.flash.cells from rfl]
      rw [hcell]
      rfl
  · have hget : kvGet cfg ns key capacity = throw .ERR_INVAL := by simp [kvGet, hkey]
    rw [hget]
    rfl

theorem kvIterate_calm {s : KvSt} {entries : List IndexEntry} (hctx : s.ctx = some entries)
    (ho : Orderly cfg s.flash.cells) (hlive : ∀ e ∈ entries, Live cfg s.flash.cells e) (ns : CString)
    {keyCapacity : Nat} (hcap : cfg.maxKeyLen < keyCapacity) (valueCapacity : Nat) {ioFree : Nat} (hio : ioFree ≠ 0) :
    outcome (kvIterate cfg ns keyCapacity valueCapacity) (s.calm ioFree) =
      .ok ((entries.filter fun e => e.namespaceName == ns).map (itemOf cfg s.flash.cells valueCapacity), .ERR_NOT_FOUND) := by
  have hready : Ready cfg s.flash.cells entries (s.calm ioFree) := ⟨fun _ _ => rfl, rfl, hctx, ho, hlive, hio⟩
  have hopen : (kvIterOpen cfg).run (s.calm ioFree) = .ok () (s.calm ioFree) := by
    obtain ⟨ctx, ioFree', heapRoom, flash⟩ := s
    obtain rfl : ctx = some entries := hctx
    rfl
  obtain ⟨t, hrun, -⟩ := @kvIterate_run cfg _ _ _ hready ns _ hcap valueCapacity _ hopen
  exact outcome_of_run hrun

theorem kvIterate_reboot {s : KvSt} (ho : Orderly cfg s.flash.cells)
    (hslots : ∀ id ∈ persistedIds cfg s.flash.cells, id ≠ indexRecId cfg) (ns : CString)
    {keyCapacity : Nat} (hcap : cfg.maxKeyLen < keyCapacity) (valueCapacity : Nat) {ioFree : Nat} (hio : ioFree ≠ 0) :
    outcome (kvIterate cfg ns keyCapacity valueCapacity) (s.reboot ioFree) =
      .ok (((loaded cfg s.flash.cells).filter fun e => e.namespaceName == ns).map
        (itemOf cfg s.flash.cells valueCapacity), .ERR_NOT_FOUND) := by
  obtain ⟨t, cells, hload, ht, hcells, -⟩ := @loadPersisted_run cfg (fun _ => True)
    { s.reboot ioFree with ctx := some [] } (fun _ _ => rfl) trivial rfl hio
  have hsame : SameRecords cfg s.flash.cells cells := by
    rcases hcells with rfl | rfl
    · exact .refl _
    · exact sameRecords_withIndex cfg _ _
  have hlive : ∀ e ∈ loaded cfg s.flash.cells, Live cfg s.flash.cells e := by
    intro e he
    obtain ⟨id, hid, hentry⟩ := List.mem_filterMap.mp he
    obtain ⟨heid, hrid, hstored⟩ := ho.of_entryAt (hslots id hid) hentry
    exact ⟨heid.trans hrid.symm, hstored⟩
  have hready : Ready cfg cells (loaded cfg s.flash.cells) t :=
    ⟨ht.sound fun _ _ => rfl, ht.flash.cells, ht.ctx, hsame.orderly ho, fun e he => hsame.live (hlive e he),
      by rw [ht.ioFree]; exact hio⟩
  have hopen : (kvIterOpen cfg).run (s.reboot ioFree) = .ok () t := by
    have hctx : (ctxGetOrAlloc cfg).run (s.reboot ioFree) = .ok true t :=
      run_then (a := s.reboot ioFree) rfl (run_then (t := { s.reboot ioFree with ctx := some [] }) rfl
        (run_then hload rfl))
    exact run_then hctx rfl
  obtain ⟨u, hrun, -⟩ := @kvIterate_run cfg _ _ _ hready ns _ hcap valueCapacity _ hopen
  have hitems : itemOf cfg cells valueCapacity = itemOf cfg s.flash.cells valueCapacity := by
    funext e
    unfold itemOf
    rw [hsame.stored]
  rw [outcome_of_run hrun, hitems]

theorem itemOf_same {cells cells' : Cells} (h : SameRecords cfg cells cells') (valueCapacity : Nat) :
    itemOf cfg cells' valueCapacity = itemOf cfg cells valueCapacity := by
  funext e
  unfold itemOf
  rw [h.stored]

/-- Reachable by calls and reboots from an empty store, whatever the backend does. -/
inductive Reached (cfg : KvCfg) : KvSt → Prop
  | boot (flash : IdStore) (ioFree : Nat) (heapRoom : Bool) (hempty : flash.cells = fun _ => none) :
      Reached cfg (.boot flash ioFree heapRoom)
  | call {s : KvSt} (h : Reached cfg s) (ioFree : Nat) (heapRoom : Bool) (op : KvOp) :
      Reached cfg (post (op.run cfg) (s.given ioFree heapRoom))
  | reboot {s : KvSt} (h : Reached cfg s) (ioFree : Nat) (heapRoom : Bool) :
      Reached cfg (.boot s.flash ioFree heapRoom)

theorem Reached.orderly {s : KvSt} (h : Reached cfg s) : Orderly cfg s.flash.cells := by
  induction h with
  | boot flash ioFree heapRoom hempty =>
    intro id record _ hcell
    have hnone : flash.cells id = none := by rw [hempty]
    exact absurd (hnone.symm.trans hcell) (by simp)
  | call _ ioFree heapRoom op ih => exact Tidy.orderly (keeps_op (tidy_throughout cfg) op _) ih
  | reboot _ _ _ ih => exact ih

/-- The set was of a new key, and its entry is not left on record in a slot that holds a value. -/
def RollsBack (cfg : KvCfg) (s : KvSt) (entries : List IndexEntry) (ns key : CString) : Prop :=
  (ns, key) ∉ entries.map (·.nsKey) ∧
    ¬ (Strands cfg s entries ∧ s.flash.cells (recordId cfg ns key) ≠ none)

theorem UpToDate.slots {s : KvSt} {entries : List IndexEntry} (hup : UpToDate cfg s entries) :
    ∀ id ∈ persistedIds cfg s.flash.cells, id ≠ indexRecId cfg := by
  intro id hid
  by_cases hp : cfg.persistIndex = true
  · rw [hup.persisted hp] at hid
    obtain ⟨e, he, rfl⟩ := List.mem_map.mp hid
    rw [(hup.live e he).1]
    exact recordId_ne_index cfg _ _
  · have hnone : persistedIds cfg s.flash.cells = [] := by
      unfold persistedIds
      rw [if_neg hp]
    rw [hnone] at hid
    cases hid

theorem entryAt_same {cells cells' : Cells} (h : SameRecords cfg cells cells') {ids : List UInt32}
    (hids : ∀ id ∈ ids, id ≠ indexRecId cfg) : ids.filterMap (entryAt cfg cells') = ids.filterMap (entryAt cfg cells) :=
  List.filterMap_congr fun id hid => by
    unfold entryAt
    rw [h id (hids id hid)]

theorem length_filter_eraseIdx {α : Type} {p : α → Bool} {l : List α} {i : Nat} (hi : i < l.length) (hp : p l[i] = true) :
    ((l.eraseIdx i).filter p).length + 1 = (l.filter p).length := by
  induction l generalizing i with
  | nil => exact absurd hi (Nat.not_lt_zero _)
  | cons a l ih =>
    cases i with
    | zero =>
      have hpa : p a = true := hp
      simp [hpa]
    | succ i =>
      have hrest := ih (Nat.lt_of_succ_lt_succ hi) hp
      rw [List.eraseIdx_cons_succ]
      by_cases hpa : p a = true
      · rw [List.filter_cons_of_pos hpa, List.filter_cons_of_pos hpa, List.length_cons, List.length_cons, hrest]
      · rw [List.filter_cons_of_neg hpa, List.filter_cons_of_neg hpa, hrest]

section Observed
variable {s : KvSt} {entries : List IndexEntry} {ns key : CString} {value : Bytes}
  (ho : Orderly cfg s.flash.cells) (hup : UpToDate cfg s entries) (hw : WriteRefused cfg s ns key value)
include ho hup hw

theorem kvIterate_reboot_refused (habsent : (ns, key) ∉ entries.map (·.nsKey)) (ns' : CString) {keyCapacity : Nat}
    (hcap : cfg.maxKeyLen < keyCapacity) (valueCapacity : Nat) {ioFree : Nat} (hio : ioFree ≠ 0)
    [Decidable (Strands cfg s entries)] :
    outcome (kvIterate cfg ns' keyCapacity valueCapacity) ((post (kvSet cfg ns key (some value)) s).reboot ioFree) =
      .ok (((loaded cfg s.flash.cells ++ if Strands cfg s entries then
          (entryAt cfg s.flash.cells (recordId cfg ns key)).toList else []).filter fun e => e.namespaceName == ns').map
        (itemOf cfg s.flash.cells valueCapacity), .ERR_NOT_FOUND) := by
  have hsame := refused_records hw
  obtain ⟨-, hclean, hstranded⟩ := refused_absent hw hup (findEntry_none.mpr habsent)
  have hone : ∀ id ∈ [recordId cfg ns key], id ≠ indexRecId cfg := by simpa using recordId_ne_index cfg ns key
  have hids : ∀ id ∈ persistedIds cfg (post (kvSet cfg ns key (some value)) s).flash.cells, id ≠ indexRecId cfg := by
    intro id hid
    by_cases h : Strands cfg s entries
    · rw [hstranded h, List.mem_append] at hid
      exact hid.elim (hup.slots id) (hone id)
    · exact hup.slots id (hclean h ▸ hid)
  have hloaded : loaded cfg (post (kvSet cfg ns key (some value)) s).flash.cells = loaded cfg s.flash.cells ++
      if Strands cfg s entries then (entryAt cfg s.flash.cells (recordId cfg ns key)).toList else [] := by
    unfold loaded
    rw [entryAt_same hsame hids]
    split
    · rename_i h
      rw [hstranded h, List.filterMap_append, List.filterMap_cons, List.filterMap_nil]
      cases entryAt cfg s.flash.cells (recordId cfg ns key) <;> rfl
    · rename_i h
      rw [hclean h, List.append_nil]
  rw [kvIterate_reboot (hsame.orderly ho) hids ns' hcap valueCapacity hio, hloaded, itemOf_same hsame]

theorem unchanged_of_rollsBack (h : RollsBack cfg s entries ns key) :
    Unchanged cfg s (post (kvSet cfg ns key (some value)) s) := by
  classical
  have hsame := refused_records hw
  obtain ⟨hctx, -⟩ := refused_absent hw hup (findEntry_none.mpr h.1)
  refine ⟨outcome_kvGet_calm hsame, fun ns' keyCapacity valueCapacity ioFree hcap hio => ?_,
    fun ns' keyCapacity valueCapacity ioFree hcap hio => ?_⟩
  · rw [kvIterate_calm hctx (hsame.orderly ho) (fun e he => hsame.live (hup.live e he)) ns' hcap valueCapacity hio,
      kvIterate_calm hup.ctx ho hup.live ns' hcap valueCapacity hio, itemOf_same hsame]
  · rw [kvIterate_reboot_refused ho hup hw h.1 ns' hcap valueCapacity hio,
      kvIterate_reboot ho hup.slots ns' hcap valueCapacity hio]
    have hnothing : (if Strands cfg s entries then (entryAt cfg s.flash.cells (recordId cfg ns key)).toList else []) = [] := by
      split
      · rename_i hstrands
        have hcell : s.flash.cells (recordId cfg ns key) = none := by
          by_contra hcell
          exact h.2 ⟨hstrands, hcell⟩
        simp [entryAt, hcell]
      · rfl
    rw [hnothing, List.append_nil]

theorem rollsBack_of_unchanged (h : Unchanged cfg s (post (kvSet cfg ns key (some value)) s)) :
    RollsBack cfg s entries ns key := by
  classical
  have hsame := refused_records hw
  have habsent : (ns, key) ∉ entries.map (·.nsKey) := by
    -- the iteration of this boot would lack the key
    intro hin
    cases hfind : findEntry entries ns key with
    | none => exact findEntry_none.mp hfind hin
    | some i =>
      obtain ⟨hi, hkey⟩ := findEntry_some hfind
      have hns : (entries[i].namespaceName == ns) = true := beq_iff_eq.mpr (congrArg Prod.fst hkey)
      have hlive : ∀ e ∈ entries.eraseIdx i, Live cfg (post (kvSet cfg ns key (some value)) s).flash.cells e :=
        fun e he => hsame.live (hup.live e (List.mem_of_mem_eraseIdx he))
      have hiter := h.iterates ns (cfg.maxKeyLen + 1) 0 1 (Nat.lt_succ_self _) (by decide)
      rw [kvIterate_calm (refused_present hw hup hfind) (hsame.orderly ho) hlive ns (Nat.lt_succ_self _) 0 (by decide),
        kvIterate_calm hup.ctx ho hup.live ns (Nat.lt_succ_self _) 0 (by decide)] at hiter
      have hlen := congrArg List.length (Prod.mk.inj (Except.ok.inj hiter)).1
      have hone := length_filter_eraseIdx (p := fun e : IndexEntry => e.namespaceName == ns) hi hns
      rw [List.length_map, List.length_map] at hlen
      omega
  refine ⟨habsent, fun ⟨hstrands, hcell⟩ => ?_⟩
  -- the iteration after a reboot would list the key of the record in that slot once more
  obtain ⟨record, hrecord⟩ := Option.ne_none_iff_exists'.mp hcell
  obtain ⟨k, held, -, -, hid, -, -, hstored⟩ := ho.owner (recordId_ne_index cfg ns key) hrecord
  have hentry : entryAt cfg s.flash.cells (recordId cfg ns key) = some ⟨k.1, k.2, recordId cfg k.1 k.2⟩ := by
    rw [← hid]
    exact ho.entryAt hstored
  have hiter := h.reboots k.1 (cfg.maxKeyLen + 1) 0 1 (Nat.lt_succ_self _) (by decide)
  rw [kvIterate_reboot_refused ho hup hw habsent k.1 (Nat.lt_succ_self _) 0 (by decide),
    kvIterate_reboot ho hup.slots k.1 (Nat.lt_succ_self _) 0 (by decide), if_pos hstrands, hentry] at hiter
  have hlen := congrArg List.length (Prod.mk.inj (Except.ok.inj hiter)).1
  simp at hlen

end Observed

/-- A set whose value write is refused fails, and leaves every get and every iteration, in this boot and after
a reboot, as it was iff the key had no entry in the index and its entry is not left on record in a slot that
holds a value. -/
theorem refused_set_unchanged_iff {s : KvSt} (hreach : Reached cfg s) {entries : List IndexEntry}
    (hup : UpToDate cfg s entries) {ns key : CString} {value : Bytes} (hw : WriteRefused cfg s ns key value) :
    (∃ status, status ≠ .OK ∧ outcome (kvSet cfg ns key (some value)) s = .error status) ∧
      (Unchanged cfg s (post (kvSet cfg ns key (some value)) s) ↔ RollsBack cfg s entries ns key) := by
  obtain ⟨status, hne, hout, -⟩ := kvSet_refused hw
  exact ⟨⟨status, hne, hout⟩, rollsBack_of_unchanged hreach.orderly hup hw,
    unchanged_of_rollsBack hreach.orderly hup hw⟩

/-- "ab" holds 5 and is indexed, and the backend refuses every write of the record of "cyx". -/
def besideAb : KvSt :=
  post ((KvOp.set nsN keyAb (some [5])).run (.nvs true 128 []))
    ((KvSt.boot (.blank fun op _ => if op = .write 35193 then some Errno.EIO else none) 2 true).given 2 true)

def abEntry : IndexEntry := ⟨nsN, keyAb, recordId (.nvs true 128 []) nsN keyAb⟩

/-- The first set of a key beside another one, its write refused. -/
theorem new_key_rolled_back :
    ((∃ status, status ≠ .OK ∧ outcome (kvSet (.nvs true 128 []) nsN keyCyx (some [1])) besideAb = .error status) ∧
      (Unchanged (.nvs true 128 []) besideAb (post (kvSet (.nvs true 128 []) nsN keyCyx (some [1])) besideAb) ↔
        RollsBack (.nvs true 128 []) besideAb [abEntry] nsN keyCyx)) ∧
      RollsBack (.nvs true 128 []) besideAb [abEntry] nsN keyCyx := by
  have hreach : Reached (.nvs true 128 []) besideAb := .call (.boot _ 2 true rfl) 2 true (.set nsN keyAb (some [5]))
  have hctx : besideAb.ctx = some [abEntry] := by decide +kernel
  have hids : persistedIds (.nvs true 128 []) besideAb.flash.cells = [abEntry.id] := by decide +kernel
  have hcell : besideAb.flash.cells (recordId (.nvs true 128 []) nsN keyCyx) = none := by decide +kernel
  have hlive : Live (.nvs true 128 []) besideAb.flash.cells abEntry := ⟨by decide +kernel, by decide +kernel⟩
  have hup : UpToDate (.nvs true 128 []) besideAb [abEntry] :=
    ⟨hctx, by decide, fun e he => List.mem_singleton.mp he ▸ hlive, fun _ => hids⟩
  have hw : WriteRefused (.nvs true 128 []) besideAb nsN keyCyx [1] :=
    ⟨⟨⟨by decide, by decide, by decide⟩, by decide +kernel⟩, by decide +kernel, by decide +kernel⟩
  exact ⟨refused_set_unchanged_iff hreach hup hw, by decide, fun h => h.2 hcell⟩

/-- "cyx" holds 1, and the backend refuses the next write of its record. -/
def overwritten : KvSt :=
  post ((KvOp.set nsN keyCyx (some [1])).run (.nvs true 128 []))
    ((KvSt.boot (.blank fun op n => if op = .write 35193 ∧ n = 1 then some Errno.EIO else none) 2 true).given 2 true)

/-- A set of a key that has a value, its write refused: the key is still there, but no iteration lists it. -/
theorem refused_overwrite_hides_key :
    (outcome (kvSet (.nvs true 128 []) nsN keyCyx (some [2])) overwritten).toOption = none ∧
      (outcome (kvGet (.nvs true 128 []) nsN keyCyx 8)
        ((post (kvSet (.nvs true 128 []) nsN keyCyx (some [2])) overwritten).calm 2)).toOption = some ([1], 1) ∧
      (outcome (kvIterate (.nvs true 128 []) nsN 49 8) (overwritten.calm 2)).toOption =
        some ([(keyCyx, [1], 1)], .ERR_NOT_FOUND) ∧
      (outcome (kvIterate (.nvs true 128 []) nsN 49 8)
        ((post (kvSet (.nvs true 128 []) nsN keyCyx (some [2])) overwritten).calm 2)).toOption = some ([], .ERR_NOT_FOUND) ∧
      (outcome (kvIterate (.nvs true 128 []) nsN 49 8)
        ((post (kvSet (.nvs true 128 []) nsN keyCyx (some [2])) overwritten).reboot 2)).toOption =
          some ([], .ERR_NOT_FOUND) := by
  refine ⟨?_, ?_, ?_, ?_, ?_⟩ <;> decide +kernel

end ZephyrDB.Kv
