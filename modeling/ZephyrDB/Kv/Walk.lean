import ZephyrDB.Kv.Steady

/-!
Walks of the index over a backend that accepts every operation: an iterator
yields the entries of its namespace in order, and a reset deletes them.
-/

set_option autoImplicit false

namespace ZephyrDB.Kv

open Lib

variable {cfg : KvCfg}

/-- The entries of a namespace from a position on. -/
def ahead (entries : List IndexEntry) (ns : CString) (pos : Nat) : List IndexEntry :=
  (entries.drop pos).filter fun e => e.namespaceName == ns

theorem filter_findIdx {α : Type} (p : α → Bool) (l : List α) : l.filter p = match l.findIdx? p with
    | none => []
    | some i => (l[i]?).toList ++ (l.drop (i + 1)).filter p := by
  induction l with
  | nil => rfl
  | cons a l ih =>
    rw [List.findIdx?_cons]
    by_cases ha : p a = true
    · simp [ha]
    · rw [List.filter_cons_of_neg (by simpa using ha), if_neg ha, ih]
      cases l.findIdx? p <;> rfl

theorem ahead_none {entries : List IndexEntry} {ns : CString} {pos : Nat} (h : nextKeyInNs entries ns pos = none) :
    ahead entries ns pos = [] := by
  unfold nextKeyInNs at h
  rw [Option.map_eq_none_iff] at h
  rw [ahead, filter_findIdx, h]

theorem ahead_some {entries : List IndexEntry} {ns : CString} {pos i : Nat} (h : nextKeyInNs entries ns pos = some i) :
    ∃ e, entries[i]? = some e ∧ e.namespaceName = ns ∧ ahead entries ns pos = e :: ahead entries ns (i + 1) := by
  unfold nextKeyInNs at h
  obtain ⟨j, hj, rfl⟩ := Option.map_eq_some_iff.mp h
  obtain ⟨hlt, hp, -⟩ := List.findIdx?_eq_some_iff_getElem.mp hj
  have hlen : pos + j < entries.length := by
    rw [List.length_drop] at hlt
    omega
  have hget : (entries.drop pos)[j]? = some entries[pos + j] := by
    rw [List.getElem?_drop, List.getElem?_eq_getElem hlen]
  refine ⟨entries[pos + j], List.getElem?_eq_getElem hlen, ?_, ?_⟩
  · rw [List.getElem_drop] at hp
    exact beq_iff_eq.mp hp
  · rw [ahead, filter_findIdx, hj]
    simp only [hget, Option.toList_some, List.drop_drop, List.singleton_append]
    rfl

def itemOf (cfg : KvCfg) (cells : Cells) (valueCapacity : Nat) (e : IndexEntry) : Item :=
  let value := (stored cfg cells e.nsKey).getD []
  (e.key, value.take valueCapacity, value.length)

structure Ready (cfg : KvCfg) (cells : Cells) (entries : List IndexEntry) (s : KvSt) : Prop where
  sound : s.flash.Sound
  contents : s.flash.cells = cells
  ctx : s.ctx = some entries
  orderly : Orderly cfg cells
  live : ∀ e ∈ entries, Live cfg cells e
  block : s.ioFree ≠ 0

theorem Ready.counted {cells : Cells} {entries : List IndexEntry} {s : KvSt} (h : Ready cfg cells entries s) (op : IdOp) :
    Ready cfg cells entries (s.counted op) :=
  ⟨h.sound, h.contents, h.ctx, h.orderly, h.live, h.block⟩

theorem iterScan_end {entries : List IndexEntry} {ns : CString} {keyCapacity pos : Nat} {s : KvSt}
    (hctx : s.ctx = some entries) (h : nextKeyInNs entries ns pos = none) (valueCapacity fuel : Nat) :
    (iterScan cfg ns keyCapacity valueCapacity (fuel + 1) pos).run s =
      .ok (max pos entries.length, .error .ERR_NOT_FOUND) s := by
  refine run_then (a := s) rfl ?_
  simp only [hctx, h]
  rfl

theorem iterScan_round {entries : List IndexEntry} {ns : CString} {keyCapacity valueCapacity fuel pos i : Nat}
    {e : IndexEntry} {s : KvSt} (hctx : s.ctx = some entries) (hnext : nextKeyInNs entries ns pos = some i)
    (he : entries[i]? = some e) (hempty : e.key.val.isEmpty = false) (hcap : e.key.val.length < keyCapacity) :
    (∀ {copied len}, outcome (kvGet cfg ns e.key valueCapacity) s = .ok (copied, len) →
        (iterScan cfg ns keyCapacity valueCapacity (fuel + 1) pos).run s =
          .ok (i + 1, .ok (e.key, copied, len)) (post (kvGet cfg ns e.key valueCapacity) s)) ∧
      (outcome (kvGet cfg ns e.key valueCapacity) s = .error .ERR_NOT_FOUND →
        (iterScan cfg ns keyCapacity valueCapacity (fuel + 1) pos).run s =
          (iterScan cfg ns keyCapacity valueCapacity fuel (i + 1)).run (post (kvGet cfg ns e.key valueCapacity) s)) ∧
      ∀ {status}, status ≠ .ERR_NOT_FOUND → outcome (kvGet cfg ns e.key valueCapacity) s = .error status →
        (iterScan cfg ns keyCapacity valueCapacity (fuel + 1) pos).run s =
          .ok (i + 1, .error status) (post (kvGet cfg ns e.key valueCapacity) s) := by
  refine ⟨fun hget => ?_, fun hget => ?_, fun {status} hne hget => ?_⟩
  all_goals
    refine run_then (a := s) rfl ?_
    simp only [hctx, hnext, he, hempty, Bool.false_eq_true, if_false, if_neg (Nat.not_lt.mpr hcap)]
    apply run_then (run_attempt _ _)
    rw [hget]
  · rfl
  · cases status <;> first | rfl | exact absurd rfl hne

section Iterate
variable {cells : Cells} {entries : List IndexEntry} {s : KvSt} (hr : Ready cfg cells entries s) {ns : CString}
  {keyCapacity : Nat} (hcap : cfg.maxKeyLen < keyCapacity) (valueCapacity : Nat)
include hr hcap

theorem iterScan_item {pos i : Nat} {e : IndexEntry} (h : nextKeyInNs entries ns pos = some i)
    (he : entries[i]? = some e) (hns : e.namespaceName = ns) (fuel : Nat) :
    (iterScan cfg ns keyCapacity valueCapacity (fuel + 1) pos).run s =
      .ok (i + 1, .ok (itemOf cfg cells valueCapacity e)) (s.counted (.read (recordId cfg ns e.key))) := by
  obtain ⟨-, hstored⟩ := hr.live e (List.mem_of_getElem? he)
  obtain ⟨value, hvalue⟩ := Option.ne_none_iff_exists'.mp hstored
  obtain ⟨-, -, hkey, -⟩ := hr.orderly.record hvalue
  have hkey' : keyValid cfg e.key = true := hkey
  obtain ⟨hpos, hlen⟩ := keyValid_iff.mp hkey'
  have hnsKey : stored cfg s.flash.cells (ns, e.key) = some value := by
    rw [hr.contents, ← hns]
    exact hvalue
  have hempty : e.key.val.isEmpty = false := by simpa using hpos
  have hout : outcome (kvGet cfg ns e.key valueCapacity) s = .ok (value.take valueCapacity, value.length) := by
    rw [kvGet_sound hr.sound (hr.contents ▸ hr.orderly) hkey' hr.block, hnsKey]
  have hpost : post (kvGet cfg ns e.key valueCapacity) s = s.counted (.read (recordId cfg ns e.key)) := by
    rw [post_kvGet, if_pos ⟨hkey', hr.block⟩]
  have hitem : itemOf cfg cells valueCapacity e = (e.key, value.take valueCapacity, value.length) := by
    unfold itemOf
    rw [hvalue]
    rfl
  rw [(iterScan_round hr.ctx h he hempty (by omega)).1 hout, hpost, hitem]

theorem kvIterNext_run (pos : Nat) :
    (nextKeyInNs entries ns pos = none → (kvIterNext cfg ns keyCapacity valueCapacity pos).run s =
        .ok (max pos entries.length, .error .ERR_NOT_FOUND) s) ∧
    (∀ i e, nextKeyInNs entries ns pos = some i → entries[i]? = some e → e.namespaceName = ns →
      (kvIterNext cfg ns keyCapacity valueCapacity pos).run s =
        .ok (i + 1, .ok (itemOf cfg cells valueCapacity e)) (s.counted (.read (recordId cfg ns e.key)))) := by
  have hnext : (kvIterNext cfg ns keyCapacity valueCapacity pos).run s =
      (iterScan cfg ns keyCapacity valueCapacity ((s.ctx.getD []).length + 1) pos).run s := by
    unfold kvIterNext
    rw [if_neg (by omega)]
    rfl
  exact ⟨fun h => hnext.trans (iterScan_end hr.ctx h valueCapacity _),
    fun i e h he hns => hnext.trans (iterScan_item hr hcap valueCapacity h he hns _)⟩

theorem kvIterWalk_run {calls pos : Nat} (hcalls : (ahead entries ns pos).length < calls) :
    ∃ t, (kvIterWalk cfg ns keyCapacity valueCapacity calls pos).run s =
        .ok ((ahead entries ns pos).map (itemOf cfg cells valueCapacity), .ERR_NOT_FOUND) t ∧
      Ready cfg cells entries t := by
  induction calls generalizing pos s with
  | zero => exact absurd hcalls (Nat.not_lt_zero _)
  | succ calls ih =>
    obtain ⟨hend, hitem⟩ := @kvIterNext_run cfg cells entries s hr ns keyCapacity hcap valueCapacity pos
    cases h : nextKeyInNs entries ns pos with
    | none =>
      rw [ahead_none h]
      exact ⟨s, run_then (hend h) rfl, hr⟩
    | some i =>
      obtain ⟨e, he, hns, hahead⟩ := ahead_some h
      rw [hahead, List.length_cons] at hcalls
      obtain ⟨t, hrun, ht⟩ := @ih (s.counted (.read (recordId cfg ns e.key))) (hr.counted _) (i + 1) (by omega)
      rw [hahead]
      exact ⟨t, run_then (hitem i e h he hns) (run_then hrun rfl), ht⟩

theorem kvIterate_run {u : KvSt} (hload : (kvIterOpen cfg).run u = .ok () s) :
    ∃ t, (kvIterate cfg ns keyCapacity valueCapacity).run u =
        .ok ((entries.filter fun e => e.namespaceName == ns).map (itemOf cfg cells valueCapacity), .ERR_NOT_FOUND) t ∧
      Ready cfg cells entries t := by
  have hlen : (ahead entries ns 0).length < (s.ctx.getD []).length + 1 := by
    rw [hr.ctx]
    exact Nat.lt_succ_of_le (List.length_filter_le _ _)
  obtain ⟨t, hrun, ht⟩ := kvIterWalk_run hr hcap valueCapacity hlen
  exact ⟨t, run_then hload (run_then (a := s) rfl hrun), ht⟩

end Iterate

theorem kvIterate_lists {s : KvSt} (hs : s.flash.Sound) (hcur : Current cfg s) (hload : CanLoad s) (hio : s.ioFree ≠ 0)
    (ns : CString) {keyCapacity : Nat} (hcap : cfg.maxKeyLen < keyCapacity) (valueCapacity : Nat) :
    ∃ items, outcome (kvIterate cfg ns keyCapacity valueCapacity) s = .ok (items, .ERR_NOT_FOUND) ∧
      (items.map (·.1)).Nodup ∧
      ∀ key got, (key, got) ∈ items ↔ outcome (kvGet cfg ns key valueCapacity) s = .ok got := by
  obtain ⟨t, entries, cells, hctx, ht, hsame, hc, hl⟩ :=
    @context_run cfg (fun _ => True) s hs hcur hload fun _ _ _ => trivial
  have hready : Ready cfg cells entries t :=
    ⟨ht.sound hs, ht.flash.cells, ht.ctx, hc.orderly, hl.live, by rw [ht.ioFree]; exact hio⟩
  have hopen : (kvIterOpen cfg).run s = .ok () t := run_then hctx rfl
  obtain ⟨u, hrun, -⟩ := @kvIterate_run cfg cells entries t hready ns keyCapacity hcap valueCapacity s hopen
  refine ⟨_, outcome_of_run hrun, ?_, fun key got => ?_⟩
  · have hkeys : (((entries.filter fun e => e.namespaceName == ns).map (·.key)).map (Prod.mk ns)).Nodup := by
      have hsub := (List.filter_sublist (p := fun e : IndexEntry => e.namespaceName == ns) (l := entries)).map (·.nsKey)
      have hnodup := hsub.nodup (hl.keys_nodup hc.filed)
      rw [List.map_map]
      refine (List.map_congr_left fun e he => ?_) ▸ hnodup
      have hns : e.namespaceName = ns := beq_iff_eq.mp (List.mem_filter.mp he).2
      rw [IndexEntry.nsKey, hns]
      rfl
    rw [List.map_map]
    exact hkeys.of_map _
  · have hmem : (key, got) ∈ (entries.filter fun e => e.namespaceName == ns).map (itemOf cfg cells valueCapacity) ↔
        ∃ value, stored cfg s.flash.cells (ns, key) = some value ∧ got = (value.take valueCapacity, value.length) := by
      rw [List.mem_map]
      constructor
      · rintro ⟨e, he, hitem⟩
        obtain ⟨hmem, hns⟩ := List.mem_filter.mp he
        obtain ⟨hkey, hgot⟩ := Prod.mk.inj hitem
        have hnsKey : e.nsKey = (ns, key) := Prod.ext (beq_iff_eq.mp hns) hkey
        obtain ⟨value, hvalue⟩ := Option.ne_none_iff_exists'.mp (hl.live e hmem).2
        rw [hvalue] at hgot
        refine ⟨value, ?_, hgot.symm⟩
        rw [← hsame.stored, ← hnsKey]
        exact hvalue
      · rintro ⟨value, hvalue, rfl⟩
        rw [← hsame.stored] at hvalue
        obtain ⟨e, he, hnsKey⟩ := List.mem_map.mp ((hl.mem_iff hc (ns, key)).mpr (by rw [hvalue]; simp))
        refine ⟨e, List.mem_filter.mpr ⟨he, beq_iff_eq.mpr (congrArg Prod.fst hnsKey)⟩, ?_⟩
        have hkey : e.key = key := congrArg Prod.snd hnsKey
        unfold itemOf
        rw [hnsKey, hvalue, hkey]
        rfl
    rw [hmem]
    by_cases hkey : keyValid cfg key = true
    · rw [kvGet_sound hs hcur.charted.orderly hkey hio]
      cases stored cfg s.flash.cells (ns, key) with
      | none => simp
      | some value => simp [eq_comm]
    · have hget : outcome (kvGet cfg ns key valueCapacity) s = .error .ERR_INVAL := by
        have hdef : kvGet cfg ns key valueCapacity = throw .ERR_INVAL := by simp [kvGet, hkey]
        rw [hdef]
        rfl
      rw [hget]
      constructor
      · rintro ⟨value, hvalue, -⟩
        exact absurd (hcur.charted.orderly.record hvalue).2.2.1 hkey
      · intro h
        cases h

end ZephyrDB.Kv
