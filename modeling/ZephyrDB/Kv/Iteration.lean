import Mathlib.Data.List.InsertIdx
import ZephyrDB.Kv.Rollback
import ZephyrDB.Lib.Walk

/-!
An iterator while its store changes: a set appends to the index and a delete
compacts it, and the iterator is a bare position in it.
-/

set_option autoImplicit false

namespace ZephyrDB.Kv

open Lib

variable {cfg : KvCfg}

/-- The store, the iterator's position, the keys it has handed out, whether it has reported its end, and the
keys of the namespace that have held a value ever since it was opened. -/
structure IterSt where
  st : KvSt
  position : Nat
  returned : List CString
  ended : Bool
  live : CString → Bool

/-- A call of the iterator, or a set or a delete of any key. -/
inductive IterEvent where
  | next (keyCapacity valueCapacity : Nat)
  | set (ns key : CString) (value : Option Bytes)
  | delete (ns key : CString)

def IterSt.turn (cfg : KvCfg) (ns : CString) (r : IterSt) (st : KvSt) : IterSt :=
  { r with st := st, live := fun key => r.live key && (stored cfg st.flash.cells (ns, key)).isSome }

def IterSt.opened (cfg : KvCfg) (ns : CString) (st : KvSt) : IterSt :=
  ⟨st, 0, [], false, fun key => (stored cfg st.flash.cells (ns, key)).isSome⟩

/-- What a call of the iterator reports. -/
def IterSt.reports (r : IterSt) (position : Nat) : Except Status Item → IterSt
  | .ok item => { r with position := position, returned := r.returned ++ [item.1] }
  | .error .ERR_NOT_FOUND => { r with position := position, ended := true }
  | .error _ => { r with position := position }

/-- An event that finds so many free blocks; sets and deletes succeed, and the iterator has not reported its
end. -/
def IterSt.step (cfg : KvCfg) (ns : CString) (r : IterSt) (e : Nat × IterEvent) : Option IterSt :=
  let s := r.st.given e.1 r.st.heapRoom
  if r.ended then none
  else
    match e.2 with
    | .next keyCapacity valueCapacity =>
      let call := (KvOp.iterNext ns keyCapacity valueCapacity r.position).run cfg
      match outcome call s with
      | .ok (.item position item) => some ((r.turn cfg ns (post call s)).reports position item)
      | _ => none
    | .set ns' key value =>
      let call := (KvOp.set ns' key value).run cfg
      match outcome call s with
      | .ok _ => some (r.turn cfg ns (post call s))
      | .error _ => none
    | .delete ns' key =>
      let call := (KvOp.delete ns' key).run cfg
      match outcome call s with
      | .ok _ => some (r.turn cfg ns (post call s))
      | .error _ => none

def IterSt.run (cfg : KvCfg) (ns : CString) (r : IterSt) : List (Nat × IterEvent) → Option IterSt
  | [] => some r
  | e :: events => (r.step cfg ns e).bind fun t => t.run cfg ns events

theorem turn_live {ns : CString} {r : IterSt} {st : KvSt} {key : CString} :
    (r.turn cfg ns st).live key = true ↔ r.live key = true ∧ stored cfg st.flash.cells (ns, key) ≠ none := by
  show (r.live key && (stored cfg st.flash.cells (ns, key)).isSome) = true ↔ _
  rw [Bool.and_eq_true, Option.isSome_iff_ne_none]

/-- The buffer holds the key of each entry the iterator comes to, and its read is not refused, up to the first
whose record is there. -/
def Readable (cfg : KvCfg) (ns : CString) (keyCapacity : Nat) : List IndexEntry → KvSt → Prop
  | [], _ => True
  | e :: rest, s => e.key.val.length < keyCapacity ∧ s.flash.fault (.read (recordId cfg ns e.key)) = none ∧
      (stored cfg s.flash.cells (ns, e.key) = none → Readable cfg ns keyCapacity rest (s.counted (.read (recordId cfg ns e.key))))

instance (cfg : KvCfg) (ns : CString) (keyCapacity : Nat) :
    ∀ entries s, Decidable (Readable cfg ns keyCapacity entries s)
  | [], _ => isTrue trivial
  | e :: rest, s =>
    have := instDecidableReadable cfg ns keyCapacity rest (s.counted (.read (recordId cfg ns e.key)))
    inferInstanceAs (Decidable (_ ∧ _ ∧ (_ → _)))

/-- An event that does not disturb the iterator. A call finds a block, room for the key and a backend that
answers; a set does not append a key that was handed out, unless behind the iterator; and a delete behind the
iterator does not move an entry of the namespace past it. -/
def Harmless (cfg : KvCfg) (ns : CString) (r : IterSt) (e : Nat × IterEvent) : Prop :=
  let s := r.st.given e.1 r.st.heapRoom
  let entries := s.ctx.getD []
  match e.2 with
  | .next keyCapacity _ => s.ioFree ≠ 0 ∧ Readable cfg ns keyCapacity (ahead entries ns r.position) s
  | .set ns' key _ => ns' = ns → key ∈ r.returned → findEntry entries ns' key = none → entries.length < cfg.indexMax →
      entries.length < r.position
  | .delete ns' key => ∀ i ∈ findEntry entries ns' key, i < r.position →
      ∀ e ∈ entries[r.position]?, e.namespaceName ≠ ns

instance (cfg : KvCfg) (ns : CString) (r : IterSt) : ∀ e, Decidable (Harmless cfg ns r e)
  | (_, .next _ _) => inferInstanceAs (Decidable (_ ∧ _))
  | (_, .set _ _ _) => inferInstanceAs (Decidable (_ → _ → _ → _ → _))
  | (_, .delete _ _) => inferInstanceAs (Decidable (∀ i ∈ _, _ → ∀ e ∈ _, _))

def Undisturbed (cfg : KvCfg) (ns : CString) : IterSt → List (Nat × IterEvent) → Prop
  | _, [] => True
  | r, e :: events => Harmless cfg ns r e ∧ ∀ t ∈ r.step cfg ns e, Undisturbed cfg ns t events

instance (cfg : KvCfg) (ns : CString) : ∀ r events, Decidable (Undisturbed cfg ns r events)
  | _, [] => isTrue trivial
  | r, e :: events =>
    have (t : IterSt) := instDecidableUndisturbed cfg ns t events
    inferInstanceAs (Decidable (_ ∧ ∀ t ∈ r.step cfg ns e, _))

theorem steps_of_run {ns : CString} {r t : IterSt} {events : List (Nat × IterEvent)} (hrun : r.run cfg ns events = some t)
    (hok : Undisturbed cfg ns r events) :
    Steps (Guarded (Harmless cfg ns) fun r e t => r.step cfg ns e = some t) r events t := by
  induction events generalizing r with
  | nil =>
    obtain rfl := Option.some.inj hrun
    exact .nil r
  | cons e events ih =>
    obtain ⟨u, hstep, hrest⟩ := Option.bind_eq_some_iff.mp hrun
    exact .cons ⟨hok.1, hstep⟩ (ih hrest (hok.2 u hstep))

/-- A loaded index that lists each key of the namespace that holds a value, and no key twice. -/
structure Complete (cfg : KvCfg) (ns : CString) (s : KvSt) (entries : List IndexEntry) : Prop where
  ctx : s.ctx = some entries
  orderly : Orderly cfg s.flash.cells
  nodup : (entries.map (·.nsKey)).Nodup
  valid : ∀ e ∈ entries, keyValid cfg e.key = true
  covers : ∀ key, stored cfg s.flash.cells (ns, key) ≠ none → (ns, key) ∈ entries.map (·.nsKey)

theorem nextKeyInNs_skips {entries : List IndexEntry} {ns : CString} {pos i : Nat}
    (h : nextKeyInNs entries ns pos = some i) :
    pos ≤ i ∧ ∀ j e, pos ≤ j → j < i → entries[j]? = some e → e.namespaceName ≠ ns := by
  unfold nextKeyInNs at h
  obtain ⟨k, hk, rfl⟩ := Option.map_eq_some_iff.mp h
  obtain ⟨_, _, hbefore⟩ := List.findIdx?_eq_some_iff_getElem.mp hk
  refine ⟨Nat.le_add_right pos k, fun j e hj hjk he hns => ?_⟩
  have hget : (entries.drop pos)[j - pos]? = some e := by
    rw [List.getElem?_drop, Nat.add_sub_cancel' hj]
    exact he
  obtain ⟨hlt, rfl⟩ := List.getElem?_eq_some_iff.mp hget
  exact hbefore (j - pos) (by omega) (beq_iff_eq.mpr hns)

theorem iterScan_readable {entries : List IndexEntry} {ns : CString} {keyCapacity : Nat} (valueCapacity : Nat) {s : KvSt}
    (hctx : s.ctx = some entries) (ho : Orderly cfg s.flash.cells) (hvalid : ∀ e ∈ entries, keyValid cfg e.key = true)
    (hio : s.ioFree ≠ 0) {fuel pos : Nat} (hfuel : (ahead entries ns pos).length < fuel)
    (hr : Readable cfg ns keyCapacity (ahead entries ns pos) s) :
    ∃ t, Still s t ∧
      ((∃ i e item, pos ≤ i ∧ entries[i]? = some e ∧ e.nsKey = (ns, e.key) ∧ item.1 = e.key ∧
          (iterScan cfg ns keyCapacity valueCapacity fuel pos).run s = .ok (i + 1, .ok item) t ∧
          ∀ j e', pos ≤ j → j < i → entries[j]? = some e' → e'.namespaceName = ns → stored cfg s.flash.cells e'.nsKey = none) ∨
        ((∃ p, pos ≤ p ∧ (iterScan cfg ns keyCapacity valueCapacity fuel pos).run s = .ok (p, .error .ERR_NOT_FOUND) t) ∧
          ∀ j e', pos ≤ j → entries[j]? = some e' → e'.namespaceName = ns → stored cfg s.flash.cells e'.nsKey = none)) := by
  induction fuel generalizing pos s with
  | zero => exact absurd hfuel (Nat.not_lt_zero _)
  | succ fuel ih =>
    cases hnext : nextKeyInNs entries ns pos with
    | none =>
      refine ⟨s, still_chains.refl s, .inr ⟨⟨max pos entries.length, Nat.le_max_left _ _, ?_⟩, fun j e' hj he' hns => ?_⟩⟩
      · exact iterScan_end hctx hnext valueCapacity fuel
      · have hmem : e' ∈ ahead entries ns pos := by
          refine List.mem_filter.mpr ⟨List.mem_iff_getElem?.mpr ⟨j - pos, ?_⟩, beq_iff_eq.mpr hns⟩
          rw [List.getElem?_drop, Nat.add_sub_cancel' hj]
          exact he'
        rw [ahead_none hnext] at hmem
        cases hmem
    | some i =>
      obtain ⟨e, he, hns, hahead⟩ := ahead_some hnext
      obtain ⟨hpos, hskip⟩ := nextKeyInNs_skips hnext
      rw [hahead] at hr hfuel
      obtain ⟨hcap, hfault, hrest⟩ := hr
      have hkey := hvalid e (List.mem_of_getElem? he)
      have hnsKey : e.nsKey = (ns, e.key) := Prod.ext hns rfl
      have hempty : e.key.val.isEmpty = false := by simpa using (keyValid_iff.mp hkey).1
      have hget := @kvGet_unfaulted cfg s ho ns e.key hkey hio hfault valueCapacity
      have hpost : post (kvGet cfg ns e.key valueCapacity) s = s.counted (.read (recordId cfg ns e.key)) := by
        rw [post_kvGet, if_pos ⟨hkey, hio⟩]
      obtain ⟨hfound, hmissing, -⟩ := @iterScan_round cfg _ _ _ valueCapacity fuel _ _ _ _ hctx hnext he hempty hcap
      rw [hpost] at hfound hmissing
      have hstill : Still s (s.counted (.read (recordId cfg ns e.key))) := still_counted s _
      rw [hget] at hfound hmissing
      cases hstored : stored cfg s.flash.cells (ns, e.key) with
      | some value =>
        rw [hstored] at hfound
        refine ⟨_, hstill, .inl ⟨i, e, _, hpos, he, hnsKey, rfl, hfound rfl, fun j e' hj hji he' hns' => ?_⟩⟩
        exact absurd hns' (hskip j e' hj hji he')
      | none =>
        rw [hstored] at hmissing
        have hround := hmissing rfl
        -- the entry is stale
        have hstale : ∀ j e', pos ≤ j → j < i + 1 → entries[j]? = some e' → e'.namespaceName = ns →
            stored cfg s.flash.cells e'.nsKey = none := by
          intro j e' hj hji he' hns'
          rcases Nat.lt_succ_iff_lt_or_eq.mp hji with hlt | rfl
          · exact absurd hns' (hskip j e' hj hlt he')
          · rw [he] at he'
            obtain rfl := Option.some.inj he'
            rw [hnsKey]
            exact hstored
        obtain ⟨t, ht, hend⟩ := @ih (s.counted (.read (recordId cfg ns e.key))) hctx ho hio (i + 1) (by simpa using hfuel)
          (hrest hstored)
        refine ⟨t, still_chains.trans hstill ht, ?_⟩
        rcases hend with ⟨i', e', item, hpos', he', hkey', hitem, hrun, hbetween⟩ | ⟨⟨p, hp, hrun⟩, hall⟩
        · refine .inl ⟨i', e', item, by omega, he', hkey', hitem, hround.trans hrun, fun j e'' hj hji he'' hns'' => ?_⟩
          by_cases hji' : j < i + 1
          · exact hstale j e'' hj hji' he'' hns''
          · exact hbetween j e'' (Nat.not_lt.mp hji') hji he'' hns''
        · refine .inr ⟨⟨p, by omega, hround.trans hrun⟩, fun j e'' hj he'' hns'' => ?_⟩
          by_cases hji' : j < i + 1
          · exact hstale j e'' hj hji' he'' hns''
          · exact hall j e'' (Nat.not_lt.mp hji') he'' hns''

theorem setLocked_ok {ns key : CString} {value : Bytes} {s : KvSt}
    (h : outcome (setLocked cfg ns key value) s = .ok ()) : post (setLocked cfg ns key value) s = written cfg s ns key value := by
  have hgo : preRead cfg s ns key ≠ some .MISMATCH := by
    intro hshown
    unfold outcome at h
    rw [setLocked_collides hshown] at h
    cases h
  have hrun := setLocked_writes hgo value
  have hfinish : outcome (finishSet cfg ns key (writtenStatus cfg s ns key value)) (written cfg s ns key value) = .ok () := by
    unfold outcome at h ⊢
    rwa [hrun] at h
  rw [finishSet_ok hfinish] at hrun
  exact post_of_run hrun

theorem set_accepted {s : KvSt} {entries : List IndexEntry} (hctx : s.ctx = some entries) {ns key : CString}
    {value : Option Bytes} {a : KvAnswer} (hout : outcome ((KvOp.set ns key value).run cfg) s = .ok a) :
    keyValid cfg key = true ∧ ∃ entries', (post ((KvOp.set ns key value).run cfg) s).ctx = some entries' ∧
      (entries'.map (·.nsKey) = entries.map (·.nsKey) ∨
        (findEntry entries ns key = none ∧ entries.length < cfg.indexMax ∧
          entries'.map (·.nsKey) = entries.map (·.nsKey) ++ [(ns, key)])) := by
  rw [outcome_set] at hout
  split at hout
  · rename_i hns
    have hset : outcome (kvSet cfg ns key value) s = .ok () := by
      cases h : outcome (kvSet cfg ns key value) s with
      | ok u => rfl
      | error status =>
        rw [h] at hout
        cases hout
    by_cases hthrough : ∃ v, value = some v ∧ LetThrough cfg s ns key v
    · obtain ⟨v, rfl, hlet⟩ := hthrough
      rw [hlet.toWritable.kvSet, outcome_withBlock hlet.block] at hset
      rw [post_set, if_pos hns, post_kvSet_through hlet, setLocked_ok hset]
      have hctx' : (s.hold.counted (.read (recordId cfg ns key))).ctx = some entries := hctx
      have htracked : tracked cfg s.hold ns key = _ := post_trackSet hctx' ns key (recordId cfg ns key)
      refine ⟨hlet.key_valid, ?_⟩
      show ∃ entries', (tracked cfg s.hold ns key).ctx = some entries' ∧ _
      rw [htracked]
      cases hfind : findEntry entries ns key with
      | some i =>
        refine ⟨_, rfl, .inl (List.ext_getElem (by simp) fun j h₁ h₂ => ?_)⟩
        rw [List.getElem_map, List.getElem_map, List.getElem_modify]
        split <;> rfl
      | none =>
        dsimp only
        by_cases hfull : cfg.indexMax ≤ entries.length
        · rw [if_pos hfull]
          exact ⟨entries, hctx, .inl rfl⟩
        · rw [if_neg hfull]
          refine ⟨_, (storePersisted_recorded rfl).ctx, .inr ⟨rfl, Nat.lt_of_not_le hfull, ?_⟩⟩
          rw [List.map_append]
          rfl
    · obtain ⟨status, herr, -⟩ := outcome_kvSet_stopped hns fun v hv hlet => hthrough ⟨v, hv, hlet⟩
      rw [herr] at hset
      cases hset
  · cases hout

theorem of_flash {α : Type} {m : EStateM Errno IdStore α} {s t : KvSt} {a : α}
    (h : (toStatus (onFlash m) : KvM Status α).run s = .ok a t) : t.ctx = s.ctx ∧ m.run s.flash = .ok a t.flash := by
  obtain ⟨f, hrun, rfl⟩ := of_run_zoom (of_run_adapt h)
  exact ⟨rfl, hrun⟩

theorem delete_accepted {s : KvSt} {entries : List IndexEntry} (hctx : s.ctx = some entries) {ns key : CString}
    {a : KvAnswer} (hout : outcome ((KvOp.delete ns key).run cfg) s = .ok a) :
    let t := post ((KvOp.delete ns key).run cfg) s
    stored cfg t.flash.cells (ns, key) = none ∧
      match findEntry entries ns key with
      | none => t.ctx = some entries
      | some i => t.ctx = some (entries.eraseIdx i) := by
  intro t
  rw [outcome_delete] at hout
  split at hout
  · rename_i hns
    have ht : t = post (kvDelete cfg ns key) s := (post_delete s ns key).trans (if_pos hns)
    have hdel : outcome (kvDelete cfg ns key) s = .ok () := by
      cases h : outcome (kvDelete cfg ns key) s with
      | ok u => rfl
      | error status =>
        rw [h] at hout
        cases hout
    by_cases hkey : keyValid cfg key = true
    · have hdef : kvDelete cfg ns key = withBlock (deleteLocked cfg ns key) := by
        simp only [kvDelete, hkey, Bool.not_true, Bool.false_eq_true, if_false]
      by_cases hio : s.ioFree = 0
      · rw [hdef] at hdel
        unfold outcome at hdel
        rw [withBlock_none hio] at hdel
        cases hdel
      · rw [hdef, outcome_withBlock hio] at hdel
        have hrun := run_of_outcome hdel
        obtain ⟨r, u, hread, hrest⟩ := of_run_bind hrun
        obtain ⟨rd, record⟩ := r
        dsimp only at hrest
        have hu : u.ctx = some entries := (of_flash hread).1.trans hctx
        split at hrest
        · obtain ⟨_, v, hgone, htrack⟩ := of_run_bind hrest
          obtain ⟨hv, hremove⟩ := of_flash hgone
          have hcell : v.flash.cells (recordId cfg ns key) = none := by
            cases hfault : u.flash.fault (.delete (recordId cfg ns key)) with
            | some err =>
              rw [IdStore.delete_refused _ _ hfault] at hremove
              cases hremove
            | none =>
              rw [IdStore.delete_accepted _ _ hfault] at hremove
              rw [← (EStateM.Result.ok.inj hremove).2]
              exact Function.update_self _ _ _
          have hend : t = (post (trackDelete cfg ns key) v).release := by
            rw [ht, hdef, post_withBlock hio, post_of_run htrack]
          have hv' : v.ctx = some entries := hv.trans hu
          have hpost := @post_trackDelete cfg v entries hv' ns key
          rw [hend]
          refine ⟨?_, ?_⟩
          · have hconf : Confined (IndexSlot cfg) v (post (trackDelete cfg ns key) v) := keeps_trackDelete cfg ns key v
            have hkept : stored cfg (post (trackDelete cfg ns key) v).flash.cells (ns, key) = _ := hconf.stored (ns, key)
            show stored cfg (post (trackDelete cfg ns key) v).flash.cells (ns, key) = none
            rw [hkept]
            unfold stored
            rw [hcell]
            rfl
          · cases hfind : findEntry entries ns key with
            | none =>
              rw [hfind] at hpost
              rw [hpost]
              exact hv'
            | some i =>
              rw [hfind] at hpost
              rw [hpost]
              exact (storePersisted_recorded rfl).ctx
        · cases hrest
    · have hdef : kvDelete cfg ns key = throw .ERR_INVAL := by simp [kvDelete, hkey]
      rw [hdef] at hdel
      cases hdel
  · cases hout

def IterSt.walk (ns : CString) (r : IterSt) (entries : List IndexEntry) : Walk NsKey :=
  ⟨entries.map (·.nsKey), r.position, r.returned.map (Prod.mk ns), fun k => k.1 = ns ∧ r.live k.2 = true⟩

structure Iterates (cfg : KvCfg) (ns : CString) (r : IterSt) (entries : List IndexEntry) : Prop where
  ctx : r.st.ctx = some entries
  orderly : Orderly cfg r.st.flash.cells
  valid : ∀ e ∈ entries, keyValid cfg e.key = true
  exact : (r.walk ns entries).Exact
  held : ∀ key, r.live key = true → stored cfg r.st.flash.cells (ns, key) ≠ none

theorem outcome_iterNext (s : KvSt) (ns : CString) (keyCapacity valueCapacity pos : Nat) :
    outcome ((KvOp.iterNext ns keyCapacity valueCapacity pos).run cfg) s =
      if keyValid cfg ns = true then
        (outcome (kvIterNext cfg ns keyCapacity valueCapacity pos) s).map fun r => KvAnswer.item r.1 r.2
      else .error .ERR_INVAL := by
  show outcome (kvOpen cfg ns >>= fun _ => kvIterNext cfg ns keyCapacity valueCapacity pos >>= fun r =>
    pure (KvAnswer.item r.1 r.2)) s = _
  rw [outcome_kvOpen, outcome_map]

theorem mem_walk {entries : List IndexEntry} {k : NsKey} {pos : Nat} :
    k ∈ (entries.map (·.nsKey)).drop pos ↔ ∃ j e, pos ≤ j ∧ entries[j]? = some e ∧ e.nsKey = k := by
  rw [List.mem_iff_getElem?]
  constructor
  · rintro ⟨i, hi⟩
    rw [List.getElem?_drop, List.getElem?_map, Option.map_eq_some_iff] at hi
    obtain ⟨e, he, hk⟩ := hi
    exact ⟨pos + i, e, Nat.le_add_right pos i, he, hk⟩
  · rintro ⟨j, e, hj, he, hk⟩
    refine ⟨j - pos, ?_⟩
    rw [List.getElem?_drop, List.getElem?_map, Nat.add_sub_cancel' hj, he, ← hk]
    rfl

section Step
variable {ns : CString} {r : IterSt} {entries : List IndexEntry} (h : Iterates cfg ns r entries) {ioFree : Nat}
include h

theorem Iterates.orderly_op (op : KvOp) :
    Orderly cfg (post (op.run cfg) (r.st.given ioFree r.st.heapRoom)).flash.cells :=
  Tidy.orderly (keeps_op (tidy_throughout cfg) op (r.st.given ioFree r.st.heapRoom)) h.orderly

theorem Iterates.next {keyCapacity valueCapacity : Nat}
    (hok : Harmless cfg ns r (ioFree, .next keyCapacity valueCapacity)) {position : Nat} {item : Except Status Item}
    (hout : outcome ((KvOp.iterNext ns keyCapacity valueCapacity r.position).run cfg) (r.st.given ioFree r.st.heapRoom) =
      .ok (.item position item)) :
    let t := post ((KvOp.iterNext ns keyCapacity valueCapacity r.position).run cfg) (r.st.given ioFree r.st.heapRoom)
    Iterates cfg ns ((r.turn cfg ns t).reports position item) entries ∧
      (((r.turn cfg ns t).reports position item).ended = true → r.ended = true ∨ ∀ key, r.live key = true → key ∈ r.returned) := by
  intro t
  have hctx : (r.st.given ioFree r.st.heapRoom).ctx = some entries := h.ctx
  obtain ⟨hio, hread⟩ := hok
  simp only [hctx, Option.getD_some] at hread
  rw [outcome_iterNext] at hout
  split at hout
  · rename_i hns
    have ht : t = post (kvIterNext cfg ns keyCapacity valueCapacity r.position) (r.st.given ioFree r.st.heapRoom) := by
      have hpost : t = if keyValid cfg ns = true then _ else _ :=
        @post_opened _ cfg ns (kvIterNext cfg ns keyCapacity valueCapacity r.position)
          (fun r => KvAnswer.item r.1 r.2) (r.st.given ioFree r.st.heapRoom)
      rw [hpost, if_pos hns]
    have hcall : outcome (kvIterNext cfg ns keyCapacity valueCapacity r.position) (r.st.given ioFree r.st.heapRoom) =
        .ok (position, item) := by
      cases hr : outcome (kvIterNext cfg ns keyCapacity valueCapacity r.position) (r.st.given ioFree r.st.heapRoom) with
      | ok got =>
        rw [hr] at hout
        obtain ⟨rfl, rfl⟩ := KvAnswer.item.inj (Except.ok.inj hout)
        rfl
      | error status =>
        rw [hr] at hout
        cases hout
    have hstale : ∀ (j : Nat) (e : IndexEntry), entries[j]? = some e → (e.namespaceName = ns → stored cfg r.st.flash.cells e.nsKey = none) →
        ¬ (e.nsKey.1 = ns ∧ r.live e.nsKey.2 = true) := by
      rintro j e he hnone ⟨hens, hlive⟩
      have hkey : e.nsKey = (ns, e.nsKey.2) := Prod.ext hens rfl
      exact h.held _ hlive (hkey ▸ hnone hens)
    have hturn : ∀ {u : IterSt}, Still r.st u.st → (u.walk ns entries).Exact → (∀ key, u.live key = true → r.live key = true) →
        Iterates cfg ns u entries := by
      intro u hstill hexact hlive
      refine ⟨hstill.ctx.trans h.ctx, ?_, h.valid, hexact, fun key hk => ?_⟩
      · rw [hstill.cells]
        exact h.orderly
      · rw [hstill.cells]
        exact h.held key (hlive key hk)
    have hlive : ∀ k : NsKey, k.1 = ns ∧ (r.turn cfg ns t).live k.2 = true → k.1 = ns ∧ r.live k.2 = true :=
      fun k hk => ⟨hk.1, (turn_live.mp hk.2).1⟩
    by_cases hcap : keyCapacity = 0
    · have hdef : kvIterNext cfg ns keyCapacity valueCapacity r.position = pure (r.position, .error .ERR_INVAL) := by
        unfold kvIterNext
        rw [if_pos hcap]
      rw [hdef] at hcall ht
      obtain ⟨rfl, rfl⟩ := Prod.mk.inj (Except.ok.inj hcall)
      have hstill : Still r.st t := by
        rw [ht]
        exact ⟨rfl, rfl, rfl⟩
      exact ⟨hturn hstill (h.exact.mono hlive) fun key hk => (turn_live.mp hk).1, fun hend => .inl hend⟩
    · have hscan : (kvIterNext cfg ns keyCapacity valueCapacity r.position).run (r.st.given ioFree r.st.heapRoom) =
          (iterScan cfg ns keyCapacity valueCapacity (entries.length + 1) r.position).run
            (r.st.given ioFree r.st.heapRoom) := by
        unfold kvIterNext
        rw [if_neg hcap]
        refine run_then (a := r.st.given ioFree r.st.heapRoom) rfl ?_
        rw [hctx]
        rfl
      have hfuel : (ahead entries ns r.position).length < entries.length + 1 := by
        have hle := List.length_filter_le (fun e : IndexEntry => e.namespaceName == ns) (entries.drop r.position)
        rw [List.length_drop] at hle
        unfold ahead
        omega
      obtain ⟨u, hread', hend⟩ := iterScan_readable valueCapacity hctx h.orderly h.valid hio hfuel hread
      have hstill : Still r.st u := ⟨hread'.ctx, hread'.cells, hread'.past⟩
      rcases hend with ⟨i, e, got, hi, he, hkey, hgot, hrun, hbetween⟩ | ⟨⟨p, hp, hrun⟩, hall⟩
      · rw [← hscan] at hrun
        rw [outcome_of_run hrun] at hcall
        obtain ⟨rfl, rfl⟩ := Prod.mk.inj (Except.ok.inj hcall)
        have htu : t = u := ht.trans (post_of_run hrun)
        refine ⟨hturn (htu ▸ hstill) ?_ fun key hk => (turn_live.mp hk).1, fun hend => .inl hend⟩
        have hskip := h.exact.skip hi fun j a hj hji ha => by
          obtain ⟨e', he', rfl⟩ := Option.map_eq_some_iff.mp ((List.getElem?_map ..).symm.trans ha)
          exact hstale j e' he' (hbetween j e' hj hji he')
        have htake := hskip.take (a := (ns, e.key)) (by
          show (entries.map (·.nsKey))[i]? = _
          rw [List.getElem?_map, he, ← hkey]
          rfl)
        have hwalk := @Walk.Exact.mono _ _ htake (fun k => k.1 = ns ∧ (r.turn cfg ns t).live k.2 = true) hlive
        have hseen : (r.returned ++ [got.1]).map (Prod.mk ns) = r.returned.map (Prod.mk ns) ++ [(ns, e.key)] := by
          rw [List.map_append, hgot]
          rfl
        show (Walk.mk (entries.map (·.nsKey)) (i + 1) ((r.returned ++ [got.1]).map (Prod.mk ns)) _).Exact
        rw [hseen]
        exact hwalk
      · rw [← hscan] at hrun
        rw [outcome_of_run hrun] at hcall
        obtain ⟨rfl, rfl⟩ := Prod.mk.inj (Except.ok.inj hcall)
        have htu : t = u := ht.trans (post_of_run hrun)
        refine ⟨hturn (htu ▸ hstill) ?_ fun key hk => (turn_live.mp hk).1, fun _ => .inr fun key hlive => ?_⟩
        · have hskip := h.exact.skip hp fun j a hj _ ha => by
            obtain ⟨e', he', rfl⟩ := Option.map_eq_some_iff.mp ((List.getElem?_map ..).symm.trans ha)
            exact hstale j e' he' (hall j e' hj he')
          exact hskip.mono hlive
        · rcases h.exact.reached (ns, key) ⟨rfl, hlive⟩ with hseen | hahead
          · obtain ⟨key', hmem, heq⟩ := List.mem_map.mp hseen
            obtain rfl : key' = key := congrArg Prod.snd heq
            exact hmem
          · obtain ⟨j, e', hj, he', hkey⟩ := mem_walk.mp hahead
            have hnone := hall j e' hj he' (congrArg Prod.fst hkey)
            rw [hkey] at hnone
            exact absurd hnone (h.held key hlive)
  · cases hout

theorem Iterates.set {ns' key : CString} {value : Option Bytes} (hok : Harmless cfg ns r (ioFree, .set ns' key value))
    {a : KvAnswer} (hout : outcome ((KvOp.set ns' key value).run cfg) (r.st.given ioFree r.st.heapRoom) = .ok a) :
    ∃ entries', Iterates cfg ns
      (r.turn cfg ns (post ((KvOp.set ns' key value).run cfg) (r.st.given ioFree r.st.heapRoom))) entries' := by
  have hctx : (r.st.given ioFree r.st.heapRoom).ctx = some entries := h.ctx
  obtain ⟨hkey, entries', hctx', hends⟩ := set_accepted hctx hout
  have hlive : ∀ k : NsKey, k.1 = ns ∧ (r.turn cfg ns
      (post ((KvOp.set ns' key value).run cfg) (r.st.given ioFree r.st.heapRoom))).live k.2 = true → k.1 = ns ∧ r.live k.2 = true :=
    fun k hk => ⟨hk.1, (turn_live.mp hk.2).1⟩
  have hvalid : ∀ e ∈ entries', keyValid cfg e.key = true := by
    intro e he
    have hmem : e.nsKey ∈ entries.map (·.nsKey) ++ [(ns', key)] := by
      have hmem' : e.nsKey ∈ entries'.map (·.nsKey) := List.mem_map.mpr ⟨e, he, rfl⟩
      rcases hends with hsame | ⟨-, -, hadd⟩
      · exact List.mem_append_left _ (hsame ▸ hmem')
      · exact hadd ▸ hmem'
    rcases List.mem_append.mp hmem with hmem | hmem
    · obtain ⟨e', he', heq⟩ := List.mem_map.mp hmem
      have hk : e'.key = e.key := congrArg Prod.snd heq
      exact hk ▸ h.valid e' he'
    · have hk : e.key = key := congrArg Prod.snd (List.mem_singleton.mp hmem)
      exact hk ▸ hkey
  refine ⟨entries', hctx', h.orderly_op _, hvalid, ?_, fun key' hk => (turn_live.mp hk).2⟩
  rcases hends with hsame | ⟨hfind, hroom, hadd⟩
  · unfold IterSt.walk
    rw [hsame]
    exact h.exact.mono hlive
  · unfold IterSt.walk
    rw [hadd]
    refine Walk.Exact.mono (h.exact.append (findEntry_none.mp hfind) fun hseen => ?_) hlive
    obtain ⟨key', hmem, heq⟩ := List.mem_map.mp hseen
    obtain ⟨rfl, rfl⟩ := Prod.mk.inj heq
    have hlen := hok rfl hmem
    simp only [hctx, Option.getD_some] at hlen
    show (entries.map (·.nsKey)).length < r.position
    rw [List.length_map]
    exact hlen hfind hroom

theorem Iterates.delete {ns' key : CString} (hok : Harmless cfg ns r (ioFree, .delete ns' key))
    {a : KvAnswer} (hout : outcome ((KvOp.delete ns' key).run cfg) (r.st.given ioFree r.st.heapRoom) = .ok a) :
    ∃ entries', Iterates cfg ns
      (r.turn cfg ns (post ((KvOp.delete ns' key).run cfg) (r.st.given ioFree r.st.heapRoom))) entries' := by
  have hctx : (r.st.given ioFree r.st.heapRoom).ctx = some entries := h.ctx
  obtain ⟨hgone, hends⟩ := delete_accepted hctx hout
  generalize ht : post ((KvOp.delete ns' key).run cfg) (r.st.given ioFree r.st.heapRoom) = t at hgone hends
  have ho : Orderly cfg t.flash.cells := ht ▸ h.orderly_op (.delete ns' key)
  have hlive : ∀ k : NsKey, k.1 = ns ∧ (r.turn cfg ns t).live k.2 = true → k.1 = ns ∧ r.live k.2 = true :=
    fun k hk => ⟨hk.1, (turn_live.mp hk.2).1⟩
  have hexact := h.exact.mono hlive
  cases hfind : findEntry entries ns' key with
  | none =>
    rw [hfind] at hends
    exact ⟨entries, hends, ho, h.valid, hexact, fun key' hk => (turn_live.mp hk).2⟩
  | some i =>
    rw [hfind] at hends
    obtain ⟨hi, hkey⟩ := findEntry_some hfind
    refine ⟨entries.eraseIdx i, hends, ho, fun e he => h.valid e (List.mem_of_mem_eraseIdx he), ?_, fun key' hk => (turn_live.mp hk).2⟩
    have hget : (entries.map (·.nsKey))[i]? = some (ns', key) := by
      rw [List.getElem?_map, List.getElem?_eq_getElem hi, Option.map_some, hkey]
    have herase := hexact.erase hget (fun hk => ?_) fun hbehind b hb hk => ?_
    · unfold IterSt.walk
      rw [← List.eraseIdx_map]
      exact herase
    · -- the key that is deleted holds no value any more
      obtain ⟨rfl, hk⟩ := hk
      exact (turn_live.mp hk).2 hgone
    · obtain ⟨e, he, rfl⟩ := Option.map_eq_some_iff.mp ((List.getElem?_map ..).symm.trans hb)
      have hne := hok i
      simp only [hctx, Option.getD_some] at hne
      exact hne hfind hbehind e he hk.1

end Step

/-- The iterator has handed out no key twice, and at its end each key that held a value all along. -/
structure Served (cfg : KvCfg) (ns : CString) (r : IterSt) : Prop where
  iterates : ∃ entries, Iterates cfg ns r entries
  all : r.ended = true → ∀ key, r.live key = true → key ∈ r.returned

theorem Served.step {ns : CString} {r t : IterSt} (h : Served cfg ns r) {e : Nat × IterEvent} (hok : Harmless cfg ns r e)
    (hstep : r.step cfg ns e = some t) : Served cfg ns t := by
  obtain ⟨entries, hit⟩ := h.iterates
  obtain ⟨ioFree, event⟩ := e
  unfold IterSt.step at hstep
  dsimp only at hstep
  split at hstep
  · cases hstep
  · rename_i hgoing
    cases event with
    | next keyCapacity valueCapacity =>
      dsimp only at hstep
      split at hstep
      · rename_i position item hout
        obtain rfl := Option.some.inj hstep
        obtain ⟨hnext, hend⟩ := hit.next hok hout
        refine ⟨⟨entries, hnext⟩, fun hended key hlive => ?_⟩
        have hbefore := (hend hended).resolve_left hgoing
        cases item with
        | ok got => exact absurd hended hgoing
        | error status =>
          cases status <;> first
            | exact absurd hended hgoing
            | exact hbefore key (turn_live.mp hlive).1
      · cases hstep
    | set ns' key value =>
      dsimp only at hstep
      split at hstep
      · rename_i a hout
        obtain rfl := Option.some.inj hstep
        exact ⟨hit.set hok hout, fun hended => absurd hended hgoing⟩
      · cases hstep
    | delete ns' key =>
      dsimp only at hstep
      split at hstep
      · rename_i a hout
        obtain rfl := Option.some.inj hstep
        exact ⟨hit.delete hok hout, fun hended => absurd hended hgoing⟩
      · cases hstep

theorem Complete.served {ns : CString} {s : KvSt} {entries : List IndexEntry} (h : Complete cfg ns s entries) :
    Served cfg ns (.opened cfg ns s) := by
  refine ⟨⟨entries, h.ctx, h.orderly, h.valid, ⟨h.nodup, List.nodup_nil, nofun, fun k hk => .inr ?_⟩,
    fun _ hk => Option.isSome_iff_ne_none.mp hk⟩, nofun⟩
  have hmem := h.covers k.2 (Option.isSome_iff_ne_none.mp hk.2)
  rw [← hk.1] at hmem
  exact hmem

/-- From an iterator that is opened on an index that lists each key of its namespace with a value, along every
run of its calls and of sets and deletes of any keys that succeed and do not disturb it: no key is handed out
twice, and when the end is reported each key that has held a value since has been handed out once. -/
theorem each_key_returned_once {ns : CString} {s : KvSt} {entries : List IndexEntry} (hs : Complete cfg ns s entries)
    {events : List (Nat × IterEvent)} {r : IterSt}
    (hrun : Steps (Guarded (Harmless cfg ns) fun r e t => r.step cfg ns e = some t) (.opened cfg ns s) events r) :
    r.returned.Nodup ∧ (r.ended = true → ∀ key, r.live key = true → r.returned.count key = 1) := by
  have h : Served cfg ns r :=
    Steps.keeps (fun a e b ha hstep => ha.step hstep.1 hstep.2) hrun hs.served
  obtain ⟨entries', hit⟩ := h.iterates
  have hnodup : r.returned.Nodup := List.Nodup.of_map _ hit.exact.once
  exact ⟨hnodup, fun hend key hlive => List.count_eq_one_of_mem hnodup (h.all hend key hlive)⟩

theorem complete_of_current {s : KvSt} (hs : s.flash.Sound) (hcur : Current cfg s) (hload : CanLoad s) (ns : CString) :
    ∃ t entries, (kvIterOpen cfg).run s = .ok () t ∧ Complete cfg ns t entries := by
  obtain ⟨t, entries, cells, hctx, ht, -, hc, hl⟩ := @context_run cfg (fun _ => True) s hs hcur hload fun _ _ _ => trivial
  have hcells : t.flash.cells = cells := ht.flash.cells
  refine ⟨t, entries, run_then hctx rfl, ht.ctx, hcells ▸ hc.orderly, hl.keys_nodup hc.filed, fun e he => ?_, fun key hk => ?_⟩
  · obtain ⟨value, hvalue⟩ := Option.ne_none_iff_exists'.mp (hl.live e he).2
    exact (hc.orderly.record hvalue).2.2.1
  · rw [hcells] at hk
    exact (hl.mem_iff hc (ns, key)).mpr hk

def IterSt.seen (r : IterSt) (key : CString) : Bool × List CString × Bool := (r.ended, r.returned, r.live key)

def twoSets : List KvOp := [.set nsN keyA (some [1]), .set nsN keyB (some [2])]

def twoKeys : KvSt := (kvRun (.nvs true 128 []) (.boot (.blank fun _ _ => none) 2 true) twoSets).1

/-- Two keys are handed out, the one ahead overwritten in between. -/
theorem two_keys_returned :
    ∃ r, IterSt.run (.nvs true 128 []) nsN (.opened (.nvs true 128 []) nsN twoKeys)
        [(2, .next 49 8), (1, .set nsN keyB (some [3])), (2, .next 49 8), (2, .next 49 8)] = some r ∧
      r.ended = true ∧ r.returned = [keyA, keyB] ∧
      r.returned.Nodup ∧ (r.ended = true → ∀ key, r.live key = true → r.returned.count key = 1) := by
  let entries : List IndexEntry :=
    [⟨nsN, keyA, recordId (.nvs true 128 []) nsN keyA⟩, ⟨nsN, keyB, recordId (.nvs true 128 []) nsN keyB⟩]
  have hboot : Working (.nvs true 128 []) (.boot (.blank fun _ _ => none) 2 true) := .boot (fun _ _ => rfl) rfl (by decide) true
  have hcovers : ∀ k, stored (.nvs true 128 []) twoKeys.flash.cells (nsN, k) ≠ none → (nsN, k) ∈ entries.map (·.nsKey) :=
    fun k hk => @stored_of_named _ _ hboot (fun _ => rfl) (entries.map (·.nsKey)) twoSets (by decide) (nsN, k) hk
  have hcomplete : Complete (.nvs true 128 []) nsN twoKeys entries :=
    ⟨by decide +kernel, (hboot.run twoSets).orderly, by decide, by decide, hcovers⟩
  have hrun : (IterSt.run (.nvs true 128 []) nsN (.opened (.nvs true 128 []) nsN twoKeys)
      [(2, .next 49 8), (1, .set nsN keyB (some [3])), (2, .next 49 8), (2, .next 49 8)]).map (·.seen keyB) =
        some (true, [keyA, keyB], true) := by
    decide +kernel
  obtain ⟨r, hr, hseen⟩ := Option.map_eq_some_iff.mp hrun
  simp only [IterSt.seen, Prod.mk.injEq] at hseen
  exact ⟨r, hr, hseen.1, hseen.2.1, each_key_returned_once hcomplete (steps_of_run hr (by decide +kernel))⟩

/-- An iterator over them. -/
def twoOpened : IterSt := .opened (.nvs true 128 []) nsN (post (kvIterOpen (.nvs true 128 [])) twoKeys)

/-- The loop that deletes each key it is handed out misses every other one; and a key that is set again after
its delete is handed out again in place of the one after it. -/
theorem cleanup_loop_skips :
    (∃ r, IterSt.run (.nvs true 128 []) nsN twoOpened [(2, .next 49 8), (2, .delete nsN keyA), (2, .next 49 8)] = some r ∧
      r.ended = true ∧ r.live keyB = true ∧ keyB ∉ r.returned) ∧
    ∃ r, IterSt.run (.nvs true 128 []) nsN twoOpened
        [(2, .next 49 8), (2, .delete nsN keyA), (2, .set nsN keyA (some [3])), (2, .next 49 8), (2, .next 49 8)] = some r ∧
      r.ended = true ∧ r.live keyB = true ∧ keyB ∉ r.returned ∧ ¬ r.returned.Nodup := by
  constructor
  · have hrun : (IterSt.run (.nvs true 128 []) nsN twoOpened
        [(2, .next 49 8), (2, .delete nsN keyA), (2, .next 49 8)]).map (·.seen keyB) = some (true, [keyA], true) := by
      decide +kernel
    obtain ⟨r, hr, hseen⟩ := Option.map_eq_some_iff.mp hrun
    simp only [IterSt.seen, Prod.mk.injEq] at hseen
    refine ⟨r, hr, hseen.1, hseen.2.2, ?_⟩
    rw [hseen.2.1]
    decide
  · have hrun : (IterSt.run (.nvs true 128 []) nsN twoOpened
        [(2, .next 49 8), (2, .delete nsN keyA), (2, .set nsN keyA (some [3])), (2, .next 49 8), (2, .next 49 8)]).map
        (·.seen keyB) = some (true, [keyA, keyA], true) := by
      decide +kernel
    obtain ⟨r, hr, hseen⟩ := Option.map_eq_some_iff.mp hrun
    simp only [IterSt.seen, Prod.mk.injEq] at hseen
    refine ⟨r, hr, hseen.1, hseen.2.2, ?_, ?_⟩
    · rw [hseen.2.1]
      decide
    · rw [hseen.2.1]
      decide

end ZephyrDB.Kv
