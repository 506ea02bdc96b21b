import ZephyrDB.Kv.Eventing

/-!
A listener that follows the events of the key-value store from its start: at
any time it knows which keys have values, how long they are, and which keys an
iteration hands out, in their order.
-/

set_option autoImplicit false

namespace ZephyrDB.Kv.Eventing

open Lib

/-- What a listener keeps: the lengths of the values, and the keys that are indexed. -/
structure Mirror where
  sizes : NsKey → Option Nat
  listed : List NsKey

namespace Mirror

def empty : Mirror := ⟨fun _ => none, []⟩

def hear (M : Mirror) (event : KvEvent) : Mirror :=
  let k : NsKey := (event.namespaceName, event.key)
  if event.status ≠ .OK then M
  else
    match event.type with
    | .KV_SET => ⟨Function.update M.sizes k (some event.valueLen), if M.listed.contains k then M.listed else M.listed ++ [k]⟩
    | .KV_INDEX_FULL => { M with listed := M.listed.filter fun k' => decide (k' ≠ k) }
    | .KV_DELETE => ⟨Function.update M.sizes k none, M.listed.filter fun k' => decide (k' ≠ k)⟩

def follow (events : List KvEvent) : Mirror := events.foldl hear empty

theorem follow_append (events more : List KvEvent) : follow (events ++ more) = more.foldl hear (follow events) :=
  List.foldl_append

end Mirror

/-- The mirror says what the store answers. -/
structure Mirrors (cfg : KvCfg) (M : Mirror) (s : KvSt) : Prop where
  gets : ∀ {ns key} (capacity : Nat), keyValid cfg ns = true → keyValid cfg key = true →
    (outcome (kvGet cfg ns key capacity) s).toOption.map (·.2) = M.sizes (ns, key)
  iterates : ∀ {ns keyCapacity} (valueCapacity : Nat), cfg.maxKeyLen < keyCapacity →
    ∃ items, outcome (kvIterate cfg ns keyCapacity valueCapacity) s = .ok (items, .ERR_NOT_FOUND) ∧
      items.map (fun item => (item.1, some item.2.2)) =
        (M.listed.filter fun k => k.1 == ns).map fun k => (k.2, M.sizes k)

structure Hears (T : Table) (M : Mirror) : Prop where
  sizes : ∀ k, M.sizes k = (T.values k).map List.length
  listed : M.listed = T.listed

variable {cfg : KvCfg}

theorem eventCopyName_valid {name : CString} (h : keyValid cfg name = true) : eventCopyName cfg name = name := by
  unfold eventCopyName
  rw [List.take_of_length_le (keyValid_iff.mp h).2, CString.ofBytes_val]

section Hears
variable {T : Table} {M : Mirror} {ns key : CString}

theorem Hears.failed (h : Hears T M) (type : KvEventType) (ns key : CString) (n : Nat) {status : Status}
    (hfail : status ≠ .OK) : Hears T (M.hear ⟨type, ns, key, n, status⟩) := by
  unfold Mirror.hear
  rw [if_pos hfail]
  exact h

theorem Hears.deleted (h : Hears T M) (n : Nat) : Hears (T.erase (ns, key)) (M.hear ⟨.KV_DELETE, ns, key, n, .OK⟩) := by
  refine ⟨fun k => ?_, ?_⟩
  · show Function.update M.sizes (ns, key) none k = _
    rw [Function.update_apply, Table.erase_values, h.sizes]
    split <;> rfl
  · show M.listed.filter _ = _
    rw [h.listed]
    rfl

theorem Hears.put (h : Hears T M) (hns : keyValid cfg ns = true) (hkey : keyValid cfg key = true) (value : Bytes) :
    Hears (T.put cfg (ns, key) value) ((setEvents cfg ns key value.length
      (.ok (decide ((ns, key) ∈ (T.put cfg (ns, key) value).listed)))).foldl Mirror.hear M) := by
  have hsizes : ∀ k, Function.update M.sizes (ns, key) (some value.length) k =
      ((T.put cfg (ns, key) value).values k).map List.length := fun k => by
    rw [Function.update_apply, Table.put_values, h.sizes]
    split <;> rfl
  unfold setEvents
  rw [eventCopyName_valid hns, eventCopyName_valid hkey]
  by_cases hmem : (ns, key) ∈ T.listed
  · have hlisted : (T.put cfg (ns, key) value).listed = T.listed := if_pos (.inl hmem)
    rw [hlisted, decide_eq_true hmem]
    refine ⟨hsizes, ?_⟩
    show (if M.listed.contains (ns, key) then M.listed else M.listed ++ [(ns, key)]) = _
    rw [hlisted, h.listed, if_pos (List.contains_iff_mem.mpr hmem)]
  have hfresh : ¬ T.listed.contains (ns, key) = true := List.contains_iff_mem.not.mpr hmem
  by_cases hfull : cfg.indexMax ≤ T.listed.length
  · have hlisted : (T.put cfg (ns, key) value).listed = T.listed := if_pos (.inr hfull)
    rw [hlisted, decide_eq_false hmem]
    refine ⟨hsizes, ?_⟩
    show (if M.listed.contains (ns, key) then M.listed else M.listed ++ [(ns, key)]).filter (fun k => decide (k ≠ (ns, key))) = _
    rw [hlisted, h.listed, if_neg hfresh, List.filter_append, List.filter_eq_self.mpr fun k hk => decide_eq_true (by
      rintro rfl
      exact hmem hk)]
    simp
  · have hlisted : (T.put cfg (ns, key) value).listed = T.listed ++ [(ns, key)] := if_neg (by tauto)
    rw [hlisted, decide_eq_true (List.mem_append_right _ (List.mem_singleton_self _))]
    refine ⟨hsizes, ?_⟩
    show (if M.listed.contains (ns, key) then M.listed else M.listed ++ [(ns, key)]) = _
    rw [hlisted, h.listed, if_neg hfresh]

end Hears

structure InStep (cfg : KvCfg) (T : Table) (s : Noted KvSt (List KvEvent)) : Prop where
  depicts : Depicts cfg T s.st
  equipped : Equipped s.st
  hears : Hears T (Mirror.follow s.notes)

theorem trackSet_indexed (hpersist : cfg.persistIndex = true) {T : Table} {s : KvSt} (hd : Depicts cfg T s)
    (hheap : s.heapRoom = true) (hio : s.ioFree ≠ 0) (ns key : CString) (value : Bytes) :
    outcome (trackSet cfg ns key (recordId cfg ns key)) (s.counted (.read (recordId cfg ns key))) =
      .ok (decide ((ns, key) ∈ (T.put cfg (ns, key) value).listed)) := by
  have hcounted : Depicts cfg T (s.counted (.read (recordId cfg ns key))) := hd.still (still_counted s _) hd.sound
  obtain ⟨u, entries, hrun, hu, hdu, -⟩ := context_depicts hpersist hcounted hheap hio
  have hlisted := hdu.entries hu
  have htrack := trackSet_loaded hrun hu ns key (recordId cfg ns key)
  have hlen : entries.length = T.listed.length := by rw [← hlisted, List.length_map]
  unfold Table.put
  dsimp only
  cases hfind : findEntry entries ns key with
  | some i =>
    obtain ⟨hi, hkey⟩ := findEntry_some hfind
    have hmem : (ns, key) ∈ T.listed := by
      rw [← hlisted]
      exact List.mem_map.mpr ⟨_, List.getElem_mem hi, hkey⟩
    simp only [hfind] at htrack
    rw [outcome_of_run htrack, if_pos (.inl hmem), decide_eq_true hmem]
  | none =>
    have hmem : (ns, key) ∉ T.listed := by
      rw [← hlisted]
      exact findEntry_none.mp hfind
    simp only [hfind] at htrack
    by_cases hfull : cfg.indexMax ≤ entries.length
    · rw [if_pos hfull] at htrack
      rw [outcome_of_run htrack, if_pos (.inr (hlen ▸ hfull)), decide_eq_false hmem]
    · rw [if_neg hfull] at htrack
      rw [outcome_of_run htrack, if_neg (not_or.mpr ⟨hmem, hlen ▸ hfull⟩),
        decide_eq_true (List.mem_append_right _ (List.mem_singleton_self _))]

theorem setLocked_indexed {s : KvSt} {ns key : CString} {value : Bytes} {indexed : Bool}
    (h : outcome (setLocked cfg ns key value) s = .ok indexed) :
    outcome (trackSet cfg ns key (recordId cfg ns key)) (s.counted (.read (recordId cfg ns key))) = .ok indexed := by
  have hrun := run_of_outcome h
  unfold setLocked at hrun
  obtain ⟨rd, s₁, hread, hrun⟩ := of_run_bind hrun
  rw [run_onFlash_read] at hread
  cases hread
  dsimp only at hrun
  split at hrun
  · cases hrun
  obtain ⟨b, s₂, htrack, hrun⟩ := of_run_bind hrun
  obtain ⟨wr, s₃, -, hrun⟩ := of_run_bind hrun
  obtain ⟨_, s₄, -, hrun⟩ := of_run_bind hrun
  cases hrun
  exact outcome_of_run htrack

theorem set_admitted {T : Table} {ns key : CString} {value : Bytes} (hkey : keyValid cfg key = true)
    (hfits : (recordBuild ns key value).length ≤ cfg.blockSize) :
    (T.Taken cfg (ns, key) → T.set cfg (ns, key) (some value) = (.error .ERR_COLLISION, T)) ∧
      (¬ T.Taken cfg (ns, key) → T.set cfg (ns, key) (some value) = (.ok (), T.put cfg (ns, key) value)) := by
  unfold Table.set
  dsimp only
  rw [← recordBuild_length ns key value, if_neg (by simp [hkey]), if_neg (Nat.not_lt.mpr hfits)]
  exact ⟨fun h => if_pos h, fun h => if_neg h⟩

section Calls
variable (hpersist : cfg.persistIndex = true) {T : Table} {s : Noted KvSt (List KvEvent)} (h : InStep cfg T s)
include hpersist h

theorem set_heard {ns key : CString} (hns : keyValid cfg ns = true) (hkey : keyValid cfg key = true) {value : Bytes}
    (hfits : (recordBuild ns key value).length ≤ cfg.blockSize) :
    Hears (T.set cfg (ns, key) (some value)).2 ((setEvents cfg ns key value.length
      (outcome (withBlock (setLocked cfg ns key value)) s.st)).foldl Mirror.hear (Mirror.follow s.notes)) := by
  have hio : s.st.ioFree ≠ 0 := by have := h.equipped.blocks; omega
  have hblock : s.st.hold.ioFree ≠ 0 := by
    have := h.equipped.blocks
    show s.st.ioFree - 1 ≠ 0
    omega
  obtain ⟨hout, -⟩ := @kvSet_depicts cfg T s.st hpersist h.depicts h.equipped ns key hns (some value)
  rw [kvSet_plain hkey hfits, (withBlock_same ns key value s.st).1] at hout
  obtain ⟨hcollides, hputs⟩ := @set_admitted cfg T ns key value hkey hfits
  cases hr : outcome (withBlock (setLocked cfg ns key value)) s.st with
  | error status =>
    rw [hr] at hout
    by_cases htaken : T.Taken cfg (ns, key)
    · rw [hcollides htaken] at hout ⊢
      cases hout
      exact h.hears.failed .KV_SET (eventCopyName cfg ns) (eventCopyName cfg key) value.length (show Status.ERR_COLLISION ≠ .OK by decide)
    · rw [hputs htaken] at hout
      cases hout
  | ok indexed =>
    rw [hr] at hout
    by_cases htaken : T.Taken cfg (ns, key)
    · rw [hcollides htaken] at hout
      cases hout
    · rw [hputs htaken]
      rw [outcome_withBlock hio] at hr
      have hindexed := setLocked_indexed hr
      have hheld : Depicts cfg T s.st.hold := h.depicts.given (s.st.ioFree - 1) s.st.heapRoom
      rw [trackSet_indexed hpersist hheld h.equipped.heap hblock ns key value] at hindexed
      rw [← Except.ok.inj hindexed]
      exact h.hears.put hns hkey value

theorem kvSet_inStep {ns key : CString} (hns : keyValid cfg ns = true) (value : Option Bytes) :
    InStep cfg (T.set cfg (ns, key) value).2 (post (kvSet cfg ns key value) s) := by
  obtain ⟨-, hd⟩ := @kvSet_depicts cfg T s.st hpersist h.depicts h.equipped ns key hns value
  obtain ⟨-, hst⟩ := @carries_kvSet cfg ns key value s
  have hconf : Confined AnySlot s.st (post (Kv.kvSet cfg ns key value) s.st) := keeps_kvSet ns key value s.st
  have he := h.equipped.along hconf
  rw [hst] at hd he
  refine ⟨hd, he, ?_⟩
  cases value with
  | none => exact h.hears
  | some value =>
    have hio : s.st.ioFree ≠ 0 := by have := h.equipped.blocks; omega
    by_cases hkey : keyValid cfg key = true
    swap
    · have hsame : T.set cfg (ns, key) (some value) = (.error .ERR_INVAL, T) := if_pos (Bool.eq_false_iff.mpr hkey)
      have hrun : (kvSet cfg ns key (some value)).run s = .error .ERR_INVAL s := by
        simp only [kvSet, hkey]
        rfl
      rw [hsame, post_of_error hrun]
      exact h.hears
    by_cases hfits : (recordBuild ns key value).length ≤ cfg.blockSize
    swap
    · have hsame : T.set cfg (ns, key) (some value) = (.error .ERR_NOMEM, T) := by
        unfold Table.set
        dsimp only
        rw [← recordBuild_length ns key value, if_neg (by simp [hkey]), if_pos (Nat.not_le.mp hfits)]
      have hrun : (kvSet cfg ns key (some value)).run s = .error .ERR_NOMEM s := by
        unfold kvSet
        dsimp only
        rw [if_neg (by simp [hkey]), if_pos (Nat.not_le.mp hfits)]
        rfl
      rw [hsame, post_of_error hrun]
      exact h.hears
    rw [(kvSet_announced hkey hfits hio).2, Mirror.follow_append]
    exact set_heard hpersist h hns hkey hfits

theorem kvDelete_inStep {ns : CString} (hns : keyValid cfg ns = true) (key : CString) :
    outcome (kvDelete cfg ns key) s = (T.delete cfg (ns, key)).1 ∧
      InStep cfg (T.delete cfg (ns, key)).2 (post (kvDelete cfg ns key) s) := by
  obtain ⟨hout, hd⟩ := kvDelete_depicts hpersist h.depicts h.equipped ns key
  obtain ⟨ho, hst⟩ := @carries_kvDelete cfg ns key s
  have hconf : Confined AnySlot s.st (post (Kv.kvDelete cfg ns key) s.st) := confined_kvDelete ns key s.st
  have he := h.equipped.along hconf
  rw [hst] at hd he
  refine ⟨ho.symm.trans hout, hd, he, ?_⟩
  by_cases hkey : keyValid cfg key = true
  swap
  · have hsame : T.delete cfg (ns, key) = (.error .ERR_INVAL, T) := if_pos (Bool.eq_false_iff.mpr hkey)
    have hrun : (kvDelete cfg ns key).run s = .error .ERR_INVAL s := by
      simp only [kvDelete, hkey]
      rfl
    rw [hsame, post_of_error hrun]
    exact h.hears
  rw [(kvDelete_announced hkey).2, eventCopyName_valid hns, eventCopyName_valid hkey, Mirror.follow_append, hout]
  by_cases hnone : T.values (ns, key) = none
  · have hsame : T.delete cfg (ns, key) = (.error .ERR_NOT_FOUND, T) := by
      unfold Table.delete
      rw [if_neg (by simp [hkey]), if_pos hnone]
    rw [hsame]
    exact h.hears.failed .KV_DELETE ns key 0 (show Status.ERR_NOT_FOUND ≠ .OK by decide)
  · have hsame : T.delete cfg (ns, key) = (.ok (), T.erase (ns, key)) := by
      unfold Table.delete
      rw [if_neg (by simp [hkey]), if_neg hnone]
    rw [hsame]
    exact h.hears.deleted 0

end Calls

def Heard (cfg : KvCfg) (s : Noted KvSt (List KvEvent)) : Prop := ∃ T, InStep cfg T s

theorem heard_silent {α : Type} {m : KvM Status α} (hm : ∀ {T : Table} {s : KvSt}, Depicts cfg T s → Equipped s →
    Depicts cfg T (post m s) ∧ Equipped (post m s)) : Always (Preserves (Heard cfg)) (silent m : FeedM α) := by
  rintro s ⟨T, h⟩
  obtain ⟨hd, he⟩ := hm h.depicts h.equipped
  have hpost : post (silent m : FeedM α) s = { s with st := post m s.st } := by
    unfold silent
    rw [post_zoom]
  rw [hpost]
  exact ⟨T, hd, he, h.hears⟩

theorem heard_attempt {ε α : Type} {m : KvM Status α} (h : Always (Preserves (Heard cfg)) (silent m : FeedM α)) :
    Always (Preserves (Heard cfg)) (silent (attempt m : KvM ε (Except Status α)) : EStateM ε (Noted KvSt (List KvEvent)) _) := by
  intro s
  have hsame : post (silent (attempt m : KvM ε (Except Status α)) : EStateM ε (Noted KvSt (List KvEvent)) _) s =
      post (silent m : FeedM α) s := by
    unfold silent
    rw [post_zoom, post_zoom, post_of_run (run_attempt m s.st)]
  unfold Keeps
  rw [hsame]
  exact h s

theorem heard_kvOpen {α : Type} {ns : CString} {m : FeedM α}
    (h : keyValid cfg ns = true → Always (Preserves (Heard cfg)) m) :
    Always (Preserves (Heard cfg)) (kvOpen cfg ns >>= fun _ => m) := by
  unfold kvOpen
  split
  · rename_i hns
    rw [pure_bind]
    exact h hns
  · exact always_throw (preserves_chains _) _

section Runs
variable (hpersist : cfg.persistIndex = true)
include hpersist

theorem heard_kvSet {ns : CString} (hns : keyValid cfg ns = true) (key : CString) (value : Option Bytes) :
    Always (Preserves (Heard cfg)) (kvSet cfg ns key value) := by
  rintro s ⟨T, h⟩
  exact ⟨_, kvSet_inStep hpersist h hns value⟩

theorem heard_kvDelete {ns : CString} (hns : keyValid cfg ns = true) (key : CString) :
    Always (Preserves (Heard cfg)) (kvDelete cfg ns key) := by
  rintro s ⟨T, h⟩
  exact ⟨_, (kvDelete_inStep hpersist h hns key).2⟩

omit hpersist in
theorem heard_kvGet (ns key : CString) (capacity : Nat) :
    Always (Preserves (Heard cfg)) (silent (kvGet cfg ns key capacity) : FeedM _) := by
  refine heard_silent fun {T s} hd he => ?_
  have hio : s.ioFree ≠ 0 := by have := he.blocks; omega
  exact ⟨(kvGet_depicts hd hio ns key capacity).2, he.along (keeps_kvGet cfg AnySlot ns key capacity s)⟩

theorem heard_context : Always (Preserves (Heard cfg)) (silent (ctxGetOrAlloc cfg) : FeedM Bool) := by
  refine heard_silent fun {T s} hd he => ?_
  have hio : s.ioFree ≠ 0 := by have := he.blocks; omega
  obtain ⟨t, entries, hrun, -, ht, hconf⟩ := context_depicts hpersist hd he.heap hio
  rw [post_of_run hrun]
  exact ⟨ht, he.along hconf⟩

theorem heard_applyDefault (ns key : CString) (value : Option Bytes) :
    Always (Preserves (Heard cfg)) (applyDefault cfg ns key value) := by
  apply heard_kvOpen
  intro hns
  apply always_bind (preserves_chains _) (heard_attempt (heard_kvGet ns key 0))
  intro got
  split
  · exact always_pure (preserves_chains _) _
  · exact heard_kvSet hpersist hns key value
  · exact always_throw (preserves_chains _) _

theorem heard_applyDefaults (filter : Option CString) (ds : List Default) (first : Status) :
    Always (Preserves (Heard cfg)) (applyDefaults cfg filter ds first) := by
  induction ds generalizing first with
  | nil => exact always_pure (preserves_chains _) _
  | cons d ds ih =>
    unfold applyDefaults
    split
    · refine always_ite ?_ (ih first)
      apply always_bind (preserves_chains _) (always_attempt (heard_applyDefault hpersist _ _ _))
      intro r
      exact ih (firstError first r)
    · exact ih _

theorem heard_kvDefaultsApplyNs (filter : Option CString) :
    Always (Preserves (Heard cfg)) (kvDefaultsApplyNs cfg filter) :=
  always_bind (preserves_chains _) (heard_applyDefaults hpersist filter cfg.defaults .OK) fun _ =>
    always_ite (always_pure (preserves_chains _) _) (always_throw (preserves_chains _) _)

omit hpersist in
theorem trackDelete_unset {T : Table} {s : KvSt} (hd : Depicts cfg T s) {ns key : CString} (hnone : T.values (ns, key) = none) :
    (trackDelete cfg ns key).run s = .ok () s := by
  rw [trackDelete_eq]
  cases hctx : s.ctx with
  | none => rfl
  | some entries =>
    have hmem : findEntry entries ns key = none := findEntry_none.mpr fun h => hd.live (hd.entries hctx ▸ h) hnone
    rw [Option.bind_some, hmem]
    rfl

theorem heard_resetKeys {ns : CString} (hns : keyValid cfg ns = true) (fuel pos : Nat) (first : Status) :
    Always (Preserves (Heard cfg)) (resetKeys cfg ns fuel pos first) := by
  induction fuel generalizing pos first with
  | zero => exact always_pure (preserves_chains _) _
  | succ fuel ih =>
    rintro s ⟨T, h⟩
    show Heard cfg (post (resetKeys cfg ns (fuel + 1) pos first) s)
    unfold resetKeys
    rw [post_get_bind]
    dsimp only
    split
    · exact ⟨T, h⟩
    · rename_i i key _
      obtain ⟨hout, h'⟩ := kvDelete_inStep hpersist h hns key
      rw [post_then (run_attempt (kvDelete cfg ns key) s), hout]
      cases hr : (T.delete cfg (ns, key)).1 with
      | ok _ => exact ih pos first _ ⟨_, h'⟩
      | error status =>
        by_cases hmiss : status = .ERR_NOT_FOUND
        swap
        · cases status <;> first | exact absurd rfl hmiss | exact ih (i + 1) _ _ ⟨_, h'⟩
        subst hmiss
        -- the key has no value, so there is no entry either
        have hnone : T.values (ns, key) = none := by
          by_contra hvalue
          unfold Table.delete at hr
          rw [if_neg hvalue] at hr
          split at hr <;> cases hr
        have hsame : (T.delete cfg (ns, key)).2 = T := by
          unfold Table.delete
          rw [if_pos hnone]
          split <;> rfl
        rw [hsame] at h'
        have hdrop : (silent (trackDelete cfg ns key) : FeedM Unit).run (post (kvDelete cfg ns key) s) =
            .ok () (post (kvDelete cfg ns key) s) := run_zoom (trackDelete_unset h'.depicts hnone)
        dsimp only
        rw [post_then hdrop]
        exact ih pos first _ ⟨T, h'⟩

theorem heard_kvResetNamespace {ns : CString} (hns : keyValid cfg ns = true) :
    Always (Preserves (Heard cfg)) (kvResetNamespace cfg ns) := by
  apply always_bind (preserves_chains _) (heard_context hpersist)
  intro loaded
  refine always_ite (always_throw (preserves_chains _) _) ?_
  refine always_bind (preserves_chains _) (always_get (preserves_chains _)) fun s => ?_
  apply always_bind (preserves_chains _) (heard_resetKeys hpersist hns _ 0 .OK)
  intro first
  apply always_bind (preserves_chains _) (always_attempt (heard_kvDefaultsApplyNs hpersist (some ns)))
  intro r
  split
  · exact always_pure (preserves_chains _) _
  · exact always_throw (preserves_chains _) _

theorem callRun_shown (call : Call) {s : Noted KvSt (List KvEvent)} (h : Heard cfg s) :
    ∃ T, Depicts cfg T (post (callRun cfg call) s).st ∧ Hears T (Mirror.follow (post (callRun cfg call) s).notes) := by
  have hshown : ∀ {m : FeedM Unit}, Always (Preserves (Heard cfg)) m →
      ∃ T, Depicts cfg T (post (m >>= fun _ => pure Answer.done) s).st ∧
        Hears T (Mirror.follow (post (m >>= fun _ => pure Answer.done) s).notes) := fun {m} hm => by
    rw [post_map]
    obtain ⟨T, hT⟩ := hm s h
    exact ⟨T, hT.depicts, hT.hears⟩
  have hcall : ∀ {ns : CString} {m : FeedM Unit}, (keyValid cfg ns = true → Always (Preserves (Heard cfg)) m) →
      ∃ T, Depicts cfg T (post (kvOpen cfg ns >>= fun _ => m >>= fun _ => pure Answer.done) s).st ∧
        Hears T (Mirror.follow (post (kvOpen cfg ns >>= fun _ => m >>= fun _ => pure Answer.done) s).notes) :=
    fun {ns m} hm => by
      have hopen := hshown (heard_kvOpen hm)
      rwa [bind_assoc] at hopen
  have hread : ∀ call : Call, (∀ T : Table, (T.step cfg call).2 = T) →
      ∃ T, Depicts cfg T (post (silent (call.run cfg) : FeedM Answer) s).st ∧
        Hears T (Mirror.follow (post (silent (call.run cfg) : FeedM Answer) s).notes) := fun call hstill => by
    obtain ⟨T, hT⟩ := h
    have hd := (call_depicts hpersist hT.depicts hT.equipped call).2
    rw [hstill T] at hd
    unfold silent
    rw [post_zoom]
    exact ⟨T, hd, hT.hears⟩
  have hopened : ∀ {α : Type} (T : Table) (ns : CString) (f : α → Answer) (r : Except Status α),
      (Table.opened cfg T ns f (r, T)).2 = T := fun T ns f r => by
    unfold Table.opened
    split <;> rfl
  cases call with
  | set ns key value => exact hcall fun hns => heard_kvSet hpersist hns key value
  | get ns key capacity => exact hread _ fun T => hopened T ns _ _
  | delete ns key => exact hcall fun hns => heard_kvDelete hpersist hns key
  | iterate ns keyCapacity valueCapacity => exact hread _ fun T => hopened T ns _ _
  | reset ns => exact hcall fun hns => heard_kvResetNamespace hpersist hns
  | defaults filter => exact hshown (heard_kvDefaultsApplyNs hpersist filter)
  | reboot => exact hread _ fun T => rfl

theorem feedRun_shown {calls : List (Nat × Call)} (hblocks : ∀ c ∈ calls, 2 ≤ c.1) {s : Noted KvSt (List KvEvent)}
    (h : ∃ T, Depicts cfg T s.st ∧ Hears T (Mirror.follow s.notes)) :
    ∃ T, Depicts cfg T (feedRun cfg s calls).st ∧ Hears T (Mirror.follow (feedRun cfg s calls).notes) := by
  induction calls generalizing s with
  | nil => exact h
  | cons c calls ih =>
    obtain ⟨T, hd, hheard⟩ := h
    have hgiven : InStep cfg T { s with st := s.st.given c.1 true } :=
      ⟨hd.given c.1 true, ⟨hblocks c (by simp), rfl⟩, hheard⟩
    exact ih (fun c hc => hblocks c (by simp [hc])) (callRun_shown hpersist c.2 ⟨T, hgiven⟩)

end Runs

/-- Where every key has a value and fits, the items are those of all the keys, with the lengths of their values. -/
theorem items_known (T : Table) {keyCapacity : Nat} (valueCapacity : Nat) {ks : List NsKey}
    (hks : ∀ k ∈ ks, k.2.val.length < keyCapacity ∧ T.values k ≠ none) :
    ∃ items, T.items keyCapacity valueCapacity ks = (items, .ERR_NOT_FOUND) ∧
      items.map (fun item => (item.1, some item.2.2)) = ks.map fun k => (k.2, (T.values k).map List.length) := by
  induction ks with
  | nil => exact ⟨[], rfl, rfl⟩
  | cons k ks ih =>
    obtain ⟨items, hitems, hmap⟩ := ih fun k' hk' => hks k' (by simp [hk'])
    obtain ⟨hfits, hvalue⟩ := hks k (by simp)
    obtain ⟨value, hvalue⟩ := Option.ne_none_iff_exists'.mp hvalue
    rw [Table.items, if_neg (by omega), hitems]
    refine ⟨_, rfl, ?_⟩
    rw [List.map_cons, List.map_cons, hmap, hvalue]
    rfl

theorem mirrors_of_shown (hpersist : cfg.persistIndex = true) {T : Table} {s : KvSt} {M : Mirror} (hd : Depicts cfg T s)
    (he : Equipped s) (h : Hears T M) : Mirrors cfg M s := by
  have hio : s.ioFree ≠ 0 := by have := he.blocks; omega
  refine ⟨fun {ns key} capacity hns hkey => ?_, fun {ns keyCapacity} valueCapacity hcap => ?_⟩
  · rw [(kvGet_depicts hd hio ns key capacity).1, h.sizes, Table.get, if_neg (by simp [hkey])]
    cases T.values (ns, key) <;> rfl
  · obtain ⟨t, hrun, -⟩ := kvIterate_depicts hpersist hd he ns keyCapacity valueCapacity
    rw [outcome_of_run hrun, Table.iterate, if_neg (by omega), h.listed]
    obtain ⟨items, hitems, hmap⟩ := @items_known T keyCapacity valueCapacity (T.listed.filter fun k => k.1 == ns) fun k hk => by
      have hlive := hd.live (List.mem_filter.mp hk).1
      refine ⟨?_, hlive⟩
      rw [← hd.values] at hlive
      obtain ⟨value, hvalue⟩ := Option.ne_none_iff_exists'.mp hlive
      have hvalid := (keyValid_iff.mp (hd.orderly.record hvalue).2.2.1).2
      omega
    refine ⟨items, congrArg Except.ok hitems, hmap.trans (List.map_congr_left fun k _ => ?_)⟩
    rw [h.sizes]

/-- Over a backend that accepts every operation, with two free blocks and heap for the index at each call, a listener
that follows the events of an empty store knows at the end of every run which keys have values and how long they are,
and which keys an iteration hands out, in their order; and the store does not depend on it. -/
theorem listener_mirrors (hpersist : cfg.persistIndex = true) {flash : IdStore} (hs : flash.Sound)
    (hempty : flash.cells = fun _ => none) (ioFree : Nat) (heapRoom : Bool) {calls : List (Nat × Call)}
    (hblocks : ∀ c ∈ calls, 2 ≤ c.1) {blocks : Nat} (hb : 2 ≤ blocks) :
    (feedRun cfg ⟨.boot flash ioFree heapRoom, []⟩ calls).st = Kv.callRun cfg (.boot flash ioFree heapRoom) calls ∧
      Mirrors cfg (Mirror.follow (feedRun cfg ⟨.boot flash ioFree heapRoom, []⟩ calls).notes)
        ((Kv.callRun cfg (.boot flash ioFree heapRoom) calls).given blocks true) := by
  have hstart : Depicts cfg .empty (.boot flash ioFree heapRoom) := .empty hs hempty ioFree heapRoom
  obtain ⟨T, hd, hheard⟩ := feedRun_shown hpersist hblocks (s := ⟨.boot flash ioFree heapRoom, []⟩)
    ⟨.empty, hstart, ⟨fun _ => rfl, rfl⟩⟩
  rw [feedRun_st] at hd
  exact ⟨feedRun_st _ calls, mirrors_of_shown hpersist (hd.given blocks true) ⟨hb, rfl⟩ hheard⟩

/-- Two keys are set, and after a reboot the first one is deleted and the namespace reset. -/
def setAndReset : List (Nat × Call) := setBoth ++ [(2, .reboot), (2, .delete nsN keyB), (2, .delete nsN keyB), (2, .reset nsN)]

example : (feedRun blank.1 ⟨.boot blank.2 0 false, []⟩ setAndReset).notes =
    [⟨.KV_SET, nsN, keyB, 1, .OK⟩, ⟨.KV_SET, nsN, keyA, 1, .OK⟩, ⟨.KV_DELETE, nsN, keyB, 0, .OK⟩,
      ⟨.KV_DELETE, nsN, keyB, 0, .ERR_NOT_FOUND⟩, ⟨.KV_DELETE, nsN, keyA, 0, .OK⟩] := by decide +kernel

theorem reset_mirrored :
    (feedRun blank.1 ⟨.boot blank.2 0 false, []⟩ setAndReset).st = Kv.callRun blank.1 (.boot blank.2 0 false) setAndReset ∧
      Mirrors blank.1 (Mirror.follow (feedRun blank.1 ⟨.boot blank.2 0 false, []⟩ setAndReset).notes)
        ((Kv.callRun blank.1 (.boot blank.2 0 false) setAndReset).given 2 true) :=
  listener_mirrors rfl (fun _ _ => rfl) rfl 0 false (by decide) (by decide)

end ZephyrDB.Kv.Eventing
