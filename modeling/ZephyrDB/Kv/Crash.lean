import ZephyrDB.Kv.Walk
import ZephyrDB.Lib.Transition

/-!
Runs of calls that a crash may cut short at any point between two operations of
the backend: the stored index covers the records throughout, and after a reboot
an iteration finds the keys that gets find.
-/

set_option autoImplicit false

namespace ZephyrDB.Kv

open Lib

variable {cfg : KvCfg}

theorem resetKeys_keeps {I : KvSt → Prop} {ns : CString}
    (hI : ∀ s, I s → s.flash.Sound ∧ Orderly cfg s.flash.cells ∧
      ∀ entries, s.ctx = some entries → ∀ e ∈ entries, Live cfg s.flash.cells e)
    (hdelete : ∀ key s, I s → I (post (kvDelete cfg ns key) s)) (fuel pos : Nat) (first : Status) {s : KvSt} (h : I s) :
    I (post (resetKeys cfg ns fuel pos first) s) := by
  induction fuel generalizing pos first s with
  | zero => exact h
  | succ fuel ih =>
    unfold resetKeys
    rw [post_get_bind]
    dsimp only
    split
    · exact h
    · rename_i i key hnext
      obtain ⟨j, hj, hmap⟩ := Option.bind_eq_some_iff.mp hnext
      obtain ⟨e, he, hkey⟩ := Option.map_eq_some_iff.mp hmap
      obtain ⟨rfl, rfl⟩ := Prod.mk.inj hkey
      obtain ⟨e', he', hns, -⟩ := ahead_some hj
      rw [he] at he'
      obtain rfl := Option.some.inj he'
      rw [post_then (run_attempt _ s)]
      split
      · exact ih _ _ (hdelete e.key s h)
      · rename_i hout
        exfalso
        obtain ⟨hs, ho, hlive⟩ := hI s h
        cases hctx : s.ctx with
        | none =>
          rw [hctx] at he
          cases he
        | some entries =>
          rw [hctx] at he
          obtain ⟨-, hstored⟩ := hlive entries hctx e (List.mem_of_getElem? he)
          obtain ⟨value, hvalue⟩ := Option.ne_none_iff_exists'.mp hstored
          have hvalid : keyValid cfg e.key = true := (ho.record hvalue).2.2.1
          have hkey' : stored cfg s.flash.cells (ns, e.key) ≠ none := hns ▸ hstored
          by_cases hio : s.ioFree = 0
          · have hdel : kvDelete cfg ns e.key = withBlock (deleteLocked cfg ns e.key) := by
              simp only [kvDelete, hvalid, Bool.not_true, Bool.false_eq_true, if_false]
            rw [hdel] at hout
            unfold outcome at hout
            rw [withBlock_none hio] at hout
            cases hout
          · rw [((kvDelete_sound hs ho hvalid hio).2 hkey').1] at hout
            cases hout
      · exact ih _ _ (hdelete e.key s h)

theorem post_kvResetNamespace {s t : KvSt} (hrun : (ctxGetOrAlloc cfg).run s = .ok true t) (ns : CString) :
    post (kvResetNamespace cfg ns) s = post (kvDefaultsApplyNs cfg (some ns))
      (post (resetKeys cfg ns ((t.ctx.getD []).length + 1) 0 .OK) t) := by
  obtain ⟨first, hfirst⟩ := resetKeys_total cfg ns ((t.ctx.getD []).length + 1) 0 .OK t
  unfold kvResetNamespace
  rw [post_then hrun]
  simp only [Bool.not_true, Bool.false_eq_true, if_false]
  rw [post_get_bind, post_then hfirst, post_then (run_attempt _ _)]
  cases firstError first (outcome (kvDefaultsApplyNs cfg (some ns)) _) <;> rfl

section Reset
variable {Q : NsKey → Prop} (hpersist : cfg.persistIndex = true) {ns : CString} (hQ : ∀ k, Q k → k.1 ≠ ns)
include hpersist hQ

theorem sails_resetKeys (fuel pos : Nat) (first : Status) {s : KvSt} (hs : s.flash.Sound) (hcur : Current cfg s) :
    Sails cfg Q s (post (resetKeys cfg ns fuel pos first) s) := by
  refine (resetKeys_keeps (I := fun t => t.flash.Sound ∧ Sails cfg Q s t) (fun t ht => ?_) (fun key t ht => ?_) fuel pos
    first ⟨hs, (still_chains.refl s).sails hcur⟩).2
  · exact ⟨ht.1, ht.2.current.charted.orderly, fun entries hctx => (ht.2.current.listed entries hctx).live⟩
  · have hconf : Confined AnySlot t (post (kvDelete cfg ns key) t) := confined_kvDelete ns key t
    exact ⟨hconf.sound ht.1, ht.2.trans (sails_kvDelete ht.1 ht.2.current hpersist ns key fun k hk heq =>
      hQ k hk (congrArg Prod.fst heq))⟩

theorem sails_kvResetNamespace {s : KvSt} (hs : s.flash.Sound) (hcur : Current cfg s)
    (hblock : s.ctx = none → s.heapRoom = true → s.ioFree ≠ 0) :
    Sails cfg Q s (post (kvResetNamespace cfg ns) s) ∨ Swells cfg Q s (post (kvResetNamespace cfg ns) s) := by
  rcases @context_cases cfg s hblock with hrun | hload
  · have hpost : post (kvResetNamespace cfg ns) s = s := by
      unfold kvResetNamespace
      rw [post_then hrun]
      rfl
    rw [hpost]
    exact .inl ((still_chains.refl s).sails hcur)
  · obtain ⟨t, hrun, hsails, hloaded⟩ := @sails_context cfg Q s hs hcur hload
    have hconf : Confined AnySlot s t := by
      have h := (confined_throughout cfg).context s
      rwa [Keeps, post_of_run hrun] at h
    have hdeleted := @sails_resetKeys cfg Q hpersist ns hQ ((t.ctx.getD []).length + 1) 0 .OK t (hconf.sound hs) hsails.current
    have hconf' : Confined AnySlot t (post (resetKeys cfg ns ((t.ctx.getD []).length + 1) 0 .OK) t) :=
      keeps_resetKeys (confined_chains _) ns (fun key s => confined_kvDelete ns key s)
        (fun key s => (keeps_trackDelete cfg ns key s).weaken fun _ _ => trivial) _ _ _ t
    have hpost := post_kvResetNamespace hrun ns
    have hsteady : Keeps (Steady cfg (some ns) Q) (kvDefaultsApplyNs cfg (some ns)) _ :=
      steady_kvDefaultsApplyNs hpersist (some ns) (fun k hk hd => hQ k hk (beq_iff_eq.mp hd.1))
        (post (resetKeys cfg ns ((t.ctx.getD []).length + 1) 0 .OK) t)
    have hsupplied : Supplied cfg (some ns) (post (resetKeys cfg ns ((t.ctx.getD []).length + 1) 0 .OK) t) :=
      fun hnone => absurd (hdeleted.unloaded hnone) hloaded
    rw [hpost]
    rcases hsteady.sails (hconf'.sound (hconf.sound hs)) hdeleted.current hsupplied with ⟨hset, -⟩ | hset
    · exact .inl (hsails.trans (hdeleted.trans hset))
    · exact .inr (hsails.swells (hdeleted.swells hset))

end Reset

/-- The keys a call may give or take a value. -/
def KvOp.Concerns (cfg : KvCfg) : KvOp → NsKey → Prop
  | .set ns key _, k => k = (ns, key)
  | .delete ns key, k => k = (ns, key)
  | .reset ns, k => k.1 = ns
  | .defaults filter, k => Defaulted cfg filter k
  | _, _ => False

/-- Where a call has the index loaded a block of the slab is free for it, and a set or a default finds heap
for it. -/
def Provided (cfg : KvCfg) (s : KvSt) : KvOp → Prop
  | .set ns key value => s.ctx = none → ∀ v, value = some v → LetThrough cfg s ns key v →
      ¬ Taken cfg s.flash.cells (ns, key) → s.heapRoom = true ∧ s.ioFree ≠ 1
  | .iterOpen ns => keyValid cfg ns = true → s.ctx = none → s.heapRoom = true → s.ioFree ≠ 0
  | .reset ns => keyValid cfg ns = true → s.ctx = none → s.heapRoom = true → s.ioFree ≠ 0
  | .defaults filter => Supplied cfg filter s
  | _ => True

/-- A call from a state where the index is in order leaves one, and spares the keys it does not concern, at
every point; unless it stores more keys than the index has room for. -/
theorem sails_op (hpersist : cfg.persistIndex = true) {s : KvSt} (hs : s.flash.Sound) (hcur : Current cfg s) (op : KvOp)
    (hp : Provided cfg s op) : Sails cfg (fun k => ¬ op.Concerns cfg k) s (post (op.run cfg) s) ∨
      Swells cfg (fun k => ¬ op.Concerns cfg k) s (post (op.run cfg) s) := by
  have hstill : ∀ Q t, Still s t → Sails cfg Q s t ∨ Swells cfg Q s t := fun Q t h => .inl (h.sails hcur)
  cases op with
  | set ns key value =>
    rw [post_set]
    split
    · rename_i hns
      refine (sails_kvSet hs hcur hpersist hns (fun v hv hlet hfree hctx => ?_) fun k hk => hk).imp And.left id
      obtain ⟨hheap, hone⟩ := hp hctx v hv hlet hfree
      have hpos := hlet.block
      refine ⟨hheap, ?_⟩
      show s.ioFree - 1 ≠ 0
      omega
    · exact hstill _ _ (still_chains.refl s)
  | get ns key capacity =>
    have hpost : post ((KvOp.get ns key capacity).run cfg) s = _ :=
      @post_opened _ cfg ns (kvGet cfg ns key capacity) (fun r => KvAnswer.value r.1 r.2) s
    rw [hpost]
    split
    · exact hstill _ _ (still_kvGet ns key capacity s)
    · exact hstill _ _ (still_chains.refl s)
  | delete ns key =>
    rw [post_delete]
    split
    · exact .inl (sails_kvDelete hs hcur hpersist ns key fun k hk => hk)
    · exact hstill _ _ (still_chains.refl s)
  | iterOpen ns =>
    have hopened : post ((KvOp.iterOpen ns).run cfg) s = _ :=
      @post_opened _ cfg ns (kvIterOpen cfg) (fun _ => KvAnswer.none) s
    rw [hopened]
    split
    · rename_i hns
      rcases @context_cases cfg s (hp hns) with hrun | hload
      · have hpost : post (kvIterOpen cfg) s = s := by
          unfold kvIterOpen
          rw [post_then hrun]
          rfl
        rw [hpost]
        exact hstill _ _ (still_chains.refl s)
      · obtain ⟨t, hrun, hsails, -⟩ := @sails_context cfg (fun k => ¬ (KvOp.iterOpen ns).Concerns cfg k) s hs hcur hload
        have hpost : post (kvIterOpen cfg) s = t := by
          unfold kvIterOpen
          rw [post_then hrun]
          rfl
        rw [hpost]
        exact .inl hsails
    · exact hstill _ _ (still_chains.refl s)
  | iterNext ns keyCapacity valueCapacity position =>
    have hpost : post ((KvOp.iterNext ns keyCapacity valueCapacity position).run cfg) s = _ :=
      @post_opened _ cfg ns (kvIterNext cfg ns keyCapacity valueCapacity position) (fun r => KvAnswer.item r.1 r.2) s
    rw [hpost]
    split
    · exact hstill _ _ (keeps_kvIterNext still_chains still_kvGet ns keyCapacity valueCapacity position s)
    · exact hstill _ _ (still_chains.refl s)
  | reset ns =>
    rw [post_reset]
    split
    · rename_i hns
      exact sails_kvResetNamespace hpersist (fun k hk => hk) hs hcur (hp hns)
    · exact hstill _ _ (still_chains.refl s)
  | defaults filter =>
    have hpost : post ((KvOp.defaults filter).run cfg) s = post (kvDefaultsApplyNs cfg filter) s := post_map _ _ s
    rw [hpost]
    have hsteady := @steady_kvDefaultsApplyNs cfg hpersist filter (fun k => ¬ (KvOp.defaults filter).Concerns cfg k)
      (fun k hk => hk) s
    exact (hsteady.sails hs hcur hp).imp And.left id

/-- The state a call finds: the slab and the heap have other users. -/
def KvSt.given (s : KvSt) (ioFree : Nat) (heapRoom : Bool) : KvSt := { s with ioFree := ioFree, heapRoom := heapRoom }

/-- The contents of the backend in the course of a call, first to last. -/
def moments (s t : KvSt) : List Cells :=
  (t.flash.past.take (t.flash.past.length - s.flash.past.length)).reverse ++ [t.flash.cells]

/-- A call, and where it is cut short the number of changes of the backend after which it is. -/
structure KvEvent where
  ioFree : Nat
  heapRoom : Bool
  op : KvOp
  crash : Option Nat

/-- The state an event leads to; after a crash there is no context, and the backend has what it had then. -/
def KvEvent.step (cfg : KvCfg) (s : KvSt) (e : KvEvent) : KvSt :=
  let start := s.given e.ioFree e.heapRoom
  let t := post (e.op.run cfg) start
  match e.crash with
  | none => t
  | some moment => .boot { t.flash with cells := (moments start t).getD moment t.flash.cells } e.ioFree e.heapRoom

/-- A call finds what it needs to load the index, and no more keys hold values afterwards than the index has
room for. -/
def Bounded (cfg : KvCfg) (s : KvSt) (e : KvEvent) : Prop :=
  Provided cfg (s.given e.ioFree e.heapRoom) e.op ∧ ¬ Crowded cfg (e.step cfg s).flash.cells

theorem moment_of_passes {P : Cells → Prop} {s t : KvSt} (h : Passes P s t) (moment : Nat) :
    P ((moments s t).getD moment t.flash.cells) := by
  obtain ⟨⟨new, hnew, hp⟩, hlast⟩ := h
  have hall : ∀ c ∈ moments s t, P c := by
    intro c hc
    unfold moments at hc
    rw [hnew, List.length_append, Nat.add_sub_cancel, List.take_left, List.mem_append, List.mem_reverse,
      List.mem_singleton] at hc
    rcases hc with hc | rfl
    · exact hp c hc
    · exact hlast
  rw [List.getD_eq_getElem?_getD]
  cases h : (moments s t)[moment]? with
  | none => exact hlast
  | some c => exact hall c (List.mem_of_getElem? h)

structure Shipshape (cfg : KvCfg) (s : KvSt) : Prop where
  sound : s.flash.Sound
  current : Current cfg s

theorem Shipshape.spares (hpersist : cfg.persistIndex = true) {s : KvSt} (h : Shipshape cfg s) {e : KvEvent}
    (hprovided : Provided cfg (s.given e.ioFree e.heapRoom) e.op) :
    ((Charted cfg (e.step cfg s).flash.cells ∨ Crowded cfg (e.step cfg s).flash.cells) ∧
      ∀ k, ¬ e.op.Concerns cfg k → stored cfg (e.step cfg s).flash.cells k = stored cfg s.flash.cells k) ∧
    ((e.step cfg s).ctx ≠ none → ¬ Crowded cfg (e.step cfg s).flash.cells → Current cfg (e.step cfg s)) := by
  obtain ⟨ioFree, heapRoom, op, crash⟩ := e
  have hcur : Current cfg (s.given ioFree heapRoom) := ⟨h.current.charted, h.current.listed⟩
  have hop := @sails_op cfg hpersist (s.given ioFree heapRoom) h.sound hcur op hprovided
  have hpasses : Passes (fun c => (Charted cfg c ∨ Crowded cfg c) ∧
      ∀ k, ¬ op.Concerns cfg k → stored cfg c k = stored cfg s.flash.cells k) (s.given ioFree heapRoom)
      (post (op.run cfg) (s.given ioFree heapRoom)) := by
    rcases hop with hsails | hswells
    · exact hsails.passes.imp fun _ hc => ⟨.inl hc.1, hc.2⟩
    · exact hswells.passes
  cases crash with
  | none =>
    refine ⟨hpasses.2, fun _ hroom => ?_⟩
    exact (hop.resolve_right fun hswells => hroom hswells.crowded).current
  | some moment => exact ⟨moment_of_passes hpasses moment, fun hctx => absurd rfl hctx⟩

theorem Shipshape.step (hpersist : cfg.persistIndex = true) {s : KvSt} (h : Shipshape cfg s) {e : KvEvent}
    (hb : Bounded cfg s e) : Shipshape cfg (e.step cfg s) := by
  obtain ⟨hprovided, hroom⟩ := hb
  obtain ⟨⟨hcharted, -⟩, hcurrent⟩ := h.spares hpersist hprovided
  have hconf : Confined AnySlot (s.given e.ioFree e.heapRoom) (post (e.op.run cfg) (s.given e.ioFree e.heapRoom)) :=
    keeps_op (confined_throughout cfg) e.op _
  have hsound : (e.step cfg s).flash.Sound := by
    have := hconf.sound h.sound
    unfold KvEvent.step
    cases e.crash <;> exact this
  refine ⟨hsound, ?_⟩
  cases hctx : (e.step cfg s).ctx with
  | none => exact ⟨hcharted.resolve_right hroom, fun entries hsome => by rw [hctx] at hsome; cases hsome⟩
  | some _ => exact hcurrent (by rw [hctx]; exact Option.some_ne_none _) hroom

theorem Shipshape.boot {flash : IdStore} (hs : flash.Sound) (hempty : flash.cells = fun _ => none) (ioFree : Nat)
    (heapRoom : Bool) : Shipshape cfg (.boot flash ioFree heapRoom) := by
  have hids : persistedIds cfg (KvSt.boot flash ioFree heapRoom).flash.cells = [] := by
    unfold persistedIds
    split
    · rw [show (KvSt.boot flash ioFree heapRoom).flash.cells = fun _ => none from hempty]
    · rfl
  have hnone : ∀ id, (KvSt.boot flash ioFree heapRoom).flash.cells id = none := fun id => congrFun hempty id
  refine ⟨hs, ⟨fun id record _ hcell => ?_, by rw [hids]; exact List.nodup_nil, fun id hid => ?_, fun k hk => ?_⟩, fun _ h => ?_⟩
  · rw [hnone] at hcell
    cases hcell
  · rw [hids] at hid
    cases hid
  · refine absurd ?_ hk
    unfold stored
    rw [hnone]
    rfl
  · cases h

theorem Shipshape.working {s : KvSt} (h : Shipshape cfg s) {ioFree : Nat} (hio : ioFree ≠ 0) (heapRoom : Bool) :
    Working cfg (.boot s.flash ioFree heapRoom) :=
  ⟨h.sound, h.current.charted.orderly, hio⟩

/-- After any run of calls from an empty store, crashes included, that finds heap and blocks where it loads the
index and stores no more keys than that has room for: a loaded index has one entry a key, with the key's id,
and is the stored one; after a reboot an iteration hands out just what gets find, each key once; and an event,
cut short or not, changes what a get finds of no key that its call does not concern. -/
theorem index_survives_crashes (hpersist : cfg.persistIndex = true) {flash : IdStore} {ioFree : Nat} {heapRoom : Bool}
    (hs : flash.Sound) (hempty : flash.cells = fun _ => none) {events : List KvEvent} {s : KvSt}
    (hrun : Steps (Guarded (Bounded cfg) fun s e t => t = KvEvent.step cfg s e) (.boot flash ioFree heapRoom) events s) :
    (∀ entries, s.ctx = some entries → (entries.map (·.nsKey)).Nodup ∧
      (∀ e ∈ entries, e.id = recordId cfg e.namespaceName e.key) ∧
      persistedIds cfg s.flash.cells = entries.map (·.id)) ∧
    (∀ ns keyCapacity valueCapacity blocks, cfg.maxKeyLen < keyCapacity → blocks ≠ 0 →
      ∃ items, outcome (kvIterate cfg ns keyCapacity valueCapacity) (.boot s.flash blocks true) =
          .ok (items, .ERR_NOT_FOUND) ∧ (items.map (·.1)).Nodup ∧
        ∀ key got, (key, got) ∈ items ↔ outcome (kvGet cfg ns key valueCapacity) (.boot s.flash blocks true) = .ok got) ∧
    (∀ e, Bounded cfg s e → ∀ ns key valueCapacity blocks, blocks ≠ 0 → ¬ e.op.Concerns cfg (ns, key) →
      outcome (kvGet cfg ns key valueCapacity) (.boot (e.step cfg s).flash blocks true) =
        outcome (kvGet cfg ns key valueCapacity) (.boot s.flash blocks true)) := by
  have h : Shipshape cfg s := by
    refine Steps.keeps (fun a e b ha hstep => ?_) hrun (Shipshape.boot hs hempty ioFree heapRoom)
    obtain ⟨hb, rfl⟩ := hstep
    exact ha.step hpersist hb
  refine ⟨fun entries hctx => ?_, fun ns keyCapacity valueCapacity blocks hcap hio => ?_,
    fun e he ns key valueCapacity blocks hio hother => ?_⟩
  · have hl := h.current.listed entries hctx
    exact ⟨hl.keys_nodup h.current.charted.filed, fun e he => (hl.live e he).1, hl.agree⟩
  · have hcur : Current cfg (.boot s.flash blocks true) := ⟨h.current.charted, fun _ hctx => by cases hctx⟩
    exact kvIterate_lists (s := KvSt.boot s.flash blocks true) h.sound hcur (fun _ => ⟨rfl, hio⟩) hio ns hcap valueCapacity
  · have hvalues := (h.spares hpersist he.1).1.2
    exact outcome_kvGet_congr (h.working hio true) ((h.step hpersist he).working hio true) (hvalues _ hother) valueCapacity

def KvEvent.Among (keys : List NsKey) (e : KvEvent) : Prop :=
  e.heapRoom = true ∧ 1 < e.ioFree ∧ ∃ k ∈ keys, e.op.key? = some k

instance (keys : List NsKey) (e : KvEvent) : Decidable (e.Among keys) :=
  inferInstanceAs (Decidable (e.heapRoom = true ∧ 1 < e.ioFree ∧ ∃ k ∈ keys, e.op.key? = some k))

theorem steps_among (hpersist : cfg.persistIndex = true) {keys : List NsKey} (hfew : keys.length ≤ cfg.indexMax)
    {events : List KvEvent} (hamong : ∀ e ∈ events, e.Among keys) {s : KvSt} (h : Shipshape cfg s)
    (hkeys : ∀ k, stored cfg s.flash.cells k ≠ none → k ∈ keys) :
    Steps (Guarded (Bounded cfg) fun s e t => t = KvEvent.step cfg s e) s events (events.foldl (KvEvent.step cfg) s) := by
  induction events generalizing s with
  | nil => exact .nil s
  | cons e events ih =>
    rw [List.forall_mem_cons] at hamong
    obtain ⟨⟨hheap, hio, named, hnamed, hkey⟩, hrest⟩ := hamong
    have hprovided : Provided cfg (s.given e.ioFree e.heapRoom) e.op := by
      cases hop : e.op with
      | set ns key value => exact fun _ _ _ _ _ => ⟨hheap, Nat.ne_of_gt hio⟩
      | get | delete => trivial
      | iterOpen | iterNext | reset | defaults => rw [hop] at hkey; cases hkey
    have hconcerns : ∀ k, e.op.Concerns cfg k → k = named := by
      intro k hk
      cases hop : e.op with
      | set | delete => rw [hop] at hk hkey; exact hk.trans (Option.some.inj hkey)
      | get => rw [hop] at hk; cases hk
      | iterOpen | iterNext | reset | defaults => rw [hop] at hkey; cases hkey
    have hkeys' : ∀ k, stored cfg (e.step cfg s).flash.cells k ≠ none → k ∈ keys := by
      intro k hk
      by_cases hc : e.op.Concerns cfg k
      · exact hconcerns k hc ▸ hnamed
      · rw [(h.spares hpersist hprovided).1.2 k hc] at hk
        exact hkeys k hk
    have hroom : ¬ Crowded cfg (e.step cfg s).flash.cells := by
      rintro ⟨more, hnodup, hstored, hmax⟩
      have hlen := hnodup.length_le_of_subset fun k hk => hkeys' k (hstored k hk)
      omega
    exact .cons ⟨⟨hprovided, hroom⟩, rfl⟩ (ih hrest (h.step hpersist ⟨hprovided, hroom⟩) hkeys')

def crashing : List KvEvent :=
  [⟨2, true, .set nsN keyCyx (some [1]), none⟩, ⟨2, true, .set nsN keyAb (some [2]), some 1⟩,
    ⟨2, true, .delete nsN keyCyx, none⟩, ⟨2, true, .set nsN keyAb (some [3]), none⟩,
    ⟨2, true, .set nsN keyFdb (some [4]), some 1⟩]

def crashed : KvSt := crashing.foldl (KvEvent.step (.nvs true 128 [])) (.boot (.blank fun _ _ => none) 2 true)

theorem crashed_run_listed :
    (outcome (kvGet (.nvs true 128 []) nsN keyAb 8) (.boot crashed.flash 2 true)).toOption = some ([3], 1) ∧
      ∃ items, outcome (kvIterate (.nvs true 128 []) nsN 49 8) (.boot crashed.flash 2 true) = .ok (items, .ERR_NOT_FOUND) ∧
        (items.map (·.1)).Nodup ∧ ∀ key got, (key, got) ∈ items ↔
          outcome (kvGet (.nvs true 128 []) nsN key 8) (.boot crashed.flash 2 true) = .ok got := by
  have hship : Shipshape (.nvs true 128 []) (.boot (.blank fun _ _ => none) 2 true) :=
    Shipshape.boot (fun _ _ => rfl) rfl 2 true
  have hrun := @steps_among (.nvs true 128 []) rfl [(nsN, keyCyx), (nsN, keyAb), (nsN, keyFdb)] (by decide) crashing
    (by decide) _ hship fun _ hk => absurd rfl hk
  exact ⟨by decide +kernel, (index_survives_crashes rfl (fun _ _ => rfl) rfl hrun).2.1 nsN 49 8 2 (by decide) (by decide)⟩

/-- No heap for the index, and a backend that is empty and refuses nothing. -/
def unindexed : KvSt :=
  KvEvent.step (.nvs true 128 []) (.boot (.blank fun _ _ => none) 2 false) ⟨2, false, .set nsN keyCyx (some [1]), none⟩

/-- A set that finds no heap for the index stores its key, and no iteration ever lists it. -/
theorem unindexed_key_hidden :
    (IdStore.blank fun _ _ => none).Sound ∧ (IdStore.blank fun _ _ => none).cells = (fun _ => none) ∧
      (outcome (kvIterate (.nvs true 128 []) nsN 49 8) (.boot unindexed.flash 2 true)).toOption =
        some ([], .ERR_NOT_FOUND) ∧
      (outcome (kvGet (.nvs true 128 []) nsN keyCyx 8) (.boot unindexed.flash 2 true)).toOption = some ([1], 1) := by
  refine ⟨fun _ _ => rfl, rfl, ?_, ?_⟩
  · decide +kernel
  · decide +kernel

end ZephyrDB.Kv
