import ZephyrDB.Kv.Collide

/-!
A namespace reset under refused operations, and which records the calls of the
store spare: what a set, a delete and a reset leave of the keys they do not name.
-/

set_option autoImplicit false

namespace ZephyrDB.Kv

open Lib

variable {cfg : KvCfg}

theorem Confined.weaken {P Q : UInt32 → Prop} {s t : KvSt} (h : Confined P s t) (hPQ : ∀ id, P id → Q id) :
    Confined Q s t := by
  obtain ⟨new, hnew, hpassed, hkept⟩ := h.flash.remembers
  exact ⟨⟨fun id hid => h.flash.cells id fun hp => hid (hPQ id hp),
    fun id hid => h.flash.made id fun hp => hid (hPQ id hp), h.flash.grows, h.flash.faults, h.flash.terse,
    new, hnew, fun c hc id hid => hpassed c hc id fun hp => hid (hPQ id hp), hkept⟩, h.ioFree, h.heapRoom⟩

theorem Spares.weaken {P Q : NsKey → Prop} {s t : KvSt} (h : Spares cfg P s t) (hQP : ∀ k, Q k → P k) :
    Spares cfg Q s t :=
  ⟨fun k hk => h.records k (hQP k hk), h.faults, h.terse, h.made, h.ioFree, h.heapRoom⟩

abbrev AnySlot (_ : UInt32) : Prop := True

theorem keeps_setLocked (ns key : CString) (value : Bytes) (s : KvSt) :
    Keeps (Confined AnySlot) (setLocked cfg ns key value) s := by
  have hchain := confined_chains AnySlot
  apply keeps_bind hchain (keeps_attempt (keeps_onFlash (IdStore.keeps_read _ _ _)))
  intro rd t _
  show Keeps _ (if probe ns key rd = some .MISMATCH then throw .ERR_COLLISION else _ : KvM Status Unit) t
  split
  · exact keeps_throw hchain _ _
  · apply keeps_bind hchain ((keeps_trackSet cfg ns key _ t).weaken fun _ _ => trivial)
    intro _ u _
    apply keeps_bind hchain (keeps_attempt (keeps_onFlash (IdStore.keeps_write _ trivial _)))
    intro wr v _
    exact (keeps_finishSet cfg ns key _ v).weaken fun _ _ => trivial

theorem keeps_kvSet (ns key : CString) (value : Option Bytes) (s : KvSt) :
    Keeps (Confined AnySlot) (kvSet cfg ns key value) s := by
  have hchain := confined_chains AnySlot
  unfold kvSet
  cases value with
  | none => exact keeps_throw hchain _ _
  | some v =>
    dsimp only
    split
    · exact keeps_throw hchain _ _
    · split
      · exact keeps_throw hchain _ _
      · apply keeps_withBlock
        intro _
        exact keeps_setLocked ns key v s.hold

theorem confined_kvDelete (ns key : CString) (s : KvSt) : Keeps (Confined AnySlot) (kvDelete cfg ns key) s := by
  have hchain := confined_chains AnySlot
  unfold kvDelete
  split
  · exact keeps_throw hchain _ _
  · apply keeps_withBlock
    intro _
    apply keeps_bind hchain (keeps_adaptExcept _ (keeps_onFlash (IdStore.keeps_read _ _ _)))
    intro r t _
    obtain ⟨rd, record⟩ := r
    dsimp only
    cases recordCheck record ns key with
    | MISMATCH => exact keeps_throw hchain _ _
    | FOREIGN => exact keeps_throw hchain _ _
    | MATCH off =>
      apply keeps_bind hchain (keeps_adaptExcept _ (keeps_onFlash (IdStore.keeps_delete _ trivial)))
      intro _ u _
      exact (keeps_trackDelete cfg ns key u).weaken fun _ _ => trivial

theorem spares_kvSet {ns key : CString} {value : Option Bytes} {P : NsKey → Prop} {s : KvSt}
    (hns : keyValid cfg ns = true) (hP : ∀ k, P k → k ≠ (ns, key))
    (h : ¬ Clobbers cfg s ns key value P) : Keeps (Spares cfg P) (kvSet cfg ns key value) s := by
  have hrest := @keeps_kvSet cfg ns key value s
  exact ⟨(recordOf_kvSet value hns hP).mpr h, hrest.flash.faults, hrest.flash.terse, hrest.flash.grows,
    hrest.ioFree, hrest.heapRoom⟩

section Loops
variable {R : KvSt → KvSt → Prop} (hR : Chains R) (ns : CString)
include hR

theorem keeps_resetKeys (hdelete : ∀ key s, Keeps R (kvDelete cfg ns key) s)
    (htrack : ∀ key s, Keeps R (trackDelete cfg ns key) s) (fuel pos : Nat) (first : Status) (s : KvSt) :
    Keeps R (resetKeys cfg ns fuel pos first) s := by
  induction fuel generalizing pos first s with
  | zero => exact keeps_pure hR _ _
  | succ fuel ih =>
    unfold resetKeys
    apply keeps_get_bind
    dsimp only
    split
    · exact keeps_pure hR _ _
    · rename_i i key _
      apply keeps_bind hR (keeps_attempt (hdelete key s))
      intro r t _
      split
      · exact ih _ _ t
      · apply keeps_bind hR (htrack key t)
        intro _ u _
        exact ih _ _ u
      · exact ih _ _ t

theorem keeps_applyDefaults (filter : Option CString) (ds : List Default) (s : KvSt)
    (happly : ∀ d ∈ ds, ∀ ns key, d.namespaceName = some ns → d.key = some key → filter.all (ns == ·) = true →
      ∀ t, R s t → Keeps R (applyDefault cfg ns key d.value) t) (first : Status) (t : KvSt) (hst : R s t) :
    Keeps R (applyDefaults cfg filter ds first) t := by
  induction ds generalizing first t with
  | nil => exact keeps_pure hR _ _
  | cons d ds ih =>
    have hrest : ∀ d' ∈ ds, ∀ ns key, d'.namespaceName = some ns → d'.key = some key →
        filter.all (ns == ·) = true → ∀ t, R s t → Keeps R (applyDefault cfg ns key d'.value) t :=
      fun d' hd' => happly d' (by simp [hd'])
    unfold applyDefaults
    split
    · rename_i ns key hns hkey
      split
      · rename_i hfilter
        apply keeps_bind hR (keeps_attempt (happly d (by simp) ns key hns hkey hfilter t hst))
        intro r u hrun
        apply ih hrest _ u
        apply hR.trans hst
        have hu := post_of_run hrun
        rw [← hu]
        exact happly d (by simp) ns key hns hkey hfilter t hst
      · exact ih hrest _ t hst
    · exact ih hrest _ t hst

theorem keeps_applyDefault {key : CString} {value : Option Bytes} {s : KvSt}
    (hget : Keeps R (kvGet cfg ns key 0) s)
    (hset : keyValid cfg ns = true → ∀ t, R s t → Keeps R (kvSet cfg ns key value) t) :
    Keeps R (applyDefault cfg ns key value) s := by
  unfold applyDefault kvOpen
  split
  · rename_i hns
    rw [pure_bind]
    apply keeps_seq hR (keeps_attempt hget)
    intro r t _ hst
    split
    · exact keeps_pure hR _ _
    · exact hset hns t hst
    · exact keeps_throw hR _ _
  · exact keeps_throw hR _ _

omit ns in
theorem keeps_kvDefaultsApplyNs (filter : Option CString) (s : KvSt)
    (happly : ∀ d ∈ cfg.defaults, ∀ ns key, d.namespaceName = some ns → d.key = some key →
      filter.all (ns == ·) = true → ∀ t, R s t → Keeps R (applyDefault cfg ns key d.value) t) :
    Keeps R (kvDefaultsApplyNs cfg filter) s := by
  apply keeps_bind hR (keeps_applyDefaults hR filter cfg.defaults s happly .OK s (hR.refl s))
  intro first t _
  split
  · exact keeps_pure hR _ _
  · exact keeps_throw hR _ _

theorem keeps_kvResetNamespace {s : KvSt} (hctx : Keeps R (ctxGetOrAlloc cfg) s)
    (hdelete : ∀ key s, Keeps R (kvDelete cfg ns key) s) (htrack : ∀ key s, Keeps R (trackDelete cfg ns key) s)
    (happly : ∀ key value, (∃ d ∈ cfg.defaults, d.namespaceName = some ns ∧ d.key = some key ∧ d.value = value) →
      ∀ t, R s t → Keeps R (applyDefault cfg ns key value) t) :
    Keeps R (kvResetNamespace cfg ns) s := by
  apply keeps_seq hR hctx
  intro there t _ hst
  cases there with
  | false => exact keeps_throw hR _ _
  | true =>
    apply keeps_get_bind
    apply keeps_seq hR (keeps_resetKeys hR ns hdelete htrack _ _ _ t)
    intro first u _ htu
    refine keeps_bind hR (keeps_attempt (keeps_kvDefaultsApplyNs hR (some ns) u ?_)) fun r v _ => ?_
    · intro d hd ns' key hns hkey hfilter w huw
      have heq : ns' = ns := Subtype.ext (by simpa using hfilter)
      subst heq
      exact happly key d.value ⟨d, hd, hns, hkey, rfl⟩ w (hR.trans (hR.trans hst htu) huw)
    · split
      · exact keeps_pure hR _ _
      · exact keeps_throw hR _ _

end Loops

structure Throughout (cfg : KvCfg) (R : KvSt → KvSt → Prop) : Prop where
  chains : Chains R
  get : ∀ ns key capacity s, Keeps R (kvGet cfg ns key capacity) s
  set : ∀ ns key value s, keyValid cfg ns = true → Keeps R (kvSet cfg ns key value) s
  delete : ∀ ns key s, Keeps R (kvDelete cfg ns key) s
  context : ∀ s, Keeps R (ctxGetOrAlloc cfg) s
  untrack : ∀ ns key s, Keeps R (trackDelete cfg ns key) s

section Iterate
variable {R : KvSt → KvSt → Prop} (hR : Chains R) (hget : ∀ ns key capacity s, Keeps R (kvGet cfg ns key capacity) s)
include hR hget

theorem keeps_iterScan (ns : CString) (keyCapacity valueCapacity fuel pos : Nat) (s : KvSt) :
    Keeps R (iterScan cfg ns keyCapacity valueCapacity fuel pos) s := by
  induction fuel generalizing pos s with
  | zero => exact keeps_pure hR _ _
  | succ fuel ih =>
    unfold iterScan
    apply keeps_get_bind
    split
    · exact keeps_pure hR _ _
    · split
      · exact keeps_pure hR _ _
      · split
        · exact keeps_pure hR _ _
        · rename_i entry _
          split
          · exact keeps_pure hR _ _
          · split
            · exact keeps_pure hR _ _
            · apply keeps_bind hR (keeps_attempt (hget ns entry.key valueCapacity s))
              intro r t _
              split
              · exact keeps_pure hR _ _
              · exact ih _ t
              · exact keeps_pure hR _ _

theorem keeps_kvIterNext (ns : CString) (keyCapacity valueCapacity pos : Nat) (s : KvSt) :
    Keeps R (kvIterNext cfg ns keyCapacity valueCapacity pos) s := by
  unfold kvIterNext
  split
  · exact keeps_pure hR _ _
  · exact keeps_get_bind (keeps_iterScan hR hget ns keyCapacity valueCapacity _ pos s)

end Iterate

section Throughout
variable {R : KvSt → KvSt → Prop} (h : Throughout cfg R)
include h

theorem keeps_kvIterOpen (s : KvSt) : Keeps R (kvIterOpen cfg) s := by
  apply keeps_bind h.chains (h.context s)
  intro there t _
  cases there with
  | true => exact keeps_pure h.chains _ _
  | false => exact keeps_throw h.chains _ _

theorem keeps_defaults (ns key : CString) (value : Option Bytes) (s : KvSt) :
    Keeps R (applyDefault cfg ns key value) s :=
  keeps_applyDefault h.chains ns (h.get ns key 0 s) fun hns t _ => h.set ns key value t hns

omit h in
theorem keeps_opened {α : Type} (hR : Chains R) {ns : CString} {m : KvM Status α} {f : α → KvAnswer} {s : KvSt}
    (hm : keyValid cfg ns = true → Keeps R m s) :
    Keeps R (kvOpen cfg ns >>= fun _ => m >>= fun a => pure (f a)) s := by
  unfold Keeps
  rw [post_kvOpen]
  split
  · rename_i hns
    rw [post_map]
    exact hm hns
  · exact hR.refl s

theorem keeps_op (op : KvOp) (s : KvSt) : Keeps R (op.run cfg) s := by
  have hR := h.chains
  cases op with
  | set ns key value => exact keeps_opened hR fun hns => h.set ns key value s hns
  | get ns key capacity => exact keeps_opened hR fun _ => h.get ns key capacity s
  | delete ns key => exact keeps_opened hR fun _ => h.delete ns key s
  | iterOpen ns => exact keeps_opened hR fun _ => keeps_kvIterOpen h s
  | iterNext ns keyCapacity valueCapacity position =>
    apply keeps_opened hR
    intro _
    exact keeps_kvIterNext hR h.get ns keyCapacity valueCapacity position s
  | reset ns =>
    apply keeps_opened hR
    intro _
    apply keeps_kvResetNamespace hR ns (h.context s) (h.delete ns) (h.untrack ns)
    intro key value _ t _
    exact keeps_defaults h ns key value t
  | defaults filter =>
    refine keeps_bind hR (keeps_kvDefaultsApplyNs hR filter s ?_) fun _ _ _ => keeps_pure hR _ _
    exact fun d _ ns key _ _ _ t _ => keeps_defaults h ns key d.value t

end Throughout

theorem confined_throughout (cfg : KvCfg) : Throughout cfg (Confined AnySlot) where
  chains := confined_chains AnySlot
  get := keeps_kvGet cfg AnySlot
  set ns key value s _ := keeps_kvSet ns key value s
  delete := confined_kvDelete
  context s := (keeps_ctxGetOrAlloc cfg s).weaken fun _ _ => trivial
  untrack ns key s := (keeps_trackDelete cfg ns key s).weaken fun _ _ => trivial

/-- A default of a namespace that a reset of it would write. -/
def Seeds (cfg : KvCfg) (s : KvSt) (ns key : CString) (value : Bytes) : Prop :=
  (∃ d ∈ cfg.defaults, d.namespaceName = some ns ∧ d.key = some key ∧ d.value = some value) ∧
    LetThrough cfg s ns key value

/-- From now on a set of the key is shown each record of `P` in its slot, or its write is refused. -/
def Withheld (cfg : KvCfg) (s : KvSt) (ns key : CString) (P : NsKey → Prop) : Prop :=
  ∀ k record, P k → recordId cfg k.1 k.2 = recordId cfg ns key → recordOf cfg s.flash.cells k = some record →
    ((∀ n, s.flash.made (.read (recordId cfg ns key)) ≤ n →
        s.flash.faults (.read (recordId cfg ns key)) n = none) ∧ headLen record ≤ cfg.blockSize) ∨
      ∀ n, s.flash.made (.write (recordId cfg ns key)) ≤ n → s.flash.faults (.write (recordId cfg ns key)) n ≠ none

theorem Withheld.along {s t : KvSt} {ns key : CString} {P : NsKey → Prop} (h : Withheld cfg s ns key P)
    (hst : Spares cfg P s t) : Withheld cfg t ns key P := by
  intro k record hk hid hrec
  rw [hst.records k hk] at hrec
  rw [hst.faults]
  rcases h k record hk hid hrec with ⟨hread, hhead⟩ | hwrite
  · exact .inl ⟨fun n hn => hread n ((hst.made _).trans hn), hhead⟩
  · exact .inr fun n hn => hwrite n ((hst.made _).trans hn)

theorem Withheld.not_clobbers {s : KvSt} {ns key : CString} {P : NsKey → Prop} (h : Withheld cfg s ns key P)
    (value : Option Bytes) : ¬ Clobbers cfg s ns key value P := by
  rintro ⟨-, hwrite, k, record, hk, hid, hrec, hover⟩
  rcases h k record hk hid hrec with ⟨hread, hhead⟩ | hrefused
  · rcases hover with hover | hover
    · exact hover (hread _ (Nat.le_refl _))
    · omega
  · exact hrefused _ (Nat.le_refl _) hwrite

theorem LetThrough.along {s t : KvSt} {ns key : CString} {value : Bytes} (h : LetThrough cfg t ns key value)
    (hio : t.ioFree = s.ioFree) : LetThrough cfg s ns key value :=
  ⟨h.toWritable, hio ▸ h.block⟩

/-- The keys of the other namespaces. -/
abbrev Outside (ns : CString) (k : NsKey) : Prop := k.1 ≠ ns

theorem outside_ne {ns key : CString} : ∀ k : NsKey, Outside ns k → k ≠ (ns, key) := by
  rintro k hk rfl
  exact hk rfl

theorem spares_reset {s : KvSt} {ns : CString}
    (h : ∀ key value, Seeds cfg s ns key value → Withheld cfg s ns key (Outside ns)) :
    Keeps (Spares cfg (Outside ns)) (kvResetNamespace cfg ns) s := by
  have hchain := spares_chains cfg (Outside ns)
  apply keeps_kvResetNamespace hchain ns (Confined.spares (keeps_ctxGetOrAlloc cfg s) _) (fun key t => Spares.weaken (keeps_kvDelete ns key t) outside_ne) (fun key t => Confined.spares (keeps_trackDelete cfg ns key t) _)
  intro key value hd t hst
  apply keeps_applyDefault hchain ns (Confined.spares (keeps_kvGet cfg _ ns key 0 t) _)
  intro hns u htu
  have hsu := hchain.trans hst htu
  apply spares_kvSet hns outside_ne
  intro hclob
  obtain ⟨v, hv, hlet⟩ := hclob.1
  have hseed : Seeds cfg s ns key v := ⟨hv ▸ hd, hlet.along hsu.ioFree⟩
  exact ((h key v hseed).along hsu).not_clobbers value hclob

/-- Some default a reset of the namespace may write has the id of a record outside it. -/
def Endangers (cfg : KvCfg) (s : KvSt) (ns : CString) : Prop :=
  (s.ctx ≠ none ∨ s.heapRoom = true) ∧ ∃ key value, Seeds cfg s ns key value ∧
    ∃ k record, Outside ns k ∧ recordId cfg k.1 k.2 = recordId cfg ns key ∧ recordOf cfg s.flash.cells k = some record

/-- A state whose backend behaves like this from now on. -/
def KvSt.under (s : KvSt) (faults : IdOp → Nat → Option Errno) (terse : UInt32 → Nat → Bool) : KvSt :=
  { s with flash := { s.flash with faults := faults, terse := terse } }

structure Fades (cfg : KvCfg) (k : NsKey) (s t : KvSt) : Prop where
  gone : recordOf cfg s.flash.cells k = none → recordOf cfg t.flash.cells k = none
  faults : t.flash.faults = s.flash.faults
  ioFree : t.ioFree = s.ioFree

theorem fades_chains (cfg : KvCfg) (k : NsKey) : Chains (Fades cfg k) where
  refl _ := ⟨id, rfl, rfl⟩
  trans h j := ⟨fun hs => j.gone (h.gone hs), j.faults.trans h.faults, j.ioFree.trans h.ioFree⟩

theorem Spares.fades {P : NsKey → Prop} {s t : KvSt} (h : Spares cfg P s t) {k : NsKey} (hk : P k) :
    Fades cfg k s t :=
  ⟨fun hs => (h.records k hk).trans hs, h.faults, h.ioFree⟩

theorem fades_kvSet {ns key : CString} {k : NsKey} (value : Option Bytes) (s : KvSt) (hns : keyValid cfg ns = true)
    (hk : k ≠ (ns, key)) : Keeps (Fades cfg k) (kvSet cfg ns key value) s := by
  have hrest := @keeps_kvSet cfg ns key value s
  refine ⟨fun hs => ?_, hrest.flash.faults, hrest.ioFree⟩
  have hP : ∀ j, j = k → j ≠ (ns, key) := by
    rintro j rfl
    exact hk
  rw [(recordOf_kvSet value hns hP).mpr ?_ k rfl, hs]
  rintro ⟨-, -, j, record, rfl, -, hrec, -⟩
  rw [hs] at hrec
  cases hrec

theorem fades_applyDefault {ns key : CString} {k : NsKey} (value : Option Bytes) (s : KvSt) (hk : Outside ns k) :
    Keeps (Fades cfg k) (applyDefault cfg ns key value) s :=
  keeps_applyDefault (fades_chains cfg k) ns
    (Spares.fades (Confined.spares (keeps_kvGet cfg _ ns key 0 s) (Outside ns)) hk) fun hns t _ =>
      fades_kvSet value t hns (outside_ne k hk)

theorem applyDefault_overwrites {s : KvSt} {ns key : CString} {value : Bytes} {k : NsKey}
    (hlet : LetThrough cfg s ns key value) (hk : Outside ns k) (hid : recordId cfg k.1 k.2 = recordId cfg ns key)
    (hread : s.flash.faults (.read (recordId cfg ns key)) = fun _ => some .ENOENT)
    (hwrite : s.flash.faults (.write (recordId cfg ns key)) = fun _ => none) :
    recordOf cfg (post (applyDefault cfg ns key (some value)) s).flash.cells k = none := by
  have hget : outcome (kvGet cfg ns key 0) s = .error .ERR_NOT_FOUND := by
    rw [outcome_kvGet hlet.key_valid hlet.block]
    unfold IdStore.fault
    rw [hread]
    rfl
  have hconf : Confined AnySlot s (post (kvGet cfg ns key 0) s) := keeps_kvGet cfg AnySlot ns key 0 s
  have happly : post (applyDefault cfg ns key (some value)) s =
      post (kvSet cfg ns key (some value)) (post (kvGet cfg ns key 0) s) := by
    unfold applyDefault kvOpen
    rw [if_pos hlet.ns_valid, pure_bind, post_then (run_attempt _ _), hget]
  rw [happly]
  generalize post (kvGet cfg ns key 0) s = t at hconf
  have hlet' : LetThrough cfg t ns key value :=
    ⟨hlet.toWritable, by rw [hconf.ioFree]; exact hlet.block⟩
  refine recordOf_recordBuild_ne hlet.ns_valid hlet.key_valid (outside_ne k hk)
    (?_ : _ = some (recordBuild ns key value))
  rw [post_kvSet_through hlet']
  have hcells := setLocked_cells cfg t.hold ns key value (recordId_ne_index cfg k.1 k.2)
  rw [if_pos, hid, Function.update_self] at hcells
  · rw [← hid] at hcells
    exact hcells
  · refine ⟨fun hshown => ?_, ?_⟩
    · have hfault := ((preRead_mismatch hlet.room).mp hshown).1
      unfold IdStore.fault at hfault
      rw [show t.hold.flash.faults = s.flash.faults from hconf.flash.faults, hread] at hfault
      cases hfault
    · unfold IdStore.fault
      rw [show t.hold.flash.faults = s.flash.faults from hconf.flash.faults, hwrite]

theorem resetKeys_total (cfg : KvCfg) (ns : CString) (fuel pos : Nat) (first : Status) :
    Total (resetKeys cfg ns fuel pos first) := by
  induction fuel generalizing pos first with
  | zero => exact total_pure _
  | succ fuel ih =>
    unfold resetKeys
    apply total_bind total_get
    intro s
    dsimp only
    split
    · exact total_pure _
    · apply total_bind (total_attempt _)
      intro r
      split
      · exact ih _ _
      · exact total_bind (trackDelete_total cfg ns _) fun _ => ih _ _
      · exact ih _ _

theorem ctxGetOrAlloc_there {s : KvSt} (h : s.ctx ≠ none ∨ s.heapRoom = true) :
    (ctxGetOrAlloc cfg).run s = .ok true (post (ctxGetOrAlloc cfg) s) := by
  apply run_of_outcome
  unfold ctxGetOrAlloc
  rw [outcome_get_bind]
  cases hctx : s.ctx with
  | some entries => rfl
  | none =>
    have hroom : s.heapRoom = true := h.resolve_left (not_not.mpr hctx)
    simp only [hroom, if_true]
    obtain ⟨_, hload⟩ := loadPersisted_total cfg { s with ctx := some [], heapRoom := true }
    exact outcome_of_run (run_then rfl (run_then hload rfl))

theorem ctxGetOrAlloc_absent {s : KvSt} (hctx : s.ctx = none) (hroom : s.heapRoom = false) :
    (ctxGetOrAlloc cfg).run s = .ok false s := by
  unfold ctxGetOrAlloc
  refine run_then (show (get : KvM Status KvSt).run s = .ok s s from rfl) ?_
  simp only [hctx, hroom]
  rfl

theorem post_kvDefaultsApplyNs (cfg : KvCfg) (filter : Option CString) (s : KvSt) :
    post (kvDefaultsApplyNs cfg filter) s = post (applyDefaults cfg filter cfg.defaults .OK) s := by
  apply post_bind_still
  intro first t
  split <;> rfl

section Reaches
variable {R : KvSt → KvSt → Prop} (hR : Chains R) {ns : CString}
include hR

theorem applyDefaults_reaches {ds : List Default} {d : Default} (hd : d ∈ ds) {key : CString}
    (hns : d.namespaceName = some ns) (hkey : d.key = some key)
    (happly : ∀ key value t, Keeps R (applyDefault cfg ns key value) t) (first : Status) (s : KvSt) :
    ∃ t, R s t ∧ R (post (applyDefault cfg ns key d.value) t) (post (applyDefaults cfg (some ns) ds first) s) := by
  have hkeeps : ∀ ds first t, Keeps R (applyDefaults cfg (some ns) ds first) t := fun ds first t =>
    keeps_applyDefaults hR (some ns) ds t (fun d _ ns' key' hns' hkey' hfilter u _ => by
      have heq : ns' = ns := Subtype.ext (by simpa using hfilter)
      subst heq
      exact happly key' d.value u) first t (hR.refl t)
  induction ds generalizing first s with
  | nil => cases hd
  | cons e ds ih =>
    rcases List.mem_cons.mp hd with rfl | hmem
    · refine ⟨s, hR.refl s, ?_⟩
      unfold applyDefaults
      rw [hns, hkey]
      simp only [Option.all_some, beq_self_eq_true, if_true]
      rw [post_then (run_attempt _ _)]
      exact hkeeps ds _ _
    · unfold applyDefaults
      split
      · rename_i ns' key' hns' hkey'
        by_cases hfilter : (some ns).all (ns' == ·) = true
        · rw [if_pos hfilter, post_then (run_attempt _ _)]
          have heq : ns' = ns := Subtype.ext (by simpa using hfilter)
          subst heq
          obtain ⟨t, hst, hfinal⟩ := ih hmem (firstError first (outcome (applyDefault cfg ns' key' e.value) s))
            (post (applyDefault cfg ns' key' e.value) s)
          exact ⟨t, hR.trans (happly key' e.value s) hst, hfinal⟩
        · rw [if_neg hfilter]
          exact ih hmem first s
      · exact ih hmem _ s

theorem kvResetNamespace_reaches {s : KvSt} {d : Default} (hd : d ∈ cfg.defaults) {key : CString}
    (hns : d.namespaceName = some ns) (hkey : d.key = some key) (hroom : s.ctx ≠ none ∨ s.heapRoom = true)
    (hctx : Keeps R (ctxGetOrAlloc cfg) s) (hdelete : ∀ key s, Keeps R (kvDelete cfg ns key) s)
    (htrack : ∀ key s, Keeps R (trackDelete cfg ns key) s)
    (happly : ∀ key value t, Keeps R (applyDefault cfg ns key value) t) :
    ∃ t, R s t ∧ R (post (applyDefault cfg ns key d.value) t) (post (kvResetNamespace cfg ns) s) := by
  have hthere := @ctxGetOrAlloc_there cfg _ hroom
  obtain ⟨first, hfirst⟩ := resetKeys_total cfg ns (((post (ctxGetOrAlloc cfg) s).ctx.getD []).length + 1) 0 .OK
    (post (ctxGetOrAlloc cfg) s)
  have hkeys := keeps_resetKeys hR ns hdelete htrack (((post (ctxGetOrAlloc cfg) s).ctx.getD []).length + 1) 0 .OK
    (post (ctxGetOrAlloc cfg) s)
  have hpost : post (kvResetNamespace cfg ns) s = post (applyDefaults cfg (some ns) cfg.defaults .OK)
      (post (resetKeys cfg ns (((post (ctxGetOrAlloc cfg) s).ctx.getD []).length + 1) 0 .OK)
        (post (ctxGetOrAlloc cfg) s)) := by
    unfold kvResetNamespace
    rw [post_then hthere]
    simp only [Bool.not_true, Bool.false_eq_true, if_false]
    rw [post_get_bind, post_then hfirst, post_bind_still]
    · exact post_kvDefaultsApplyNs cfg (some ns) _
    · intro r t
      split <;> rfl
  obtain ⟨t, hst, hfinal⟩ := applyDefaults_reaches hR hd hns hkey happly .OK
    (post (resetKeys cfg ns (((post (ctxGetOrAlloc cfg) s).ctx.getD []).length + 1) 0 .OK)
      (post (ctxGetOrAlloc cfg) s))
  rw [hpost]
  exact ⟨t, hR.trans (hR.trans hctx hkeys) hst, hfinal⟩

end Reaches

theorem post_reset (s : KvSt) (ns : CString) : post ((KvOp.reset ns).run cfg) s =
    if keyValid cfg ns = true then post (kvResetNamespace cfg ns) s else s :=
  post_opened (m := kvResetNamespace cfg ns) (f := fun _ => KvAnswer.none)

def blindAt (id : UInt32) : IdOp → Nat → Option Errno := fun op _ => if op = .read id then some .ENOENT else none

theorem reset_overwrites {s : KvSt} {ns : CString} (h : Endangers cfg s ns) :
    ∃ faults terse k, Outside ns k ∧
      recordOf cfg (post ((KvOp.reset ns).run cfg) (s.under faults terse)).flash.cells k ≠
        recordOf cfg s.flash.cells k := by
  obtain ⟨hroom, key, value, ⟨⟨d, hd, hdns, hdkey, hdvalue⟩, hlet⟩, k, record, hk, hid, hrec⟩ := h
  refine ⟨blindAt (recordId cfg ns key), s.flash.terse, k, hk, ?_⟩
  have hchain := fades_chains cfg k
  have hspares : ∀ {a b : KvSt}, Confined (IndexSlot cfg) a b → Fades cfg k a b := fun hab =>
    Spares.fades (Confined.spares hab (Outside ns)) hk
  have hroom' : (s.under (blindAt (recordId cfg ns key)) s.flash.terse).ctx ≠ none ∨
      (s.under (blindAt (recordId cfg ns key)) s.flash.terse).heapRoom = true := hroom
  obtain ⟨t, hst, hfinal⟩ := kvResetNamespace_reaches hchain hd hdns hdkey hroom'
    (hspares (keeps_ctxGetOrAlloc cfg _))
    (fun key t => Spares.fades (Spares.weaken (keeps_kvDelete ns key t) outside_ne) hk)
    (fun key t => hspares (keeps_trackDelete cfg ns key t)) fun key value t => fades_applyDefault value t hk
  rw [hdvalue] at hfinal
  have hlet' : LetThrough cfg t ns key value := hlet.along hst.ioFree.symm
  have hnone : recordOf cfg (post (applyDefault cfg ns key (some value)) t).flash.cells k = none := by
    refine applyDefault_overwrites hlet' hk hid ?_ ?_
    · rw [hst.faults]
      funext n
      exact if_pos rfl
    · rw [hst.faults]
      funext n
      show blindAt (recordId cfg ns key) (.write (recordId cfg ns key)) n = none
      simp [blindAt]
  rw [post_reset, if_pos hlet.ns_valid, hfinal.gone hnone, hrec]
  simp

/-- Which records a call spares. A set: all but its own, unless its pre-read is refused or cut off before
the end of another key's head and the write lands. A delete: all but its own. A reset: those of the other
namespaces, whatever the backend does, unless a default it may write has the id of one. -/
theorem others_spared (cfg : KvCfg) (s : KvSt) :
    (∀ ns key value,
      (∀ k, k ≠ (ns, key) → recordOf cfg (post ((KvOp.set ns key value).run cfg) s).flash.cells k =
        recordOf cfg s.flash.cells k) ↔ ¬ Clobbers cfg s ns key value (· ≠ (ns, key))) ∧
    (∀ ns key value,
      ((post ((KvOp.set ns key value).run cfg) s).flash.made (.write (recordId cfg ns key)) ≠
        s.flash.made (.write (recordId cfg ns key)) → Established cfg s ns key) ↔ ¬ Presumes cfg s ns key value) ∧
    (∀ ns key k, k ≠ (ns, key) → recordOf cfg (post ((KvOp.delete ns key).run cfg) s).flash.cells k =
      recordOf cfg s.flash.cells k) ∧
    (∀ ns,
      (∀ faults terse k, Outside ns k →
        recordOf cfg (post ((KvOp.reset ns).run cfg) (s.under faults terse)).flash.cells k =
          recordOf cfg s.flash.cells k) ↔ ¬ Endangers cfg s ns) ∧
    (∀ ns, (∀ key value, Seeds cfg s ns key value → Withheld cfg s ns key (Outside ns)) →
      ∀ k, Outside ns k → recordOf cfg (post ((KvOp.reset ns).run cfg) s).flash.cells k =
        recordOf cfg s.flash.cells k) := by
  refine ⟨fun ns key value => ?_, fun ns key value => ?_, fun ns key k hk => ?_, fun ns => ⟨?_, ?_⟩,
    fun ns h k hk => ?_⟩
  · rw [post_set]
    split
    · rename_i hns
      exact recordOf_kvSet value hns fun _ hk => hk
    · rename_i hns
      exact ⟨fun _ h => hns h.1.choose_spec.2.ns_valid, fun _ _ _ => rfl⟩
  · rw [post_set]
    split
    · rename_i hns
      exact established_kvSet value hns
    · rename_i hns
      exact ⟨fun _ h => hns h.1.choose_spec.2.ns_valid, fun _ h => absurd rfl h⟩
  · rw [post_delete]
    split
    · exact (keeps_kvDelete ns key s).records k hk
    · rfl
  · intro hall hdanger
    obtain ⟨faults, terse, k, hk, hne⟩ := reset_overwrites hdanger
    exact hne (hall faults terse k hk)
  · intro hsafe faults terse k hk
    rw [post_reset]
    split
    · by_cases hroom : s.ctx ≠ none ∨ s.heapRoom = true
      · refine (spares_reset fun key value hseed j record hj hid hrec => ?_).records k hk
        have hseed' : Seeds cfg s ns key value := ⟨hseed.1, hseed.2.along rfl⟩
        exact absurd ⟨hroom, key, value, hseed', j, record, hj, hid, hrec⟩ hsafe
      · simp only [not_or, not_not, Bool.not_eq_true] at hroom
        have hstop : (kvResetNamespace cfg ns).run (s.under faults terse) = .error .ERR_NOMEM (s.under faults terse) :=
          run_then (ctxGetOrAlloc_absent hroom.1 hroom.2) rfl
        unfold post
        rw [hstop]
        rfl
    · rfl
  · rw [post_reset]
    split
    · exact (spares_reset h).records k hk
    · rfl

/-- An empty backend that refuses the second pre-read of the slot which two keys share on NVS. -/
def refusesPreRead : KvSt :=
  .boot (.blank fun op n => if op = .read 35193 ∧ n = 1 then some Errno.EIO else none) 2 true

/-- Both sets report success, and the first key is gone. -/
theorem collision_overwrites :
    keyCyx ≠ keyFdb ∧
      (kvRun (.nvs true 128 []) refusesPreRead [.set nsN keyCyx (some [1]), .set nsN keyFdb (some [2])]).2.map
        (fun call => statusOf call.2) = [.OK, .OK] ∧
      recordOf (.nvs true 128 [])
          (kvRun (.nvs true 128 []) refusesPreRead [.set nsN keyCyx (some [1])]).1.flash.cells (nsN, keyCyx) ≠
        recordOf (.nvs true 128 []) (kvRun (.nvs true 128 []) refusesPreRead
          [.set nsN keyCyx (some [1]), .set nsN keyFdb (some [2])]).1.flash.cells (nsN, keyCyx) := by
  refine ⟨by decide, ?_, ?_⟩
  · decide +kernel
  · decide +kernel

end ZephyrDB.Kv
