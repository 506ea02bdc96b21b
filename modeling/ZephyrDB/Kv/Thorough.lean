import ZephyrDB.Kv.Delivery
import ZephyrDB.Kv.Walk

/-!
A walk of an iterator whose calls come with capacities of their own: which keys
it delivers, whatever the backend does and whatever the slots hold.
-/

set_option autoImplicit false

namespace ZephyrDB.Kv

open Lib

variable {cfg : KvCfg}

abbrev IterReport := (Nat × Nat) × Except Status Item

/-- Successive calls of `zdb_kv_iter_next`: what each reported before the one that reports the end, and
whether there was one. -/
def iterCalls (cfg : KvCfg) (ns : CString) : List (Nat × Nat) → Nat → KvM Status (List IterReport × Bool)
  | [], _ => return ([], false)
  | c :: calls, pos => do
    match ← kvIterNext cfg ns c.1 c.2 pos with
    | (_, .error .ERR_NOT_FOUND) => return ([], true)
    | (pos, report) =>
      let (reports, ended) ← iterCalls cfg ns calls pos
      return ((c, report) :: reports, ended)

/-- Open an iterator and call it with these capacities. -/
def kvIterCalls (cfg : KvCfg) (ns : CString) (calls : List (Nat × Nat)) : KvM Status (List IterReport × Bool) := do
  kvIterOpen cfg
  iterCalls cfg ns calls 0

def keysOf (reports : List IterReport) : List CString := reports.filterMap fun r => r.2.toOption.map (·.1)

def Faithful (cfg : KvCfg) (ns : CString) (cells : Cells) (r : IterReport) : Prop :=
  ∀ key copied outLen, r.2 = .ok (key, copied, outLen) → ∃ value, stored cfg cells (ns, key) = some value ∧
    key.val.length < r.1.1 ∧ ∀ outValue : Bytes, outValue.length = r.1.2 → Delivers value outValue copied outLen

/-- What is promised of a walk that has come to its end. -/
structure Thorough (cfg : KvCfg) (ns : CString) (cells : Cells) (reports : List IterReport) : Prop where
  once : ∀ key, stored cfg cells (ns, key) ≠ none → (keysOf reports).count key = 1
  faithful : ∀ r ∈ reports, Faithful cfg ns cells r

/-- A loaded index that lists each key of the namespace that holds a value, and no key twice. -/
structure Lists (cfg : KvCfg) (ns : CString) (s : KvSt) (entries : List IndexEntry) : Prop where
  ctx : s.ctx = some entries
  valid : ∀ e ∈ entries, keyValid cfg e.key = true
  nodup : (entries.map (·.nsKey)).Nodup
  covers : ∀ key, stored cfg s.flash.cells (ns, key) ≠ none → (ns, key) ∈ entries.map (·.nsKey)

/-- What a call does at an entry; `none` is that it goes on to the next. -/
def meets (cfg : KvCfg) (ns : CString) (c : Nat × Nat) (e : IndexEntry) (s : KvSt) : Option (Except Status Item) :=
  if c.1 ≤ e.key.val.length then some (.error .ERR_NOMEM)
  else
    match outcome (kvGet cfg ns e.key c.2) s with
    | .ok got => some (.ok (e.key, got))
    | .error .ERR_NOT_FOUND => none
    | .error status => some (.error status)

def passed (cfg : KvCfg) (ns : CString) (c : Nat × Nat) (e : IndexEntry) (s : KvSt) : KvSt :=
  if c.1 ≤ e.key.val.length then s else post (kvGet cfg ns e.key c.2) s

def callOf (cfg : KvCfg) (ns : CString) (c : Nat × Nat) :
    List IndexEntry → KvSt → (List IndexEntry × Except Status Item) × KvSt
  | [], s => (([], .error .ERR_NOT_FOUND), s)
  | e :: rest, s =>
    match meets cfg ns c e s with
    | some r => ((rest, r), passed cfg ns c e s)
    | none => callOf cfg ns c rest (passed cfg ns c e s)

/-- All of them. -/
def walkOf (cfg : KvCfg) (ns : CString) : List (Nat × Nat) → List IndexEntry → KvSt → List IterReport × Bool
  | [], _, _ => ([], false)
  | _ :: _, [], _ => ([], true)
  | c :: calls, e :: rest, s =>
    match meets cfg ns c e s with
    | some r =>
      let w := walkOf cfg ns calls rest (passed cfg ns c e s)
      ((c, r) :: w.1, w.2)
    | none => walkOf cfg ns (c :: calls) rest (passed cfg ns c e s)

section Passed
variable (ns : CString) (c : Nat × Nat) (e : IndexEntry) (s : KvSt)

theorem passed_still : Still s (passed cfg ns c e s) := by
  unfold passed
  split
  · exact still_chains.refl s
  · exact still_kvGet ns e.key c.2 s

theorem meets_ne_end : meets cfg ns c e s ≠ some (.error .ERR_NOT_FOUND) := by
  unfold meets
  split
  · intro h
    cases h
  · split
    · intro h
      cases h
    · intro h
      cases h
    · rename_i status hne _
      intro h
      obtain rfl := Except.error.inj (Option.some.inj h)
      exact hne rfl

end Passed

section Walk
variable {ns : CString} {c : Nat × Nat} {e : IndexEntry} {s : KvSt} (calls : List (Nat × Nat)) (rest : List IndexEntry)

theorem callOf_none (h : meets cfg ns c e s = none) :
    callOf cfg ns c (e :: rest) s = callOf cfg ns c rest (passed cfg ns c e s) := by
  rw [callOf, h]

theorem callOf_some {r : Except Status Item} (h : meets cfg ns c e s = some r) :
    callOf cfg ns c (e :: rest) s = ((rest, r), passed cfg ns c e s) := by
  rw [callOf, h]

theorem walkOf_nil (es : List IndexEntry) : walkOf cfg ns [] es s = ([], false) := by
  cases es <;> rfl

theorem walkOf_none (h : meets cfg ns c e s = none) :
    walkOf cfg ns (c :: calls) (e :: rest) s = walkOf cfg ns (c :: calls) rest (passed cfg ns c e s) := by
  rw [walkOf, h]

theorem walkOf_some {r : Except Status Item} (h : meets cfg ns c e s = some r) :
    walkOf cfg ns (c :: calls) (e :: rest) s =
      ((c, r) :: (walkOf cfg ns calls rest (passed cfg ns c e s)).1, (walkOf cfg ns calls rest (passed cfg ns c e s)).2) := by
  rw [walkOf, h]

theorem walkOf_call (c : Nat × Nat) (es : List IndexEntry) (s : KvSt) :
    walkOf cfg ns (c :: calls) es s =
      if (callOf cfg ns c es s).1.2 = .error .ERR_NOT_FOUND then ([], true)
      else
        let w := walkOf cfg ns calls (callOf cfg ns c es s).1.1 (callOf cfg ns c es s).2
        ((c, (callOf cfg ns c es s).1.2) :: w.1, w.2) := by
  induction es generalizing s with
  | nil => rfl
  | cons e rest ih =>
    cases hmeets : meets cfg ns c e s with
    | none => rw [walkOf_none calls rest hmeets, callOf_none rest hmeets, ih]
    | some r =>
      have hne : r ≠ .error .ERR_NOT_FOUND := fun hend => meets_ne_end ns c e s (hend ▸ hmeets)
      rw [walkOf_some calls rest hmeets, callOf_some rest hmeets, if_neg hne]

theorem callOf_still (c : Nat × Nat) (es : List IndexEntry) (s : KvSt) : Still s (callOf cfg ns c es s).2 := by
  induction es generalizing s with
  | nil => exact still_chains.refl s
  | cons e rest ih =>
    have hpass := @passed_still cfg ns c e s
    cases hmeets : meets cfg ns c e s with
    | some r =>
      rw [callOf_some rest hmeets]
      exact hpass
    | none =>
      rw [callOf_none rest hmeets]
      exact still_chains.trans hpass (ih _)

end Walk

section Calls
variable {entries : List IndexEntry} {ns : CString} (hvalid : ∀ e ∈ entries, keyValid cfg e.key = true)
include hvalid

theorem iterScan_callOf {c : Nat × Nat} {fuel pos : Nat} {s : KvSt} (hctx : s.ctx = some entries)
    (hfuel : (ahead entries ns pos).length < fuel) :
    ∃ pos', (iterScan cfg ns c.1 c.2 fuel pos).run s =
        .ok (pos', (callOf cfg ns c (ahead entries ns pos) s).1.2) (callOf cfg ns c (ahead entries ns pos) s).2 ∧
      ahead entries ns pos' = (callOf cfg ns c (ahead entries ns pos) s).1.1 := by
  induction fuel generalizing pos s with
  | zero => exact absurd hfuel (Nat.not_lt_zero _)
  | succ fuel ih =>
    cases hnext : nextKeyInNs entries ns pos with
    | none =>
      rw [ahead_none hnext]
      refine ⟨max pos entries.length, iterScan_end hctx hnext c.2 fuel, ?_⟩
      · rw [ahead, List.drop_eq_nil_of_le (Nat.le_max_right _ _)]
        rfl
    | some i =>
      obtain ⟨e, he, hns, hahead⟩ := ahead_some hnext
      rw [hahead] at hfuel ⊢
      have hempty : e.key.val.isEmpty = false := by
        simpa using (keyValid_iff.mp (hvalid e (List.mem_of_getElem? he))).1
      by_cases hcap : c.1 ≤ e.key.val.length
      · refine ⟨i + 1, ?_, ?_⟩
        · simp only [callOf, meets, passed, if_pos hcap]
          refine run_then (a := s) rfl ?_
          simp only [hctx, hnext, he, hempty, Bool.false_eq_true, if_false, if_pos (Nat.lt_succ_of_le hcap)]
          rfl
        · simp only [callOf, meets, if_pos hcap]
      · obtain ⟨hfound, hmissing, hother⟩ :=
          @iterScan_round cfg _ _ _ c.2 fuel _ _ _ _ hctx hnext he hempty (Nat.not_le.mp hcap)
        have hstill := @still_kvGet cfg ns e.key c.2 s
        simp only [callOf, meets, passed, if_neg hcap]
        cases hget : outcome (kvGet cfg ns e.key c.2) s with
        | ok got => exact ⟨i + 1, hfound hget, rfl⟩
        | error status =>
          by_cases hstatus : status = .ERR_NOT_FOUND
          · subst hstatus
            obtain ⟨pos', hrun, hrest⟩ := @ih (i + 1) (post (kvGet cfg ns e.key c.2) s) (hstill.ctx.trans hctx)
              (by simpa using hfuel)
            exact ⟨pos', (hmissing hget).trans hrun, hrest⟩
          · have hround := hother hstatus hget
            cases status
            case ERR_NOT_FOUND => exact absurd rfl hstatus
            all_goals exact ⟨i + 1, hround, rfl⟩

theorem iterCalls_walkOf {calls : List (Nat × Nat)} (hcaps : ∀ c ∈ calls, c.1 ≠ 0) {pos : Nat} {s : KvSt}
    (hctx : s.ctx = some entries) :
    outcome (iterCalls cfg ns calls pos) s = .ok (walkOf cfg ns calls (ahead entries ns pos) s) := by
  induction calls generalizing pos s with
  | nil =>
    rw [walkOf_nil]
    rfl
  | cons c calls ih =>
    have hfuel : (ahead entries ns pos).length < (s.ctx.getD []).length + 1 := by
      rw [hctx]
      exact Nat.lt_succ_of_le (le_trans (List.length_filter_le _ _) (by simp))
    obtain ⟨pos', hscan, hrest⟩ := iterScan_callOf hvalid (c := c) hctx hfuel
    have hnext : (kvIterNext cfg ns c.1 c.2 pos).run s =
        .ok (pos', (callOf cfg ns c (ahead entries ns pos) s).1.2) (callOf cfg ns c (ahead entries ns pos) s).2 := by
      unfold kvIterNext
      rw [if_neg (hcaps c List.mem_cons_self)]
      exact run_then (a := s) rfl hscan
    have hstill := @callOf_still cfg ns c (ahead entries ns pos) s
    have hgo := @ih (fun c hc => hcaps c (List.mem_cons_of_mem _ hc)) pos' (callOf cfg ns c (ahead entries ns pos) s).2
      (hstill.ctx.trans hctx)
    rw [hrest] at hgo
    rw [walkOf_call]
    refine (outcome_then hnext).trans ?_
    cases (callOf cfg ns c (ahead entries ns pos) s).1.2 with
    | ok item => exact (outcome_bind_ok hgo).trans rfl
    | error status =>
      cases status
      case ERR_NOT_FOUND => rfl
      all_goals exact (outcome_bind_ok hgo).trans rfl

omit hvalid in
theorem walkOf_ends {calls : List (Nat × Nat)} {es : List IndexEntry} {s : KvSt} (h : es.length < calls.length) :
    (walkOf cfg ns calls es s).2 = true := by
  induction es generalizing calls s with
  | nil =>
    cases calls with
    | nil => exact absurd h (Nat.not_lt_zero _)
    | cons c calls => rfl
  | cons e rest ih =>
    cases calls with
    | nil => exact absurd h (Nat.not_lt_zero _)
    | cons c calls =>
      unfold walkOf
      cases meets cfg ns c e s with
      | none => exact ih (by simp at h ⊢; omega)
      | some r => exact ih (by simpa using h)

end Calls

def KvSt.asked (s : KvSt) (cfg : KvCfg) (ns key : CString) : KvSt :=
  if s.ioFree = 0 then s else s.counted (.read (recordId cfg ns key))

/-- Each call that comes to a key with a value has room for the key, a free block and a backend that answers,
and the block holds as much of the value as the buffer. A call steps over an entry without a record, unless its
buffer is too short for the key or the get fails with an error of its own: then the next call takes over. -/
def Attended (cfg : KvCfg) (ns : CString) : List (Nat × Nat) → List IndexEntry → KvSt → Prop
  | _, [], _ => True
  | [], _ :: _, _ => True
  | c :: calls, e :: rest, s =>
    if c.1 ≤ e.key.val.length then stored cfg s.flash.cells (ns, e.key) = none ∧ Attended cfg ns calls rest s
    else
      match stored cfg s.flash.cells (ns, e.key) with
      | some value =>
        (refusal cfg s ns e.key = none ∧ REC_HDR_SIZE + ns.val.length + e.key.val.length ≤ cfg.blockSize ∧
          min value.length c.2 ≤ blockRoom cfg ns e.key) ∧ Attended cfg ns calls rest (s.asked cfg ns e.key)
      | none =>
        if (refusal cfg s ns e.key).all (· == .ERR_NOT_FOUND) then
          Attended cfg ns (c :: calls) rest (s.asked cfg ns e.key)
        else Attended cfg ns calls rest (s.asked cfg ns e.key)

instance (cfg : KvCfg) (ns : CString) : ∀ calls entries s, Decidable (Attended cfg ns calls entries s)
  | _, [], _ => isTrue (by unfold Attended; trivial)
  | [], _ :: _, _ => isTrue trivial
  | c :: calls, e :: rest, s =>
    have := instDecidableAttended cfg ns calls rest s
    have := instDecidableAttended cfg ns calls rest (s.asked cfg ns e.key)
    have := instDecidableAttended cfg ns (c :: calls) rest (s.asked cfg ns e.key)
    if hcap : c.1 ≤ e.key.val.length then decidable_of_iff _ (iff_of_eq (if_pos hcap).symm)
    else
      match hstored : stored cfg s.flash.cells (ns, e.key) with
      | some value => decidable_of_iff ((refusal cfg s ns e.key = none ∧
          REC_HDR_SIZE + ns.val.length + e.key.val.length ≤ cfg.blockSize ∧
          min value.length c.2 ≤ blockRoom cfg ns e.key) ∧ Attended cfg ns calls rest (s.asked cfg ns e.key)) (by
            rw [Attended, if_neg hcap, hstored])
      | none => decidable_of_iff (if (refusal cfg s ns e.key).all (· == .ERR_NOT_FOUND) then
          Attended cfg ns (c :: calls) rest (s.asked cfg ns e.key)
        else Attended cfg ns calls rest (s.asked cfg ns e.key)) (by
            rw [Attended, if_neg hcap, hstored])

theorem keysOf_cons_ok (c : Nat × Nat) (item : Item) (reports : List IterReport) :
    keysOf ((c, .ok item) :: reports) = item.1 :: keysOf reports := rfl

section Attended
variable {ns : CString} {cells : Cells}

theorem post_kvGet_asked {key : CString} (hkey : keyValid cfg key = true) (capacity : Nat) (s : KvSt) :
    post (kvGet cfg ns key capacity) s = s.asked cfg ns key := by
  rw [post_kvGet, KvSt.asked]
  by_cases hio : s.ioFree = 0 <;> simp [hio, hkey]

theorem meets_room {c : Nat × Nat} {e : IndexEntry} {s : KvSt} (hkey : keyValid cfg e.key = true)
    (hcap : ¬ c.1 ≤ e.key.val.length) :
    meets cfg ns c e s =
      match refusal cfg s ns e.key, stored cfg s.flash.cells (ns, e.key) with
      | some status, _ => if status = .ERR_NOT_FOUND then none else some (.error status)
      | none, none => none
      | none, some value =>
        if REC_HDR_SIZE + ns.val.length + e.key.val.length ≤ cfg.blockSize then
          some (.ok (e.key, value.take (min c.2 (blockRoom cfg ns e.key)), value.length))
        else none := by
  rw [meets, if_neg hcap, outcome_kvGet_stored hkey]
  cases refusal cfg s ns e.key with
  | some status => cases status <;> rfl
  | none =>
    cases stored cfg s.flash.cells (ns, e.key) with
    | none => rfl
    | some value =>
      dsimp only
      by_cases hfit : REC_HDR_SIZE + ns.val.length + e.key.val.length ≤ cfg.blockSize
      · rw [if_pos hfit, if_pos hfit]
      · rw [if_neg hfit, if_neg hfit]

theorem keysOf_walk (calls : List (Nat × Nat)) (es : List IndexEntry) (s : KvSt) :
    (keysOf (walkOf cfg ns calls es s).1).Sublist (es.map (·.key)) := by
  induction es generalizing calls s with
  | nil => cases calls <;> exact List.Sublist.refl _
  | cons e rest ih =>
    cases calls with
    | nil =>
      rw [walkOf_nil]
      exact List.nil_sublist _
    | cons c calls =>
      cases hmeets : meets cfg ns c e s with
      | none =>
        rw [walkOf_none calls rest hmeets]
        exact (ih _ _).cons _
      | some r =>
        rw [walkOf_some calls rest hmeets]
        cases r with
        | error status => exact (ih _ _).cons _
        | ok item =>
          have hitem : item.1 = e.key := by
            unfold meets at hmeets
            split at hmeets
            · cases hmeets
            · split at hmeets
              · rw [← Except.ok.inj (Option.some.inj hmeets)]
              · cases hmeets
              · cases hmeets
          rw [keysOf_cons_ok, hitem]
          exact (ih _ _).cons_cons _

structure Covers (cfg : KvCfg) (ns : CString) (cells : Cells) (es : List IndexEntry) (reports : List IterReport) : Prop where
  all : ∀ e ∈ es, stored cfg cells (ns, e.key) ≠ none → e.key ∈ keysOf reports
  faithful : ∀ r ∈ reports, Faithful cfg ns cells r

variable {e : IndexEntry} {rest : List IndexEntry} {reports : List IterReport}

theorem covers_passed (hnew : e.key ∉ keysOf reports) :
    Covers cfg ns cells (e :: rest) reports ↔ stored cfg cells (ns, e.key) = none ∧ Covers cfg ns cells rest reports := by
  constructor
  · intro h
    refine ⟨?_, fun e' he' => h.all e' (List.mem_cons_of_mem _ he'), h.faithful⟩
    by_contra hlive
    exact hnew (h.all e List.mem_cons_self hlive)
  · rintro ⟨hstale, h⟩
    refine ⟨fun e' he' hlive => ?_, h.faithful⟩
    rcases List.mem_cons.mp he' with rfl | hmem
    · exact absurd hstale hlive
    · exact h.all e' hmem hlive

theorem covers_error (c : Nat × Nat) (status : Status) :
    Covers cfg ns cells rest ((c, .error status) :: reports) ↔ Covers cfg ns cells rest reports := by
  refine ⟨fun h => ⟨h.all, fun r hr => h.faithful r (List.mem_cons_of_mem _ hr)⟩, fun h => ⟨h.all, fun r hr => ?_⟩⟩
  rcases List.mem_cons.mp hr with rfl | hmem
  · intro key copied outLen hok
    cases hok
  · exact h.faithful r hmem

theorem covers_item {c : Nat × Nat} {item : Item} (hitem : item.1 = e.key) (hrest : ∀ e' ∈ rest, e'.key ≠ e.key) :
    Covers cfg ns cells (e :: rest) ((c, .ok item) :: reports) ↔
      Faithful cfg ns cells (c, .ok item) ∧ Covers cfg ns cells rest reports := by
  constructor
  · intro h
    refine ⟨h.faithful _ List.mem_cons_self, fun e' he' hlive => ?_, fun r hr => h.faithful r (List.mem_cons_of_mem _ hr)⟩
    rcases List.mem_cons.mp (h.all e' (List.mem_cons_of_mem _ he') hlive) with heq | hmem
    · exact absurd (heq.trans hitem) (hrest e' he')
    · exact hmem
  · rintro ⟨hfirst, h⟩
    refine ⟨fun e' he' hlive => ?_, fun r hr => ?_⟩
    · rw [keysOf_cons_ok, hitem]
      rcases List.mem_cons.mp he' with rfl | hmem
      · exact List.mem_cons_self
      · exact List.mem_cons_of_mem _ (h.all e' hmem hlive)
    · rcases List.mem_cons.mp hr with rfl | hmem
      · exact hfirst
      · exact h.faithful r hmem

theorem faithful_item {c : Nat × Nat} {key : CString} {value : Bytes} (hstored : stored cfg cells (ns, key) = some value)
    (hcap : ¬ c.1 ≤ key.val.length) :
    Faithful cfg ns cells (c, .ok (key, value.take (min c.2 (blockRoom cfg ns key)), value.length)) ↔
      min value.length c.2 ≤ blockRoom cfg ns key := by
  rw [← delivers_take_iff value (blockRoom cfg ns key) c.2]
  constructor
  · intro h
    obtain ⟨value', hvalue', -, hall⟩ := h key _ _ rfl
    rw [hstored] at hvalue'
    obtain rfl := Option.some.inj hvalue'
    exact hall
  · intro h key' copied outLen hok
    obtain ⟨rfl, hgot⟩ := Prod.mk.inj (Except.ok.inj hok)
    obtain ⟨rfl, rfl⟩ := Prod.mk.inj hgot
    exact ⟨value, hstored, Nat.lt_of_not_le hcap, h⟩

theorem covers_walk_iff {calls : List (Nat × Nat)} {es : List IndexEntry} {s : KvSt} (hs : s.flash.cells = cells)
    (hvalid : ∀ e ∈ es, keyValid cfg e.key = true) (hkeys : (es.map (·.key)).Nodup)
    (hend : (walkOf cfg ns calls es s).2 = true) :
    Covers cfg ns cells es (walkOf cfg ns calls es s).1 ↔ Attended cfg ns calls es s := by
  induction es generalizing calls s with
  | nil =>
    have hnone : (walkOf cfg ns calls [] s).1 = [] := by cases calls <;> rfl
    rw [hnone, Attended]
    exact ⟨fun _ => trivial, fun _ => ⟨fun e he => absurd he List.not_mem_nil, fun r hr => absurd hr List.not_mem_nil⟩⟩
  | cons e rest ih =>
    cases calls with
    | nil =>
      rw [walkOf_nil] at hend
      cases hend
    | cons c calls =>
      obtain ⟨hnew, hkeys⟩ := List.nodup_cons.mp hkeys
      have hkey := hvalid e List.mem_cons_self
      have hvalid' : ∀ e ∈ rest, keyValid cfg e.key = true := fun e he => hvalid e (List.mem_cons_of_mem _ he)
      have hlater : ∀ (calls : List (Nat × Nat)) (t : KvSt), e.key ∉ keysOf (walkOf cfg ns calls rest t).1 :=
        fun calls t hmem => hnew ((keysOf_walk calls rest t).subset hmem)
      have hpass : passed cfg ns c e s = if c.1 ≤ e.key.val.length then s else s.asked cfg ns e.key := by
        rw [passed, post_kvGet_asked hkey]
      have hcells : (passed cfg ns c e s).flash.cells = cells := (passed_still ns c e s).cells.trans hs
      unfold Attended
      by_cases hcap : c.1 ≤ e.key.val.length
      · -- the buffer is too short
        have hmeets : meets cfg ns c e s = some (.error .ERR_NOMEM) := by rw [meets, if_pos hcap]
        rw [if_pos hcap] at hpass
        rw [walkOf_some calls rest hmeets, hpass] at hend ⊢
        rw [if_pos hcap, covers_error, covers_passed (hlater _ _), ih hs hvalid' hkeys hend, hs]
      · have hmeets := @meets_room cfg ns c e s hkey hcap
        rw [if_neg hcap] at hpass ⊢
        rw [hpass] at hcells
        cases hstored : stored cfg s.flash.cells (ns, e.key) with
        | none =>
          have hstale : stored cfg cells (ns, e.key) = none := hs ▸ hstored
          rw [hstored] at hmeets
          dsimp only
          by_cases hover : (refusal cfg s ns e.key).all (· == .ERR_NOT_FOUND) = true
          · have hnone : meets cfg ns c e s = none := by
              rw [hmeets]
              cases href : refusal cfg s ns e.key with
              | none => rfl
              | some status =>
                rw [href] at hover
                exact if_pos (beq_iff_eq.mp hover)
            rw [walkOf_none calls rest hnone, hpass] at hend ⊢
            rw [if_pos hover, covers_passed (hlater _ _), ih hcells hvalid' hkeys hend]
            exact and_iff_right hstale
          · obtain ⟨status, href, hne⟩ : ∃ status, refusal cfg s ns e.key = some status ∧ status ≠ .ERR_NOT_FOUND := by
              cases href : refusal cfg s ns e.key with
              | none =>
                rw [href] at hover
                exact absurd rfl hover
              | some status =>
                rw [href] at hover
                exact ⟨status, rfl, fun h => hover (beq_iff_eq.mpr h)⟩
            rw [href] at hmeets
            dsimp only at hmeets
            rw [if_neg hne] at hmeets
            rw [walkOf_some calls rest hmeets, hpass] at hend ⊢
            rw [if_neg hover, covers_error, covers_passed (hlater _ _), ih hcells hvalid' hkeys hend]
            exact and_iff_right hstale
        | some value =>
          have hlive : stored cfg cells (ns, e.key) = some value := hs ▸ hstored
          rw [hstored] at hmeets
          dsimp only
          cases href : refusal cfg s ns e.key with
          | some status =>
            rw [href] at hmeets
            dsimp only at hmeets
            have hlost : ¬ Covers cfg ns cells (e :: rest) (walkOf cfg ns (c :: calls) (e :: rest) s).1 := by
              intro h
              by_cases hover : status = .ERR_NOT_FOUND
              · rw [if_pos hover] at hmeets
                rw [walkOf_none calls rest hmeets, covers_passed (hlater _ _), hlive] at h
                cases h.1
              · rw [if_neg hover] at hmeets
                rw [walkOf_some calls rest hmeets, covers_error, covers_passed (hlater _ _), hlive] at h
                cases h.1
            exact ⟨fun h => absurd h hlost, fun h => by cases h.1.1⟩
          | none =>
            rw [href] at hmeets
            dsimp only at hmeets
            by_cases hfit : REC_HDR_SIZE + ns.val.length + e.key.val.length ≤ cfg.blockSize
            · rw [if_pos hfit] at hmeets
              have hdiff : ∀ e' ∈ rest, e'.key ≠ e.key := fun e' he' heq =>
                hnew (List.mem_map.mpr ⟨e', he', heq⟩)
              rw [walkOf_some calls rest hmeets, hpass] at hend ⊢
              rw [covers_item rfl hdiff, faithful_item hlive hcap, ih hcells hvalid' hkeys hend]
              exact and_congr_left fun _ => ⟨fun h => ⟨rfl, hfit, h⟩, fun h => h.2.2⟩
            · rw [if_neg hfit] at hmeets
              have hlost : ¬ Covers cfg ns cells (e :: rest) (walkOf cfg ns (c :: calls) (e :: rest) s).1 := by
                intro h
                rw [walkOf_none calls rest hmeets, covers_passed (hlater _ _), hlive] at h
                cases h.1
              exact ⟨fun h => absurd h hlost, fun h => absurd h.1.2.1 hfit⟩

end Attended

theorem count_keysOf {ns : CString} {cells : Cells} {reports : List IterReport} {es : List IndexEntry}
    (hkeys : (keysOf reports).Nodup) (hall : ∀ key, stored cfg cells (ns, key) ≠ none → key ∈ es.map (·.key)) :
    Thorough cfg ns cells reports ↔ Covers cfg ns cells es reports := by
  constructor
  · intro h
    refine ⟨fun e _ hlive => ?_, h.faithful⟩
    rw [← List.count_pos_iff, h.once e.key hlive]
    exact Nat.one_pos
  · intro h
    refine ⟨fun key hlive => ?_, h.faithful⟩
    obtain ⟨e, he, rfl⟩ := List.mem_map.mp (hall key hlive)
    exact List.count_eq_one_of_mem hkeys (h.all e he hlive)

section Lists
variable {ns : CString} {s : KvSt} {entries : List IndexEntry} (h : Lists cfg ns s entries)
include h

theorem Lists.keys_nodup : ((ahead entries ns 0).map (·.key)).Nodup := by
  have hsub := (List.filter_sublist (p := fun e : IndexEntry => e.namespaceName == ns) (l := entries)).map (·.nsKey)
  apply List.Nodup.of_map (Prod.mk ns)
  rw [List.map_map]
  refine (List.map_congr_left fun e he => ?_) ▸ hsub.nodup h.nodup
  exact Prod.ext (beq_iff_eq.mp (List.mem_filter.mp he).2) rfl

theorem Lists.ahead_covers (key : CString) (hlive : stored cfg s.flash.cells (ns, key) ≠ none) :
    key ∈ (ahead entries ns 0).map (·.key) := by
  obtain ⟨e, he, hnsKey⟩ := List.mem_map.mp (h.covers key hlive)
  exact List.mem_map.mpr ⟨e, List.mem_filter.mpr ⟨he, beq_iff_eq.mpr (congrArg Prod.fst hnsKey)⟩, congrArg Prod.snd hnsKey⟩

theorem Lists.ahead_valid : ∀ e ∈ ahead entries ns 0, keyValid cfg e.key = true := fun e he =>
  h.valid e (List.mem_of_mem_filter he)

end Lists

/-- A walk with calls of any capacities comes to its end, and has then delivered every key that holds a value
exactly where each call that came to one was served. -/
theorem iteration_thorough_iff {ns : CString} {s : KvSt} {entries : List IndexEntry} (hlists : Lists cfg ns s entries)
    {calls : List (Nat × Nat)} (hcaps : ∀ c ∈ calls, c.1 ≠ 0) :
    (entries.length < calls.length → ∃ reports, outcome (kvIterCalls cfg ns calls) s = .ok (reports, true)) ∧
      ∀ reports, outcome (kvIterCalls cfg ns calls) s = .ok (reports, true) →
        (Thorough cfg ns s.flash.cells reports ↔ Attended cfg ns calls (ahead entries ns 0) s) := by
  have hopen : (kvIterOpen cfg).run s = .ok () s := by
    refine run_then (a := true) (t := s) ?_ rfl
    refine run_then (a := s) rfl ?_
    rw [hlists.ctx]
    rfl
  have hwalk : outcome (kvIterCalls cfg ns calls) s = .ok (walkOf cfg ns calls (ahead entries ns 0) s) :=
    (outcome_then hopen).trans (iterCalls_walkOf hlists.valid hcaps hlists.ctx)
  constructor
  · intro hlen
    have hend : (walkOf cfg ns calls (ahead entries ns 0) s).2 = true :=
      walkOf_ends (Nat.lt_of_le_of_lt (List.length_filter_le _ _) hlen)
    exact ⟨_, hwalk.trans (congrArg Except.ok (Prod.ext rfl hend))⟩
  · intro reports hreports
    have heq := Except.ok.inj (hwalk.symm.trans hreports)
    have hend : (walkOf cfg ns calls (ahead entries ns 0) s).2 = true := congrArg Prod.snd heq
    have hfirst : (walkOf cfg ns calls (ahead entries ns 0) s).1 = reports := congrArg Prod.fst heq
    have hkeys : (keysOf reports).Nodup := hfirst ▸ (keysOf_walk calls (ahead entries ns 0) s).nodup hlists.keys_nodup
    rw [count_keysOf hkeys hlists.ahead_covers, ← hfirst]
    exact covers_walk_iff rfl hlists.ahead_valid hlists.keys_nodup hend

/-- "k" in "n" with three bytes, in a store with no other key. -/
def oneKey : KvCfg × KvSt :=
  (⟨48, maxKeyLen_default_le, 128, indexMax_default_le, true, false, 32, []⟩,
    ⟨some [⟨⟨[110], name_n⟩, ⟨[107], name_k⟩, 0⟩], 1, true,
      ⟨fun _ => some (recordBuild ⟨[110], name_n⟩ ⟨[107], name_k⟩ [1, 2, 3]), fun _ _ => none,
        fun _ _ => false, fun _ => 0, []⟩⟩)

theorem oneKey_lists : Lists oneKey.1 ⟨[110], by decide⟩ oneKey.2 [⟨⟨[110], by decide⟩, ⟨[107], by decide⟩, 0⟩] := by
  refine ⟨rfl, by decide, by decide, fun key hlive => ?_⟩
  rw [@stored_recordBuild oneKey.1 oneKey.2.flash.cells ⟨[110], by decide⟩ ⟨[107], by decide⟩ [1, 2, 3] (by decide)
    (by decide) (⟨[110], by decide⟩, key) rfl] at hlive
  by_cases hkey : key = ⟨[107], by decide⟩
  · rw [hkey]
    decide
  · rw [if_neg fun h => hkey (Prod.mk.inj h).2] at hlive
    exact absurd rfl hlive

/-- A key buffer of two bytes and room for one byte of the value, then the end. -/
theorem fitting_call_delivers :
    ∃ reports, outcome (kvIterCalls oneKey.1 ⟨[110], by decide⟩ [(2, 1), (1, 1)]) oneKey.2 = .ok (reports, true) ∧
      Thorough oneKey.1 ⟨[110], by decide⟩ oneKey.2.flash.cells reports :=
  have hall := @iteration_thorough_iff oneKey.1 ⟨[110], by decide⟩ oneKey.2 _ oneKey_lists [(2, 1), (1, 1)] (by decide)
  have ⟨reports, hreports⟩ := hall.1 (by decide)
  ⟨reports, hreports, (hall.2 reports hreports).mpr (by decide)⟩

/-- A key buffer of one byte first: the key is passed over for the rest of the walk. -/
theorem short_call_loses_key :
    outcome (kvIterCalls oneKey.1 ⟨[110], by decide⟩ [(1, 1), (2, 1)]) oneKey.2 = .ok ([((1, 1), .error .ERR_NOMEM)], true) ∧
      stored oneKey.1 oneKey.2.flash.cells (⟨[110], by decide⟩, ⟨[107], by decide⟩) = some [1, 2, 3] ∧
      ¬ Thorough oneKey.1 ⟨[110], by decide⟩ oneKey.2.flash.cells [((1, 1), .error .ERR_NOMEM)] := by
  refine ⟨rfl, by decide, fun h => ?_⟩
  have hcount := h.once ⟨[107], by decide⟩ (by decide)
  cases hcount

end ZephyrDB.Kv
