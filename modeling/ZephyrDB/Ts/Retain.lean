import ZephyrDB.Ts.Store

/-!
What the calls do to the logs of a store: nothing but draining, appending and,
on a restart, losing what is buffered. From this, what is retained: everything
without rollover, and with it a suffix in a bounded window of segments.
-/

set_option autoImplicit false

namespace ZephyrDB.Ts

open Lib

/-- The call starts the instance over. -/
def Op.restarts : Op → Bool
  | .init => true
  | .deinit => true
  | _ => false

def Op.offered : Op → Option (Nat × List Sample)
  | .append h sample => some (h, [sample])
  | .batch h samples => some (h, samples)
  | _ => none

namespace Store

/-- The samples of a stream that a call takes in. -/
def taken (cfg : Cfg) (A : Store) (op : Op) (name : Bytes) : List Sample :=
  match op.offered with
  | some (h, samples) => if A.handles h = some name ∧ (A.append cfg h samples).1 = .OK then samples else []
  | none => []

@[simp] theorem logs_bind (A : Store) (h : Nat) (name : Option Bytes) : (A.bind h name).logs = A.logs := rfl

@[simp] theorem logs_setKey (A : Store) (i : Nat) (key : Option (Bytes × Nat)) : (A.setKey i key).logs = A.logs := rfl

@[simp] theorem logs_setPending (A : Store) (pending : Bool) : (A.setPending pending).logs = A.logs := rfl

@[simp] theorem logs_nudge (cfg : Cfg) (A : Store) (name : Bytes) : (A.nudge cfg name).logs = A.logs := by
  unfold nudge
  split <;> rfl

@[simp] theorem logs_release (A : Store) (name : Bytes) : (A.release name).logs = A.logs := by
  unfold release
  split <;> rfl

@[simp] theorem logs_openStream (cfg : Cfg) (A : Store) (h : Nat) (name : Bytes) :
    (A.openStream cfg h name).2.logs = A.logs := by
  unfold openStream
  split
  · rfl
  · split
    · rfl
    · split <;> rfl

@[simp] theorem logs_flushAsync (A : Store) (h : Nat) : (A.flushAsync h).2.logs = A.logs := by
  unfold flushAsync
  split
  · rfl
  · split <;> rfl

section Keeps
variable {cfg : Cfg} {P : Log → Prop} {name : Bytes}

theorem keeps_drainLog (hdrain : ∀ L, P L → P (Log.drain cfg L)) {A : Store} (h : P (A.logs name)) (n : Bytes) :
    P ((A.drainLog cfg n).logs name) := by
  unfold drainLog setLog
  by_cases hn : name = n
  · subst hn
    simpa using hdrain _ h
  · simpa [Function.update_of_ne hn] using h

theorem keeps_drainSlots (hdrain : ∀ L, P L → P (Log.drain cfg L)) (is : List Nat) {A : Store} (h : P (A.logs name)) :
    P ((A.drainSlots cfg is).logs name) := by
  induction is generalizing A with
  | nil => exact h
  | cons i is ih =>
    refine ih (A := A.drainSlot cfg i) ?_
    unfold drainSlot
    split
    · exact keeps_drainLog hdrain h _
    · exact h

theorem keeps_close (hdrain : ∀ L, P L → P (Log.drain cfg L)) {A : Store} (h : P (A.logs name)) (hd : Nat) :
    P ((A.close cfg hd).logs name) := by
  unfold close
  split
  · exact h
  · rename_i n _
    rw [logs_bind, logs_release]
    unfold closeDrain
    split
    · exact h
    · split
      · exact keeps_drainLog hdrain h n
      · exact h

theorem append_cases (cfg : Cfg) (A : Store) (h : Nat) (samples : List Sample) :
    ((A.append cfg h samples).1 ≠ .OK ∧ (A.append cfg h samples).2 = A) ∨
      ∃ name, A.handles h = some name ∧ (A.append cfg h samples).1 = .OK ∧
        (A.append cfg h samples).2.logs = Function.update A.logs name (samples.foldl (Log.append cfg) (A.logs name)) := by
  unfold append
  cases hh : A.handles h with
  | none => exact .inl ⟨nofun, rfl⟩
  | some name =>
    dsimp only
    split
    · exact .inl ⟨nofun, rfl⟩
    · split
      · exact .inl ⟨nofun, rfl⟩
      · exact .inr ⟨name, rfl, rfl, logs_nudge cfg _ name⟩

/-- A call that does not start the instance over drains the log some number of times, then appends what it takes in. -/
theorem step_log (cfg : Cfg) (A : Store) (op : Op) (hop : op.restarts = false) (name : Bytes) :
    ∃ L : Log, (∀ P : Log → Prop, (∀ L, P L → P (Log.drain cfg L)) → P (A.logs name) → P L) ∧
      (A.step cfg op).2.logs name = (A.taken cfg op name).foldl (Log.append cfg) L := by
  have htake : ∀ (h : Nat) (samples : List Sample), (A.append cfg h samples).2.logs name =
      (if A.handles h = some name ∧ (A.append cfg h samples).1 = .OK then samples else []).foldl (Log.append cfg)
        (A.logs name) := by
    intro h samples
    rcases A.append_cases cfg h samples with ⟨hno, hsame⟩ | ⟨n, hh, hok, hlogs⟩
    · rw [hsame, if_neg fun hyes => hno hyes.2]
      rfl
    · rw [hlogs, hh, hok]
      by_cases hn : n = name
      · subst hn
        simp
      · rw [Function.update_of_ne (Ne.symm hn), if_neg fun hyes => hn (Option.some.inj hyes.1)]
        rfl
  have hstill : A.taken cfg op name = [] → (∀ P : Log → Prop, (∀ L, P L → P (Log.drain cfg L)) → P (A.logs name) →
      P ((A.step cfg op).2.logs name)) → ∃ L : Log, (∀ P : Log → Prop, (∀ L, P L → P (Log.drain cfg L)) →
        P (A.logs name) → P L) ∧ (A.step cfg op).2.logs name = (A.taken cfg op name).foldl (Log.append cfg) L :=
    fun hnil h => ⟨_, h, by rw [hnil]; rfl⟩
  cases op with
  | init => cases hop
  | deinit => cases hop
  | «open» h n => exact hstill rfl fun P _ hP => by rw [step, logs_openStream]; exact hP
  | close h => exact hstill rfl fun P hd hP => keeps_close hd hP h
  | append h sample => exact ⟨A.logs name, fun _ _ hP => hP, htake h [sample]⟩
  | batch h samples => exact ⟨A.logs name, fun _ _ hP => hP, htake h samples⟩
  | flushAsync h => exact hstill rfl fun P _ hP => by rw [step, logs_flushAsync]; exact hP
  | flushSync h =>
    apply hstill rfl
    intro P hd hP
    show P ((A.flushSync cfg h).2.logs name)
    unfold flushSync
    split
    · exact hP
    · split
      · exact hP
      · exact keeps_drainSlots hd _ hP
  | drain =>
    apply hstill rfl
    intro P hd hP
    show P (Store.logs (if A.pending then (A.drainAll cfg).setPending false else A) name)
    split
    · exact keeps_drainSlots hd _ hP
    · exact hP
  | recover h =>
    apply hstill rfl
    intro P _ hP
    rw [step]
    cases A.readable cfg h <;> exact hP
  | count h window =>
    apply hstill rfl
    intro P _ hP
    rw [step]
    cases A.readable cfg h <;> exact hP
  | cursor h window predicate descending n =>
    apply hstill rfl
    intro P _ hP
    rw [step]
    cases A.readable cfg h <;> exact hP

theorem step_keeps (hdrain : ∀ L, P L → P (Log.drain cfg L)) (happend : ∀ L sample, P L → P (Log.append cfg L sample))
    {A : Store} {op : Op} (hop : op.restarts = false) (h : P (A.logs name)) : P ((A.step cfg op).2.logs name) := by
  obtain ⟨L, hL, heq⟩ := step_log cfg A op hop name
  have hfold : ∀ (samples : List Sample) (L : Log), P L → P (samples.foldl (Log.append cfg) L) := by
    intro samples
    induction samples with
    | nil => exact fun _ h => h
    | cons sample samples ih => exact fun L hP => ih _ (happend L sample hP)
  rw [heq]
  exact hfold _ L (hL P hdrain h)

end Keeps

end Store

theorem Log.all_appends (cfg : Cfg) (samples : List Sample) (L : Log) :
    (samples.foldl (Log.append cfg) L).all = L.all ++ samples := by
  induction samples generalizing L with
  | nil => exact (List.append_nil _).symm
  | cons sample samples ih => rw [List.foldl_cons, ih, Log.all_append, List.append_assoc, List.singleton_append]

namespace Store

theorem step_all (cfg : Cfg) (A : Store) {op : Op} (hop : op.restarts = false) (name : Bytes) :
    ((A.step cfg op).2.logs name).all = (A.logs name).all ++ A.taken cfg op name := by
  obtain ⟨L, hL, heq⟩ := step_log cfg A op hop name
  have hall := hL (fun L => L.all = (A.logs name).all) (fun L h => (Log.all_drain cfg L).trans h) rfl
  rw [heq, Log.all_appends, hall]

end Store

namespace Log

section Retained
variable {cfg : Cfg}

theorem lo_drain (hr : cfg.rollover = false) (L : Log) : (drain cfg L).lo = L.lo := by
  unfold drain
  split
  · rfl
  · split
    · rw [startSeg_lo, nextLo, if_neg (by simp [hr])]
      rfl
    · rfl

theorem lo_append (hr : cfg.rollover = false) (L : Log) (sample : Sample) : (append cfg L sample).lo = L.lo := by
  have hroom : (room cfg L).lo = L.lo := by
    unfold room
    split
    · exact lo_drain hr L
    · rfl
  unfold append encoded
  split
  · exact hroom
  · unfold rebase
    rw [SegLog.push_lo, startSeg_lo, nextLo, if_neg (by simp [hr]), lo_drain hr, hroom]

def Windowed (cfg : Cfg) (L : Log) : Prop := L.past.length + 1 - L.lo ≤ cfg.maxSegments

theorem windowed_startSeg (hr : cfg.rollover = true) (L : Log) (baseTsMs : UInt64) : Windowed cfg (startSeg cfg L baseTsMs) := by
  have hmax := cfg.two_le_maxSegments
  unfold Windowed
  rw [startSeg_past, startSeg_lo, nextLo, if_pos hr, List.length_append, List.length_singleton]
  omega

theorem windowed_drain (hr : cfg.rollover = true) {L : Log} (h : Windowed cfg L) : Windowed cfg (drain cfg L) := by
  unfold drain
  split
  · exact h
  · split
    · exact windowed_startSeg hr _ _
    · exact h

theorem windowed_append (hr : cfg.rollover = true) {L : Log} (sample : Sample) (h : Windowed cfg L) :
    Windowed cfg (append cfg L sample) := by
  have hroom : Windowed cfg (room cfg L) := by
    unfold room
    split
    · exact windowed_drain hr h
    · exact h
  unfold append encoded
  split
  · exact hroom
  · exact windowed_startSeg hr (drain cfg (room cfg L)) sample.tsMs

def Fresh (L : Log) : Prop :=
  L.cur.items = [] → L.buf = [] → L.past ≠ [] → ∃ g, L.past.getLast? = some g ∧ g.items ≠ [] ∧ L.lo < L.past.length

theorem fresh_drain (cfg : Cfg) {L : Log} (h : Fresh L) : Fresh (drain cfg L) := by
  unfold drain
  split
  · exact h
  · rename_i hbuf
    have hitems : L.write.cur.items ≠ [] := by simp [hbuf]
    split
    · intro _ _ _
      refine ⟨L.write.cur, by simp, hitems, ?_⟩
      have hle := nextLo_le cfg L.write
      rw [startSeg_lo, startSeg_past, List.length_append, List.length_singleton]
      omega
    · exact fun hnil => absurd hnil hitems

theorem fresh_append {L : Log} (sample : Sample) : Fresh (append cfg L sample) := by
  intro _ hbuf
  apply absurd hbuf
  unfold append encoded
  split
  · simp
  · simp [rebase]

theorem kept_ne_nil {L : Log} (h : Fresh L) (hall : L.all ≠ []) : L.kept ≠ [] := by
  intro hkept
  rw [SegLog.kept, List.append_eq_nil_iff, List.append_eq_nil_iff] at hkept
  obtain ⟨hdrop, hcur, hbuf⟩ := hkept
  by_cases hpast : L.past = []
  · apply hall
    rw [SegLog.all, hpast, hcur, hbuf]
    rfl
  · obtain ⟨g, hlast, hitems, hlo⟩ := h hcur hbuf hpast
    have hmem : g ∈ L.past.drop L.lo := by
      refine List.mem_of_getLast? ?_
      rw [List.getLast?_drop, if_neg (Nat.not_le.mpr hlo)]
      exact hlast
    rw [List.flatMap_eq_nil_iff] at hdrop
    exact hitems (hdrop g hmem)

end Retained

/-- The base that the segments of a stream get from its first sample: the one a new stream's header has, if the
sample fits that, or else the sample's own timestamp. -/
def firstBase (cfg : Cfg) (samples : List Sample) : UInt64 :=
  match samples with
  | [] => 0
  | x :: _ => if (buildFormat cfg 0).fits x then 0 else x.tsMs

/-- That base serves all the samples. -/
def OneBase (cfg : Cfg) (samples : List Sample) : Prop :=
  ∀ x ∈ samples, (buildFormat cfg (firstBase cfg samples)).fits x

instance (cfg : Cfg) (samples : List Sample) : Decidable (OneBase cfg samples) :=
  inferInstanceAs (Decidable (∀ x ∈ samples, (buildFormat cfg (firstBase cfg samples)).fits x))

/-- The segments of a log share a base, and all but the newest and an empty first one are full. -/
structure Filled (cfg : Cfg) (baseTsMs : UInt64) (L : Log) : Prop where
  format : L.cur.format = buildFormat cfg baseTsMs
  full : ∀ k (hk : k < L.past.length), cfg.segmentBytes ≤ L.past[k].items.length * (buildFormat cfg 0).recSize ∨
    k = 0 ∧ L.past[k].items = []
  lo : L.lo ≤ L.past.length + 1 - cfg.maxSegments

/-- Nothing has been appended yet. -/
structure Untouched (cfg : Cfg) (L : Log) : Prop where
  past : L.past = []
  items : L.cur.items = []
  buf : L.buf = []
  format : L.cur.format = buildFormat cfg 0

section Filled
variable {cfg : Cfg} {baseTsMs : UInt64} {L : Log}

theorem Untouched.lo (h : Untouched cfg L) : L.lo = 0 := by
  have hle := L.lo_le
  rw [h.past] at hle
  exact Nat.le_zero.mp hle

theorem Untouched.filled (h : Untouched cfg L) : Filled cfg 0 L := by
  refine ⟨h.format, ?_, ?_⟩
  · intro k hk
    rw [h.past] at hk
    exact absurd hk (Nat.not_lt_zero k)
  · rw [h.lo]
    exact Nat.zero_le _

theorem nextLo_bound (hL : L.lo ≤ L.past.length + 1 - cfg.maxSegments) :
    nextLo cfg L ≤ L.past.length + 2 - cfg.maxSegments := by
  unfold nextLo
  split <;> omega

theorem filled_startSeg (h : Filled cfg baseTsMs L) (hlast : cfg.segmentBytes ≤ L.cur.items.length * L.recSize) :
    Filled cfg baseTsMs (startSeg cfg L baseTsMs) := by
  have hrec : L.recSize = (buildFormat cfg 0).recSize := by
    rw [recSize, h.format]
    exact buildFormat_recSize cfg _ _
  refine ⟨rfl, ?_, ?_⟩
  · intro k hk
    simp only [startSeg_past] at hk ⊢
    rw [List.length_append, List.length_singleton] at hk
    rcases Nat.lt_or_eq_of_le (Nat.le_of_lt_succ hk) with hlt | rfl
    · rw [List.getElem_append_left hlt]
      exact h.full k hlt
    · rw [List.getElem_concat_length rfl]
      exact .inl (hrec ▸ hlast)
  · rw [startSeg_lo, startSeg_past, List.length_append, List.length_singleton]
    exact nextLo_bound h.lo

theorem filled_drain (h : Filled cfg baseTsMs L) : Filled cfg baseTsMs (drain cfg L) := by
  have hwrite : Filled cfg baseTsMs L.write := ⟨h.format, h.full, h.lo⟩
  unfold drain
  split
  · exact h
  · split
    · rename_i hfull
      have hstart := filled_startSeg hwrite hfull.2
      rcases hd : cfg.delta with _ | _
      · rw [startSeg] at hstart ⊢
        rw [show buildFormat cfg L.cur.format.baseTs = buildFormat cfg baseTsMs by simp [buildFormat, hd]]
        exact hstart
      · rw [h.format, show (buildFormat cfg baseTsMs).baseTs = baseTsMs by simp [buildFormat, hd, Format.baseTs]]
        exact hstart
    · exact hwrite

theorem filled_append (h : Filled cfg baseTsMs L) {sample : Sample} (hfit : (buildFormat cfg baseTsMs).fits sample) :
    Filled cfg baseTsMs (append cfg L sample) := by
  have hroom : Filled cfg baseTsMs (room cfg L) := by
    unfold room
    split
    · exact filled_drain h
    · exact h
  have hfits : (room cfg L).cur.format.fits sample := by
    rw [hroom.format]
    exact hfit
  rw [append, encoded, dif_pos hfits]
  exact ⟨hroom.format, hroom.full, hroom.lo⟩

theorem Filled.push (h : Filled cfg baseTsMs L) {sample : Sample} (hfit : L.cur.format.fits sample) :
    Filled cfg baseTsMs (L.push sample hfit) :=
  ⟨h.format, h.full, h.lo⟩

theorem Untouched.drain (h : Untouched cfg L) : Untouched cfg (drain cfg L) := by
  rw [drain_of_nil cfg h.buf]
  exact h

theorem Untouched.room (h : Untouched cfg L) : Untouched cfg (room cfg L) := by
  unfold Log.room
  split
  · exact h.drain
  · exact h

theorem Untouched.startSeg (h : Untouched cfg L) (baseTsMs : UInt64) : Filled cfg baseTsMs (startSeg cfg L baseTsMs) := by
  refine ⟨rfl, ?_, ?_⟩
  · intro k hk
    simp only [startSeg_past, h.past, List.nil_append, List.length_singleton] at hk ⊢
    obtain rfl := Nat.lt_one_iff.mp hk
    exact .inr ⟨rfl, h.items⟩
  · rw [startSeg_lo, startSeg_past, List.length_append, List.length_singleton]
    apply nextLo_bound
    rw [h.lo]
    exact Nat.zero_le _

/-- The first sample, if it does not fit the base of a new stream, starts a segment of its own base. -/
theorem Untouched.append (h : Untouched cfg L) (sample : Sample) :
    Filled cfg (firstBase cfg [sample]) (append cfg L sample) := by
  by_cases hfit : (buildFormat cfg 0).fits sample
  · rw [firstBase, if_pos hfit]
    exact filled_append h.filled hfit
  · have hfits : ¬ (Log.room cfg L).cur.format.fits sample := by
      rw [h.room.format]
      exact hfit
    rw [firstBase, if_neg hfit, Log.append, encoded, dif_neg hfits]
    exact (h.room.drain.startSeg sample.tsMs).push _

theorem Untouched.all (h : Untouched cfg L) : L.all = [] := by
  rw [SegLog.all, h.past, h.items, h.buf]
  rfl

/-- As long as one base serves the samples, the segments are filled on it. -/
def OnBase (cfg : Cfg) (L : Log) : Prop :=
  OneBase cfg L.all → Untouched cfg L ∨ L.all ≠ [] ∧ Filled cfg (firstBase cfg L.all) L

theorem firstBase_append (cfg : Cfg) {xs : List Sample} (h : xs ≠ []) (ys : List Sample) :
    firstBase cfg (xs ++ ys) = firstBase cfg xs := by
  cases xs with
  | nil => exact absurd rfl h
  | cons x xs => rfl

theorem onBase_drain (h : OnBase cfg L) : OnBase cfg (Log.drain cfg L) := by
  intro hone
  rw [all_drain] at hone ⊢
  rcases h hone with hun | ⟨hne, hfilled⟩
  · exact .inl hun.drain
  · exact .inr ⟨hne, filled_drain hfilled⟩

theorem onBase_append (h : OnBase cfg L) (sample : Sample) : OnBase cfg (Log.append cfg L sample) := by
  intro hone
  rw [all_append] at hone ⊢
  refine .inr ⟨by simp, ?_⟩
  by_cases hnil : L.all = []
  · rw [hnil, List.nil_append]
    rcases h (by rw [hnil]; exact fun x hx => by cases hx) with hun | ⟨hne, -⟩
    · exact hun.append sample
    · exact absurd hnil hne
  · rw [firstBase_append cfg hnil]
    have hfits : ∀ x ∈ L.all ++ [sample], (buildFormat cfg (firstBase cfg L.all)).fits x := by
      intro x hx
      have hx := hone x hx
      rwa [firstBase_append cfg hnil] at hx
    rcases h fun x hx => hfits x (List.mem_append_left _ hx) with hun | ⟨-, hfilled⟩
    · exact absurd hun.all hnil
    · exact filled_append hfilled (hfits sample (List.mem_append_right _ (List.mem_singleton_self sample)))

theorem full_bytes {n size : Nat} (gs : List (Seg Format.fits)) (h : ∀ g ∈ gs, n ≤ g.items.length * size) :
    gs.length * n ≤ (gs.flatMap Seg.items).length * size := by
  induction gs with
  | nil => simp
  | cons g gs ih =>
    have hhead := h g List.mem_cons_self
    have htail := ih fun x hx => h x (List.mem_cons_of_mem g hx)
    rw [List.length_cons, List.flatMap_cons, List.length_append, Nat.add_mul, Nat.add_mul, Nat.one_mul]
    omega

theorem filled_kept (h : Filled cfg baseTsMs L) (hgone : L.gone ≠ []) :
    (cfg.maxSegments - 1) * cfg.segmentBytes ≤ L.kept.length * (buildFormat cfg 0).recSize := by
  have hpos : 0 < L.lo := by
    apply Nat.pos_of_ne_zero
    intro hzero
    apply hgone
    rw [SegLog.gone, hzero]
    rfl
  have hlo := h.lo
  have hle := L.lo_le
  have hcount : cfg.maxSegments - 1 ≤ (L.past.drop L.lo).length := by
    rw [List.length_drop]
    omega
  have hfull : ∀ g ∈ L.past.drop L.lo, cfg.segmentBytes ≤ g.items.length * (buildFormat cfg 0).recSize := by
    intro g hg
    obtain ⟨j, hj, rfl⟩ := List.mem_iff_getElem.mp hg
    rw [List.getElem_drop]
    rw [List.length_drop] at hj
    exact (h.full (L.lo + j) (by omega)).resolve_right fun hzero => by omega
  have hsealed := full_bytes (L.past.drop L.lo) hfull
  have hkept : ((L.past.drop L.lo).flatMap Seg.items).length ≤ L.kept.length := by
    rw [SegLog.kept, List.length_append]
    exact Nat.le_add_right _ _
  calc (cfg.maxSegments - 1) * cfg.segmentBytes
      ≤ (L.past.drop L.lo).length * cfg.segmentBytes := Nat.mul_le_mul_right _ hcount
    _ ≤ ((L.past.drop L.lo).flatMap Seg.items).length * (buildFormat cfg 0).recSize := hsealed
    _ ≤ L.kept.length * (buildFormat cfg 0).recSize := Nat.mul_le_mul_right _ hkept

theorem OnBase.floor (h : OnBase cfg L) (hone : OneBase cfg L.all) (hgone : L.gone ≠ []) :
    (cfg.maxSegments - 1) * cfg.segmentBytes ≤ L.kept.length * (buildFormat cfg 0).recSize := by
  rcases h hone with hun | ⟨-, hfilled⟩
  · apply absurd _ hgone
    rw [SegLog.gone, hun.lo]
    rfl
  · exact filled_kept hfilled hgone

/-- Every base serves records of version 1. -/
theorem oneBase_v1 (hd : cfg.delta = false) (samples : List Sample) : OneBase cfg samples := by
  intro x _
  rw [buildFormat, if_neg (by simp [hd])]
  exact Format.fits_v1 x

end Filled

end Log

end ZephyrDB.Ts
