import ZephyrDB.Ts.Answers

/-!
One stream alone in its directory, in a build with auto-recovery on storage
that works: what its cursors yield is what was appended to it, in either
direction; with rollover the oldest segments go first, and whole.
-/

set_option autoImplicit false

namespace ZephyrDB.Ts

open Lib

/-- A run on one stream, from an instance that has just been set up over storage that has no file of it. -/
structure Alone (cfg : Cfg) (name : Bytes) (e : Sys) (ops : List Op) : Prop where
  auto : cfg.autoRecoverOnOpen = true
  admissible : Admissible cfg name
  unwritten : Unwritten cfg (fun n => n = name) e
  opens : ∀ h n, Op.open h n ∈ ops → n = name
  running : ∀ op ∈ ops, op.restarts = false
  bounded : Bounded cfg (App.boot e) ops

/-- The samples that a call hands over on a handle of a stream that is open. -/
def handedOver (a : App) (op : Op) (name : Bytes) : List Sample :=
  match op.handed a with
  | some (n, samples) => if n = name ∧ a.cfgSet = true ∧ (a.slotFind name).isSome = true then samples else []
  | none => []

/-- The samples that a run of calls hands over so, in order. -/
def handedBy (cfg : Cfg) (name : Bytes) : App → List Op → List Sample
  | _, [] => []
  | a, op :: ops => handedOver a op name ++ handedBy cfg name (step cfg a op).2 ops

section Alone
variable {cfg : Cfg} {name : Bytes} {e : Sys} {ops more : List Op}

theorem Alone.orderly (h : Alone cfg name e ops) : Orderly cfg (fun n => n = name) e ops :=
  ⟨h.auto, Family.singleton h.admissible, h.unwritten, h.opens, h.bounded⟩

theorem Alone.before (h : Alone cfg name e (ops ++ more)) : Alone cfg name e ops where
  auto := h.auto
  admissible := h.admissible
  unwritten := h.unwritten
  opens hd n hm := h.opens hd n (List.mem_append_left more hm)
  running op hm := h.running op (List.mem_append_left more hm)
  bounded := (Bounded.split ops h.bounded).1

end Alone

section Handed
variable {cfg : Cfg} {N U : Bytes → Prop} {a : App} {A : Store} {name : Bytes}

theorem append_ok {h : Nat} {samples : List Sample} (hh : A.handles h = some name) :
    (A.append cfg h samples).1 = .OK ↔ samples ≠ [] ∧ A.running = true ∧ (A.find name).isSome = true ∧
      (A.logs name).recSize ≤ cfg.ingestCapacity := by
  unfold Store.append
  rw [hh]
  dsimp only
  by_cases hnil : samples = []
  · simp [hnil]
  by_cases hrun : A.running = true
  · cases hfind : A.find name with
    | none => simp
    | some i =>
      by_cases hroom : cfg.ingestCapacity < (A.logs name).recSize
      · simp [hnil, hrun, hroom]
      · simp [hnil, hrun, hroom, Nat.not_lt.mp hroom]
  · simp [hrun]

/-- A stream that is open takes in all that it is handed, if its records fit the ingest buffer. -/
theorem taken_handed (hW : World cfg N U a A) (hu : Uniform cfg N A)
    (hroom : (buildFormat cfg 0).recSize ≤ cfg.ingestCapacity) (op : Op) : A.taken cfg op name = handedOver a op name := by
  have hoffer : ∀ (h : Nat) (samples : List Sample),
      (if A.handles h = some name ∧ (A.append cfg h samples).1 = .OK then samples else []) =
        match (a.handles h).map fun n => (n, samples) with
        | some (n, samples) => if n = name ∧ a.cfgSet = true ∧ (a.slotFind name).isSome = true then samples else []
        | none => [] := by
    intro h samples
    rw [hW.handles]
    cases hh : A.handles h with
    | none => simp
    | some n =>
      by_cases hn : n = name
      · subst hn
        have hrec := hu n (hW.bound h n (by rw [hW.handles, hh]))
        by_cases hnil : samples = []
        · simp [hnil]
        · refine if_congr ?_ rfl rfl
          rw [append_ok hh, hrec, ← hW.running, hW.find_eq]
          simp [hnil, hroom]
      · simp [hn]
  cases op with
  | append h sample => exact hoffer h [sample]
  | batch h samples => exact hoffer h samples
  | init => rfl
  | deinit => rfl
  | «open» h n => rfl
  | close h => rfl
  | flushAsync h => rfl
  | flushSync h => rfl
  | drain => rfl
  | recover h => rfl
  | count h window => rfl
  | cursor h window predicate descending n => rfl

theorem accepted_handed (hauto : cfg.autoRecoverOnOpen = true) (hF : Family cfg N)
    (hroom : (buildFormat cfg 0).recSize ≤ cfg.ingestCapacity) (ops : List Op) (hW : World cfg N Unknown a A)
    (hu : Uniform cfg N A) (hopen : OpensOnly N ops) (hb : Bounded cfg a ops) :
    acceptedBy cfg name a ops = handedBy cfg name a ops := by
  induction ops generalizing a A with
  | nil => rfl
  | cons op ops ih =>
    have hp := permitted_uniform hauto hW hu op fun h n hop => hopen h n (hop ▸ List.mem_cons_self)
    obtain ⟨-, hW'⟩ := step_refines hF hW op hp hb.1
    have hrest := ih hW' (hu.step op) (fun h n hm => hopen h n (List.mem_cons_of_mem op hm)) hb.2
    rw [acceptedBy, handedBy, accepted_taken hF hW hp hb.1, taken_handed hW hu hroom, hrest]

end Handed

namespace Log

/-- One log after another: segments are only added behind and given up in front, and each keeps its format and
what it holds. -/
structure Grows (L M : Log) : Prop where
  lo : L.lo ≤ M.lo
  past : L.past.length ≤ M.past.length
  format : ∀ k ≤ L.past.length, (M.seg k).format = (L.seg k).format
  items : ∀ k ≤ L.past.length, ∃ added, (M.seg k).items = (L.seg k).items ++ added

theorem Grows.refl (L : Log) : Grows L L :=
  ⟨Nat.le_refl _, Nat.le_refl _, fun _ _ => rfl, fun _ _ => ⟨[], (List.append_nil _).symm⟩⟩

theorem Grows.trans {L M N : Log} (h : Grows L M) (k : Grows M N) : Grows L N := by
  refine ⟨h.lo.trans k.lo, h.past.trans k.past, ?_, ?_⟩
  · intro j hj
    rw [k.format j (hj.trans h.past), h.format j hj]
  · intro j hj
    obtain ⟨added, hM⟩ := h.items j hj
    obtain ⟨more, hN⟩ := k.items j (hj.trans h.past)
    exact ⟨added ++ more, by rw [hN, hM, List.append_assoc]⟩

theorem grows_write (L : Log) : Grows L L.write := by
  have hseg : ∀ k ≤ L.past.length, (L.write.seg k).format = (L.seg k).format ∧
      ∃ added, (L.write.seg k).items = (L.seg k).items ++ added := by
    intro k hk
    rcases Nat.lt_or_eq_of_le hk with hk | rfl
    · rw [L.seg_write_past hk]
      exact ⟨rfl, [], (List.append_nil _).symm⟩
    · have hcur : L.write.seg L.past.length = L.write.cur := SegLog.seg_cur L.write
      rw [hcur, L.seg_cur]
      exact ⟨rfl, L.buf, rfl⟩
  exact ⟨Nat.le_refl _, Nat.le_refl _, fun k hk => (hseg k hk).1, fun k hk => (hseg k hk).2⟩

theorem grows_startSeg (cfg : Cfg) (L : Log) (baseTsMs : UInt64) : Grows L (startSeg cfg L baseTsMs) := by
  refine ⟨?_, ?_, ?_, ?_⟩
  · rw [startSeg_lo, nextLo]
    split
    · exact Nat.le_max_left _ _
    · exact Nat.le_refl _
  · rw [startSeg_past, List.length_append]
    exact Nat.le_add_right _ _
  · intro k hk
    rw [startSeg, L.seg_start _ _ _ hk]
  · intro k hk
    rw [startSeg, L.seg_start _ _ _ hk]
    exact ⟨[], (List.append_nil _).symm⟩

theorem grows_push (L : Log) (sample : Sample) (hfit : L.cur.format.fits sample) : Grows L (L.push sample hfit) :=
  ⟨Nat.le_refl _, Nat.le_refl _, fun _ _ => rfl, fun _ _ => ⟨[], (List.append_nil _).symm⟩⟩

theorem grows_drain (cfg : Cfg) (L : Log) : Grows L (drain cfg L) := by
  unfold drain
  split
  · exact Grows.refl L
  · split
    · exact (grows_write L).trans (grows_startSeg cfg L.write _)
    · exact grows_write L

theorem grows_append (cfg : Cfg) (L : Log) (sample : Sample) : Grows L (append cfg L sample) := by
  have hroom : Grows L (room cfg L) := by
    unfold room
    split
    · exact grows_drain cfg L
    · exact Grows.refl L
  apply hroom.trans
  unfold append encoded
  split
  · exact grows_push _ sample _
  · exact (grows_drain cfg _).trans ((grows_startSeg cfg _ _).trans (grows_push _ sample _))

end Log

theorem segBytes_grows {L M : Log} (h : Log.Grows L M) (name : Bytes) {k : Nat} (hk : k ≤ L.past.length) :
    ∃ added, segBytes name (M.seg k) = segBytes name (L.seg k) ++ added := by
  obtain ⟨added, hitems⟩ := h.items k hk
  refine ⟨(L.seg k).format.records added, ?_⟩
  rw [segBytes, segBytes, h.format k hk, hitems, Format.records_append, List.append_assoc]

/-- What the files and the buffer of an open stream hold, as they are decoded: the oldest file first, the buffer
last. -/
def heldItems (cfg : Cfg) (a : App) (name : Bytes) (i : Nat) : List RecItem :=
  if cfg.segmented then streamItems cfg a name false (a.slotAt i).oldestSeg (a.slotAt i).curSeg
  else streamItems cfg a name false 0 0

/-- A stream is opened, handed samples that start segments and fill them, drained, closed, opened again and
appended to. -/
def changing : List Op := [.open 0 [65], .append 0 ⟨4294967296, 1⟩, .append 0 ⟨5, 2⟩, .batch 0 manySamples, .flushAsync 0,
  .drain, .close 0]

def reopened : List Op := [.open 0 [65], .append 0 ⟨4294967296, 3⟩]

theorem alone_blank {rollover delta : Bool} {ops : List Op} (hopens : ∀ h n, Op.open h n ∈ ops → n = [65])
    (hrunning : ∀ op ∈ ops, op.restarts = false)
    (hlow : keepsLow (Cfg.small rollover delta true 64) App.virgin ops = true) :
    Alone (Cfg.small rollover delta true 64) [65] (Sys.blank fun _ => false) ops :=
  ⟨rfl, (family_small rollover delta true).admissible [65] rfl, unwritten_blank _ _, hopens, hrunning,
    bounded_of_keepsLow ops hlow⟩

theorem alone_changing (rollover : Bool) :
    Alone (Cfg.small rollover true true 64) [65] (Sys.blank fun _ => false) (changing ++ reopened) := by
  apply alone_blank
  · intro h n hm
    simp only [changing, reopened, List.cons_append, List.nil_append, List.mem_cons, Op.open.injEq, reduceCtorEq,
      List.not_mem_nil, or_false, false_or] at hm
    exact hm.elim And.right And.right
  · decide
  · revert rollover
    decide +kernel

theorem open_changing (rollover : Bool) : OpenFor (Cfg.small rollover true true 64)
    (run (Cfg.small rollover true true 64) App.virgin (changing ++ reopened)) 0 [65] := by
  refine ⟨?_, ?_, fun _ => ?_⟩ <;> revert rollover <;> decide +kernel

section Contract
variable {cfg : Cfg} {name : Bytes} {e : Sys} {ops : List Op}

/-- Every sample that an open stream is handed is accepted. -/
theorem Alone.accepted (h : Alone cfg name e ops) (hroom : (buildFormat cfg 0).recSize ≤ cfg.ingestCapacity) :
    acceptedBy cfg name (App.boot e) ops = handedBy cfg name (App.boot e) ops :=
  accepted_handed h.auto h.orderly.family hroom ops (World.boot h.unwritten) (Uniform.fresh cfg _) h.opens h.bounded

theorem Alone.suffix (h : Alone cfg name e ops) {hd : Nat} (ho : OpenFor cfg (run cfg (App.boot e) ops) hd name) :
    ∃ L : Log, acceptedBy cfg name (App.boot e) ops = L.gone ++ (Log.records L).map Prod.snd ∧
      L = ((Store.fresh cfg).run cfg ops).logs name ∧ Answers cfg (run cfg (App.boot e) ops) hd (Log.records L) := by
  refine ⟨_, ?_, rfl, answers_records h.orderly.family h.orderly.world ho⟩
  rw [← h.orderly.all h.running, Log.records_samples, SegLog.gone_append_kept]

theorem walk_all {a : App} {hd : Nat} {records : List (Bytes × Sample)} (h : Answers cfg a hd records) (n : Nat) :
    (step cfg a (.cursor hd Window.all none false n)).1 = ⟨.OK, .walk (walkOf records n)⟩ := by
  have hadmits : ∀ r ∈ records, admits Window.all none r = true := by
    intro r _
    simp [admits, windowMatch_of_unbounded (show windowIsUnbounded Window.all = true by decide)]
  rw [h, selected, List.filter_eq_self.mpr hadmits]
  rfl

/-- Without rollover a walk over the whole stream yields all that was handed to it, in order and each sample
once, and then finds nothing more. -/
theorem walk_yields_handed (hroll : cfg.rollover = false) (hroom : (buildFormat cfg 0).recSize ≤ cfg.ingestCapacity)
    (h : Alone cfg name e ops) {hd : Nat} (ho : OpenFor cfg (run cfg (App.boot e) ops) hd name) :
    ∃ records, records.map Prod.snd = handedBy cfg name (App.boot e) ops ∧
      ∀ n, (step cfg (run cfg (App.boot e) ops) (.cursor hd Window.all none false n)).1 =
        ⟨.OK, .walk (walkOf records n)⟩ := by
  obtain ⟨L, hall, hL, hans⟩ := h.suffix ho
  have hlo : L.lo = 0 := by
    rw [hL]
    exact Store.run_keeps (fun L => L.lo = 0) name (fun L hL => (Log.lo_drain hroll L).trans hL)
      (fun L sample hL => (Log.lo_append hroll L sample).trans hL) ops h.running (A := Store.fresh cfg) rfl
  refine ⟨Log.records L, ?_, walk_all hans⟩
  rw [← h.accepted hroom, hall, SegLog.gone, hlo]
  rfl

theorem changing_is_yielded : ((run (Cfg.small false true true 64) App.virgin (changing ++ reopened)).slotAt 0).curSeg = 5 ∧
    ∃ records, records.map Prod.snd = handedBy (Cfg.small false true true 64) [65] App.virgin (changing ++ reopened) ∧
      ∀ n, (step (Cfg.small false true true 64) (run (Cfg.small false true true 64) App.virgin (changing ++ reopened))
        (.cursor 0 Window.all none false n)).1 = ⟨.OK, .walk (walkOf records n)⟩ :=
  ⟨by decide +kernel, walk_yields_handed rfl (by decide) (alone_changing false) (open_changing false)⟩

theorem Alone.items (h : Alone cfg name e ops) {i : Nat} (hi : (run cfg (App.boot e) ops).slotFind name = some i) :
    heldItems cfg (run cfg (App.boot e) ops) name i =
      (Log.records (((Store.fresh cfg).run cfg ops).logs name)).map foundItem := by
  have hW := h.orderly.world
  have hrep := hW.rep_find hi
  unfold heldItems
  cases hs : cfg.segmented with
  | true =>
    have hscan := (hW.informed hs i (slotFind_some hi).1).resolve_right id
    cases hrep.known with
    | learned hl hf =>
      have hlearned := hl hs
      have hready : Ready cfg name _ ⟨(run cfg (App.boot e) ops).slotAt i, (run cfg (App.boot e) ops).env⟩ :=
        ⟨hrep.clean, hrep.named, hrep.bound, hrep.buffered, hl, hf⟩
      rw [if_pos rfl, hlearned.oldestSeg, hlearned.curSeg]
      exact streamItems_log hf (streamBuf_open hi hrep.buffered hready.speaks false)
    | unlearned _ hu =>
      have hun : ((run cfg (App.boot e) ops).slotAt i).segsScanned = false := hu.scanned
      rw [hscan] at hun
      cases hun
  | false =>
    cases hrep.known with
    | learned hl hf =>
      have hready : Ready cfg name _ ⟨(run cfg (App.boot e) ops).slotAt i, (run cfg (App.boot e) ops).env⟩ :=
        ⟨hrep.clean, hrep.named, hrep.bound, hrep.buffered, hl, hf⟩
      have hitems := streamItems_log hf (streamBuf_open hi hrep.buffered hready.speaks false)
      have hpast := (hf.single hs).1
      have hlo := (((Store.fresh cfg).run cfg ops).logs name).lo_le
      rw [hpast, List.length_nil, Nat.le_zero] at hlo
      rw [hpast, hlo] at hitems
      rw [if_neg Bool.false_ne_true]
      exact hitems
    | unlearned hseg _ =>
      rw [hs] at hseg
      cases hseg

/-- A cursor yields those of the samples on storage and in the buffer that it asks for, in the order in which
they were appended, or in the reverse of it. -/
theorem directions_agree (h : Alone cfg name e ops) {hd i : Nat} (ho : OpenFor cfg (run cfg (App.boot e) ops) hd name)
    (hi : (run cfg (App.boot e) ops).slotFind name = some i) :
    ∃ (gone : List Sample) (records : List (Bytes × Sample)), heldItems cfg (run cfg (App.boot e) ops) name i = records.map foundItem ∧
      acceptedBy cfg name (App.boot e) ops = gone ++ records.map Prod.snd ∧
      ∀ window predicate n,
        (step cfg (run cfg (App.boot e) ops) (.cursor hd window predicate false n)).1 =
            ⟨.OK, .walk (walkOf (records.filter (admits window predicate)) n)⟩ ∧
          (step cfg (run cfg (App.boot e) ops) (.cursor hd window predicate true n)).1 =
            ⟨.OK, .walk (walkOf (records.filter (admits window predicate)).reverse n)⟩ := by
  obtain ⟨L, hall, hL, hans⟩ := h.suffix ho
  refine ⟨L.gone, Log.records L, ?_, hall, ?_⟩
  · rw [hL]
    exact h.items hi
  · intro window predicate n
    exact ⟨hans window predicate false n, hans window predicate true n⟩

theorem changing_both_ways : ∃ (gone : List Sample) (records : List (Bytes × Sample)),
    heldItems (Cfg.small true true true 64) (run (Cfg.small true true true 64) App.virgin (changing ++ reopened)) [65] 0 =
        records.map foundItem ∧
      acceptedBy (Cfg.small true true true 64) [65] App.virgin (changing ++ reopened) = gone ++ records.map Prod.snd ∧
      ∀ window predicate n,
        (step (Cfg.small true true true 64) (run (Cfg.small true true true 64) App.virgin (changing ++ reopened))
            (.cursor 0 window predicate false n)).1 =
            ⟨.OK, .walk (walkOf (records.filter (admits window predicate)) n)⟩ ∧
          (step (Cfg.small true true true 64) (run (Cfg.small true true true 64) App.virgin (changing ++ reopened))
            (.cursor 0 window predicate true n)).1 =
            ⟨.OK, .walk (walkOf (records.filter (admits window predicate)).reverse n)⟩ :=
  directions_agree (alone_changing true) (open_changing true) (by decide +kernel)

theorem run_grows (before : List Op) {after : List Op} (hops : ∀ op ∈ after, op.restarts = false) :
    Log.Grows (((Store.fresh cfg).run cfg before).logs name)
      (((Store.fresh cfg).run cfg (before ++ after)).logs name) := by
  have hrun : (Store.fresh cfg).run cfg (before ++ after) = ((Store.fresh cfg).run cfg before).run cfg after :=
    List.foldl_append
  rw [hrun]
  exact Store.run_keeps (fun L => Log.Grows (((Store.fresh cfg).run cfg before).logs name) L) name
    (fun M h => h.trans (Log.grows_drain cfg M)) (fun M sample h => h.trans (Log.grows_append cfg M sample)) after hops
    (Log.Grows.refl _)

/-- What rollover leaves of a stream after a run: `before` and `after` are two parts of it. -/
structure KeepsNewest (cfg : Cfg) (name : Bytes) (e : Sys) (before after : List Op) : Prop where
  few : ∃ lo hi, hi + 1 - lo ≤ cfg.maxSegments ∧ ∀ p v, ((run cfg (App.boot e) (before ++ after)).env.look p).isSome = true →
    Scans cfg name p v → ∃ k, lo ≤ k ∧ k ≤ hi ∧ p = segmentPath cfg name k
  suffix : ∀ hd, OpenFor cfg (run cfg (App.boot e) (before ++ after)) hd name →
    ∃ (gone : List Sample) (records : List (Bytes × Sample)),
      acceptedBy cfg name (App.boot e) (before ++ after) = gone ++ records.map Prod.snd ∧
      (acceptedBy cfg name (App.boot e) (before ++ after) ≠ [] → records ≠ []) ∧
      ∀ n, (step cfg (run cfg (App.boot e) (before ++ after)) (.cursor hd Window.all none false n)).1 =
        ⟨.OK, .walk (walkOf records n)⟩
  oldest : ((run cfg (App.boot e) before).slotFind name).isSome = true →
    ((run cfg (App.boot e) (before ++ after)).slotFind name).isSome = true →
    ∃ lo hi lo' hi', SegmentsAre cfg name (run cfg (App.boot e) before).env.look lo hi ∧
      SegmentsAre cfg name (run cfg (App.boot e) (before ++ after)).env.look lo' hi' ∧ lo ≤ lo' ∧ hi ≤ hi' ∧
      ∀ k, lo' ≤ k → k ≤ hi → ∃ added, (run cfg (App.boot e) (before ++ after)).env.contents (segmentPath cfg name k) =
        (run cfg (App.boot e) before).env.contents (segmentPath cfg name k) ++ added

theorem Alone.files (h : Alone cfg name e ops) (hs : cfg.segmented = true)
    (ho : ((run cfg (App.boot e) ops).slotFind name).isSome = true) :
    SegFiles cfg name (((Store.fresh cfg).run cfg ops).logs name) (run cfg (App.boot e) ops).env.look := by
  obtain ⟨i, hi⟩ := Option.isSome_iff_exists.mp ho
  exact files_open h.orderly.world hs hi

theorem Alone.few (h : Alone cfg name e ops) (hroll : cfg.rollover = true) :
    ∃ lo hi, hi + 1 - lo ≤ cfg.maxSegments ∧ ∀ p v, ((run cfg (App.boot e) ops).env.look p).isSome = true →
      Scans cfg name p v → ∃ k, lo ≤ k ∧ k ≤ hi ∧ p = segmentPath cfg name k := by
  have hs := cfg.segmented_of_rollover hroll
  refine ⟨_, _, Store.windowed_fresh h.running hroll name, ?_⟩
  intro p v hp hv
  cases hf : (run cfg (App.boot e) ops).slotFind name with
  | some i => exact (files_open h.orderly.world hs hf).window hs p v hp hv
  | none =>
    cases (h.orderly.world.stored name rfl hf).1 with
    | files hfiles => exact hfiles.window hs p v hp hv
    | absent _ _ _ _ hscan => exact absurd hv (hscan hs p v hp)
    | legacy _ _ _ _ hscan => exact absurd hv (hscan p v hp)

/-- With rollover a stream keeps what it was handed last. -/
theorem rollover_keeps_newest {before after : List Op} (hroll : cfg.rollover = true)
    (h : Alone cfg name e (before ++ after)) : KeepsNewest cfg name e before after := by
  have hs := cfg.segmented_of_rollover hroll
  have hslash := h.admissible.no_slash
  refine ⟨h.few hroll, ?_, ?_⟩
  · intro hd ho
    obtain ⟨L, hall, hL, hans⟩ := h.suffix ho
    refine ⟨L.gone, Log.records L, hall, ?_, walk_all hans⟩
    intro hne hnil
    rw [hall, Log.records_samples, SegLog.gone_append_kept, hL] at hne
    apply Store.kept_fresh h.running name hne
    rw [← hL]
    rw [← Log.records_samples, hnil]
    rfl
  · intro hwas hnow
    have hfiles := h.before.files hs hwas
    have hfiles' := h.files hs hnow
    have hgrows : Log.Grows (((Store.fresh cfg).run cfg before).logs name) _ :=
      run_grows before fun op hm => h.running op (List.mem_append_right before hm)
    refine ⟨_, _, _, _, hfiles.segmentsAre hs hslash, hfiles'.segmentsAre hs hslash, hgrows.lo, hgrows.past, ?_⟩
    intro k hlo hhi
    obtain ⟨added, hbytes⟩ := segBytes_grows hgrows name hhi
    refine ⟨added, ?_⟩
    rw [← segFile_of_segmented hs, Env.contents_eq, Env.contents_eq, hfiles.file k (hgrows.lo.trans hlo) hhi,
      hfiles'.file k hlo (hhi.trans hgrows.past), Option.getD_some, Option.getD_some, hbytes]

theorem changing_keeps_newest : ((run (Cfg.small true true true 64) App.virgin (changing ++ reopened)).slotAt 0).oldestSeg = 4 ∧
    KeepsNewest (Cfg.small true true true 64) [65] (Sys.blank fun _ => false) changing reopened :=
  ⟨by decide +kernel, rollover_keeps_newest rfl (alone_changing true)⟩

end Contract

end ZephyrDB.Ts
