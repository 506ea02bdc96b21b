import ZephyrDB.Ts.Refine

/-!
What an application can rely on over whole runs of calls, of any number of
streams: each reply is the store's, a walk yields what was appended, and
rollover gives up the oldest segments only.
-/

set_option autoImplicit false

namespace ZephyrDB.Ts

open Lib

namespace Store

section Run
variable {cfg : Cfg}

theorem run_keeps (P : Log → Prop) (name : Bytes) (hdrain : ∀ L, P L → P (Log.drain cfg L)) (happend : ∀ L sample, P L → P (Log.append cfg L sample))
    (ops : List Op) (hops : ∀ op ∈ ops, op.restarts = false) {A : Store} (h : P (A.logs name)) :
    P ((A.run cfg ops).logs name) := by
  induction ops generalizing A with
  | nil => exact h
  | cons op ops ih =>
    exact ih (fun o ho => hops o (List.mem_cons_of_mem op ho))
      (step_keeps hdrain happend (hops op List.mem_cons_self) h)

variable {ops : List Op} (hops : ∀ op ∈ ops, op.restarts = false)
include hops

theorem windowed_fresh (hroll : cfg.rollover = true) (name : Bytes) :
    Log.Windowed cfg (((fresh cfg).run cfg ops).logs name) :=
  run_keeps (Log.Windowed cfg) name (fun _ hL => Log.windowed_drain hroll hL)
    (fun _ sample hL => Log.windowed_append hroll sample hL) ops hops
    (show (1 : Nat) ≤ cfg.maxSegments from Nat.le_of_succ_le cfg.two_le_maxSegments)

theorem kept_fresh (name : Bytes) (hall : (((fresh cfg).run cfg ops).logs name).all ≠ []) :
    (((fresh cfg).run cfg ops).logs name).kept ≠ [] :=
  Log.kept_ne_nil (run_keeps Log.Fresh name (fun _ hL => Log.fresh_drain cfg hL)
    (fun L sample _ => Log.fresh_append (L := L) sample) ops hops (fun _ _ hno => absurd rfl hno)) hall

theorem onBase_fresh (name : Bytes) : Log.OnBase cfg (((fresh cfg).run cfg ops).logs name) :=
  run_keeps (Log.OnBase cfg) name (fun _ hL => Log.onBase_drain hL) (fun _ sample hL => Log.onBase_append hL sample) ops
    hops (fun _ => .inl ⟨rfl, rfl, rfl, rfl⟩)

end Run

end Store

section Accepted
variable {cfg : Cfg} {N U : Bytes → Prop} {a : App} {A : Store}

theorem accepted_taken (hF : Family cfg N) (hW : World cfg N U a A) {op : Op} (hp : Permitted cfg N U a A op)
    (hb : StaysBelow cfg a op) (name : Bytes) : accepted cfg a op name = A.taken cfg op name := by
  have hreply := (step_refines hF hW op hp hb).1
  unfold accepted
  rw [hreply]
  cases op with
  | append h sample =>
    rw [Op.handed, hW.handles]
    show _ = if A.handles h = some name ∧ (A.append cfg h [sample]).1 = .OK then [sample] else []
    cases A.handles h with
    | none => simp
    | some n =>
      simp only [Store.step, Option.map_some, Option.some.injEq]
      exact if_congr Iff.rfl rfl rfl
  | batch h samples =>
    rw [Op.handed, hW.handles]
    show _ = if A.handles h = some name ∧ (A.append cfg h samples).1 = .OK then samples else []
    cases A.handles h with
    | none => simp
    | some n =>
      simp only [Store.step, Option.map_some, Option.some.injEq]
      exact if_congr Iff.rfl rfl rfl
  | init => rfl
  | deinit => rfl
  | «open» h n => rfl
  | close h => rfl
  | flushAsync h => rfl
  | flushSync h => rfl
  | drain => rfl
  | recover h => rfl
  | count h window => rfl
  | cursor h window predicate descending n => rfl

theorem run_all (hF : Family cfg N) (name : Bytes) (ops : List Op) (hops : ∀ op ∈ ops, op.restarts = false)
    (hW : World cfg N U a A) (hr : Regular cfg N U a A ops) :
    ((A.run cfg ops).logs name).all = (A.logs name).all ++ acceptedBy cfg name a ops := by
  induction ops generalizing a A with
  | nil => exact (List.append_nil _).symm
  | cons op ops ih =>
    obtain ⟨hp, hb, hrest⟩ := hr
    obtain ⟨-, hW'⟩ := step_refines hF hW op hp hb
    have hgo := ih (fun o ho => hops o (List.mem_cons_of_mem op ho)) hW' hrest
    rw [Store.step_all cfg A (hops op List.mem_cons_self), ← accepted_taken hF hW hp hb, List.append_assoc] at hgo
    exact hgo

end Accepted

def selected (window : Window) (predicate : Option (Bytes → Bool)) (descending : Bool)
    (records : List (Bytes × Sample)) : List (Bytes × Sample) :=
  along descending (records.filter (admits window predicate))

/-- Every walk on the handle, whatever it asks for, reports the records it selects of these. -/
def Answers (cfg : Cfg) (a : App) (h : Nat) (records : List (Bytes × Sample)) : Prop :=
  ∀ window predicate descending n, (step cfg a (.cursor h window predicate descending n)).1 =
    ⟨.OK, .walk (walkOf (selected window predicate descending records) n)⟩

section Reads
variable {cfg : Cfg} {N U : Bytes → Prop} {a : App} {A : Store} {h : Nat} {name : Bytes}

/-- The stream of a handle can be read: the instance is up, and a segmented stream is open. -/
def OpenFor (cfg : Cfg) (a : App) (h : Nat) (name : Bytes) : Prop :=
  a.handles h = some name ∧ a.cfgSet = true ∧ (cfg.segmented = true → (a.slotFind name).isSome)

theorem readable_open (hW : World cfg N U a A) (ho : OpenFor cfg a h name) : A.readable cfg h = some name := by
  obtain ⟨hh, hup, hslot⟩ := ho
  unfold Store.readable
  rw [← hW.handles, hh, ← hW.running, hup]
  dsimp only
  rw [hW.find_eq]
  cases hs : cfg.segmented with
  | false => rfl
  | true => simp [hslot hs]

theorem answers_records (hF : Family cfg N) (hW : World cfg N U a A) (ho : OpenFor cfg a h name) :
    Answers cfg a h (Log.records (A.logs name)) := by
  intro window predicate descending n
  rw [(cursor_spec hF hW h window predicate descending n).1, Store.step, readable_open hW ho]
  rfl

theorem files_open (hW : World cfg N Unknown a A) (hs : cfg.segmented = true) {i : Nat}
    (hi : a.slotFind name = some i) : SegFiles cfg name (A.logs name) a.env.look := by
  have hscan := (hW.informed hs i (slotFind_some hi).1).resolve_right id
  cases (hW.rep_find hi).known with
  | learned _ hf => exact hf
  | unlearned _ hu =>
    rw [hu.scanned] at hscan
    cases hscan

/-- The segment files of a stream that are on storage. -/
def SegmentsAre (cfg : Cfg) (name : Bytes) (look : Path → Option Bytes) (lo hi : Nat) : Prop :=
  ∀ p, ((look p).isSome = true ∧ ∃ v, Scans cfg name p v) ↔ ∃ k, lo ≤ k ∧ k ≤ hi ∧ p = segmentPath cfg name k

theorem SegFiles.segmentsAre {L : Log} {look : Path → Option Bytes} (h : SegFiles cfg name L look)
    (hs : cfg.segmented = true) (hslash : (47 : UInt8) ∉ name) : SegmentsAre cfg name look L.lo L.past.length := by
  intro p
  constructor
  · rintro ⟨hp, v, hv⟩
    exact h.window hs p v hp hv
  · rintro ⟨k, hlo, hhi, rfl⟩
    obtain ⟨v, hv, -⟩ := @scans_segmentPath cfg name hslash k
    refine ⟨?_, v, hv⟩
    rw [← segFile_of_segmented hs, h.file k hlo hhi]
    rfl

end Reads

/-- A run on an instance that has just been set up over storage that holds nothing of its streams: one record
version, auto-recovery on, no restart, and no stream at a segment number of five digits. -/
structure Orderly (cfg : Cfg) (N : Bytes → Prop) (e : Sys) (ops : List Op) : Prop where
  auto : cfg.autoRecoverOnOpen = true
  family : Family cfg N
  unwritten : Unwritten cfg N e
  opens : OpensOnly N ops
  bounded : Bounded cfg (App.boot e) ops

section Runs
variable {cfg : Cfg} {N : Bytes → Prop} {e : Sys} {ops : List Op}

theorem Orderly.world (h : Orderly cfg N e ops) :
    World cfg N Unknown (run cfg (App.boot e) ops) ((Store.fresh cfg).run cfg ops) :=
  (uniform_refines h.auto h.family ops (World.boot h.unwritten) (Uniform.fresh cfg N) h.opens h.bounded).2

theorem Orderly.all (h : Orderly cfg N e ops) (hops : ∀ op ∈ ops, op.restarts = false) (name : Bytes) :
    (((Store.fresh cfg).run cfg ops).logs name).all = acceptedBy cfg name (App.boot e) ops := by
  have hr := regular_uniform h.auto h.family ops (World.boot h.unwritten) (Uniform.fresh cfg N) h.opens h.bounded
  rw [run_all h.family name ops hops (World.boot h.unwritten) hr]
  rfl

end Runs

def App.low (a : App) : Bool :=
  (a.tsCtx.map fun ctx => ctx.streams.all fun slot => !slot.segsScanned || decide (slot.curSeg < 10000)).getD true

theorem below_of_low {a : App} (h : a.low = true) : Below a := by
  rintro i ⟨hscan, hover⟩
  have hscan : (a.slotAt i).segsScanned = true := hscan
  have hover : 10000 ≤ (a.slotAt i).curSeg := hover
  cases hc : a.tsCtx with
  | none =>
    rw [slotAt_zero hc] at hscan
    cases hscan
  | some ctx =>
    rw [slotAt_some hc] at hscan hover
    by_cases hi : i < ctx.streams.length
    · rw [List.getD_eq_getElem _ _ hi] at hscan hover
      simp only [App.low, hc, Option.map_some, Option.getD_some, List.all_eq_true] at h
      have := h _ (List.getElem_mem hi)
      simp only [hscan, Bool.not_true, Bool.false_or, decide_eq_true_eq] at this
      exact Nat.not_lt.mpr hover this
    · rw [List.getD_eq_default _ _ (Nat.not_lt.mp hi)] at hscan
      cases hscan

def leavesLow (cfg : Cfg) (a : App) : Op → Bool
  | .close h => ((a.handles h).map fun name => (post (closeFlush cfg name) a).low).getD true
  | op => (step cfg a op).2.low

def keepsLow (cfg : Cfg) : App → List Op → Bool
  | _, [] => true
  | a, op :: ops => leavesLow cfg a op && keepsLow cfg (step cfg a op).2 ops

theorem bounded_of_keepsLow {cfg : Cfg} (ops : List Op) {a : App} (h : keepsLow cfg a ops = true) :
    Bounded cfg a ops := by
  induction ops generalizing a with
  | nil => trivial
  | cons op ops ih =>
    rw [keepsLow, Bool.and_eq_true] at h
    refine ⟨?_, ih h.2⟩
    have hlow := h.1
    cases op with
    | close h =>
      intro name hname
      rw [leavesLow, hname] at hlow
      exact below_of_low hlow
    | append h sample => exact below_of_low hlow
    | batch h samples => exact below_of_low hlow
    | flushSync h => exact below_of_low hlow
    | drain => exact below_of_low hlow
    | init => trivial
    | deinit => trivial
    | «open» h name => trivial
    | flushAsync h => trivial
    | recover h => trivial
    | count h window => trivial
    | cursor h window predicate descending n => trivial

/-- A stream is opened, and takes in two samples. -/
def twoSamples : List Op := [.open 0 [65], .append 0 ⟨5, 7⟩, .append 0 ⟨6, 8⟩]

/-- An instance that has just been set up over an empty file system. -/
def App.virgin : App := App.boot (Sys.blank fun _ => false)

theorem unwritten_blank (cfg : Cfg) (N : Bytes → Prop) : Unwritten cfg N (Sys.blank fun _ => false) where
  clean _ := rfl
  single _ _ := rfl
  segments _ _ _ _ hp := by cases hp

theorem family_small (rollover delta auto : Bool) : Family (Cfg.small rollover delta auto 64) fun n => n = [65] :=
  Family.singleton (by revert rollover delta auto; decide)

theorem orderly_small (rollover delta : Bool) :
    Orderly (Cfg.small rollover delta true 64) (fun n => n = [65]) (Sys.blank fun _ => false) twoSamples where
  auto := rfl
  family := family_small rollover delta true
  unwritten := unwritten_blank _ _
  opens h name hm := by
    simp only [twoSamples, List.mem_cons, Op.open.injEq, reduceCtorEq, List.not_mem_nil, or_false] at hm
    exact hm.2
  bounded := bounded_of_keepsLow twoSamples (by revert rollover delta; decide +kernel)

theorem open_small (rollover delta : Bool) : OpenFor (Cfg.small rollover delta true 64)
    (run (Cfg.small rollover delta true 64) App.virgin twoSamples) 0 [65] := by
  refine ⟨?_, ?_, fun _ => ?_⟩ <;> revert rollover delta <;> decide +kernel

def Pair (name : Bytes) : Prop := name = [65] ∨ name = [66]

theorem family_pair (rollover delta auto : Bool) : Family (Cfg.small rollover delta auto 64) Pair where
  admissible name hn := by
    rcases hn with rfl | rfl <;> revert rollover delta auto <;> decide
  separate a b ha hb hne := by
    rcases ha with rfl | rfl <;> rcases hb with rfl | rfl
    · exact absurd rfl hne
    · revert rollover delta auto
      decide
    · revert rollover delta auto
      decide
    · exact absurd rfl hne

def manySamples : List Sample := (List.range 24).map fun n => ⟨UInt64.ofNat n, 7⟩

/-- Two streams are opened; one of them rolls twice, and with rollover gives up its first segment. -/
def rolling : List Op := [.open 0 [65], .open 1 [66], .append 1 ⟨3, 4⟩, .append 0 ⟨100, 1⟩, .batch 0 manySamples]

theorem opens_rolling : OpensOnly Pair rolling := by
  intro h name hm
  simp only [rolling, List.mem_cons, Op.open.injEq, reduceCtorEq, List.not_mem_nil, or_false] at hm
  exact hm.imp And.right And.right

theorem orderly_rolling : Orderly (Cfg.small true false true 64) Pair (Sys.blank fun _ => false) rolling where
  auto := rfl
  family := family_pair true false true
  unwritten := unwritten_blank _ _
  opens := opens_rolling
  bounded := bounded_of_keepsLow rolling (by decide +kernel)

theorem open_rolling : OpenFor (Cfg.small true false true 64)
    (run (Cfg.small true false true 64) App.virgin rolling) 0 [65] := by
  refine ⟨?_, ?_, fun _ => ?_⟩ <;> decide +kernel

def firstSample : Reply → Option Sample
  | ⟨.OK, .walk (.ok r :: _)⟩ => some r.2
  | _ => none

theorem firstSample_answers {cfg : Cfg} {a : App} {h : Nat} {r : Bytes × Sample} {rs : List (Bytes × Sample)}
    (ha : Answers cfg a h (r :: rs)) : firstSample (step cfg a (.cursor h Window.all none false 1)).1 = some r.2 := by
  have hadmits : admits Window.all none r = true := by
    simp [admits, windowMatch_of_unbounded (show windowIsUnbounded Window.all = true by decide)]
  rw [ha, selected, List.filter_cons_of_pos hadmits]
  rfl

theorem rolling_discards {gone : List Sample} {records : List (Bytes × Sample)}
    (hacc : acceptedBy (Cfg.small true false true 64) [65] App.virgin rolling = gone ++ records.map Prod.snd)
    (ha : Answers (Cfg.small true false true 64) (run (Cfg.small true false true 64) App.virgin rolling) 0 records) :
    gone ≠ [] := by
  rintro rfl
  have hhead : (acceptedBy (Cfg.small true false true 64) [65] App.virgin rolling).head? = some ⟨100, 1⟩ := by
    decide +kernel
  have hfirst : firstSample (step (Cfg.small true false true 64)
      (run (Cfg.small true false true 64) App.virgin rolling) (.cursor 0 Window.all none false 1)).1 = some ⟨9, 7⟩ := by
    decide +kernel
  rw [hacc, List.nil_append] at hhead
  cases records with
  | nil => cases hhead
  | cons r rs =>
    rw [firstSample_answers ha] at hfirst
    have hsame : some r.2 = some (⟨100, 1⟩ : Sample) := hhead
    rw [hsame] at hfirst
    revert hfirst
    decide

section Contracts
variable {cfg : Cfg} {N : Bytes → Prop} {e : Sys} {ops : List Op}

/-- Without rollover a stream yields all that was accepted, in order and each sample once. -/
theorem walk_yields_appended (hroll : cfg.rollover = false) (h : Orderly cfg N e ops)
    (hops : ∀ op ∈ ops, op.restarts = false) {hd : Nat} {name : Bytes}
    (ho : OpenFor cfg (run cfg (App.boot e) ops) hd name) :
    ∃ records, records.map Prod.snd = acceptedBy cfg name (App.boot e) ops ∧
      Answers cfg (run cfg (App.boot e) ops) hd records := by
  refine ⟨_, ?_, answers_records h.family h.world ho⟩
  have hlo := Store.run_keeps (fun L => L.lo = 0) name (fun L hL => (Log.lo_drain hroll L).trans hL)
    (fun L sample hL => (Log.lo_append hroll L sample).trans hL) ops hops (A := Store.fresh cfg) rfl
  rw [Log.records_samples, ← h.all hops, ← SegLog.gone_append_kept, SegLog.gone, hlo]
  rfl

theorem two_are_read : ∃ records, records.map Prod.snd =
      acceptedBy (Cfg.small false true true 64) [65] App.virgin twoSamples ∧
    Answers (Cfg.small false true true 64) (run (Cfg.small false true true 64) App.virgin twoSamples) 0 records :=
  walk_yields_appended rfl (orderly_small false true) (by decide) (open_small false true)

/-- With rollover it yields what was accepted last: a suffix that holds the newest sample, from whole segments
that are as many as configured at most and the only ones on storage. -/
theorem rollover_keeps_suffix (hroll : cfg.rollover = true) (h : Orderly cfg N e ops)
    (hops : ∀ op ∈ ops, op.restarts = false) {hd : Nat} {name : Bytes}
    (ho : OpenFor cfg (run cfg (App.boot e) ops) hd name) :
    ∃ gone records, acceptedBy cfg name (App.boot e) ops = gone ++ records.map Prod.snd ∧
      (acceptedBy cfg name (App.boot e) ops ≠ [] → records ≠ []) ∧
      Answers cfg (run cfg (App.boot e) ops) hd records ∧
      ∃ lo hi, lo ≤ hi ∧ hi + 1 - lo ≤ cfg.maxSegments ∧
        ∀ p, ((run cfg (App.boot e) ops).env.look p).isSome ∧ (∃ v, Scans cfg name p v) ↔
          ∃ k, lo ≤ k ∧ k ≤ hi ∧ p = segmentPath cfg name k := by
  have hs : cfg.segmented = true := cfg.segmented_of_rollover hroll
  have hW := h.world
  obtain ⟨i, hi⟩ := Option.isSome_iff_exists.mp (ho.2.2 hs)
  have hslash := (h.family.admissible name (hW.bound hd name ho.1)).no_slash
  refine ⟨(((Store.fresh cfg).run cfg ops).logs name).gone, _, ?_, ?_, answers_records h.family hW ho, _, _,
    (((Store.fresh cfg).run cfg ops).logs name).lo_le, Store.windowed_fresh hops hroll name,
    (files_open hW hs hi).segmentsAre hs hslash⟩
  · rw [← h.all hops, ← SegLog.gone_append_kept, Log.records_samples]
  · intro hne hnil
    rw [← h.all hops] at hne
    apply Store.kept_fresh hops name hne
    rw [← Log.records_samples, hnil]
    rfl

theorem rolling_is_kept : ∃ gone records, gone ≠ [] ∧
    acceptedBy (Cfg.small true false true 64) [65] App.virgin rolling = gone ++ records.map Prod.snd ∧
      (acceptedBy (Cfg.small true false true 64) [65] App.virgin rolling ≠ [] → records ≠ []) ∧
      Answers (Cfg.small true false true 64) (run (Cfg.small true false true 64) App.virgin rolling) 0 records ∧
      ∃ lo hi, lo ≤ hi ∧ hi + 1 - lo ≤ 2 ∧
        ∀ p, ((run (Cfg.small true false true 64) App.virgin rolling).env.look p).isSome ∧
            (∃ v, Scans (Cfg.small true false true 64) [65] p v) ↔
          ∃ k, lo ≤ k ∧ k ≤ hi ∧ p = segmentPath (Cfg.small true false true 64) [65] k := by
  obtain ⟨gone, records, hacc, hrest⟩ :=
    rollover_keeps_suffix rfl orderly_rolling (by decide) open_rolling
  exact ⟨gone, records, rolling_discards hacc hrest.2.1, hacc, hrest⟩

/-- Version 1 streams keep as much recent history as the configured segments hold, all but one of them: as long
as anything is discarded, the records behind it fill that many. -/
theorem rollover_keeps_floor (hd : cfg.delta = false) (h : Orderly cfg N e ops)
    (hops : ∀ op ∈ ops, op.restarts = false) {hnd : Nat} {name : Bytes}
    (ho : OpenFor cfg (run cfg (App.boot e) ops) hnd name) :
    ∃ gone records, acceptedBy cfg name (App.boot e) ops = gone ++ records.map Prod.snd ∧
      Answers cfg (run cfg (App.boot e) ops) hnd records ∧
      (gone ≠ [] → (cfg.maxSegments - 1) * cfg.segmentBytes ≤ records.length * recSizeV1) := by
  refine ⟨(((Store.fresh cfg).run cfg ops).logs name).gone, _, ?_, answers_records h.family h.world ho, fun hgone => ?_⟩
  · rw [← h.all hops, ← SegLog.gone_append_kept, Log.records_samples]
  · have hkept := (Store.onBase_fresh hops name).floor (Log.oneBase_v1 hd _) hgone
    rw [← Log.records_samples, List.length_map, buildFormat, if_neg (by simp [hd])] at hkept
    exact hkept

theorem rolling_keeps_floor : ∃ gone records, gone ≠ [] ∧
    acceptedBy (Cfg.small true false true 64) [65] App.virgin rolling = gone ++ records.map Prod.snd ∧
      Answers (Cfg.small true false true 64) (run (Cfg.small true false true 64) App.virgin rolling) 0 records ∧
      (2 - 1) * 256 ≤ records.length * recSizeV1 := by
  obtain ⟨gone, records, hacc, hans, hfloor⟩ :=
    rollover_keeps_floor rfl orderly_rolling (by decide) open_rolling
  have hgone := rolling_discards hacc hans
  exact ⟨gone, records, hgone, hacc, hans, hfloor hgone⟩

end Contracts

end ZephyrDB.Ts
