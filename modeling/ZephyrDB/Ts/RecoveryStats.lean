import ZephyrDB.Ts.Diagnostics
import ZephyrDB.Ts.Lifetime

/-!
What the statistics say about recoveries. `zdb_ts_recover_stream` counts each of
its runs, and its failures at its one failing exit; `zdb_ts_open` counts a run
that its cap rejects, and counts a run that failed once more.
-/

set_option autoImplicit false

namespace ZephyrDB.Ts

open Lib

/-- `zdb_ts_stats_reset`. -/
def tsStatsReset (a : App) : App :=
  { a with env := { a.env with side := { a.env.side with stats := TsStats.zero } } }

/-- What happens to an instance: a call, or a change of the storage between two calls. -/
inductive Happening where
  | call (op : Op)
  | mark (op : MarkOp)
  | statsReset
  | storage (e : Sys)

def happen (cfg : Cfg) (a : App) : Happening → App
  | .call op => (step cfg a op).2
  | .mark op => (markStep cfg a op).2
  | .statsReset => tsStatsReset a
  | .storage e => { a with env := { e with side := a.env.side } }

/-- How the `zdb_ts_recover_stream` ends that a call executes, where it executes one. -/
def recoveryOf (cfg : Cfg) (a : App) : Happening → Option (Except Status Nat)
  | .call (.open h name) =>
    if cfg.autoRecoverOnOpen then
      match (openClaim cfg h name).run a with
      | .ok _ b => some (outcome (recoverStream cfg name) b)
      | .error _ _ => none
    else none
  | .call (.recover h) => (a.handles h).map fun name => outcome (recoverStream cfg name) a
  | _ => none

def Happening.opens : Happening → Bool
  | .call (.open _ _) => true
  | _ => false

def overCap (cfg : Cfg) (truncated : Nat) : Bool :=
  0 < cfg.maxRecoveryTruncateBytes ∧ cfg.maxRecoveryTruncateBytes < truncated

/-- What the statistics are to say: the executions since the last reset, those that failed or were
rejected by the cap, and the opens whose execution failed. -/
structure Tally where
  runs : Nat
  failures : Nat
  failedOpens : Nat

def Tally.zero : Tally := ⟨0, 0, 0⟩

/-- Count one execution that ended so. -/
def Tally.count (cfg : Cfg) (t : Tally) (opens : Bool) : Except Status Nat → Tally
  | .error _ => ⟨t.runs + 1, t.failures + 1, t.failedOpens + opens.toNat⟩
  | .ok truncated => ⟨t.runs + 1, t.failures + (opens && overCap cfg truncated).toNat, t.failedOpens⟩

def Happening.resets : Happening → Bool
  | .call .init | .statsReset => true
  | _ => false

def Tally.next (cfg : Cfg) (a : App) (t : Tally) (x : Happening) : Tally :=
  if x.resets then Tally.zero
  else
    match recoveryOf cfg a x with
    | none => t
    | some r => t.count cfg x.opens r

/-- The instance after what happened to it, and the tally of its recoveries. -/
def live (cfg : Cfg) : App × Tally → List Happening → App × Tally
  | s, [] => s
  | (a, t), x :: xs => live cfg (happen cfg a x, t.next cfg a x) xs

/-- An instance that `zdb_init` has just been called on. -/
def initialised (a : App) : App × Tally := (post init a, Tally.zero)

/-- The statistics agree with the tally. -/
def App.Truthful (s : App × Tally) : Prop :=
  s.1.env.side.stats.recoverRuns.toNat = s.2.runs ∧ s.1.env.side.stats.recoverFailures.toNat = s.2.failures ∧
    s.1.env.side.stats.recoverFailures ≤ s.1.env.side.stats.recoverRuns

instance (s : App × Tally) : Decidable (App.Truthful s) := inferInstanceAs (Decidable (_ ∧ _ ∧ _))

def App.recoveries (a : App) : UInt32 × UInt32 := (a.env.side.stats.recoverRuns, a.env.side.stats.recoverFailures)

theorem bears_recoveries :
    Bears fun d d' => (d'.stats.recoverRuns, d'.stats.recoverFailures) = (d.stats.recoverRuns, d.stats.recoverFailures) :=
  bears_of_field _ (fun _ => rfl) (fun _ => rfl) (fun _ => rfl) fun _ => rfl

section Counts
variable {cfg : Cfg} {a : App}

theorem Bears.openClaim {R : Diag → Diag → Prop} (hR : Bears R) (h : Nat) (name : Bytes) :
    Always (App.Marked R) (openClaim cfg h name) := by
  unfold Ts.openClaim
  apply always_guard hR.appChains
  apply always_bind hR.appChains hR.getApp
  intro b
  apply always_guard hR.appChains
  apply always_bind hR.appChains (hR.tsCtxGetOrAlloc _)
  intro _
  apply always_bind hR.appChains (always_adaptExcept _ hR.ensureStreamDir)
  intro _
  apply always_when hR.appChains (fun _ => marked_onEnv (hR.ensureStreamHeader _))
  apply always_bind hR.appChains (hR.slotClaim _)
  intro _
  apply hR.modifyApp
  intro _
  exact rfl

theorem fixes_recoveries {ε α : Type} {m : AppM ε α}
    (h : Always (App.Marked fun d d' =>
      (d'.stats.recoverRuns, d'.stats.recoverFailures) = (d.stats.recoverRuns, d.stats.recoverFailures)) m) :
    Fixes App.recoveries m := h

theorem recoveries_setRun (a : App) : (post (onEnv statRecoverRun : AppM Status Unit) a).recoveries =
    (a.recoveries.1 + 1, a.recoveries.2) := rfl

theorem recoveries_setFailure (a : App) : (post (onEnv statRecoverFailure : AppM Status Unit) a).recoveries =
    (a.recoveries.1, a.recoveries.2 + 1) := rfl

theorem recoverStream_counts (name : Bytes) (a : App) :
    Yields (recoverStream cfg name) a (fun _ b => b.recoveries = (a.recoveries.1 + 1, a.recoveries.2))
      fun _ b => b.recoveries = (a.recoveries.1 + 1, a.recoveries.2 + 1) := by
  have hbody : Fixes App.recoveries (do
      let path ← recoverPath cfg name
      onEnv (recoverFile name path) : AppM Status Nat) := fixes_recoveries
    (always_bind bears_recoveries.appChains (bears_recoveries.recoverPath name) fun path =>
      marked_onEnv (bears_recoveries.recoverFile (fun _ _ => rfl) name path))
  have hhealth : Fixes App.recoveries (onEnv healthCheck : AppM Status Unit) :=
    fixes_recoveries (marked_onEnv bears_recoveries.healthCheck)
  unfold recoverStream
  apply yields_then rfl
  apply yields_bind (yields_attempt (hbody.yields _))
  intro r b hb
  cases r with
  | ok truncated => exact yields_pure (hb.trans (recoveries_setRun a))
  | error status =>
    have hcount : b.recoveries = (a.recoveries.1 + 1, a.recoveries.2) := hb.trans (recoveries_setRun a)
    have hend : ∀ t : App, t.recoveries = (post (onEnv statRecoverFailure : AppM Status Unit) b).recoveries →
        t.recoveries = (a.recoveries.1 + 1, a.recoveries.2 + 1) := fun t ht => by
      rw [ht, recoveries_setFailure, hcount]
    refine yields_then rfl (yields_bind ((hhealth.yields _).imp (fun _ _ h => h) fun _ t ht => hend t ht) ?_)
    exact fun _ t ht => yields_throw (hend t ht)

def Tally.shown (t : Tally) : UInt32 × UInt32 := (UInt32.ofNat t.runs, UInt32.ofNat (t.failures + t.failedOpens))

theorem ofNat_succ (n : Nat) : UInt32.ofNat (n + 1) = UInt32.ofNat n + 1 := UInt32.ofNat_add n 1

theorem shown_ok (t : Tally) (opens : Bool) (truncated : Nat) :
    (t.count cfg opens (.ok truncated)).shown =
      (t.shown.1 + 1, if opens && overCap cfg truncated then t.shown.2 + 1 else t.shown.2) := by
  apply Prod.ext (ofNat_succ _)
  show UInt32.ofNat (t.failures + (opens && overCap cfg truncated).toNat + t.failedOpens) = _
  cases opens && overCap cfg truncated with
  | true => exact (congrArg UInt32.ofNat (Nat.add_right_comm _ _ _)).trans (ofNat_succ _)
  | false => rfl

theorem shown_error (t : Tally) (opens : Bool) (status : Status) :
    (t.count cfg opens (.error status)).shown =
      (t.shown.1 + 1, if opens then t.shown.2 + 1 + 1 else t.shown.2 + 1) := by
  apply Prod.ext (ofNat_succ _)
  show UInt32.ofNat (t.failures + 1 + (t.failedOpens + opens.toNat)) = _
  have hmove : t.failures + 1 + (t.failedOpens + opens.toNat) = t.failures + t.failedOpens + 1 + opens.toNat := by omega
  rw [hmove]
  cases opens with
  | true => exact (ofNat_succ _).trans (congrArg (· + 1) (ofNat_succ _))
  | false => exact ofNat_succ _

/-- What the recovery pass of `zdb_ts_open` adds: a run that failed is counted as a failure again. -/
theorem openRecover_counts (name : Bytes) (a : App) (t : Tally) (h : a.recoveries = t.shown) :
    (post (openRecover cfg name) a).recoveries = (t.count cfg true (outcome (recoverStream cfg name) a)).shown := by
  have hrun := @recoverStream_counts cfg name a
  unfold openRecover
  cases hr : (recoverStream cfg name).run a with
  | ok truncated b =>
    have hb := hrun.run_ok hr
    rw [post_then (run_attempt_ok hr), outcome_of_run hr, shown_ok, ← h]
    dsimp only
    by_cases hcap : 0 < cfg.maxRecoveryTruncateBytes ∧ cfg.maxRecoveryTruncateBytes < truncated
    · have hover : (true && overCap cfg truncated) = true := decide_eq_true hcap
      rw [if_pos hcap, if_pos hover]
      show (post (onEnv statRecoverFailure : AppM Status Unit) b).recoveries = _
      rw [recoveries_setFailure, hb]
    · have hover : ¬ (true && overCap cfg truncated) = true := by simpa [overCap] using hcap
      rw [if_neg hcap, if_neg hover]
      exact hb
  | error status b =>
    have hb := hrun.run_error hr
    have hout : outcome (recoverStream cfg name) a = .error status := by simp only [outcome, hr]
    rw [post_then (run_attempt_error hr), hout, shown_error, ← h]
    show (post (onEnv statRecoverFailure : AppM Status Unit) b).recoveries = _
    rw [recoveries_setFailure, hb]
    rfl

theorem tally_step (t : Tally) (x : Happening) (h : a.recoveries = t.shown) :
    (happen cfg a x).recoveries = (t.next cfg a x).shown := by
  have hstill : ∀ {ε α : Type} {m : AppM ε α},
      Always (App.Marked fun d d' =>
        (d'.stats.recoverRuns, d'.stats.recoverFailures) = (d.stats.recoverRuns, d.stats.recoverFailures)) m →
      (post m a).recoveries = t.shown := fun hm => (fixes_recoveries hm a).trans h
  unfold Tally.next
  cases x with
  | statsReset => rfl
  | storage e => exact h
  | mark op =>
    cases op with
    | set k tsMs => exact hstill (bears_recoveries.tsWatermarkSet k tsMs)
    | get k => exact hstill (bears_recoveries.tsWatermarkGet k)
    | clear k => exact hstill (bears_recoveries.tsWatermarkClear k)
  | call op =>
    cases op with
    | init => rfl
    | deinit => exact h
    | «open» k name =>
      have hclaim : (post (openClaim cfg k name) a).recoveries = t.shown := hstill (bears_recoveries.openClaim k name)
      show (post (tsOpen cfg k name) a).recoveries = (match recoveryOf cfg a (.call (.open k name)) with
        | none => t
        | some r => t.count cfg true r).shown
      rw [tsOpen_eq]
      unfold openPass
      simp only [recoveryOf]
      cases hrun : (openClaim cfg k name).run a with
      | ok u b =>
        have hb : b.recoveries = t.shown := post_of_run hrun ▸ hclaim
        rw [post_then hrun]
        cases cfg.autoRecoverOnOpen with
        | true => exact openRecover_counts name b t hb
        | false => exact hb
      | error r b =>
        have hb : post (openClaim cfg k name >>= fun _ => openPass cfg name) a = b := by
          simp only [post, run_fails hrun]
        have hsame : post (openClaim cfg k name) a = b := by simp only [post, hrun]
        refine (congrArg App.recoveries (hb.trans hsame.symm)).trans (hclaim.trans ?_)
        cases cfg.autoRecoverOnOpen <;> rfl
    | close k => exact hstill (bears_recoveries.tsClose k)
    | append k sample => exact hstill (bears_recoveries.tsAppendI64 k sample)
    | batch k samples => exact hstill (bears_recoveries.tsAppendBatchI64 k samples)
    | flushAsync k => exact hstill (bears_recoveries.tsFlushAsync k)
    | flushSync k => exact hstill (bears_recoveries.tsFlushSync k)
    | drain => exact hstill bears_recoveries.flushWorkHandler
    | recover k =>
      show (post (tsRecoverStream cfg k) a).recoveries = (match (a.handles k).map fun name =>
          outcome (recoverStream cfg name) a with
        | none => t
        | some r => t.count cfg false r).shown
      unfold tsRecoverStream
      rw [post_get_bind]
      cases a.handles k with
      | none => exact h
      | some name =>
        have hcounts := @recoverStream_counts cfg name a
        dsimp only [Option.map_some]
        cases hr : (recoverStream cfg name).run a with
        | ok truncated b =>
          rw [post_of_run hr, outcome_of_run hr, shown_ok, hcounts.run_ok hr, h]
          rfl
        | error status b =>
          have hout : outcome (recoverStream cfg name) a = .error status := by simp only [outcome, hr]
          have hpost : post (recoverStream cfg name) a = b := by simp only [post, hr]
          rw [hpost, hout, shown_error, hcounts.run_error hr, h]
          rfl
    | count k window => exact hstill (bears_recoveries.tsQueryCount k window)
    | cursor k window predicate descending n =>
      exact hstill (bears_recoveries.queryCursor k window predicate descending n)

theorem tally_live (xs : List Happening) (s : App × Tally) (h : s.1.recoveries = s.2.shown) :
    (live cfg s xs).1.recoveries = (live cfg s xs).2.shown := by
  induction xs generalizing s with
  | nil => exact h
  | cons x xs ih => exact ih _ (tally_step s.2 x h)

theorem count_bounded (t : Tally) (opens : Bool) (r : Except Status Nat)
    (h : t.failedOpens ≤ t.failures ∧ t.failures ≤ t.runs) :
    (t.count cfg opens r).failedOpens ≤ (t.count cfg opens r).failures ∧
      (t.count cfg opens r).failures ≤ (t.count cfg opens r).runs := by
  have hopens := Bool.toNat_le opens
  cases r with
  | error status =>
    show t.failedOpens + opens.toNat ≤ t.failures + 1 ∧ t.failures + 1 ≤ t.runs + 1
    omega
  | ok truncated =>
    have hover := Bool.toNat_le (opens && overCap cfg truncated)
    show t.failedOpens ≤ t.failures + _ ∧ t.failures + _ ≤ t.runs + 1
    omega

theorem tally_bounded (xs : List Happening) (s : App × Tally)
    (h : s.2.failedOpens ≤ s.2.failures ∧ s.2.failures ≤ s.2.runs) :
    (live cfg s xs).2.failedOpens ≤ (live cfg s xs).2.failures ∧
      (live cfg s xs).2.failures ≤ (live cfg s xs).2.runs := by
  induction xs generalizing s with
  | nil => exact h
  | cons x xs ih =>
    apply ih _
    dsimp only [Tally.next]
    split
    · exact ⟨Nat.le_refl 0, Nat.le_refl 0⟩
    · split
      · exact h
      · exact count_bounded _ _ _ h

end Counts

/-- The statistics are right exactly as long as they can count that far and no recovery has failed inside
`zdb_ts_open` since the last reset. -/
theorem recovery_stats_iff (cfg : Cfg) (a : App) (xs : List Happening) :
    App.Truthful (live cfg (initialised a) xs) ↔
      (live cfg (initialised a) xs).2.runs < 2 ^ 32 ∧ (live cfg (initialised a) xs).2.failedOpens = 0 := by
  have hshown := @tally_live cfg xs (initialised a) rfl
  have hbound := @tally_bounded cfg xs (initialised a) ⟨Nat.le_refl 0, Nat.le_refl 0⟩
  generalize live cfg (initialised a) xs = s at hshown hbound
  have hruns : s.1.env.side.stats.recoverRuns = UInt32.ofNat s.2.runs := congrArg Prod.fst hshown
  have hfailures : s.1.env.side.stats.recoverFailures = UInt32.ofNat (s.2.failures + s.2.failedOpens) :=
    congrArg Prod.snd hshown
  unfold App.Truthful
  rw [hruns, hfailures, UInt32.le_iff_toNat_le, UInt32.toNat_ofNat', UInt32.toNat_ofNat']
  constructor
  · rintro ⟨h₁, h₂, h₃⟩
    omega
  · rintro ⟨h₁, h₂⟩
    omega

/-- A segment file too short for a header: opening its stream runs one recovery, which fails, and the
statistics say that two did. -/
theorem failed_open_counts_twice :
    let cfg := Cfg.small true false true 280
    let a := App.boot { Sys.blank (fun _ => false) with
      files := [(⟨segmentPath cfg [65] 0, [0]⟩ : (_ : Path) × Bytes)].toAList }
    let s := live cfg (initialised a) [.call (.open 0 [65])]
    s.1.env.side.stats.recoverRuns = 1 ∧ s.1.env.side.stats.recoverFailures = 2 ∧ ¬ App.Truthful s := by
  decide +kernel

end ZephyrDB.Ts
