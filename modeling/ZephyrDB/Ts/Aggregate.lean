import ZephyrDB.Ts.Observe
import ZephyrDB.Ts.Salvage

/-!
`zdb_ts_query_aggregate`: a bounded scan with a cursor, and one record more to
tell a scan that stopped at the bound from one that reached the end. What that
last look answers decides what the result says about the rest of the stream.
-/

set_option autoImplicit false

namespace ZephyrDB.Ts

open Lib

/-- `zdb_ts_agg_t`. -/
inductive Agg where
  | MIN | MAX | AVG | SUM | COUNT
  deriving DecidableEq

/-- `zdb_ts_agg_result_t`. -/
structure AggResult where
  agg : Agg
  value : Float
  points : Nat
  truncated : Bool

/-- `CONFIG_ZDB_TS_MAX_AGG_POINTS`, in the range of its option. -/
abbrev AggCap := {n : Nat // 1 ≤ n ∧ n ≤ 1048576}

/-- `zdb_ts_agg_update`, on the points counted and the value accumulated so far. -/
def aggUpdate (agg : Agg) (sample : Float) (acc : Nat × Float) : Nat × Float :=
  if acc.1 = 0 then (1, sample)
  else
    (acc.1 + 1, match agg with
      | .MIN => if sample < acc.2 then sample else acc.2
      | .MAX => if acc.2 < sample then sample else acc.2
      | .AVG => acc.2 + sample
      | .SUM => acc.2 + sample
      | .COUNT => acc.2)

/-- The scan of `zdb_ts_query_aggregate` over at most `n` records. -/
def aggScan (cfg : Cfg) (agg : Agg) : Nat → Nat × Float → CurM Status (Nat × Float)
  | 0, acc => return acc
  | n + 1, acc => do
    match ← attempt (cursorNext cfg) with
    | .error .ERR_NOT_FOUND => return acc
    | .error rc => throw rc
    | .ok (_, sample) => aggScan cfg agg n (aggUpdate agg sample.value.toFloat acc)

def aggPeek (cfg : Cfg) (cap : Nat) (acc : Nat × Float) : CurM Status ((Nat × Float) × Bool) := do
  if acc.1 = cap then
    match ← attempt (ε := Status) (cursorNext cfg) with
    | .ok _ => return (acc, true)
    | .error _ => return (acc, false)
  else return (acc, false)

/-- `zdb_ts_query_aggregate`: COUNT is not capped, the aggregates that bear a value are. -/
def tsQueryAggregate (cfg : Cfg) (cap : AggCap) (h : Nat) (window : Window) (agg : Agg) : AppM Status AggResult := do
  if agg = .COUNT then
    let points ← tsQueryCount cfg h window
    return ⟨agg, Float.ofNat points, points, false⟩
  else
    let c ← cursorOpenDir cfg h window none false
    let (((points, acc), truncated), _) ← withCursor c do
      let acc ← aggScan cfg agg cap.val (0, 0)
      aggPeek cfg cap.val acc
    if points = 0 then throw .ERR_NOT_FOUND
    return ⟨agg, if agg = .AVG then acc / Float.ofNat points else acc, points, truncated⟩

/-- A fresh ascending cursor over the window yields `n` samples and then `ZDB_ERR_NOT_FOUND`. -/
def YieldsExactly (cfg : Cfg) (a : App) (h : Nat) (window : Window) (n : Nat) : Prop :=
  ∃ xs : List (Bytes × Sample), xs.length = n ∧
    outcome (queryCursor cfg h window none false (n + 1)) a = .ok (xs.map .ok ++ [.error .ERR_NOT_FOUND])

/-- A fresh ascending cursor over the window yields more than `n` samples. -/
def YieldsMore (cfg : Cfg) (a : App) (h : Nat) (window : Window) (n : Nat) : Prop :=
  ∃ xs : List (Bytes × Sample), xs.length = n + 1 ∧
    outcome (queryCursor cfg h window none false (n + 1)) a = .ok (xs.map .ok)

/-- Behind the first `n` samples of the window stands something that cannot be read. -/
def BrokenBehind (cfg : Cfg) (a : App) (h : Nat) (window : Window) (n : Nat) : Prop :=
  ∃ (xs : List (Bytes × Sample)) (r : Status), xs.length = n ∧ r ≠ .ERR_NOT_FOUND ∧
    outcome (queryCursor cfg h window none false (n + 1)) a = .ok (xs.map .ok ++ [.error r])

/-- What the truncation flag of a result says of the stream is so. -/
def AggResult.Honest (r : AggResult) (cfg : Cfg) (cap : AggCap) (a : App) (h : Nat) (window : Window) : Prop :=
  (r.truncated = false → YieldsExactly cfg a h window r.points) ∧
    (r.truncated = true → r.points = cap.val ∧ YieldsMore cfg a h window r.points)

section Scan
variable {cfg : Cfg} {agg : Agg}

theorem aggUpdate_points (sample : Float) (acc : Nat × Float) : (aggUpdate agg sample acc).1 = acc.1 + 1 := by
  unfold aggUpdate
  split
  · rename_i h
    rw [h]
  · rfl

/-- How a scan with `n` records to go ends, and how a walk ends that makes the same calls. -/
inductive Scanned (cfg : Cfg) (agg : Agg) (cap n : Nat) (acc : Nat × Float) (s : CurSt) : Prop
  | more (xs : List (Bytes × Sample)) (acc' : Nat × Float) (t : CurSt) (hlen : xs.length = n + 1)
      (hwalk : (cursorWalk cfg (n + 1)).run s = .ok (xs.map .ok) t)
      (hscan : (aggScan cfg agg n acc >>= aggPeek cfg cap).run s = .ok (acc', true) t) (hpoints : acc'.1 = cap)
  | done (xs : List (Bytes × Sample)) (acc' : Nat × Float) (t : CurSt) (hlen : xs.length ≤ n)
      (hwalk : (cursorWalk cfg (xs.length + 1)).run s = .ok (xs.map .ok ++ [.error .ERR_NOT_FOUND]) t)
      (hscan : (aggScan cfg agg n acc >>= aggPeek cfg cap).run s = .ok (acc', false) t)
      (hpoints : acc'.1 = acc.1 + xs.length)
  | blind (xs : List (Bytes × Sample)) (r : Status) (acc' : Nat × Float) (t : CurSt) (hlen : xs.length = n)
      (hr : r ≠ .ERR_NOT_FOUND) (hwalk : (cursorWalk cfg (n + 1)).run s = .ok (xs.map .ok ++ [.error r]) t)
      (hscan : (aggScan cfg agg n acc >>= aggPeek cfg cap).run s = .ok (acc', false) t) (hpoints : acc'.1 = cap)
  | failed (r : Status) (t : CurSt)
      (hscan : (aggScan cfg agg n acc >>= aggPeek cfg cap).run s = .error r t)

theorem run_walk_cons {n : Nat} {s t u : CurSt} {x : Except Status (Bytes × Sample)}
    {xs : List (Except Status (Bytes × Sample))}
    (hx : (attempt (cursorNext cfg) : CurM Status _).run s = .ok x t) (hxs : (cursorWalk cfg n).run t = .ok xs u) :
    (cursorWalk cfg (n + 1)).run s = .ok (x :: xs) u :=
  run_then hx (run_then hxs rfl)

theorem run_aggPeek {cap : Nat} {acc : Nat × Float} {s t : CurSt} {x : Except Status (Bytes × Sample)} (hacc : acc.1 = cap)
    (hx : (attempt (cursorNext cfg) : CurM Status _).run s = .ok x t) :
    (aggPeek cfg cap acc).run s = .ok (acc, x.isOk) t := by
  unfold aggPeek
  rw [if_pos hacc]
  apply run_then hx
  cases x <;> rfl

theorem scanned_all (agg : Agg) (cap n : Nat) (acc : Nat × Float) (s : CurSt) (hacc : acc.1 + n = cap) :
    Scanned cfg agg cap n acc s := by
  induction n generalizing acc s with
  | zero =>
    have hscan : ∀ x t, (attempt (cursorNext cfg) : CurM Status _).run s = .ok x t →
        (aggScan cfg agg 0 acc >>= aggPeek cfg cap).run s = .ok (acc, x.isOk) t :=
      fun x t hx => run_then rfl (run_aggPeek hacc hx)
    cases hnext : outcome (cursorNext cfg) s with
    | ok x =>
      have hx : (attempt (cursorNext cfg) : CurM Status _).run s = .ok (.ok x) _ := run_attempt_ok (run_of_outcome hnext)
      exact .more [x] acc _ rfl (run_walk_cons hx rfl) (hscan _ _ hx) hacc
    | error r =>
      have hx : (attempt (cursorNext cfg) : CurM Status _).run s = .ok (.error r) _ :=
        run_attempt_error (run_of_outcome_error hnext)
      by_cases hr : r = .ERR_NOT_FOUND
      · subst hr
        exact .done [] acc _ (Nat.le_refl 0) (run_walk_cons hx rfl) (hscan _ _ hx) rfl
      · exact .blind [] r acc _ rfl hr (run_walk_cons hx rfl) (hscan _ _ hx) hacc
  | succ n ih =>
    cases hnext : outcome (cursorNext cfg) s with
    | ok x =>
      obtain ⟨raw, sample⟩ := x
      have hx : (attempt (cursorNext cfg) : CurM Status _).run s = .ok (.ok (raw, sample)) _ :=
        run_attempt_ok (run_of_outcome hnext)
      have hupd : (aggUpdate agg sample.value.toFloat acc).1 = acc.1 + 1 := aggUpdate_points _ acc
      have hscan : ∀ {y}, (aggScan cfg agg n (aggUpdate agg sample.value.toFloat acc) >>= aggPeek cfg cap).run
            (post (cursorNext cfg) s) = y → (aggScan cfg agg (n + 1) acc >>= aggPeek cfg cap).run s = y := by
        intro y hy
        unfold aggScan
        rw [bind_assoc]
        exact run_then hx hy
      rcases ih (aggUpdate agg sample.value.toFloat acc) (post (cursorNext cfg) s) (by omega) with
        ⟨xs, acc', t, hlen, hwalk, hrest, hpoints⟩ | ⟨xs, acc', t, hlen, hwalk, hrest, hpoints⟩ |
        ⟨xs, r, acc', t, hlen, hr, hwalk, hrest, hpoints⟩ | ⟨r, t, hrest⟩
      · exact .more ((raw, sample) :: xs) acc' t (congrArg (· + 1) hlen) (run_walk_cons hx hwalk) (hscan hrest) hpoints
      · refine .done ((raw, sample) :: xs) acc' t (Nat.succ_le_succ hlen) (run_walk_cons hx hwalk) (hscan hrest) ?_
        rw [hpoints, hupd, List.length_cons]
        omega
      · exact .blind ((raw, sample) :: xs) r acc' t (congrArg (· + 1) hlen) hr (run_walk_cons hx hwalk) (hscan hrest) hpoints
      · exact .failed r t (hscan hrest)
    | error r =>
      have hx : (attempt (cursorNext cfg) : CurM Status _).run s = .ok (.error r) _ :=
        run_attempt_error (run_of_outcome_error hnext)
      by_cases hr : r = .ERR_NOT_FOUND
      · subst hr
        refine .done [] acc _ (Nat.zero_le _) (run_walk_cons hx rfl) ?_ rfl
        have hshort : acc.1 ≠ cap := by omega
        unfold aggScan aggPeek
        rw [bind_assoc]
        apply run_then hx
        apply run_then rfl
        rw [if_neg hshort]
        rfl
      · refine .failed r (post (cursorNext cfg) s) ?_
        unfold aggScan
        rw [bind_assoc]
        apply run_then hx
        cases r <;> first | exact absurd rfl hr | rfl

theorem run_walk_front {m : Nat} (n : Nat) {s t : CurSt} {xs : List (Except Status (Bytes × Sample))}
    (h : (cursorWalk cfg m).run s = .ok xs t) :
    ∃ ys u, (cursorWalk cfg (m + n)).run s = .ok (xs ++ ys) u := by
  induction m generalizing s xs with
  | zero =>
    cases h
    have hall : ∀ k (u : CurSt), ∃ ys v, (cursorWalk cfg k).run u = .ok ys v := by
      intro k
      induction k with
      | zero => exact fun u => ⟨[], u, rfl⟩
      | succ k ihk =>
        intro u
        obtain ⟨ys, v, hv⟩ := ihk (post (cursorNext cfg) u)
        exact ⟨_, v, run_walk_cons (run_attempt _ u) hv⟩
    rw [Nat.zero_add]
    exact hall n _
  | succ m ih =>
    obtain ⟨x, u, hx, hrest⟩ := of_run_bind h
    obtain ⟨zs, v, hzs, hend⟩ := of_run_bind hrest
    cases hend
    obtain ⟨ys, w, hlong⟩ := ih hzs
    refine ⟨ys, w, ?_⟩
    rw [Nat.add_right_comm]
    exact run_walk_cons hx hlong

end Scan

section Fresh
variable {cfg : Cfg} {a b o : App} {h : Nat} {window : Window} {c : CursorCtx}

theorem twin_aggScan {agg : Agg} (hc : o.env.Clean) (n : Nat) (acc : Nat × Float) :
    Agrees (CurTwin cfg o) (aggScan cfg agg n acc) := by
  induction n generalizing acc with
  | zero => exact agrees_pure _
  | succ n ih =>
    apply agrees_bind (agrees_attempt (twin_cursorNext hc))
    intro r
    split
    · exact agrees_pure _
    · exact agrees_throw _
    · exact ih _

theorem twin_aggPeek (hc : o.env.Clean) (cap : Nat) (acc : Nat × Float) :
    Agrees (CurTwin cfg o) (aggPeek cfg cap acc) := by
  refine agrees_ite (agrees_bind (agrees_attempt (twin_cursorNext hc)) fun r => ?_) (agrees_pure _)
  split <;> exact agrees_pure _

theorem queryCursor_walks {a₁ : App} (n : Nat) (hc : o.env.Clean) (hal : Alike cfg o a₁) (hb : Alike cfg o b)
    (hrun : (cursorOpenDir cfg h window none false).run a = .ok c b) :
    outcome (queryCursor cfg h window none false n) a = outcome (cursorWalk cfg n) ⟨c, a₁⟩ := by
  obtain ⟨hout, -⟩ := twin_cursorWalk hc n ⟨c, b⟩ ⟨c, a₁⟩ ⟨rfl, hb, hal⟩
  rw [← hout]
  unfold queryCursor
  rw [outcome_then hrun]
  cases hw : outcome (cursorWalk cfg n) ⟨c, b⟩ with
  | ok xs => exact outcome_of_run (run_then (run_withCursor (run_of_outcome hw)) rfl)
  | error r =>
    have hfail := run_withCursor_error (run_of_outcome_error hw)
    simp only [outcome, run_fails hfail]

structure SameWalk (cfg : Cfg) (a b : App) (h : Nat) (window : Window) (s : CurSt) : Prop where
  before : ∀ n, outcome (queryCursor cfg h window none false n) a = outcome (cursorWalk cfg n) s
  after : ∀ n, outcome (queryCursor cfg h window none false n) b = outcome (cursorWalk cfg n) s

theorem sameWalk {α : Type} {m : CurM Status α} {x : α × CursorCtx} {a₁ : App} (hc : a.env.Clean)
    (hm : ∀ o : App, o.env.Clean → Agrees (CurTwin cfg o) m)
    (hopen : (cursorOpenDir cfg h window none false).run a = .ok c a₁) (hscan : (withCursor c m).run a₁ = .ok x b) :
    SameWalk cfg a b h window ⟨c, a₁⟩ := by
  obtain ⟨o, ⟨hco, hagain⟩, hal⟩ := cursorOpenDir_again hc hopen
  obtain ⟨-, hb⟩ := twin_withCursor c (hm o hco) a₁ a₁ ⟨hal, hal⟩
  rw [post_of_run hscan] at hb
  obtain ⟨b', hopen', hb'⟩ := hagain b hb.1
  exact ⟨fun n => queryCursor_walks n hco hal hal hopen, fun n => queryCursor_walks n hco hal hb' hopen'⟩

end Fresh

section Flag
variable {cfg : Cfg} {cap : AggCap} {agg : Agg} {a b : App} {h : Nat} {window : Window}

theorem first_failure {xs ys : List (Bytes × Sample)} {r r' : Status} {zs zs' : List (Except Status (Bytes × Sample))}
    (heq : xs.map Except.ok ++ .error r :: zs = ys.map Except.ok ++ .error r' :: zs') : r = r' := by
  induction xs generalizing ys with
  | nil =>
    cases ys with
    | nil => exact Except.error.inj (List.cons.inj heq).1
    | cons y ys => cases (List.cons.inj heq).1
  | cons x xs ih =>
    cases ys with
    | nil => cases (List.cons.inj heq).1
    | cons y ys => exact ih (List.cons.inj heq).2

theorem not_all_ok {xs ys : List (Bytes × Sample)} {r : Status} {zs : List (Except Status (Bytes × Sample))} :
    ¬ xs.map Except.ok = ys.map Except.ok ++ (.error r :: zs) := by
  intro heq
  have hmem : (Except.error r : Except Status (Bytes × Sample)) ∈ xs.map Except.ok := by
    rw [heq]
    exact List.mem_append_right _ List.mem_cons_self
  obtain ⟨x, -, hx⟩ := List.mem_map.mp hmem
  cases hx

/-- What a scan says holds of the walk that makes the same calls, unless it looked at a failure and took it
for the end. -/
theorem scanned_honest {s : CurSt} {acc : Nat × Float} {truncated : Bool} {t : CurSt} {r : AggResult}
    (hsame : SameWalk cfg a b h window s)
    (hrun : (aggScan cfg agg cap.val (0, 0) >>= aggPeek cfg cap.val).run s = .ok (acc, truncated) t)
    (hpoints : r.points = acc.1) (hflag : r.truncated = truncated) :
    r.Honest cfg cap b h window ↔ ¬ BrokenBehind cfg a h window cap.val := by
  unfold AggResult.Honest YieldsExactly YieldsMore BrokenBehind
  simp only [hsame.before, hsame.after, hpoints, hflag]
  rcases scanned_all agg cap.val cap.val (0, 0) s (Nat.zero_add _) with
    ⟨xs, acc', t', hlen, hwalk, hscan, hcount⟩ | ⟨xs, acc', t', hlen, hwalk, hscan, hcount⟩ |
    ⟨xs, rc, acc', t', hlen, hrc, hwalk, hscan, hcount⟩ | ⟨rc, t', hscan⟩
  · obtain ⟨hres, -⟩ := EStateM.Result.ok.inj (hrun.symm.trans hscan)
    obtain ⟨rfl, rfl⟩ := Prod.mk.inj hres
    rw [hcount]
    apply iff_of_true ⟨nofun, fun _ => ⟨rfl, xs, hlen, outcome_of_run hwalk⟩⟩
    rintro ⟨ys, rc, -, -, hbroken⟩
    rw [outcome_of_run hwalk] at hbroken
    exact not_all_ok (Except.ok.inj hbroken)
  · obtain ⟨hres, -⟩ := EStateM.Result.ok.inj (hrun.symm.trans hscan)
    obtain ⟨rfl, rfl⟩ := Prod.mk.inj hres
    rw [hcount, Nat.zero_add]
    apply iff_of_true ⟨fun _ => ⟨xs, rfl, outcome_of_run hwalk⟩, nofun⟩
    rintro ⟨ys, rc, hys, hrc, hbroken⟩
    -- The walk that reaches the end is the front of the one that is said to break.
    obtain ⟨zs, u, hlong⟩ := run_walk_front (cap.val - xs.length) hwalk
    rw [show xs.length + 1 + (cap.val - xs.length) = cap.val + 1 by omega] at hlong
    rw [outcome_of_run hlong] at hbroken
    rw [List.append_assoc] at hbroken
    exact hrc (first_failure (Except.ok.inj hbroken)).symm
  · obtain ⟨hres, -⟩ := EStateM.Result.ok.inj (hrun.symm.trans hscan)
    obtain ⟨rfl, rfl⟩ := Prod.mk.inj hres
    rw [hcount]
    refine iff_of_false ?_ (not_not_intro ⟨xs, rc, hlen, hrc, outcome_of_run hwalk⟩)
    rintro ⟨hexact, -⟩
    obtain ⟨ys, -, hys⟩ := hexact rfl
    rw [outcome_of_run hwalk] at hys
    exact hrc (first_failure (Except.ok.inj hys))
  · rw [hscan] at hrun
    cases hrun

/-- The flag is right unless what stands behind a full scan cannot be read: the look behind it takes that for
the end of the stream. -/
theorem truncation_honest_iff {r : AggResult} (hc : a.env.Clean) (hagg : agg ≠ .COUNT)
    (hrun : (tsQueryAggregate cfg cap h window agg).run a = .ok r b) :
    r.Honest cfg cap b h window ↔ ¬ BrokenBehind cfg a h window cap.val := by
  unfold tsQueryAggregate at hrun
  rw [if_neg hagg] at hrun
  obtain ⟨c, a₁, hopen, hrest⟩ := of_run_bind hrun
  obtain ⟨⟨⟨acc, truncated⟩, c'⟩, b', hscan, hend⟩ := of_run_bind hrest
  have hsame := sameWalk hc (fun o hco => agrees_bind (twin_aggScan hco _ _) fun _ => twin_aggPeek hco _ _) hopen hscan
  obtain ⟨points, value⟩ := acc
  dsimp only at hend
  by_cases hnone : points = 0
  · rw [if_pos hnone] at hend
    cases hend
  rw [if_neg hnone] at hend
  cases hend
  cases hm : (aggScan cfg agg cap.val (0, 0) >>= aggPeek cfg cap.val).run ⟨c, a₁⟩ with
  | ok x t =>
    have hx := run_withCursor hm
    obtain ⟨hres, -⟩ := EStateM.Result.ok.inj (hscan.symm.trans hx)
    obtain ⟨rfl, -⟩ := Prod.mk.inj hres
    exact scanned_honest hsame hm rfl rfl
  | error rc t =>
    have hx := hscan.symm.trans (run_withCursor_error hm)
    cases hx

end Flag

/-! A file to try it on. -/

/-- A sample, and behind it a record that does not start as one. -/
def brokenRecords : Bytes := recordEncode ⟨5, 7⟩ ++ (recordEncode ⟨6, 8⟩).set 0 0

def failure : Except Status (Bytes × Sample) → Option Status
  | .ok _ => none
  | .error r => some r

/-- What the sum over the whole of stream `A` says, its value aside. -/
def summary (cap : AggCap) (a : App) : Except Status (Nat × Bool) :=
  (outcome (tsQueryAggregate (Cfg.plain false 0) cap 0 Window.all .SUM) a).map fun r => (r.points, r.truncated)

theorem run_of_summary (cap : AggCap) (a : App) (points : Nat) (truncated : Bool)
    (h : summary cap a = .ok (points, truncated)) :
    ∃ r b, (tsQueryAggregate (Cfg.plain false 0) cap 0 Window.all .SUM).run a = .ok r b ∧ r.points = points ∧
      r.truncated = truncated := by
  unfold summary at h
  cases hr : outcome (tsQueryAggregate (Cfg.plain false 0) cap 0 Window.all .SUM) a with
  | error e =>
    rw [hr] at h
    cases h
  | ok r =>
    rw [hr] at h
    obtain ⟨hpoints, hflag⟩ := Prod.mk.inj (Except.ok.inj h)
    exact ⟨r, _, run_of_outcome hr, hpoints, hflag⟩

/-- Two good records and a cap of one: the flag is set, and is right. -/
theorem truncation_seen : ∃ r b,
    (tsQueryAggregate (Cfg.plain false 0) ⟨1, by decide⟩ 0 Window.all .SUM).run
        (App.holding (Cfg.plain false 0) (recordEncode ⟨5, 7⟩ ++ recordEncode ⟨6, 8⟩)) = .ok r b ∧
      r.truncated = true ∧
      (r.Honest (Cfg.plain false 0) ⟨1, by decide⟩ b 0 Window.all ↔
        ¬ BrokenBehind (Cfg.plain false 0)
          (App.holding (Cfg.plain false 0) (recordEncode ⟨5, 7⟩ ++ recordEncode ⟨6, 8⟩)) 0 Window.all 1) := by
  obtain ⟨r, b, hrun, -, hflag⟩ := run_of_summary ⟨1, by decide⟩
    (App.holding (Cfg.plain false 0) (recordEncode ⟨5, 7⟩ ++ recordEncode ⟨6, 8⟩)) 1 true (by decide +kernel)
  exact ⟨r, b, hrun, hflag, truncation_honest_iff (holding_clean _ _) (by decide) hrun⟩

/-- Where the cap is reached right before a broken record, the aggregate takes it for the end of the stream;
a cursor opened afterwards does not. -/
theorem broken_record_taken_for_end : ∃ r b,
    (tsQueryAggregate (Cfg.plain false 0) ⟨1, by decide⟩ 0 Window.all .SUM).run
        (App.holding (Cfg.plain false 0) brokenRecords) = .ok r b ∧
      r.truncated = false ∧ ¬ YieldsExactly (Cfg.plain false 0) b 0 Window.all r.points := by
  obtain ⟨r, b, hrun, hpoints, hflag⟩ := run_of_summary ⟨1, by decide⟩
    (App.holding (Cfg.plain false 0) brokenRecords) 1 false (by decide +kernel)
  refine ⟨r, b, hrun, hflag, ?_⟩
  rintro ⟨xs, hlen, hwalk⟩
  rw [hpoints] at hlen hwalk
  -- The second answer of the fresh cursor is the failure the aggregate looked at.
  have hanswers : (outcome (queryCursor (Cfg.plain false 0) 0 Window.all none false 2)
      (post (tsQueryAggregate (Cfg.plain false 0) ⟨1, by decide⟩ 0 Window.all .SUM)
        (App.holding (Cfg.plain false 0) brokenRecords))).map (List.map failure) = .ok [none, some .ERR_CORRUPT] := by
    decide +kernel
  rw [post_of_run hrun, hwalk] at hanswers
  obtain ⟨x, rfl⟩ := List.length_eq_one_iff.mp hlen
  cases hanswers

end ZephyrDB.Ts
