import ZephyrDB.Ts.Contents
import ZephyrDB.Ts.Reopen

/-!
Cursors and the count, against the store. A stream that is about to be read has
its files on storage and its slot scanned; a cursor then reports the records of
the log one by one, and the count is the number of them.
-/

set_option autoImplicit false

namespace ZephyrDB.Ts

open Lib

structure Shows (cfg : Cfg) (a : App) (name : Bytes) (L : Log) : Prop where
  files : SegFiles cfg name L a.env.look
  bound : L.past.length < 10000
  slot : ∀ i, a.slotFind name = some i → Ready cfg name L ⟨a.slotAt i, a.env⟩
  shut : a.slotFind name = none → L.buf = []

section Shows
variable {cfg : Cfg} {a b : App} {name : Bytes} {L : Log}

theorem Ready.congr_env {slot : StreamCtx} {e e' : Sys} (h : Ready cfg name L ⟨slot, e⟩) (l : Leads e e.look e') :
    Ready cfg name L ⟨slot, e'⟩ :=
  ⟨l.clean h.clean, h.named, h.bound, h.buffered, h.learned, show SegFiles cfg name L e'.look from l.look ▸ h.files⟩

theorem Shows.alike (h : Shows cfg a name L) (l : Alike cfg a b) : Shows cfg b name L where
  files := by rw [l.env.look]; exact h.files
  bound := h.bound
  slot i hi := by
    rw [l.slotFind] at hi
    rw [l.slots]
    exact (h.slot i hi).congr_env l.env
  shut hi := h.shut ((l.slotFind name).symm.trans hi)

theorem segFile_length (hadm : Admissible cfg name) {k : Nat} (hk : k < 10000) : (segFile cfg name k).length < PATH_MAX := by
  have hlen := hadm.2
  cases hs : cfg.segmented with
  | true =>
    rw [segFile_of_segmented hs] at hlen ⊢
    rw [segmentPath_length cfg name (by decide)] at hlen
    rw [segmentPath_length cfg name hk]
    exact hlen
  | false =>
    rw [segFile_of_single hs] at hlen ⊢
    exact hlen

theorem Shows.span (h : Shows cfg a name L) (hadm : Admissible cfg name) (hc : a.env.Clean) (hup : a.cfgSet = true)
    (descending : Bool) : Span cfg a name descending L.lo L.past.length where
  clean := hc
  up := hup
  valid := hadm.1
  le := L.lo_le
  single hs := by
    have hpast := (h.files.single hs).1
    have hlo := L.lo_le
    rw [hpast, List.length_nil] at hlo ⊢
    exact Nat.le_zero.mp hlo
  files k hlo hhi := by
    refine ⟨segFile_length hadm (Nat.lt_of_le_of_lt hhi h.bound), _, _, h.files.file k hlo hhi, layoutOf_header _ _ _, ?_⟩
    intro _
    show (L.seg k).format.hdrSize ≤ (segBytes name (L.seg k)).length
    rw [segBytes_length]
    exact Nat.le_add_right _ _

theorem Shows.buffer (h : Shows cfg a name L) (descending : Bool) :
    streamBuf cfg a name descending = along descending ((Log.bufRecords L).map foundItem) := by
  cases hf : a.slotFind name with
  | none => exact streamBuf_closed hf (h.shut hf) descending
  | some i =>
    have hready := h.slot i hf
    exact streamBuf_open hf hready.buffered hready.speaks descending

theorem Shows.items (h : Shows cfg a name L) (descending : Bool) :
    streamItems cfg a name descending L.lo L.past.length = along descending ((Log.records L).map foundItem) :=
  streamItems_log h.files (h.buffer descending)

theorem sound_found (descending : Bool) (xs : List (Bytes × Sample)) : Sound (along descending (xs.map foundItem)) := by
  intro r hr
  rw [along_map] at hr
  obtain ⟨x, -, hx⟩ := List.mem_map.mp hr
  cases hx

theorem Opened.log {window : Window} {predicate : Option (Bytes → Bool)} {descending : Bool} {s : CurSt}
    (h : Opened cfg a name window predicate descending L.lo L.past.length s) (hshows : Shows cfg a name L)
    (hadm : Admissible cfg name) (hc : a.env.Clean) (hup : a.cfgSet = true) :
    Poised cfg s ∧ s.cur.pass = admitted window predicate ∧
      Ts.ahead cfg s = along descending ((Log.records L).map foundItem) := by
  have hspan := hshows.span hadm hc hup descending
  refine ⟨h.poised hspan ?_, h.pass, (h.ahead hspan).trans (hshows.items descending)⟩
  rw [hshows.buffer]
  exact sound_found descending _

end Shows

theorem admitted_admits (window : Window) (predicate : Option (Bytes → Bool)) (r : Bytes × Sample) :
    admitted window predicate r = admits window predicate r := by
  cases predicate <;> rfl

theorem reports_log (window : Window) (predicate : Option (Bytes → Bool)) (descending : Bool) (L : Log) :
    reports (admitted window predicate) (along descending ((Log.records L).map (foundItem (ε := Status)))) =
      (view window predicate descending L).map .ok := by
  rw [along_map, reports_items, along_filter, funext (admitted_admits window predicate)]
  rfl

theorem callsOver_walkOf (rs : List (Bytes × Sample)) (n : Nat) :
    callsOver .ERR_NOT_FOUND (rs.map .ok) n = walkOf rs n := by
  induction n generalizing rs with
  | zero => cases rs <;> rfl
  | succ n ih =>
    cases rs with
    | nil => exact congrArg (.error .ERR_NOT_FOUND :: ·) (ih [])
    | cons r rs => exact congrArg (.ok r :: ·) (ih rs)

section World
variable {cfg : Cfg} {N U : Bytes → Prop} {a : App} {A : Store} {name : Bytes}

/-- `zdb_ts_cursor_open_dir` scans the slot of a segmented stream and takes its segment window. -/
theorem cursorWindow_shows (hF : Family cfg N) (hW : World cfg N U a A) (hup : a.cfgSet = true)
    (hs : cfg.segmented = true) {i : Nat} (hi : a.slotFind name = some i) :
    ∃ b, (cursorWindow cfg name).run a = .ok ((A.logs name).lo, (A.logs name).past.length) b ∧ World cfg N U b A ∧
      Shows cfg b name (A.logs name) := by
  obtain ⟨b, hrun, hW₂, hi₂, hlearned⟩ := cursorWindow_spec hF hW hs hup hi
  have hrep := hW₂.rep_find hi₂
  have hfiles : SegFiles cfg name (A.logs name) b.env.look := by
    cases hrep.known with
    | learned _ hf => exact hf
    | unlearned _ hu =>
      have hscan : (b.slotAt i).segsScanned = false := hu.scanned
      rw [hlearned.scanned] at hscan
      cases hscan
  refine ⟨b, hrun, hW₂, hfiles, hrep.bound, fun j hj => ?_, fun hnone => ?_⟩
  · rw [hi₂] at hj
    cases hj
    exact ⟨hrep.clean, hrep.named, hrep.bound, hrep.buffered, fun _ => hlearned, hfiles⟩
  · rw [hi₂] at hnone
    cases hnone

theorem shows_single (hW : World cfg N U a A) (hN : N name) (hs : cfg.segmented = false)
    (hf : SegFiles cfg name (A.logs name) a.env.look) : Shows cfg a name (A.logs name) where
  files := hf
  bound := by rw [(hf.single hs).1]; decide
  slot i hi := by
    have hrep := hW.rep_find hi
    exact ⟨hrep.clean, hrep.named, hrep.bound, hrep.buffered, fun h => (Bool.false_ne_true (hs.symm.trans h)).elim, hf⟩
  shut hi := (hW.stored name hN hi).2.1

theorem cursorOpenDir_spec (hF : Family cfg N) (hW : World cfg N U a A) {h : Nat} (window : Window)
    (predicate : Option (Bytes → Bool)) (descending : Bool) (hr : A.readable cfg h = some name) :
    ∃ c b, (cursorOpenDir cfg h window predicate descending).run a = .ok c b ∧ World cfg N U b A ∧
      Poised cfg ⟨c, b⟩ ∧ c.pass = admitted window predicate ∧
      ahead cfg ⟨c, b⟩ = along descending ((Log.records (A.logs name)).map foundItem) ∧
      Shows cfg b name (A.logs name) ∧ c.streamName = name := by
  unfold Store.readable at hr
  rw [← hW.handles] at hr
  cases hh : a.handles h with
  | none =>
    rw [hh] at hr
    cases hr
  | some name' =>
    have hN := hW.bound h name' hh
    have hadm := hF.admissible name' hN
    rw [hh, ← hW.running] at hr
    dsimp only at hr
    split at hr
    · rename_i hcan
      cases hr
      simp only [Bool.and_eq_true, Bool.or_eq_true, Bool.not_eq_true'] at hcan
      obtain ⟨hup, hopen⟩ := hcan
      cases hs : cfg.segmented with
      | true =>
        obtain ⟨i, hi⟩ := Option.isSome_iff_exists.mp (hopen.resolve_left (by simp [hs]))
        rw [hW.find_eq] at hi
        obtain ⟨e, h₁, l₁⟩ := call_ok hW.clean
        have hW₁ := hW.alike (alike_env a l₁)
        obtain ⟨b, h₂, hW₂, hshows⟩ := cursorWindow_shows hF hW₁ hup hs (show App.slotFind { a with env := e } name = _ from hi)
        have hup₂ : b.cfgSet = true := hW₂.running.trans (hW.running.symm.trans hup)
        obtain ⟨c, d, hrun, hopened⟩ := opens_segmented window predicate hs hh hup h₁ h₂
          (hshows.span hadm hW₂.clean hup₂ descending)
        obtain ⟨hpoised, hpass, hahead⟩ := hopened.log hshows hadm hW₂.clean hup₂
        exact ⟨c, d, hrun, hW₂.alike hopened.alike, hpoised, hpass, hahead, hshows.alike hopened.alike, hopened.name⟩
      | false =>
        obtain ⟨e₁, h₁, hW₁, hfiles⟩ := ensureStreamHeader_spec hF hW hN hs
        obtain ⟨e₂, h₂, l₂⟩ := call_ok hW₁.clean
        have hal : Alike cfg { a with env := e₁ } { a with env := e₂ } := alike_env { a with env := e₁ } l₂
        have hW₂ := hW₁.alike hal
        have hshows := (shows_single hW₁ hN hs hfiles).alike hal
        have hlo : (A.logs name).lo = 0 ∧ (A.logs name).past.length = 0 := by
          have hlo := (A.logs name).lo_le
          rw [(hfiles.single hs).1, List.length_nil] at hlo ⊢
          exact ⟨Nat.le_zero.mp hlo, rfl⟩
        have hspan := hshows.span hadm hW₂.clean hup descending
        rw [hlo.1, hlo.2] at hspan
        obtain ⟨c, d, hrun, hopened⟩ := opens_single window predicate hs hh hup h₁ h₂ hspan
        have hopened' : Opened cfg { a with env := e₂ } name window predicate descending (A.logs name).lo
            (A.logs name).past.length ⟨c, d⟩ := by
          rw [hlo.1, hlo.2]
          exact hopened
        obtain ⟨hpoised, hpass, hahead⟩ := hopened'.log hshows hadm hW₂.clean hup
        exact ⟨c, d, hrun, hW₂.alike hopened.alike, hpoised, hpass, hahead, hshows.alike hopened.alike, hopened.name⟩
    · cases hr

theorem cursorOpenDir_refused (hW : World cfg N U a A) {h : Nat} (window : Window)
    (predicate : Option (Bytes → Bool)) (descending : Bool) (hr : A.readable cfg h = none) :
    ∃ b, (cursorOpenDir cfg h window predicate descending).run a = .error .ERR_INVAL b ∧ World cfg N U b A := by
  have hget : ∀ b : App, (get : AppM Status App).run b = .ok b b := fun _ => rfl
  unfold Store.readable at hr
  rw [← hW.handles] at hr
  cases hh : a.handles h with
  | none =>
    refine ⟨a, run_then (hget a) ?_, hW⟩
    dsimp only
    rw [hh]
    rfl
  | some name =>
    rw [hh, ← hW.running] at hr
    dsimp only at hr
    rw [hW.find_eq] at hr
    by_cases hup : a.cfgSet = true
    · simp only [hup, Bool.true_and] at hr
      have hs : cfg.segmented = true := by
        by_contra hs
        simp [hs] at hr
      have hi : a.slotFind name = none := by
        cases hf : a.slotFind name with
        | none => rfl
        | some i => simp [hf] at hr
      obtain ⟨e, h₁, l₁⟩ := call_ok hW.clean
      obtain ⟨b, h₂, l₂, -⟩ := @tsCtxGetOrAlloc_spec cfg { a with env := e } (l₁.clean hW.clean) hup .ERR_INVAL
      have hal := (@alike_env cfg a _ l₁).trans l₂
      have hwindow : (cursorWindow cfg name).run { a with env := e } = .error .ERR_INVAL b := by
        apply run_then h₂
        apply run_then (hget b)
        rw [hal.slotFind, hi]
        rfl
      refine ⟨b, ?_, hW.alike hal⟩
      unfold cursorOpenDir
      apply run_then (hget a)
      dsimp only
      rw [hh]
      dsimp only
      rw [if_neg (by simp [hup]), if_neg (by simp [hs])]
      apply run_then (run_onEnv (run_orFail h₁))
      rw [if_pos hs, EStateM.run_bind, hwindow]
    · refine ⟨a, ?_, hW⟩
      unfold cursorOpenDir
      apply run_then (hget a)
      dsimp only
      rw [hh]
      dsimp only
      rw [if_pos (by simpa using hup)]
      rfl

/-- A walk with a cursor that has just been opened: each record that the query admits once, then `ZDB_ERR_NOT_FOUND`. -/
theorem queryCursor_spec (hF : Family cfg N) (hW : World cfg N U a A) {h : Nat} (window : Window)
    (predicate : Option (Bytes → Bool)) (descending : Bool) (n : Nat) (hr : A.readable cfg h = some name) :
    Gives (queryCursor cfg h window predicate descending n) a
      (.ok (walkOf (view window predicate descending (A.logs name)) n)) fun b => World cfg N U b A := by
  obtain ⟨c, b, hopen, hW', hpoised, hpass, hahead, -⟩ := cursorOpenDir_spec hF hW window predicate descending hr
  obtain ⟨s, hwalk, hon, -⟩ := (walk_gives n hpoised).run_ok
  have hreports : reports (CursorCtx.pass c) (ahead cfg ⟨c, b⟩) =
      (view window predicate descending (A.logs name)).map .ok := by
    rw [hpass, hahead, reports_log]
  rw [hreports, callsOver_walkOf] at hwalk
  exact gives_then hopen (gives_ok (run_then (run_withCursor hwalk) rfl) (hW'.alike hon.alike))

theorem cursor_spec (hF : Family cfg N) (hW : World cfg N U a A) (h : Nat) (window : Window)
    (predicate : Option (Bytes → Bool)) (descending : Bool) (n : Nat) :
    (step cfg a (.cursor h window predicate descending n)).1 = (A.step cfg (.cursor h window predicate descending n)).1 ∧
      World cfg N U (step cfg a (.cursor h window predicate descending n)).2
        (A.step cfg (.cursor h window predicate descending n)).2 := by
  simp only [step, Store.step]
  cases hr : A.readable cfg h with
  | none =>
    obtain ⟨b, hrun, hW'⟩ := cursorOpenDir_refused hW window predicate descending hr
    have hg : Gives (queryCursor cfg h window predicate descending n) a (.error .ERR_INVAL) fun b => World cfg N U b A :=
      gives_fail hrun hW'
    exact exec_gives (f := Answer.walk) hg
  | some name => exact exec_gives (f := Answer.walk) (queryCursor_spec hF hW window predicate descending n hr)

theorem countScan_gives (n points : Nat) {s : CurSt} (h : Poised cfg s) (hsound : Sound (ahead cfg s))
    (hn : (reports s.cur.pass (ahead cfg s)).length < n) (hpoints : points < 2 ^ 32) :
    Gives (countScan cfg n points) s (.ok ((points + (reports s.cur.pass (ahead cfg s)).length) % 2 ^ 32))
      fun s' => Onward cfg s s' := by
  induction n generalizing s points with
  | zero => exact absurd hn (Nat.not_lt_zero _)
  | succ n ih =>
    obtain ⟨hout, hc⟩ := next_gives h
    have hrun : (attempt (cursorNext cfg) : CurM Status _).run s = .ok (outcome (cursorNext cfg) s) _ := run_attempt _ s
    apply gives_then hrun
    rw [hout]
    cases hf : firstReport s.cur.pass (ahead cfg s) with
    | none =>
      have hzero : (points + 0) % 2 ^ 32 = points := Nat.mod_eq_of_lt hpoints
      rw [reports_of_none hf, List.length_nil, hzero]
      exact gives_pure hc.onward
    | some p =>
      obtain ⟨r, rest⟩ := p
      obtain ⟨front, hfront⟩ := firstReport_mem hf
      have hreports := reports_of_first hf
      have hrest : ahead cfg (post (cursorNext cfg) s) = rest := by
        rw [hc.ahead, hf]
        rfl
      cases r with
      | error r => exact absurd (hfront ▸ List.mem_append_right front List.mem_cons_self) (hsound r)
      | ok x =>
        have hsound' : Sound (ahead cfg (post (cursorNext cfg) s)) := hc.ahead ▸ hsound.behind _
        have hlen : (reports s.cur.pass (ahead cfg s)).length = (reports s.cur.pass rest).length + 1 := by
          rw [hreports, List.length_cons]
        have hpass := hc.onward.pass
        have hgo := ih ((points + 1) % 2 ^ 32) hc.poised hsound' (by rw [hpass, hrest]; omega)
          (Nat.mod_lt _ (by decide))
        rw [hpass, hrest, Nat.mod_add_mod, Nat.add_assoc, Nat.add_comm 1] at hgo
        rw [hlen]
        exact ⟨hgo.1, hc.onward.trans hgo.2⟩

theorem ahead_length {s : CurSt} (h : Poised cfg s) : (ahead cfg s).length <
    cursorFuel cfg s + ((s.app.slotFind s.cur.streamName).map fun i => (s.app.slotAt i).ingestUsed).getD 0 + 1 := by
  have hfiles := filesAhead_length h.walkable h.standing
  have hbuf : (bufAhead cfg s.cur s.app).length ≤
      ((s.app.slotFind s.cur.streamName).map fun i => (s.app.slotAt i).ingestUsed).getD 0 := by
    unfold bufAhead
    cases s.app.slotFind s.cur.streamName with
    | none => exact Nat.le_refl _
    | some i => exact Nat.le_of_lt_succ (bufItems_length cfg _ _ _)
  unfold ahead
  split
  · rw [List.length_append]
    omega
  · rw [List.length_append]
    omega

theorem countScan_spec (hF : Family cfg N) (hW : World cfg N U a A) {h : Nat} (window : Window)
    (hr : A.readable cfg h = some name) :
    Gives (do
        let c ← cursorOpenDir cfg h window none false
        let a ← get
        let used := ((a.slotFind name).map fun i => (a.slotAt i).ingestUsed).getD 0
        return (← withCursor c (countScan cfg (cursorFuel cfg ⟨c, a⟩ + used + 1) 0)).1 : AppM Status Nat) a
      (.ok (A.points name window)) fun b => World cfg N U b A := by
  obtain ⟨c, b, hopen, hW', hpoised, hpass, hahead, -, hname⟩ := cursorOpenDir_spec hF hW window none false hr
  have hlen := ahead_length hpoised
  have hreports : reports (CursorCtx.pass c) (ahead cfg ⟨c, b⟩) = (view window none false (A.logs name)).map .ok := by
    rw [hpass, hahead, reports_log]
  have hle : (reports (CursorCtx.pass c) (ahead cfg ⟨c, b⟩)).length ≤ (ahead cfg ⟨c, b⟩).length :=
    List.length_filterMap_le _ _
  have hsound : Sound (ahead cfg ⟨c, b⟩) := by
    rw [hahead]
    exact sound_found false _
  obtain ⟨s, hscan, hon⟩ := (countScan_gives _ 0 hpoised hsound (Nat.lt_of_le_of_lt hle hlen) (by decide)).run_ok
  rw [show CurSt.cur ⟨c, b⟩ = c from rfl, show CurSt.app ⟨c, b⟩ = b from rfl, hname, hreports, List.length_map,
    Nat.zero_add] at hscan
  exact gives_then hopen (gives_then (run_get b) (gives_ok (run_then (run_withCursor hscan) rfl) (hW'.alike hon.alike)))

theorem countFile_seg {e : Sys} {path : Path} {g : Seg Format.fits} (hc : e.Clean)
    (h : e.look path = some (segBytes name g)) :
    ∃ e', (countFile path).run e = .ok g.items.length e' ∧ Leads e e.look e' := by
  obtain ⟨e₁, h₁, l₁⟩ := fsStat_existing hc h
  obtain ⟨e₂, h₂, l₂⟩ := run_cursorLearnLayout (l₁.clean hc) (by rw [l₁.look]; exact h)
    (layoutOf_header name g.format (g.format.records g.items))
  have hwhole : ((segBytes name g).length - g.format.layout.hdrSize) / g.format.layout.recSize = g.items.length := by
    rw [segBytes_length, show g.format.layout.hdrSize = g.format.hdrSize from rfl, Nat.add_sub_cancel_left]
    exact Nat.mul_div_cancel _ g.format.recSize_pos
  refine ⟨e₂, run_then (run_attempt_ok h₁) (run_then (run_attempt_ok h₂) ?_), l₁.trans (l₁.look ▸ l₂)⟩
  rw [← hwhole]
  rfl

theorem countSegments_spec {L : Log} (hadm : Admissible cfg name) (hs : cfg.segmented = true) (hbound : L.past.length < 10000)
    (ks : List Nat) {e : Sys} (hc : e.Clean) (hf : SegFiles cfg name L e.look)
    (hks : ∀ k ∈ ks, L.lo ≤ k ∧ k ≤ L.past.length) :
    ∃ e', (countSegments cfg name ks).run e = .ok ((ks.map fun k => (L.seg k).items.length).sum) e' ∧ Leads e e.look e' := by
  induction ks generalizing e with
  | nil => exact ⟨e, rfl, Leads.refl e⟩
  | cons k ks ih =>
    obtain ⟨hlo, hhi⟩ := hks k List.mem_cons_self
    have hfile := hf.file k hlo hhi
    rw [segFile_of_segmented hs] at hfile
    obtain ⟨e₁, h₁, l₁⟩ := countFile_seg hc hfile
    obtain ⟨e₂, h₂, l₂⟩ := ih (l₁.clean hc) (show SegFiles cfg name L e₁.look from l₁.look ▸ hf)
      fun j hj => hks j (List.mem_cons_of_mem k hj)
    refine ⟨e₂, ?_, l₁.trans (l₁.look ▸ l₂)⟩
    have hpath : (rethrow ((buildSegmentPath cfg name k).mapError statusFromErrno) : Zdb Path).run e =
        .ok (segmentPath cfg name k) e := by
      rw [hadm.buildSegmentPath hs (Nat.lt_of_le_of_lt hhi hbound)]
      rfl
    exact run_then hpath (run_then h₁ (run_then h₂ rfl))

theorem stored_length (L : Log) :
    ((List.range' L.lo (L.past.length + 1 - L.lo)).map fun k => (L.seg k).items.length).sum + L.buf.length =
      (Log.records L).length := by
  have hlo := L.lo_le
  have hn : L.past.length + 1 - L.lo = L.past.length - L.lo + 1 := by omega
  have hsegs : ∀ gs : List (Seg Format.fits), (gs.map fun g => g.items.length).sum = (gs.flatMap segRecords).length := by
    intro gs
    rw [List.length_flatMap]
    simp [segRecords]
  have hmap : (List.range' L.lo (L.past.length - L.lo + 1)).map (fun k => (L.seg k).items.length) =
      (L.past.drop L.lo ++ [L.cur]).map fun g => g.items.length := by
    rw [← retained_segs, List.map_map]
    rfl
  rw [hn, hmap, hsegs, Log.records, List.flatMap_append, List.flatMap_singleton]
  simp [Log.bufRecords, Nat.add_assoc]

theorem view_unbounded {window : Window} (hw : windowIsUnbounded window = true) (L : Log) :
    view window none false L = Log.records L := by
  unfold view
  rw [if_neg Bool.false_ne_true]
  apply List.filter_eq_self.mpr
  intro r _
  simp [admits, windowMatch_of_unbounded hw]

/-- What the count needs of a segmented stream: it reads the segment window off the slot, scanned or not. -/
def Counts (cfg : Cfg) (a : App) (h : Nat) (window : Window) : Prop :=
  cfg.segmented = true → windowIsUnbounded window = true →
    ∀ name i, a.handles h = some name → a.slotFind name = some i → (a.slotAt i).segsScanned = true

theorem slot_count {L : Log} {slot : StreamCtx} (hb : Buffered cfg L slot) (hs : Speaks cfg slot L.cur.format) :
    slot.ingestUsed / slotRecSize cfg slot = L.buf.length := by
  rw [hs.recSize, hb.used]
  exact Nat.mul_div_cancel _ L.cur.format.recSize_pos

theorem tsCountAll_segmented (hF : Family cfg N) (hW : World cfg N U a A) (hup : a.cfgSet = true)
    (hs : cfg.segmented = true) {i : Nat} (hi : a.slotFind name = some i) (hscan : (a.slotAt i).segsScanned = true) :
    Gives (tsCountAll cfg name) a (.ok ((Log.records (A.logs name)).length % 2 ^ 32)) fun b => World cfg N U b A := by
  obtain ⟨hin, hname⟩ := slotFind_some hi
  have hadm := hF.admissible name (hname ▸ hW.mine i hin)
  have hrep := hW.rep_find hi
  have hready : Ready cfg name (A.logs name) ⟨a.slotAt i, a.env⟩ := by
    cases hrep.known with
    | learned hl hf => exact ⟨hrep.clean, hrep.named, hrep.bound, hrep.buffered, hl, hf⟩
    | unlearned _ hu =>
      rw [hu.scanned] at hscan
      cases hscan
  have hlearned := hready.learned hs
  obtain ⟨e, h₁, l₁⟩ := countSegments_spec hadm hs hready.bound
    (List.range' (A.logs name).lo ((A.logs name).past.length + 1 - (A.logs name).lo)) hW.clean hready.files fun k hk => by
      rw [List.mem_range'_1] at hk
      omega
  apply gives_then (run_get a)
  rw [hi]
  dsimp only [Option.map_some]
  rw [if_neg (by simp [hup]), if_pos hs, hlearned.oldestSeg, hlearned.curSeg, slot_count hready.buffered hready.speaks,
    ← stored_length]
  exact gives_then (run_onEnv h₁) (gives_pure (hW.alike (alike_env a l₁)))

theorem stored_single {L : Log} {look : Path → Option Bytes} (hs : cfg.segmented = false)
    (h : Stored cfg name L look) : L.past = [] := by
  cases h with
  | files hf => exact (hf.single hs).1
  | absent hpast => exact hpast
  | legacy hseg => rw [hs] at hseg; cases hseg

theorem countStream_spec {L : Log} (hadm : Admissible cfg name) (hs : cfg.segmented = false) {e : Sys} (hc : e.Clean)
    (h : Stored cfg name L e.look) :
    ∃ e', (countStream cfg name).run e = .ok L.cur.items.length e' ∧ Leads e e.look e' := by
  have hpath : (rethrow ((buildPath cfg name).mapError statusFromErrno) : Zdb Path).run e = .ok (streamPath cfg name) e := by
    rw [hadm.buildPath]
    rfl
  cases h with
  | files hf =>
    have hfile := hf.cur
    rw [segFile_of_single hs] at hfile
    obtain ⟨e₁, h₁, l₁⟩ := fsStat_existing hc hfile
    obtain ⟨e₂, h₂, l₂⟩ := run_cursorLearnLayout (l₁.clean hc) (by rw [l₁.look]; exact hfile)
      (layoutOf_header name L.cur.format (L.cur.format.records L.cur.items))
    have hwhole : ((segBytes name L.cur).length - L.cur.format.layout.hdrSize) / L.cur.format.layout.recSize =
        L.cur.items.length := by
      rw [segBytes_length, show L.cur.format.layout.hdrSize = L.cur.format.hdrSize from rfl, Nat.add_sub_cancel_left]
      exact Nat.mul_div_cancel _ L.cur.format.recSize_pos
    refine ⟨e₂, run_then hpath (run_then (run_attempt_ok h₁) (run_then (run_attempt_ok h₂) ?_)), l₁.trans (l₁.look ▸ l₂)⟩
    rw [← hwhole]
    rfl
  | absent _ hitems _ hnone =>
    obtain ⟨e₁, h₁, l₁⟩ := fsStat_missing hc hnone
    refine ⟨e₁, run_then hpath (run_then (run_attempt_error h₁) ?_), l₁⟩
    rw [hitems]
    rfl
  | legacy hseg => rw [hs] at hseg; cases hseg

theorem tsCountAll_single (hF : Family cfg N) (hW : World cfg N U a A) (hup : a.cfgSet = true) (hN : N name)
    (hs : cfg.segmented = false) :
    Gives (tsCountAll cfg name) a (.ok ((Log.records (A.logs name)).length % 2 ^ 32)) fun b => World cfg N U b A := by
  have hadm := hF.admissible name hN
  have hstored : Stored cfg name (A.logs name) a.env.look := by
    cases hf : a.slotFind name with
    | none => exact (hW.stored name hN hf).1
    | some i => exact (hW.rep_find hf).stored
  have hpast := stored_single hs hstored
  have hlen : (A.logs name).cur.items.length + (A.logs name).buf.length = (Log.records (A.logs name)).length := by
    simp [Log.records, Log.bufRecords, segRecords, hpast]
  obtain ⟨e, h₁, l₁⟩ := countStream_spec hadm hs hW.clean hstored
  apply gives_then (run_get a)
  dsimp only
  rw [if_neg (by simp [hup]), if_neg (by simp [hs]), ← hlen]
  apply gives_then (run_onEnv h₁)
  cases hf : a.slotFind name with
  | none =>
    have hbuf := (hW.stored name hN hf).2.1
    rw [hbuf]
    exact gives_pure (hW.alike (alike_env a l₁))
  | some i =>
    have hrep := hW.rep_find hf
    have hready : Ready cfg name (A.logs name) ⟨a.slotAt i, a.env⟩ := by
      cases hrep.known with
      | learned hl hfiles => exact ⟨hrep.clean, hrep.named, hrep.bound, hrep.buffered, hl, hfiles⟩
      | unlearned hseg => rw [hs] at hseg; cases hseg
    dsimp only [Option.map_some]
    rw [slot_count hready.buffered hready.speaks]
    exact gives_pure (hW.alike (alike_env a l₁))

theorem tsCountAll_spec (hF : Family cfg N) (hW : World cfg N U a A) {h : Nat} {window : Window}
    (hw : windowIsUnbounded window = true) (hcounts : Counts cfg a h window) (hh : a.handles h = some name)
    {r : Option Bytes} (hr : A.readable cfg h = r) :
    Gives (tsCountAll cfg name) a (r.elim (.error .ERR_INVAL) fun name => .ok (A.points name window))
      fun b => World cfg N U b A := by
  have hpoints : A.points name window = (Log.records (A.logs name)).length % 2 ^ 32 := by
    rw [Store.points, view_unbounded hw]
  unfold Store.readable at hr
  simp only [← hW.handles, hh, ← hW.running, hW.find_eq] at hr
  by_cases hup : a.cfgSet = true
  · cases hs : cfg.segmented with
    | true =>
      cases hi : a.slotFind name with
      | none =>
        simp only [hup, hs, hi, Bool.not_true, Option.isSome_none, Bool.or_self, Bool.and_false, Bool.false_eq_true,
          if_false] at hr
        subst hr
        apply gives_then (run_get a)
        dsimp only
        rw [if_neg (by simp [hup]), if_pos hs, hi]
        exact gives_throw hW
      | some i =>
        simp only [hup, hi, Option.isSome_some, Bool.or_true, Bool.and_self, if_true] at hr
        subst hr
        rw [Option.elim_some, hpoints]
        exact tsCountAll_segmented hF hW hup hs hi (hcounts hs hw name i hh hi)
    | false =>
      simp only [hup, hs, Bool.not_false, Bool.true_or, Bool.and_self, if_true] at hr
      subst hr
      rw [Option.elim_some, hpoints]
      exact tsCountAll_single hF hW hup (hW.bound h name hh) hs
  · simp only [hup, Bool.false_and, Bool.false_eq_true, if_false] at hr
    subst hr
    apply gives_then (run_get a)
    dsimp only
    rw [if_pos (by simpa using hup)]
    exact gives_fail rfl hW

theorem readable_handle {h : Nat} (hr : A.readable cfg h = some name) : A.handles h = some name := by
  unfold Store.readable at hr
  cases hh : A.handles h with
  | none => rw [hh] at hr; cases hr
  | some name' =>
    rw [hh] at hr
    dsimp only at hr
    split at hr
    · exact hr
    · cases hr

/-- `zdb_ts_query_aggregate` for COUNT counts what a cursor over the window would report. -/
theorem count_spec (hF : Family cfg N) (hW : World cfg N U a A) (h : Nat) (window : Window)
    (hcounts : Counts cfg a h window) :
    (step cfg a (.count h window)).1 = (A.step cfg (.count h window)).1 ∧
      World cfg N U (step cfg a (.count h window)).2 (A.step cfg (.count h window)).2 := by
  simp only [step, Store.step]
  cases hh : a.handles h with
  | none =>
    have hr : A.readable cfg h = none := by rw [Store.readable, ← hW.handles, hh]
    have hg : Gives (tsQueryCount cfg h window) a (.error .ERR_INVAL) fun b => World cfg N U b A := by
      apply gives_then (run_get a)
      rw [hh]
      exact gives_throw hW
    rw [hr]
    exact exec_gives (f := Answer.points) hg
  | some name =>
    have hstart : ∀ {r : Except Status Nat}, Gives (if windowIsUnbounded window then tsCountAll cfg name
        else do
          let c ← cursorOpenDir cfg h window none false
          let a ← get
          let used := ((a.slotFind name).map fun i => (a.slotAt i).ingestUsed).getD 0
          return (← withCursor c (countScan cfg (cursorFuel cfg ⟨c, a⟩ + used + 1) 0)).1 : AppM Status Nat) a r
          (fun b => World cfg N U b A) → Gives (tsQueryCount cfg h window) a r fun b => World cfg N U b A := by
      intro r hg
      apply gives_then (run_get a)
      rw [hh]
      exact hg
    by_cases hw : windowIsUnbounded window = true
    · have hg := tsCountAll_spec hF hW hw hcounts hh rfl
      rw [if_pos hw] at hstart
      cases hr : A.readable cfg h with
      | none =>
        rw [hr] at hg
        exact exec_gives (f := Answer.points) (hstart hg)
      | some name' =>
        rw [hr] at hg
        exact exec_gives (f := Answer.points) (hstart hg)
    · rw [if_neg hw] at hstart
      cases hr : A.readable cfg h with
      | none =>
        obtain ⟨b, hrun, hW'⟩ := cursorOpenDir_refused hW window none false hr
        exact exec_gives (f := Answer.points) (hstart (gives_fail hrun hW'))
      | some name' =>
        have hname : some name = some name' := by
          rw [← hh, hW.handles]
          exact readable_handle hr
        cases hname
        exact exec_gives (f := Answer.points) (hstart (countScan_spec hF hW window hr))

end World

end ZephyrDB.Ts
