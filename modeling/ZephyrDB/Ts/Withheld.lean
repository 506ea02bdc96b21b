import ZephyrDB.Ts.Opened
import ZephyrDB.Ts.Salvage

/-!
What a cursor shows of a stream's newest file before the recovery pass and after it.
-/

set_option autoImplicit false

namespace ZephyrDB.Ts

open Lib

/-- What at most `n` calls find in the files, until they are done or a record fails. -/
def fileSteps (cfg : Cfg) : Nat → CurM Status (List (Bytes × Sample))
  | 0 => return []
  | n + 1 => do
    match ← attempt (ε := Status) (cursorNextFile cfg (cursorFuel cfg (← get) + 1)) with
    | .ok (some x) => return x :: (← fileSteps cfg n)
    | .ok none => return []
    | .error _ => return []

/-- A cursor opens file `k` of a stream. -/
def cursorOpenOne (cfg : Cfg) (name : Bytes) (k : Nat) : CurM Status Unit :=
  if cfg.segmented then cursorOpenSegment cfg k else cursorOpenStream cfg name

/-- An ascending cursor over file `k` of a stream alone, opened and reset as `zdb_ts_cursor_open_dir`
does, and at most `n` calls of it. -/
def fileWalk (cfg : Cfg) (name : Bytes) (k n : Nat) : AppM Status (List (Bytes × Sample)) := do
  let (_, c) ← withCursor (CursorCtx.start name Window.all none false k k) do
    cursorOpenOne cfg name k
    cursorReset
  return (← withCursor c (fileSteps cfg n)).1

def fileYield (cfg : Cfg) (name : Bytes) (k n : Nat) (a : App) : List (Bytes × Sample) :=
  match outcome (fileWalk cfg name k n) a with
  | .ok xs => xs
  | .error _ => []

/-- Every sample that a walk over file `k` yields in one state is yielded in another. -/
def StillReadable (cfg : Cfg) (name : Bytes) (k : Nat) (a b : App) : Prop :=
  ∀ n, ∃ m, (fileYield cfg name k n a).Sublist (fileYield cfg name k m b)

section Walks
variable {cfg : Cfg}

theorem admitted_all (x : Bytes × Sample) : admitted Window.all none x = true := by
  rw [admitted, windowMatch_of_unbounded (by decide)]
  rfl

theorem fileSteps_gives (n : Nat) {s : CurSt} (h : Walkable cfg s) (hs : Standing cfg s)
    (hall : ∀ x, s.cur.pass x = true) :
    outcome (fileSteps cfg n) s = .ok ((handed (s.cur.filesAhead cfg s.app.env)).take n) := by
  induction n generalizing s with
  | zero => rfl
  | succ n ih =>
    have hnext := nextFile_gives h (filesAhead_length h hs)
    have hget : (get : CurM Status CurSt).run s = .ok s s := rfl
    rw [handed_of_first hall]
    cases hf : firstReport s.cur.pass (s.cur.filesAhead cfg s.app.env) with
    | none =>
      rw [hf] at hnext
      obtain ⟨t, hrun, -⟩ := hnext.run_ok
      exact outcome_of_run (run_then hget (run_then (run_attempt_ok hrun) rfl))
    | some p =>
      obtain ⟨r, rest⟩ := p
      rw [hf] at hnext
      cases r with
      | error rc =>
        obtain ⟨t, hrun, -⟩ := hnext.run_error
        exact outcome_of_run (run_then hget (run_then (run_attempt_error hrun) rfl))
      | ok x =>
        obtain ⟨t, hrun, ht⟩ := hnext.run_ok
        have hrest := ih ht.walkable (ht.onward.standing hs) fun y => by
          rw [ht.onward.pass]
          exact hall y
        have hahead : t.cur.filesAhead cfg t.app.env = rest := ht.ahead
        rw [hahead] at hrest
        exact outcome_of_run (run_then hget (run_then (run_attempt_ok hrun) (run_then (run_of_outcome hrest) rfl)))

theorem run_openOne {a : App} {name : Bytes} {descending : Bool} {k : Nat} (window : Window)
    (predicate : Option (Bytes → Bool)) (hspan : Span cfg a name descending k k) :
    ∃ t, (cursorOpenOne cfg name k).run ⟨CursorCtx.start name window predicate descending k k, a⟩ = .ok () t ∧
      Rewinds cfg ⟨CursorCtx.start name window predicate descending k k, a⟩ t ∧
      AtStart t.cur (segFile cfg name k) (a.env.contents (segFile cfg name k)) := by
  have hopen := hspan.files k (Nat.le_refl _) (Nat.le_refl _)
  have hfirst : (CursorCtx.start name window predicate descending k k).curSeg = k := by
    cases descending <;> rfl
  unfold cursorOpenOne
  cases hs : cfg.segmented with
  | true =>
    obtain ⟨t, hrun, hr, hseg, hstart⟩ := run_openSegment
      (s := ⟨CursorCtx.start name window predicate descending k k, a⟩) hs hspan.clean hspan.valid hopen
    exact ⟨t, hrun, ⟨hr.alike, hr.query.name, hr.query.window, hr.query.predicate, hr.query.descending,
      hr.query.segLo, hr.query.segHi, hseg.trans hfirst.symm⟩, hstart⟩
  | false =>
    obtain ⟨t, hrun, hr, hseg, hstart⟩ := run_openStream
      (s := ⟨CursorCtx.start name window predicate descending k k, a⟩) hs hspan.clean hspan.valid hopen
    exact ⟨t, hrun, ⟨hr.alike, hr.query.name, hr.query.window, hr.query.predicate, hr.query.descending,
      hr.query.segLo, hr.query.segHi, hseg⟩, hstart⟩

theorem fileYield_eq {a : App} {name : Bytes} {k : Nat} (n : Nat) (hspan : Span cfg a name false k k) :
    fileYield cfg name k n a = (handed (segmentItems (a.env.contents (segFile cfg name k)) false)).take n := by
  obtain ⟨t, hrun, hr, hstart⟩ := run_openOne Window.all none hspan
  obtain ⟨c, b, hbegin, hopened⟩ := run_begin Window.all none hspan ⟨t, hrun, hr, hstart.toOnFile⟩
  have hspan' := hopened.span hspan
  have hsteps := fileSteps_gives n (hopened.started.walkable hspan') hopened.started.start.toOnFile fun x => by
    rw [hopened.pass]
    exact admitted_all x
  have hwith : (withCursor c (fileSteps cfg n)).run b =
      .ok ((handed (c.filesAhead cfg b.env)).take n, (post (fileSteps cfg n) ⟨c, b⟩).cur)
        (post (fileSteps cfg n) ⟨c, b⟩).app := run_withCursor (run_of_outcome hsteps)
  have hahead : c.filesAhead cfg b.env = segmentItems (a.env.contents (segFile cfg name k)) false := by
    have hfiles := hopened.started.files hspan'
    rw [hopened.name, hopened.descending, hopened.segLo, hopened.segHi, spanItems_congr hopened.alike.env] at hfiles
    rw [hfiles, spanItems, segsBetween_cons false (Nat.le_refl k)]
    simp
  have hout : outcome (fileWalk cfg name k n) a = .ok ((handed (c.filesAhead cfg b.env)).take n) :=
    outcome_of_run (run_then hbegin (run_then hwith rfl))
  rw [fileYield, hout, hahead]

end Walks

/-- A record that decodes stands behind one of an unsupported version, and no record before it fails. -/
def Withholds (layout : FileLayout) (bs : Bytes) : Prop := HandedBehind (fileItems layout (bs.drop layout.hdrSize))

section Left
variable {cfg : Cfg} {layout : FileLayout}

theorem found_fileItem (layout : FileLayout) (raw : Bytes) : found (fileItem layout raw) = layout.good raw := by
  unfold fileItem FileLayout.good
  by_cases hlen : raw.length = layout.recSize
  · rw [if_pos hlen]
    cases hd : decoded layout.version layout.baseTsMs raw with
    | ok sample =>
      rw [recordItem_ok hd]
      simp [hlen, found, Except.isOk, Except.toBool]
    | error r =>
      rcases decoded_error hd with rfl | rfl
      · rw [recordItem_corrupt hd]
        simp [found, Except.isOk, Except.toBool]
      · rw [recordItem_unsupported hd]
        simp [found, Except.isOk, Except.toBool]
  · rw [if_neg hlen]
    simp [hlen, found]

theorem fileItems_good (hr : 0 < layout.recSize) (bs : Bytes) :
    fileItems layout (bs.take (layout.goodRecords bs * layout.recSize)) = (fileItems layout bs).takeWhile found := by
  have hfound : found ∘ fileItem layout = layout.good := funext (found_fileItem layout)
  have hprefix := List.prefix_iff_eq_take.mp (List.takeWhile_prefix (l := chunks layout.recSize bs) layout.good)
  unfold fileItems
  rw [chunks_take hr (goodRecords_le hr bs), List.takeWhile_map, hfound, hprefix]
  rfl

theorem segmentItems_cut {bs : Bytes} (hl : layoutOf bs = .ok layout) (hlen : layout.hdrSize ≤ bs.length) :
    handed (segmentItems bs false) = handed (segmentItems (bs.take (layout.goodEnd bs)) false) ++
      handed ((fileItems layout (bs.drop layout.hdrSize)).dropWhile found) := by
  have hr := layoutOf_recSize hl
  have hl' : layoutOf (bs.take (layout.goodEnd bs)) = .ok layout := layoutOf_take hl (Nat.le_add_right _ _) hlen
  rw [segmentItems_ascending hl, segmentItems_ascending hl', handed_split, List.drop_take, FileLayout.goodEnd,
    Nat.add_sub_cancel_left, fileItems_good hr]

theorem fronts_iff {α : Type} (xs ys : List α) :
    (∀ n, ∃ m, ((xs ++ ys).take n).Sublist (xs.take m)) ↔ ys = [] := by
  constructor
  · intro h
    obtain ⟨m, hm⟩ := h (xs ++ ys).length
    have hle := hm.length_le
    rw [List.take_length, List.length_append, List.length_take] at hle
    exact List.eq_nil_of_length_eq_zero (by omega)
  · rintro rfl n
    rw [List.append_nil]
    exact ⟨n, List.Sublist.refl _⟩

theorem recoverPath_valid {name : Bytes} {a b : App} {path : Path} (h : (recoverPath cfg name).run a = .ok path b) :
    a.cfgSet = true ∧ streamNameValid cfg name = true ∧ path.length < PATH_MAX := by
  have hbuilt : ∀ {n entry : Bytes}, buildEntryPath cfg n entry = .ok path →
      streamNameValid cfg n = true ∧ path.length < PATH_MAX := by
    intro n entry hb
    have hp := buildEntryPath_ok hb
    subst hp
    unfold buildEntryPath at hb
    split at hb
    · cases hb
    · rename_i hv
      split at hb
      · cases hb
      · rename_i hlt
        exact ⟨by simpa using hv, Nat.not_le.mp hlt⟩
  unfold recoverPath at h
  by_cases hs : cfg.segmented = true
  · rw [if_pos hs] at h
    obtain ⟨_, c, hctx, h⟩ := of_run_bind h
    have hup : a.cfgSet = true := by
      by_contra hdown
      rw [run_tsCtxGetOrAlloc_down (by simpa using hdown)] at hctx
      cases hctx
    obtain ⟨_, c', hget, h⟩ := of_run_bind h
    cases hget
    cases hi : c.slotFind name with
    | none =>
      rw [hi] at h
      cases h
    | some i =>
      rw [hi] at h
      dsimp only at h
      obtain ⟨t, hpath, rfl⟩ := of_run_zoom (of_run_adapt h)
      have hname := (slotFind_some hi).2
      unfold activePath at hpath
      rw [if_pos hs] at hpath
      obtain ⟨_, u, hscan, hrest⟩ := of_run_bind hpath
      obtain ⟨slot, v, hslot, hbuild⟩ := of_run_bind hrest
      cases hslot
      have hmoves := keeps_scanSegments hs ⟨c.slotAt i, c.env⟩
      rw [Keeps, post_of_run (of_run_adapt hscan)] at hmoves
      have hvalid := hbuilt (run_rethrow.mp hbuild).1
      rw [hmoves.name, hname] at hvalid
      exact ⟨hup, hvalid⟩
  · rw [if_neg hs] at h
    obtain ⟨_, c, hget, h⟩ := of_run_bind h
    cases hget
    dsimp only at h
    by_cases hup : a.cfgSet = true
    · rw [if_neg (by rw [hup]; decide)] at h
      exact ⟨hup, hbuilt (mapError_ok (run_rethrow.mp h).1)⟩
    · rw [if_pos (by simp [hup])] at h
      cases h

theorem fileYield_around {a : App} {h k : Nat} {name bs : Bytes} (hc : a.env.Clean) (hh : a.handles h = some name)
    (hfile : a.env.look (segFile cfg name k) = some bs)
    (ht : recoverTarget cfg name a = some (segFile cfg name k, bs)) (hv : headerValid name bs = true) :
    ∃ layout n b kept, layoutOf bs = .ok layout ∧ (tsRecoverStream cfg h).run a = .ok n b ∧
      (∀ n, fileYield cfg name k n a =
        (kept ++ handed ((fileItems layout (bs.drop layout.hdrSize)).dropWhile found)).take n) ∧
      ∀ n, fileYield cfg name k n b = kept.take n := by
  obtain ⟨c, hcArr, -⟩ := recoverTarget_arrives hc ht
  obtain ⟨hup, hvalid, hpath⟩ := recoverPath_valid hcArr.found
  obtain ⟨b, hrun, hlook, -, hclean, hheld⟩ := run_recover_passes hc hh ht (headerPasses_of_valid hv)
  obtain ⟨layout, hl, hlen⟩ : ∃ layout, layoutOf bs = .ok layout ∧ layout.hdrSize ≤ bs.length := by
    unfold headerValid at hv
    cases hl : layoutOf bs with
    | error r => rw [hl] at hv; cases hv
    | ok layout =>
      rw [hl] at hv
      simp only [Bool.and_eq_true, decide_eq_true_eq] at hv
      exact ⟨layout, rfl, hv.1⟩
  have hl' : layoutOf (bs.take (layout.goodEnd bs)) = .ok layout := layoutOf_take hl (Nat.le_add_right _ _) hlen
  rw [probed_of_layout hl] at hlook
  have hspan : ∀ {d : App} {cs : Bytes}, d.env.Clean → d.cfgSet = true → d.env.look (segFile cfg name k) = some cs →
      layoutOf cs = .ok layout → Span cfg d name false k k := fun hd hset hcs hlay =>
    ⟨hd, hset, hvalid, Nat.le_refl k, fun _ => rfl, fun j hlo hhi => by
      obtain rfl := Nat.le_antisymm hhi hlo
      exact ⟨hpath, _, layout, hcs, hlay, fun hno => nomatch hno⟩⟩
  have hset : b.cfgSet = true := (show b.cfgSet = a.cfgSet from congrArg (fun x => x.2.2) hheld).trans hup
  refine ⟨layout, _, b, handed (segmentItems (bs.take (layout.goodEnd bs)) false), hl, hrun, fun n => ?_, fun n => ?_⟩
  · rw [fileYield_eq n (hspan hc hup hfile hl), Env.contents_eq, hfile, ← segmentItems_cut hl hlen]
    rfl
  · rw [fileYield_eq n (hspan hclean hset hlook hl'), Env.contents_eq, hlook]
    rfl

/-- A recovery pass leaves every sample readable that a walk over the file yielded exactly when no record
that decodes stands behind one of an unsupported version, before the first that fails. -/
theorem recovery_keeps_iff {a : App} {h k : Nat} {name bs : Bytes} (hc : a.env.Clean) (hh : a.handles h = some name)
    (hfile : a.env.look (segFile cfg name k) = some bs)
    (ht : recoverTarget cfg name a = some (segFile cfg name k, bs)) (hv : headerValid name bs = true) :
    ∃ layout n b, layoutOf bs = .ok layout ∧ (tsRecoverStream cfg h).run a = .ok n b ∧
      (StillReadable cfg name k a b ↔ ¬ Withholds layout bs) := by
  obtain ⟨layout, n, b, kept, hl, hrun, hbefore, hafter⟩ := fileYield_around hc hh hfile ht hv
  refine ⟨layout, n, b, hl, hrun, ?_⟩
  unfold StillReadable
  simp only [hbefore, hafter]
  rw [fronts_iff, Withholds, ← handed_behind_iff, not_not]

end Left

/-- A record stays readable when the bytes of a torn one are cut off behind it. -/
theorem torn_tail_readable : ∃ layout n b,
    layoutOf (streamHeaderEncode [65] ++ (recordEncode ⟨5, 7⟩ ++ [1, 2, 3])) = .ok layout ∧
      (tsRecoverStream (Cfg.plain false 0) 0).run (App.holding (Cfg.plain false 0) (recordEncode ⟨5, 7⟩ ++ [1, 2, 3])) =
        .ok n b ∧
      (StillReadable (Cfg.plain false 0) [65] 0
          (App.holding (Cfg.plain false 0) (recordEncode ⟨5, 7⟩ ++ [1, 2, 3])) b ↔
        ¬ Withholds layout (streamHeaderEncode [65] ++ (recordEncode ⟨5, 7⟩ ++ [1, 2, 3]))) :=
  recovery_keeps_iff (k := 0) (holding_clean _ _) (holding_handle _ _) (by decide +kernel) (by decide +kernel)
    (by decide +kernel)

/-- A record, one of version 2, and a record of version 1 again. -/
def mixedRecords : Bytes := recordEncode ⟨5, 7⟩ ++ ((recordEncode ⟨6, 8⟩).set 4 2 ++ recordEncode ⟨7, 9⟩)

/-- A cursor steps over the record of version 2; the recovery pass cuts it off, and the good one behind it. -/
theorem unsupported_hides_good : ∃ n b,
    (App.holding (Cfg.plain false 0) mixedRecords).env.look (segFile (Cfg.plain false 0) [65] 0) =
      some (streamHeaderEncode [65] ++ mixedRecords) ∧
    recoverTarget (Cfg.plain false 0) [65] (App.holding (Cfg.plain false 0) mixedRecords) =
      some (segFile (Cfg.plain false 0) [65] 0, streamHeaderEncode [65] ++ mixedRecords) ∧
    headerValid [65] (streamHeaderEncode [65] ++ mixedRecords) = true ∧
    (tsRecoverStream (Cfg.plain false 0) 0).run (App.holding (Cfg.plain false 0) mixedRecords) = .ok n b ∧
    ¬ StillReadable (Cfg.plain false 0) [65] 0 (App.holding (Cfg.plain false 0) mixedRecords) b := by
  have hfile : (App.holding (Cfg.plain false 0) mixedRecords).env.look (segFile (Cfg.plain false 0) [65] 0) =
      some (streamHeaderEncode [65] ++ mixedRecords) := by decide +kernel
  have htarget : recoverTarget (Cfg.plain false 0) [65] (App.holding (Cfg.plain false 0) mixedRecords) =
      some (segFile (Cfg.plain false 0) [65] 0, streamHeaderEncode [65] ++ mixedRecords) := by decide +kernel
  have hvalid : headerValid [65] (streamHeaderEncode [65] ++ mixedRecords) = true := by decide +kernel
  obtain ⟨layout, n, b, kept, hl, hrun, hbefore, hafter⟩ := fileYield_around (k := 0) (holding_clean _ mixedRecords)
    (holding_handle _ _) hfile htarget hvalid
  refine ⟨n, b, hfile, htarget, hvalid, hrun, ?_⟩
  have hv1 : layoutOf (streamHeaderEncode [65] ++ mixedRecords) = .ok FileLayout.v1 := by
    unfold layoutOf
    rw [if_neg (by decide +kernel), if_pos (by decide +kernel)]
  rw [hv1] at hl
  cases hl
  unfold StillReadable
  simp only [hbefore, hafter]
  rw [fronts_iff]
  decide +kernel

end ZephyrDB.Ts
