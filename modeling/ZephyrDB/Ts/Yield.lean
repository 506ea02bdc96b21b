import ZephyrDB.Ts.Reading

/-!
What the calls on a cursor answer: each takes the first report of all that the
cursor has ahead of it, so a walk takes one report after the other.
-/

set_option autoImplicit false

namespace ZephyrDB.Ts

open Lib

def CursorCtx.pass (c : CursorCtx) (x : Bytes × Sample) : Bool := c.admits x.1 x.2

structure Onward (cfg : Cfg) (s s' : CurSt) : Prop where
  alike : Alike cfg s.app s'.app
  name : s'.cur.streamName = s.cur.streamName
  window : s'.cur.window = s.cur.window
  predicate : s'.cur.predicate = s.cur.predicate
  descending : s'.cur.descending = s.cur.descending
  segLo : s'.cur.segLo = s.cur.segLo
  segHi : s'.cur.segHi = s.cur.segHi
  standing : Standing cfg s → Standing cfg s'

theorem Onward.refl (cfg : Cfg) (s : CurSt) : Onward cfg s s :=
  ⟨Alike.refl cfg s.app, rfl, rfl, rfl, rfl, rfl, rfl, id⟩

theorem Onward.trans {cfg : Cfg} {a b c : CurSt} (h : Onward cfg a b) (k : Onward cfg b c) : Onward cfg a c :=
  ⟨h.alike.trans k.alike, k.name.trans h.name, k.window.trans h.window, k.predicate.trans h.predicate,
    k.descending.trans h.descending, k.segLo.trans h.segLo, k.segHi.trans h.segHi, fun hs => k.standing (h.standing hs)⟩

theorem Onward.pass {cfg : Cfg} {s s' : CurSt} (h : Onward cfg s s') : s'.cur.pass = s.cur.pass := by
  funext x
  simp only [CursorCtx.pass, CursorCtx.admits, h.window, h.predicate]

theorem After.onward {cfg : Cfg} {s s' : CurSt} {rest : List RecItem} (h : After cfg s s' rest) : Onward cfg s s' :=
  ⟨h.reads.alike, h.reads.query.name, h.reads.query.window, h.reads.query.predicate, h.reads.query.descending,
    h.reads.query.segLo, h.reads.query.segHi, h.standing⟩

def fileAnswer : Option (Except Status (Bytes × Sample) × List RecItem) → Except Status (Option (Bytes × Sample))
  | none => .ok none
  | some (.ok x, _) => .ok (some x)
  | some (.error r, _) => .error r

def behind : Option (Except Status (Bytes × Sample) × List RecItem) → List RecItem
  | none => []
  | some (_, rest) => rest

structure FilePart (cfg : Cfg) (s s' : CurSt) (rest : List RecItem) : Prop where
  onward : Onward cfg s s'
  walkable : Walkable cfg s'
  ramOffset : s'.cur.ramOffset = s.cur.ramOffset
  ahead : s'.cur.filesAhead cfg s'.app.env = rest

section Files
variable {cfg : Cfg}

theorem After.filePart {s s' : CurSt} {rest : List RecItem} (h : After cfg s s' rest) : FilePart cfg s s' rest :=
  ⟨h.onward, h.walkable, h.reads.query.ramOffset, h.ahead⟩

theorem FilePart.after {s s' s'' : CurSt} {rest rest' : List RecItem} (h : FilePart cfg s s' rest)
    (k : FilePart cfg s' s'' rest') : FilePart cfg s s'' rest' :=
  ⟨h.onward.trans k.onward, k.walkable, k.ramOffset.trans h.ramOffset, k.ahead⟩

theorem FilePart.env {s s' : CurSt} {rest : List RecItem} (h : FilePart cfg s s' rest) {e : Sys}
    (l : Leads s'.app.env s'.app.env.look e) : FilePart cfg s ⟨s'.cur, { s'.app with env := e }⟩ rest where
  onward :=
    have hal : Alike cfg s'.app { s'.app with env := e } := alike_env s'.app l
    ⟨h.onward.alike.trans hal, h.onward.name, h.onward.window, h.onward.predicate, h.onward.descending,
      h.onward.segLo, h.onward.segHi, fun hs => (h.onward.standing hs).same ⟨hal, SameQuery.refl _⟩ (SameFile.refl _)⟩
  walkable := h.walkable.alike (alike_env s'.app l)
  ramOffset := h.ramOffset
  ahead := (filesAhead_congr s'.cur l).trans h.ahead

theorem FilePart.found {s s' : CurSt} {rest : List RecItem} (h : FilePart cfg s s' rest) (last : Option Sample) :
    FilePart cfg s ⟨{ s'.cur with last := last }, s'.app⟩ rest where
  onward := ⟨h.onward.alike, h.onward.name, h.onward.window, h.onward.predicate, h.onward.descending, h.onward.segLo,
    h.onward.segHi, fun hs => OnFile.same (h.onward.standing hs) ⟨rfl, rfl, rfl, rfl⟩ rfl⟩
  walkable := ⟨h.walkable.clean, h.walkable.up, h.walkable.valid, h.walkable.lo_le, h.walkable.le_hi,
    h.walkable.single, h.walkable.opened, h.walkable.recSize, h.walkable.back, h.walkable.segs⟩
  ramOffset := h.ramOffset
  ahead := h.ahead

theorem FilePart.done {s s' : CurSt} {rest : List RecItem} (h : FilePart cfg s s' rest) :
    FilePart cfg s ⟨{ s'.cur with fileDone := true }, s'.app⟩ [] where
  onward := ⟨h.onward.alike, h.onward.name, h.onward.window, h.onward.predicate, h.onward.descending, h.onward.segLo,
    h.onward.segHi, fun hs => OnFile.same (h.onward.standing hs) ⟨rfl, rfl, rfl, rfl⟩ rfl⟩
  walkable := ⟨h.walkable.clean, h.walkable.up, h.walkable.valid, h.walkable.lo_le, h.walkable.le_hi,
    h.walkable.single, h.walkable.opened, h.walkable.recSize, h.walkable.back, h.walkable.segs⟩
  ramOffset := h.ramOffset
  ahead := rfl

theorem segsAhead_length {s : CurSt} (h : Walkable cfg s) : s.cur.segsAhead.length < s.cur.segCount + 1 := by
  have hlo := h.lo_le
  have hhi := h.le_hi
  unfold CursorCtx.segsAhead CursorCtx.segCount
  split
  · rw [List.length_reverse, List.length_range']
    omega
  · rw [List.length_range']
    omega

theorem recordItem_ok {version : Nat} {base : UInt64} {raw : Bytes} {sample : Sample}
    (h : decoded version base raw = .ok sample) : recordItem version base raw = some (.ok (raw, sample)) := by
  unfold recordItem
  rw [h]

theorem recordItem_unsupported {version : Nat} {base : UInt64} {raw : Bytes}
    (h : decoded version base raw = .error .ERR_UNSUPPORTED) : recordItem version base raw = none := by
  unfold recordItem
  rw [h]

theorem recordItem_corrupt {version : Nat} {base : UInt64} {raw : Bytes}
    (h : decoded version base raw = .error .ERR_CORRUPT) : recordItem version base raw = some (.error .ERR_CORRUPT) := by
  unfold recordItem
  rw [h]

theorem nextFile_gives {s : CurSt} (h : Walkable cfg s) {n : Nat} (hn : (s.cur.filesAhead cfg s.app.env).length < n) :
    Gives (cursorNextFile cfg n) s (fileAnswer (firstReport s.cur.pass (s.cur.filesAhead cfg s.app.env)))
      fun s' => FilePart cfg s s' (behind (firstReport s.cur.pass (s.cur.filesAhead cfg s.app.env))) := by
  induction n generalizing s with
  | zero => exact absurd hn (Nat.not_lt_zero _)
  | succ n ih =>
    unfold cursorNextFile
    apply gives_then (run_getCur s)
    dsimp only
    cases hdone : s.cur.fileDone with
    | true =>
      have hnil : s.cur.filesAhead cfg s.app.env = [] := by
        unfold CursorCtx.filesAhead
        rw [hdone]
        rfl
      rw [hnil]
      exact gives_pure (Q := fun s' => FilePart cfg s s' []) ⟨Onward.refl cfg s, h, rfl, hnil⟩
    | false =>
      rw [if_neg Bool.false_ne_true]
      rcases run_fileRecord h hdone (segsAhead_length h) with ⟨hnil, s', ha, hrun⟩ | ⟨item, rest, s', hcons, ha, hres⟩
      · rw [hnil]
        apply gives_then (run_attempt_error hrun)
        exact gives_ok rfl ha.filePart.done
      · rw [hcons] at hn ⊢
        have hstep : ∀ t, FilePart cfg s t rest → item = none ∨ (∃ x, item = some (.ok x) ∧ s.cur.pass x = false) →
            Gives (cursorNextFile cfg n) t (fileAnswer (firstReport s.cur.pass (item :: rest)))
              fun s'' => FilePart cfg s s'' (behind (firstReport s.cur.pass (item :: rest))) := by
          intro t ht hskip
          have hfirst : firstReport s.cur.pass (item :: rest) = firstReport s.cur.pass rest := by
            have hreport : report s.cur.pass item = none := by
              rcases hskip with rfl | ⟨x, rfl, hx⟩
              · rfl
              · rw [report, hx]
                rfl
            rw [firstReport, hreport]
          have hrest := ih ht.walkable (by rw [ht.ahead]; exact Nat.lt_of_succ_lt_succ hn)
          rw [ht.ahead, ht.onward.pass, ← hfirst] at hrest
          exact ⟨hrest.1, ht.after hrest.2⟩
        rcases hres with ⟨raw, hrun, hitem⟩ | ⟨hrun, hitem⟩
        · apply gives_then (run_attempt_ok hrun)
          apply gives_then (run_getCur s')
          obtain ⟨e, hdec, l⟩ := run_decode s'.cur.layout.version s'.cur.layout.baseTsMs raw s'.app.env
          apply gives_then (run_onCurEnv hdec)
          have hread : FilePart cfg s ⟨s'.cur, { s'.app with env := e }⟩ rest := ha.filePart.env l
          cases hd : decoded s'.cur.layout.version s'.cur.layout.baseTsMs raw with
          | ok sample =>
            rw [recordItem_ok hd] at hitem
            dsimp only
            by_cases hpass : s.cur.admits raw sample = true
            · rw [if_pos hpass, hitem, firstReport, report, if_pos (show s.cur.pass (raw, sample) = true from hpass)]
              exact gives_ok rfl (hread.found _)
            · rw [if_neg hpass]
              exact hstep _ hread (.inr ⟨_, hitem, by simpa [CursorCtx.pass] using hpass⟩)
          | error r =>
            rcases decoded_error hd with rfl | rfl
            · rw [recordItem_corrupt hd] at hitem
              rw [hitem]
              exact gives_throw hread
            · rw [recordItem_unsupported hd] at hitem
              exact hstep _ hread (.inl hitem)
        · apply gives_then (run_attempt_error hrun)
          rw [hitem]
          exact gives_throw ha.filePart

/-! The bytes of the files bound their items, and so the rounds of the loop over them. -/

theorem fileItems_length (layout : FileLayout) (bs : Bytes) : (fileItems layout bs).length ≤ bs.length := by
  rw [fileItems, List.length_map]
  exact length_chunks_le bs

theorem segItems_length (c : CursorCtx) (e : Sys) (k : Nat) :
    (c.segItems cfg e k).length ≤ (e.contents (segFile cfg c.streamName k)).length := by
  unfold CursorCtx.segItems segmentItems
  generalize e.contents (segFile cfg c.streamName k) = bs
  split
  · exact Nat.zero_le _
  · split
    · rw [List.length_reverse]
      refine (fileItems_length _ _).trans ?_
      simp only [List.length_drop, List.length_take]
      omega
    · refine (fileItems_length _ _).trans ?_
      rw [List.length_drop]
      omega

theorem visible_length (e : Sys) (path : Path) (size : Nat) : (e.visible path size).length ≤ (e.contents path).length := by
  unfold Env.visible
  split
  · exact Nat.le_refl _
  · rw [List.length_take]
    omega

theorem here_length {s : CurSt} (hs : Standing cfg s) : (s.cur.here s.app.env).length ≤
    (s.app.env.contents (segFile cfg s.cur.streamName s.cur.curSeg)).length := by
  obtain ⟨pos, hfile⟩ := hs.file
  have hle := visible_length s.app.env (segFile cfg s.cur.streamName s.cur.curSeg)
    (s.app.env.contents (segFile cfg s.cur.streamName s.cur.curSeg)).length
  unfold CursorCtx.here
  rw [hfile]
  dsimp only
  split
  · rw [List.length_reverse]
    refine (fileItems_length _ _).trans ?_
    simp only [List.length_drop, List.length_take]
    omega
  · refine (fileItems_length _ _).trans ?_
    rw [List.length_drop]
    omega

theorem segsAhead_sum {s : CurSt} (h : Walkable cfg s) (g : Nat → Nat) :
    g s.cur.curSeg + (s.cur.segsAhead.map g).sum ≤
      ((List.range s.cur.segCount).map fun k => g (s.cur.segLo + k)).sum := by
  have hlo := h.lo_le
  have hhi := h.le_hi
  have hsplit : s.cur.segCount = (s.cur.curSeg - s.cur.segLo) + ((s.cur.segHi - s.cur.curSeg) + 1) := by
    unfold CursorCtx.segCount
    omega
  have hat : s.cur.segLo + (s.cur.curSeg - s.cur.segLo) = s.cur.curSeg := by omega
  have hwindow : (List.range s.cur.segCount).map (fun k => g (s.cur.segLo + k)) =
      (List.range' s.cur.segLo (s.cur.curSeg - s.cur.segLo)).map g ++
        g s.cur.curSeg :: (List.range' (s.cur.curSeg + 1) (s.cur.segHi - s.cur.curSeg)).map g := by
    have hshift : (List.range s.cur.segCount).map (fun k => g (s.cur.segLo + k)) =
        (List.range' s.cur.segLo s.cur.segCount).map g := by
      rw [List.range'_eq_map_range, List.map_map]
      rfl
    rw [hshift, hsplit, ← List.range'_append_1, hat, List.map_append, List.range'_succ, List.map_cons]
  rw [hwindow, List.sum_append, List.sum_cons]
  unfold CursorCtx.segsAhead
  split
  · rw [List.map_reverse, List.sum_reverse]
    omega
  · omega

theorem segsAhead_length_le (c : CursorCtx) (e : Sys) (ks : List Nat) : (ks.flatMap (c.segItems cfg e)).length ≤
    (ks.map fun k => (e.contents (segFile cfg c.streamName k)).length).sum := by
  induction ks with
  | nil => exact Nat.zero_le _
  | cons k ks ih =>
    rw [List.flatMap_cons, List.length_append, List.map_cons, List.sum_cons]
    exact Nat.add_le_add (segItems_length c e k) ih

theorem filesAhead_length {s : CurSt} (h : Walkable cfg s) (hs : Standing cfg s) :
    (s.cur.filesAhead cfg s.app.env).length < cursorFuel cfg s + 1 := by
  have hhere := here_length hs
  have hahead := @segsAhead_length_le cfg s.cur s.app.env s.cur.segsAhead
  have htotal := segsAhead_sum h fun k => (s.app.env.contents (segFile cfg s.cur.streamName k)).length
  unfold CursorCtx.filesAhead
  split
  · exact Nat.succ_pos _
  · rw [List.length_append]
    unfold cursorFuel
    omega

end Files

/-- A buffer whose records are all decoded or stepped over. -/
def Sound (items : List RecItem) : Prop := ∀ r, some (.error r) ∉ items

def callAnswer : Option (Except Status (Bytes × Sample) × List RecItem) → Except Status (Bytes × Sample)
  | none => .error .ERR_NOT_FOUND
  | some (r, _) => r

structure RamPart (cfg : Cfg) (s s' : CurSt) (rest : List RecItem) : Prop where
  alike : Alike cfg s.app s'.app
  cur : ∃ ramOffset last, s'.cur = { s.cur with ramOffset := ramOffset, last := last }
  ahead : bufAhead cfg s'.cur s'.app = rest

section Buffer
variable {cfg : Cfg}

theorem RamPart.onward {s s' : CurSt} {rest : List RecItem} (h : RamPart cfg s s' rest) : Onward cfg s s' := by
  obtain ⟨k, last, hcur⟩ := h.cur
  refine ⟨h.alike, ?_, ?_, ?_, ?_, ?_, ?_, fun hs => ?_⟩
  all_goals try rw [hcur]
  unfold Standing
  rw [hcur, contents_congr h.alike.env]
  exact OnFile.same hs ⟨rfl, rfl, rfl, rfl⟩ rfl

theorem RamPart.walkable {s s' : CurSt} {rest : List RecItem} (h : RamPart cfg s s' rest) (hw : Walkable cfg s) :
    Walkable cfg s' := by
  obtain ⟨k, last, hcur⟩ := h.cur
  have hw' := hw.alike h.alike
  cases s'
  cases hcur
  exact ⟨hw'.clean, hw'.up, hw'.valid, hw'.lo_le, hw'.le_hi, hw'.single, hw'.opened, hw'.recSize, hw'.back, hw'.segs⟩

theorem RamPart.files {s s' : CurSt} {rest : List RecItem} (h : RamPart cfg s s' rest) :
    s'.cur.filesAhead cfg s'.app.env = s.cur.filesAhead cfg s.app.env := by
  obtain ⟨k, last, hcur⟩ := h.cur
  rw [hcur]
  exact filesAhead_congr s.cur h.alike.env

theorem slotRecSize_pos (cfg : Cfg) (slot : StreamCtx) : 0 < slotRecSize cfg slot := by
  unfold slotRecSize
  split
  · rename_i h
    simp only [Bool.and_eq_true, bne_iff_ne] at h
    exact Nat.pos_of_ne_zero h.2
  · decide

theorem bufItems_cons {slot : StreamCtx} {buf : Bytes} (hb : slot.ingestBuf = some buf) {descending : Bool} {ram : Nat}
    (h : ram + slotRecSize cfg slot ≤ slot.ingestUsed) :
    bufItems cfg slot descending ram =
      recordItem (slotVersion cfg slot) (slotBaseTs cfg slot)
          (slice buf (if descending then slot.ingestUsed - ram - slotRecSize cfg slot else ram) (slotRecSize cfg slot)) ::
        bufItems cfg slot descending (ram + slotRecSize cfg slot) := by
  have hr := slotRecSize_pos cfg slot
  have hcount : (slot.ingestUsed - ram) / slotRecSize cfg slot =
      (slot.ingestUsed - (ram + slotRecSize cfg slot)) / slotRecSize cfg slot + 1 := by
    rw [← Nat.add_div_right _ hr]
    congr 1
    omega
  unfold bufItems
  rw [hb]
  dsimp only
  rw [hcount, List.range_succ_eq_map, List.map_cons, List.map_map]
  congr 1
  · congr 2
    cases descending <;> simp
  · apply List.map_congr_left
    intro j _
    simp only [Function.comp_apply, Nat.succ_eq_add_one]
    congr 2
    have hsucc : (j + 1 + 1) * slotRecSize cfg slot = slotRecSize cfg slot + (j + 1) * slotRecSize cfg slot := by
      rw [Nat.add_mul (j + 1), Nat.one_mul, Nat.add_comm]
    have hone : (j + 1) * slotRecSize cfg slot = slotRecSize cfg slot + j * slotRecSize cfg slot := by
      rw [Nat.add_mul, Nat.one_mul, Nat.add_comm]
    cases descending
    · simp only [Bool.false_eq_true, if_false]
      omega
    · simp only [if_true]
      omega

theorem bufItems_nil {slot : StreamCtx} {descending : Bool} {ram : Nat}
    (h : slot.ingestUsed < ram + slotRecSize cfg slot) : bufItems cfg slot descending ram = [] := by
  have hr := slotRecSize_pos cfg slot
  have hzero : (slot.ingestUsed - ram) / slotRecSize cfg slot = 0 := Nat.div_eq_of_lt (by omega)
  unfold bufItems
  cases slot.ingestBuf with
  | none => rfl
  | some buf =>
    dsimp only
    rw [hzero]
    rfl

theorem nextBuf_gives {slot : StreamCtx} {buf : Bytes} (hb : slot.ingestBuf = some buf) {s : CurSt}
    (hc : s.app.env.Clean) (hsound : Sound (bufItems cfg slot s.cur.descending s.cur.ramOffset)) {n : Nat}
    (hn : (bufItems cfg slot s.cur.descending s.cur.ramOffset).length < n) :
    Gives (cursorNextBuf cfg slot buf n) s
      (callAnswer (firstReport s.cur.pass (bufItems cfg slot s.cur.descending s.cur.ramOffset))) fun s' =>
        Alike cfg s.app s'.app ∧ (∃ last, s'.cur = { s.cur with ramOffset := s'.cur.ramOffset, last := last }) ∧
          bufItems cfg slot s.cur.descending s'.cur.ramOffset =
            behind (firstReport s.cur.pass (bufItems cfg slot s.cur.descending s.cur.ramOffset)) := by
  induction n generalizing s with
  | zero => exact absurd hn (Nat.not_lt_zero _)
  | succ n ih =>
    unfold cursorNextBuf
    apply gives_then (run_getCur s)
    dsimp only
    by_cases hend : slot.ingestUsed < s.cur.ramOffset + slotRecSize cfg slot
    · rw [if_pos hend, bufItems_nil hend]
      exact gives_throw ⟨Alike.refl cfg s.app, ⟨s.cur.last, rfl⟩, bufItems_nil hend⟩
    rw [if_neg hend]
    have hcons := @bufItems_cons cfg slot buf hb s.cur.descending _ (Nat.not_lt.mp hend)
    generalize hraw : slice buf (if s.cur.descending then slot.ingestUsed - s.cur.ramOffset - slotRecSize cfg slot
      else s.cur.ramOffset) (slotRecSize cfg slot) = raw at hcons ⊢
    obtain ⟨e, hdec, l⟩ := run_decode (slotVersion cfg slot) (slotBaseTs cfg slot) raw s.app.env
    have hal : Alike cfg s.app { s.app with env := e } := alike_env s.app l
    let s₁ : CurSt := ⟨{ s.cur with ramOffset := s.cur.ramOffset + slotRecSize cfg slot }, { s.app with env := e }⟩
    rw [hcons] at hsound hn ⊢
    -- A record that is not reported leaves the rest of the buffer to the next round.
    have hstep : report s.cur.pass (recordItem (slotVersion cfg slot) (slotBaseTs cfg slot) raw) = none →
        Gives (cursorNextBuf cfg slot buf n) s₁ (callAnswer (firstReport s.cur.pass (recordItem (slotVersion cfg slot)
            (slotBaseTs cfg slot) raw :: bufItems cfg slot s.cur.descending (s.cur.ramOffset + slotRecSize cfg slot))))
          fun s' => Alike cfg s.app s'.app ∧ (∃ last, s'.cur = { s.cur with ramOffset := s'.cur.ramOffset, last := last }) ∧
            bufItems cfg slot s.cur.descending s'.cur.ramOffset = behind (firstReport s.cur.pass
              (recordItem (slotVersion cfg slot) (slotBaseTs cfg slot) raw ::
                bufItems cfg slot s.cur.descending (s.cur.ramOffset + slotRecSize cfg slot))) := by
      intro hskip
      have hfirst : firstReport s.cur.pass (recordItem (slotVersion cfg slot) (slotBaseTs cfg slot) raw ::
            bufItems cfg slot s.cur.descending (s.cur.ramOffset + slotRecSize cfg slot)) =
          firstReport s₁.cur.pass (bufItems cfg slot s₁.cur.descending s₁.cur.ramOffset) := by
        rw [firstReport, hskip]
        rfl
      rw [hfirst]
      obtain ⟨hout, halike, ⟨last, hcur⟩, hrest⟩ := ih (s := s₁) (l.clean hc)
        (fun r hr => hsound r (List.mem_cons_of_mem _ hr)) (Nat.lt_of_succ_lt_succ hn)
      exact ⟨hout, hal.trans halike, ⟨last, hcur⟩, hrest⟩
    apply gives_then (run_onCurEnv hdec)
    cases hd : decoded (slotVersion cfg slot) (slotBaseTs cfg slot) raw with
    | ok sample =>
      rw [recordItem_ok hd] at hstep ⊢
      apply gives_then (run_updCur _ _)
      by_cases hpass : s.cur.admits raw sample = true
      · rw [if_pos hpass, firstReport, report, if_pos (show s.cur.pass (raw, sample) = true from hpass)]
        exact gives_ok rfl ⟨hal, ⟨some sample, rfl⟩, rfl⟩
      · rw [if_neg hpass]
        exact hstep (by rw [report, if_neg (show ¬ s.cur.pass (raw, sample) = true from hpass)])
    | error r =>
      rcases decoded_error hd with rfl | rfl
      · rw [recordItem_corrupt hd] at hsound
        exact absurd List.mem_cons_self (hsound _)
      · rw [recordItem_unsupported hd] at hstep ⊢
        exact gives_then (run_updCur _ _) (hstep rfl)

theorem bufItems_length (cfg : Cfg) (slot : StreamCtx) (descending : Bool) (ram : Nat) :
    (bufItems cfg slot descending ram).length < slot.ingestUsed + 1 := by
  unfold bufItems
  cases slot.ingestBuf with
  | none => exact Nat.succ_pos _
  | some buf =>
    have hle := Nat.div_le_self (slot.ingestUsed - ram) (slotRecSize cfg slot)
    dsimp only
    rw [List.length_map, List.length_range]
    omega

theorem nextRam_gives {s : CurSt} (hc : s.app.env.Clean) (hup : s.app.cfgSet = true)
    (hsound : Sound (bufAhead cfg s.cur s.app)) :
    Gives (cursorNextRam cfg) s (callAnswer (firstReport s.cur.pass (bufAhead cfg s.cur s.app)))
      fun s' => RamPart cfg s s' (behind (firstReport s.cur.pass (bufAhead cfg s.cur s.app))) := by
  obtain ⟨a, hctx, hal, -⟩ := @tsCtxGetOrAlloc_spec cfg _ hc hup .ERR_INVAL
  unfold cursorNextRam
  apply gives_then (run_onApp hctx)
  apply gives_then (run_getCur _)
  have hfind : a.slotFind s.cur.streamName = s.app.slotFind s.cur.streamName := hal.slotFind _
  dsimp only
  rw [hfind]
  have hnone : bufAhead cfg s.cur s.app = [] → Gives (throw .ERR_NOT_FOUND : CurM Status (Bytes × Sample)) ⟨s.cur, a⟩
      (callAnswer (firstReport s.cur.pass (bufAhead cfg s.cur s.app)))
      fun s' => RamPart cfg s s' (behind (firstReport s.cur.pass (bufAhead cfg s.cur s.app))) := by
    intro hnil
    rw [hnil]
    exact gives_throw ⟨hal, ⟨s.cur.ramOffset, s.cur.last, rfl⟩, (bufAhead_congr s.cur hal).trans hnil⟩
  cases hi : s.app.slotFind s.cur.streamName with
  | none => exact hnone (by rw [bufAhead, hi])
  | some i =>
    have hitems : bufAhead cfg s.cur s.app = bufItems cfg (s.app.slotAt i) s.cur.descending s.cur.ramOffset := by
      rw [bufAhead, hi]
    dsimp only
    rw [hal.slots i]
    cases hb : (s.app.slotAt i).ingestBuf with
    | none =>
      apply hnone
      rw [hitems, bufItems, hb]
    | some buf =>
      rw [hitems] at hsound ⊢
      obtain ⟨hout, halike, ⟨last, hcur⟩, hrest⟩ := nextBuf_gives (s := ⟨s.cur, a⟩) hb (hal.env.clean hc) hsound
        (bufItems_length cfg _ _ _)
      refine ⟨hout, hal.trans halike, ⟨_, last, hcur⟩, ?_⟩
      rw [bufAhead_congr _ (hal.trans halike), bufAhead, hcur]
      dsimp only
      rw [hi]
      exact hrest

end Buffer

structure Poised (cfg : Cfg) (s : CurSt) : Prop where
  walkable : Walkable cfg s
  standing : Standing cfg s
  sound : Sound (bufAhead cfg s.cur s.app)

section Next
variable {cfg : Cfg}

theorem Sound.behind {items : List RecItem} (h : Sound items) (pass : Bytes × Sample → Bool) :
    Sound (behind (firstReport pass items)) := by
  cases hf : firstReport pass items with
  | none => exact fun _ => nofun
  | some p =>
    obtain ⟨front, hfront⟩ := firstReport_mem (show firstReport pass items = some (p.1, p.2) from hf)
    intro r hr
    apply h r
    rw [hfront]
    exact List.mem_append_right _ (List.mem_cons_of_mem _ hr)

theorem FilePart.buf {s s' : CurSt} {rest : List RecItem} (h : FilePart cfg s s' rest) :
    bufAhead cfg s'.cur s'.app = bufAhead cfg s.cur s.app := by
  rw [bufAhead_congr _ h.onward.alike]
  unfold bufAhead
  rw [h.onward.name, h.onward.descending, h.ramOffset]

theorem FilePart.poised {s s' : CurSt} {rest : List RecItem} (h : FilePart cfg s s' rest) (hs : Poised cfg s) :
    Poised cfg s' :=
  ⟨h.walkable, h.onward.standing hs.standing, h.buf ▸ hs.sound⟩

theorem RamPart.poised {s s' : CurSt} {rest : List RecItem} (h : RamPart cfg s s' rest) (hs : Poised cfg s)
    (hrest : Sound rest) : Poised cfg s' :=
  ⟨h.walkable hs.walkable, h.onward.standing hs.standing, h.ahead ▸ hrest⟩

structure Called (cfg : Cfg) (s s' : CurSt) (rest : List RecItem) : Prop where
  onward : Onward cfg s s'
  poised : Poised cfg s'
  ahead : ahead cfg s' = rest

theorem nextFile_poised {s : CurSt} (h : Poised cfg s) :
    Gives (cursorNextFile cfg (cursorFuel cfg s + 1)) s
      (fileAnswer (firstReport s.cur.pass (s.cur.filesAhead cfg s.app.env)))
      fun s' => FilePart cfg s s' (behind (firstReport s.cur.pass (s.cur.filesAhead cfg s.app.env))) :=
  nextFile_gives h.walkable (filesAhead_length h.walkable h.standing)

theorem next_ascending {s : CurSt} (h : Poised cfg s) (hd : s.cur.descending = false) :
    Gives (cursorNext cfg) s (callAnswer (firstReport s.cur.pass (ahead cfg s)))
      fun s' => Called cfg s s' (behind (firstReport s.cur.pass (ahead cfg s))) := by
  have hahead : ∀ t : CurSt, t.cur.descending = false →
      ahead cfg t = t.cur.filesAhead cfg t.app.env ++ bufAhead cfg t.cur t.app := fun t ht => by
    rw [ahead, ht]
    rfl
  have hfile := nextFile_poised h
  unfold cursorNext
  apply gives_then (run_getCur s)
  rw [if_neg (by simp [hd]), hahead s hd, firstReport_append]
  cases hf : firstReport s.cur.pass (s.cur.filesAhead cfg s.app.env) with
  | none =>
    rw [hf] at hfile
    obtain ⟨t, hrun, ht⟩ := hfile.run_ok
    apply gives_then hrun
    have hp := ht.poised h
    obtain ⟨hout, hram⟩ := nextRam_gives hp.walkable.clean hp.walkable.up hp.sound
    rw [ht.buf, ht.onward.pass] at hout hram
    refine ⟨hout, ht.onward.trans hram.onward, hram.poised hp (h.sound.behind _), ?_⟩
    rw [hahead _ (hram.onward.descending.trans (ht.onward.descending.trans hd)), hram.files, ht.ahead, hram.ahead]
    rfl
  | some p =>
    obtain ⟨r, rest⟩ := p
    rw [hf] at hfile
    have hcalled : ∀ t, FilePart cfg s t rest → Called cfg s t (rest ++ bufAhead cfg s.cur s.app) := fun t ht =>
      ⟨ht.onward, ht.poised h, by rw [hahead t (ht.onward.descending.trans hd), ht.ahead, ht.buf]⟩
    cases r with
    | ok x =>
      obtain ⟨t, hrun, ht⟩ := hfile.run_ok
      exact gives_then hrun (gives_ok rfl (hcalled t ht))
    | error rc =>
      obtain ⟨t, hrun, ht⟩ := hfile.run_error
      exact gives_fail hrun (hcalled t ht)

theorem next_descending {s : CurSt} (h : Poised cfg s) (hd : s.cur.descending = true) :
    Gives (cursorNext cfg) s (callAnswer (firstReport s.cur.pass (ahead cfg s)))
      fun s' => Called cfg s s' (behind (firstReport s.cur.pass (ahead cfg s))) := by
  have hahead : ∀ t : CurSt, t.cur.descending = true →
      ahead cfg t = bufAhead cfg t.cur t.app ++ t.cur.filesAhead cfg t.app.env := fun t ht => by
    rw [ahead, ht]
    rfl
  have hram := nextRam_gives h.walkable.clean h.walkable.up h.sound
  unfold cursorNext
  apply gives_then (run_getCur s)
  rw [if_pos hd, hahead s hd, firstReport_append]
  cases hf : firstReport s.cur.pass (bufAhead cfg s.cur s.app) with
  | none =>
    rw [hf] at hram
    obtain ⟨t, hrun, ht⟩ := hram.run_error
    have hp := ht.poised h fun _ => nofun
    have hfile := nextFile_gives hp.walkable (n := cursorFuel cfg s + 1) (by
      rw [ht.files]
      exact filesAhead_length h.walkable h.standing)
    rw [ht.files, ht.onward.pass] at hfile
    apply gives_then (run_attempt_error hrun)
    dsimp only
    have hcalled : ∀ {u rest}, FilePart cfg t u rest → Called cfg s u rest := fun {u rest} hu =>
      ⟨ht.onward.trans hu.onward, hu.poised hp, by
        rw [hahead u (hu.onward.descending.trans (ht.onward.descending.trans hd)), hu.ahead, hu.buf, ht.ahead]
        rfl⟩
    cases hg : firstReport s.cur.pass (s.cur.filesAhead cfg s.app.env) with
    | none =>
      rw [hg] at hfile
      obtain ⟨u, hrun', hu⟩ := hfile.run_ok
      exact gives_then hrun' (gives_throw (hcalled hu))
    | some p =>
      obtain ⟨r, rest⟩ := p
      rw [hg] at hfile
      cases r with
      | ok x =>
        obtain ⟨u, hrun', hu⟩ := hfile.run_ok
        exact gives_then hrun' (gives_ok rfl (hcalled hu))
      | error rc =>
        obtain ⟨u, hrun', hu⟩ := hfile.run_error
        exact gives_fail hrun' (hcalled hu)
  | some p =>
    obtain ⟨r, rest⟩ := p
    cases r with
    | error rc =>
      obtain ⟨front, hfront⟩ := firstReport_mem hf
      refine absurd ?_ (h.sound rc)
      rw [hfront]
      exact List.mem_append_right _ List.mem_cons_self
    | ok x =>
      have hsound : Sound rest := by
        have hb := h.sound.behind s.cur.pass
        rwa [hf] at hb
      rw [hf] at hram
      obtain ⟨t, hrun, ht⟩ := hram.run_ok
      refine gives_then (run_attempt_ok hrun) (gives_ok rfl ⟨ht.onward, ht.poised h hsound, ?_⟩)
      rw [hahead t (ht.onward.descending.trans hd), ht.ahead, ht.files]
      rfl

/-- `zdb_cursor_next` takes the first report of all that the cursor has ahead of it. -/
theorem next_gives {s : CurSt} (h : Poised cfg s) :
    Gives (cursorNext cfg) s (callAnswer (firstReport s.cur.pass (ahead cfg s)))
      fun s' => Called cfg s s' (behind (firstReport s.cur.pass (ahead cfg s))) := by
  cases hd : s.cur.descending with
  | false => exact next_ascending h hd
  | true => exact next_descending h hd

theorem walk_gives (n : Nat) {s : CurSt} (h : Poised cfg s) :
    Gives (cursorWalk cfg n) s (.ok (callsOver .ERR_NOT_FOUND (reports s.cur.pass (ahead cfg s)) n))
      fun s' => Onward cfg s s' ∧ Poised cfg s' := by
  induction n generalizing s with
  | zero => exact gives_pure ⟨Onward.refl cfg s, h⟩
  | succ n ih =>
    obtain ⟨hout, hc⟩ := next_gives h
    have hrun : (attempt (cursorNext cfg) : CurM Status _).run s = .ok (outcome (cursorNext cfg) s) _ := run_attempt _ s
    apply gives_then hrun
    rw [hout]
    obtain ⟨t, hwalk, hon, hp⟩ := (ih hc.poised).run_ok
    rw [hc.onward.pass, hc.ahead] at hwalk
    refine gives_then hwalk (gives_ok (t := t) ?_ ⟨hc.onward.trans hon, hp⟩)
    cases hf : firstReport s.cur.pass (ahead cfg s) with
    | none =>
      rw [reports_of_none hf]
      rfl
    | some p =>
      rw [reports_of_first hf]
      rfl

end Next

end ZephyrDB.Ts
