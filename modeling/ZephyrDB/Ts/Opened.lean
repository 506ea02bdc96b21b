import ZephyrDB.Ts.Tail
import ZephyrDB.Ts.Yield

/-!
What a cursor that has been opened, or reset, has ahead of it: every record of
the files in its window and every record of the buffer.
-/

set_option autoImplicit false

namespace ZephyrDB.Ts

open Lib

theorem headerFields_front {name : Bytes} {layout : FileLayout} {xs : Bytes} (hlen : layout.hdrSize ≤ xs.length)
    (hpos : hdrSizeV1 ≤ layout.hdrSize) (ys : Bytes) : headerFields name layout (xs ++ ys) = headerFields name layout xs := by
  have hv1 : (16 : Nat) ≤ layout.hdrSize := hpos
  unfold headerFields
  rw [field_front (by omega), field_front (by omega), field_front (by omega), crcOk_front (by omega)]

theorem outcome_streamHeaderV2Decode {raw name : Bytes} {e : Sys} {base : UInt64}
    (h : headerFields name ⟨hdrSizeV2, recSizeV2, base⟩ raw = true) :
    outcome (streamHeaderV2Decode raw name) e = .ok (UInt64.ofNat (field raw 12 8)) := by
  simp only [headerFields, Bool.and_eq_true, beq_iff_eq] at h
  obtain ⟨⟨⟨hm, -⟩, hcrc⟩, hid⟩ := h
  have hcrc' : crcOk raw 20 = true := hcrc
  unfold streamHeaderV2Decode
  simp [hm, hcrc', hid, outcome]

/-- A file with a valid header passes the check of `zdb_ts_ensure_header_ex`. -/
theorem ensureHeaderEx_valid (cfg : Cfg) {name path bs : Bytes} {e : Sys} (hc : e.Clean) (h : e.look path = some bs)
    (hv : headerValid name bs = true) (baseTsMs : UInt64) :
    ∃ vb e', (ensureHeaderEx cfg name path baseTsMs).run e = .ok vb e' ∧ Leads e e.look e' := by
  obtain ⟨e₁, h₁, l₁⟩ := fsOpen_existing hc true h
  obtain ⟨e₂, h₂, l₂⟩ := fsRead_ok (l₁.clean hc) path 0 hdrSizeV2
  rw [l₁.look, h, Option.getD_some] at h₂
  have l := l₁.trans (l₁.look ▸ l₂)
  have hhead : ∀ {α : Type} {f : Bytes → Zdb α}, (do
      toStatus (fsOpen path true false)
      let raw ← toStatus (fsRead path 0 hdrSizeV2)
      f raw : Zdb α).run e = (f (slice bs 0 hdrSizeV2)).run e₂ :=
    fun {α f} => run_then (run_toStatus h₁) (run_then (run_toStatus h₂) rfl)
  unfold headerValid at hv
  cases hl : layoutOf bs with
  | error r => rw [hl] at hv; cases hv
  | ok layout =>
    rw [hl] at hv
    simp only [Bool.and_eq_true, decide_eq_true_eq] at hv
    obtain ⟨hlen, hfields⟩ := hv
    have hv1 : hdrSizeV1 ≤ layout.hdrSize := by
      rcases layoutOf_cases hl with rfl | rfl
      · exact Nat.le_refl _
      · exact show hdrSizeV1 ≤ hdrSizeV2 by decide
    have hraw : slice bs 0 hdrSizeV2 = bs.take layout.hdrSize ++ (bs.drop layout.hdrSize).take (hdrSizeV2 - layout.hdrSize) := by
      rw [slice, List.drop_zero, ← List.take_add, Nat.add_sub_cancel' (layoutOf_hdrSize hl)]
    have htake : (bs.take layout.hdrSize).length = layout.hdrSize := by
      rw [List.length_take, Nat.min_eq_left hlen]
    rw [← headerFields_front htake.ge hv1 ((bs.drop layout.hdrSize).take (hdrSizeV2 - layout.hdrSize)), ← hraw]
      at hfields
    have hrawlen : layout.hdrSize ≤ (slice bs 0 hdrSizeV2).length := by
      rw [hraw, List.length_append]
      omega
    have hver : field (slice bs 0 hdrSizeV2) 4 2 = layout.version := by
      simp only [headerFields, Bool.and_eq_true, beq_iff_eq] at hfields
      exact hfields.1.1.2
    unfold ensureHeaderEx
    rw [hhead]
    generalize slice bs 0 hdrSizeV2 = raw at hfields hrawlen hver ⊢
    dsimp only
    have hpos : raw.length ≠ 0 := by
      have : (16 : Nat) ≤ layout.hdrSize := hv1
      omega
    rw [if_neg hpos, if_neg (by omega)]
    rcases layoutOf_cases hl with rfl | rfl
    · rw [if_neg (by rw [hver]; decide)]
      obtain ⟨e₃, l₃, hdec⟩ := run_streamHeaderDecode raw name e₂
      rw [if_pos hfields] at hdec
      exact ⟨_, e₃, run_then hdec rfl, l.trans (l.look ▸ l₃)⟩
    · rw [if_pos (by rw [hver]; rfl), if_neg (by exact Nat.not_lt.mpr hrawlen)]
      have hdec := run_of_outcome (outcome_streamHeaderV2Decode (e := e₂) hfields)
      exact ⟨_, _, run_then hdec rfl, l.trans (l.look ▸ leads_of_within (keeps_streamHeaderV2Decode raw name e₂))⟩

/-- A stream whose files `lo` to `hi` a cursor can walk. -/
structure Span (cfg : Cfg) (a : App) (name : Bytes) (descending : Bool) (lo hi : Nat) : Prop where
  clean : a.env.Clean
  up : a.cfgSet = true
  valid : streamNameValid cfg name = true
  le : lo ≤ hi
  single : cfg.segmented = false → lo = hi
  files : ∀ k, lo ≤ k → k ≤ hi → Openable cfg name a.env descending k

def segsBetween (descending : Bool) (lo hi : Nat) : List Nat :=
  if descending then (List.range' lo (hi - lo + 1)).reverse else List.range' lo (hi - lo + 1)

def spanItems (cfg : Cfg) (e : Sys) (name : Bytes) (descending : Bool) (lo hi : Nat) : List RecItem :=
  (segsBetween descending lo hi).flatMap fun k => segmentItems (e.contents (segFile cfg name k)) descending

structure Started (cfg : Cfg) (s : CurSt) : Prop where
  first : s.cur.curSeg = if s.cur.descending then s.cur.segHi else s.cur.segLo
  done : s.cur.fileDone = false
  ramOffset : s.cur.ramOffset = 0
  start : AtStart s.cur (segFile cfg s.cur.streamName s.cur.curSeg)
    (s.app.env.contents (segFile cfg s.cur.streamName s.cur.curSeg))

section Start
variable {cfg : Cfg}

theorem Span.alike {a b : App} {name : Bytes} {descending : Bool} {lo hi : Nat} (h : Span cfg a name descending lo hi)
    (l : Alike cfg a b) : Span cfg b name descending lo hi :=
  ⟨l.env.clean h.clean, l.running.trans h.up, h.valid, h.le, h.single, fun k hlo hhi => (h.files k hlo hhi).congr l.env⟩

theorem Openable.look {name : Bytes} {e : Sys} {descending : Bool} {k : Nat} (h : Openable cfg name e descending k) :
    e.look (segFile cfg name k) = some (e.contents (segFile cfg name k)) := by
  obtain ⟨_, bs, _, hlook, _⟩ := h
  rw [Env.contents_eq, hlook, Option.getD_some]

theorem segsBetween_cons (descending : Bool) {lo hi : Nat} (h : lo ≤ hi) :
    segsBetween descending lo hi = (if descending then hi else lo) ::
      if descending then (List.range' lo (hi - lo)).reverse else List.range' (lo + 1) (hi - lo) := by
  unfold segsBetween
  split
  · rw [List.range'_1_concat, List.reverse_append, List.reverse_singleton, List.singleton_append, Nat.add_sub_cancel' h]
  · rw [List.range'_succ]

theorem mem_segsBetween {descending : Bool} {lo hi k : Nat} (h : lo ≤ hi) (hk : k ∈ segsBetween descending lo hi) :
    lo ≤ k ∧ k ≤ hi := by
  have hmem : k ∈ List.range' lo (hi - lo + 1) := by
    unfold segsBetween at hk
    split at hk
    · exact List.mem_reverse.mp hk
    · exact hk
  rw [List.mem_range'_1] at hmem
  omega

variable {s : CurSt}

theorem Started.segs (h : Started cfg s) (hle : s.cur.segLo ≤ s.cur.segHi) :
    s.cur.curSeg :: s.cur.segsAhead = segsBetween s.cur.descending s.cur.segLo s.cur.segHi := by
  rw [segsBetween_cons _ hle, h.first]
  unfold CursorCtx.segsAhead
  rw [h.first]
  cases s.cur.descending <;> rfl

theorem Started.walkable (h : Started cfg s)
    (hs : Span cfg s.app s.cur.streamName s.cur.descending s.cur.segLo s.cur.segHi) : Walkable cfg s := by
  have hsegs := h.segs hs.le
  have hmem : ∀ k ∈ s.cur.curSeg :: s.cur.segsAhead, s.cur.segLo ≤ k ∧ k ≤ s.cur.segHi := fun k hk =>
    mem_segsBetween hs.le (hsegs ▸ hk)
  obtain ⟨hlo, hhi⟩ := hmem _ List.mem_cons_self
  obtain ⟨pos, hfile⟩ := h.start.file
  refine ⟨hs.clean, hs.up, hs.valid, hlo, hhi, hs.single, by rw [hfile]; rfl, layoutOf_recSize h.start.layout,
    fun hd f hf => h.start.back (hs.files _ hlo hhi).look hd f hf, fun k hk => ?_⟩
  obtain ⟨hklo, hkhi⟩ := hmem k (List.mem_cons_of_mem _ hk)
  exact hs.files k hklo hkhi

theorem Started.files (h : Started cfg s)
    (hs : Span cfg s.app s.cur.streamName s.cur.descending s.cur.segLo s.cur.segHi) :
    s.cur.filesAhead cfg s.app.env =
      spanItems cfg s.app.env s.cur.streamName s.cur.descending s.cur.segLo s.cur.segHi := by
  have hsegs := h.segs hs.le
  have hmem : s.cur.curSeg ∈ segsBetween s.cur.descending s.cur.segLo s.cur.segHi := hsegs ▸ List.mem_cons_self
  obtain ⟨hlo, hhi⟩ := mem_segsBetween hs.le hmem
  rw [filesAhead_eq (h.walkable hs) h.done, h.start.here (hs.files _ hlo hhi).look, spanItems, ← hsegs,
    List.flatMap_cons]
  rfl

theorem Started.poised (h : Started cfg s)
    (hs : Span cfg s.app s.cur.streamName s.cur.descending s.cur.segLo s.cur.segHi)
    (hsound : Sound (bufAhead cfg s.cur s.app)) : Poised cfg s :=
  ⟨h.walkable hs, h.start.toOnFile, hsound⟩

/-- The query of a cursor stays the same, and so do the state it reads and the file it has open. -/
structure Rewinds (cfg : Cfg) (s s' : CurSt) : Prop where
  alike : Alike cfg s.app s'.app
  name : s'.cur.streamName = s.cur.streamName
  window : s'.cur.window = s.cur.window
  predicate : s'.cur.predicate = s.cur.predicate
  descending : s'.cur.descending = s.cur.descending
  segLo : s'.cur.segLo = s.cur.segLo
  segHi : s'.cur.segHi = s.cur.segHi
  curSeg : s'.cur.curSeg = s.cur.curSeg

/-- `zdb_cursor_reset` goes back to the start of the file that is open. -/
theorem run_cursorReset {path bs : Bytes} (hc : s.app.env.Clean) (ho : OnFile s.cur path bs) :
    ∃ s', cursorReset.run s = .ok () s' ∧ Rewinds cfg s s' ∧ s'.cur.fileDone = false ∧ s'.cur.ramOffset = 0 ∧
      AtStart s'.cur path bs := by
  obtain ⟨pos, hfile⟩ := ho.file
  have hhdr := layoutOf_hdrSize ho.layout
  have hrec := layoutOf_recSize ho.layout
  let off := if s.cur.descending = true ∧ 0 < s.cur.layout.recSize ∧ s.cur.layout.hdrSize < s.cur.fileSize
    then s.cur.layout.lastWhole s.cur.fileSize else s.cur.layout.hdrSize
  let s₁ : CurSt := ⟨{ s.cur with ramOffset := 0, fileDone := false, fileOffset := off }, s.app⟩
  have hup : s.cur.descending = false → off = s.cur.layout.hdrSize := fun hd => if_neg (by simp [hd])
  have hdown : s.cur.descending = true → off = s.cur.layout.lastWhole bs.length := by
    intro hd
    obtain ⟨hle, hsize⟩ := ho.size hd
    by_cases hlt : s.cur.layout.hdrSize < bs.length
    · rw [← hsize] at hlt ⊢
      exact if_pos ⟨hd, hrec, hlt⟩
    · have heq : bs.length = s.cur.layout.hdrSize := Nat.le_antisymm (Nat.not_lt.mp hlt) hle
      rw [heq, lastWhole_eq (Nat.le_refl _), Nat.sub_self, Nat.zero_div, Nat.zero_mul, Nat.add_zero]
      exact if_neg (by rw [hsize]; exact fun h => hlt h.2.2)
  have hseek : ¬ (2 ^ 31 ≤ off ∧ s.cur.fileSize < s.cur.layout.hdrSize) := by
    rintro ⟨hbig, hshort⟩
    cases hd : s.cur.descending with
    | true =>
      obtain ⟨hle, hsize⟩ := ho.size hd
      omega
    | false =>
      rw [hup hd] at hbig
      unfold hdrSizeV2 at hhdr
      omega
  obtain ⟨e, h₁, l₁⟩ := run_seekTo (s := s₁) hc off hseek
  let c : CursorCtx := { s₁.cur with file := some ⟨path, bs.length, off⟩ }
  have hset : ({ s₁.cur with file := s₁.cur.file.map fun f => { f with pos := off } } : CursorCtx) = c := by
    show ({ s₁.cur with file := s.cur.file.map fun f => { f with pos := off } } : CursorCtx) = c
    rw [hfile]
    rfl
  rw [hset] at h₁
  refine ⟨⟨c, { s.app with env := e }⟩, ?_, ⟨alike_env s.app l₁, rfl, rfl, rfl, rfl, rfl, rfl, rfl⟩, rfl, rfl, ?_⟩
  · apply run_then (run_updCur _ s)
    apply run_then (run_getCur _)
    have hopen : s.cur.file.isSome = true := by rw [hfile]; rfl
    dsimp only
    rw [if_pos hopen]
    exact run_then (run_getCur s₁) (run_toStatus h₁)
  · exact ⟨⟨ho.layout, ⟨off, rfl⟩, ho.size⟩, fun hd => by rw [← hup hd], fun hd => hdown hd⟩

theorem buildPath_ok {name : Bytes} {k : Nat} (hs : cfg.segmented = false) (hv : streamNameValid cfg name = true)
    (hlen : (segFile cfg name k).length < PATH_MAX) : buildPath cfg name = .ok (segFile cfg name k) := by
  have hseg : segFile cfg name k = streamPath cfg name := by
    rw [segFile, hs]
    rfl
  rw [hseg] at hlen ⊢
  unfold streamPath at hlen
  simp [buildPath, buildEntryPath, hv, streamPath, Nat.not_le.mpr hlen]

theorem run_openStream {k : Nat} (hs : cfg.segmented = false) (hc : s.app.env.Clean)
    (hv : streamNameValid cfg s.cur.streamName = true)
    (ho : Openable cfg s.cur.streamName s.app.env s.cur.descending k) :
    ∃ s', (cursorOpenStream cfg s.cur.streamName).run s = .ok () s' ∧ Reads cfg s s' ∧ s'.cur.curSeg = s.cur.curSeg ∧
      AtStart s'.cur (segFile cfg s.cur.streamName k) (s.app.env.contents (segFile cfg s.cur.streamName k)) := by
  obtain ⟨hlen, bs, layout, hlook, hlayout, hlong⟩ := ho
  have hhdr := layoutOf_hdrSize hlayout
  rw [Env.contents_eq, hlook, Option.getD_some]
  have hbuild : (rethrow ((buildPath cfg s.cur.streamName).mapError statusFromErrno) : CurM Status Path).run s =
      .ok (segFile cfg s.cur.streamName k) s := by
    rw [buildPath_ok hs hv hlen]
    rfl
  generalize segFile cfg s.cur.streamName k = path at *
  obtain ⟨e₁, h₁, l₁⟩ := run_cursorOpenFile (s := s) hc hlook
  obtain ⟨e₂, h₂, l₂⟩ := run_cursorLearn (s := ⟨{ s.cur with file := some ⟨path, bs.length, 0⟩ },
    { s.app with env := e₁ }⟩) (l₁.clean hc) (by rw [l₁.look]; exact hlook) hlayout
  have l₁₂ := l₁.trans (l₁.look ▸ l₂)
  obtain ⟨e₃, h₃, l₃⟩ := run_cursorLearnSize (s := ⟨{ s.cur with file := some ⟨path, bs.length, 0⟩, layout := layout },
    { s.app with env := e₂ }⟩) (l₁₂.clean hc)
  have l₁₃ := l₁₂.trans (l₁₂.look ▸ l₃)
  let off := if s.cur.descending then layout.lastWhole bs.length else layout.hdrSize
  have hseek : ¬ (2 ^ 31 ≤ off ∧ bs.length < layout.hdrSize) := by
    rintro ⟨hbig, hshort⟩
    cases hd : s.cur.descending with
    | true => exact Nat.not_lt.mpr (hlong hd) hshort
    | false =>
      have hoff : off = layout.hdrSize := if_neg (by simp [hd])
      unfold hdrSizeV2 at hhdr
      omega
  obtain ⟨e₄, h₄, l₄⟩ := run_seekTo (s := ⟨{ s.cur with
    file := some ⟨path, bs.length, 0⟩, layout := layout, fileSize := bs.length, fileOffset := off },
    { s.app with env := e₃ }⟩) (l₁₃.clean hc) off hseek
  have l := l₁₃.trans (l₁₃.look ▸ l₄)
  let c : CursorCtx := { s.cur with
    file := some ⟨path, bs.length, off⟩, layout := layout, fileSize := bs.length, fileOffset := off }
  refine ⟨⟨c, { s.app with env := e₄ }⟩, ?_, reads_env s (c := c) ⟨rfl, rfl, rfl, rfl, rfl, rfl, rfl, rfl⟩ l, rfl,
    ⟨⟨hlayout, ⟨off, rfl⟩, fun hd => ⟨hlong hd, rfl⟩⟩, fun hd => ?_, fun hd => if_pos hd⟩⟩
  swap
  · have hoff : off = layout.hdrSize := if_neg (by simp [show s.cur.descending = false from hd])
    show some _ = some _
    rw [hoff]
  apply run_then hbuild
  apply run_then h₁
  apply run_then h₂
  apply run_then h₃
  apply run_then (run_updCur _ _)
  apply run_then (run_getCur _)
  exact run_toStatus h₄

structure Shown (cfg : Cfg) (a : App) (h : Nat) (name : Bytes) (lo hi : Nat) : Prop where
  handle : a.handles h = some name
  slot : cfg.segmented = true → ∃ i, a.slotFind name = some i ∧ (a.slotAt i).segsScanned = true ∧
    (a.slotAt i).oldestSeg = lo ∧ (a.slotAt i).curSeg = hi
  header : cfg.segmented = false → lo = 0 ∧ hi = 0 ∧ headerValid name (a.env.contents (segFile cfg name 0)) = true

structure Opened (cfg : Cfg) (a : App) (name : Bytes) (window : Window) (predicate : Option (Bytes → Bool))
    (descending : Bool) (lo hi : Nat) (s : CurSt) : Prop where
  alike : Alike cfg a s.app
  started : Started cfg s
  name : s.cur.streamName = name
  window : s.cur.window = window
  predicate : s.cur.predicate = predicate
  descending : s.cur.descending = descending
  segLo : s.cur.segLo = lo
  segHi : s.cur.segHi = hi

variable {a : App} {h : Nat} {name : Bytes} {window : Window} {predicate : Option (Bytes → Bool)} {descending : Bool}
  {lo hi : Nat}

theorem run_begin {m : CurM Status Unit} (window : Window) (predicate : Option (Bytes → Bool)) (hspan : Span cfg a name descending lo hi)
    (hm : ∃ t, m.run ⟨CursorCtx.start name window predicate descending lo hi, a⟩ = .ok () t ∧
      Rewinds cfg ⟨CursorCtx.start name window predicate descending lo hi, a⟩ t ∧
      OnFile t.cur (segFile cfg name (if descending then hi else lo))
        (a.env.contents (segFile cfg name (if descending then hi else lo)))) :
    ∃ c b, (withCursor (CursorCtx.start name window predicate descending lo hi) (do m; cursorReset)).run a =
      .ok ((), c) b ∧ Opened cfg a name window predicate descending lo hi ⟨c, b⟩ := by
  obtain ⟨t, hrun, hr, ho⟩ := hm
  obtain ⟨u, hreset, hr', hdone, hram, hstart⟩ := @run_cursorReset cfg t _ _ (hr.alike.env.clean hspan.clean) ho
  have hboth : (do m; cursorReset : CurM Status Unit).run ⟨CursorCtx.start name window predicate descending lo hi, a⟩ =
      .ok () u := run_then hrun hreset
  have hwith : (withCursor (CursorCtx.start name window predicate descending lo hi) (do m; cursorReset)).run a =
      .ok ((), u.cur) u.app := run_withCursor hboth
  have hal := hr.alike.trans hr'.alike
  have hname := hr'.name.trans hr.name
  have hdesc := hr'.descending.trans hr.descending
  refine ⟨u.cur, u.app, hwith, hal, ⟨?_, hdone, hram, ?_⟩, hname, hr'.window.trans hr.window,
    hr'.predicate.trans hr.predicate, hdesc, hr'.segLo.trans hr.segLo, hr'.segHi.trans hr.segHi⟩
  · rw [hr'.curSeg.trans hr.curSeg, hdesc, hr'.segHi.trans hr.segHi, hr'.segLo.trans hr.segLo]
    rfl
  · rw [contents_congr hal.env, hname, hr'.curSeg.trans hr.curSeg]
    exact hstart

theorem run_scanSegments_again {s : SlotSt} (h : s.slot.segsScanned = true) :
    (scanSegments cfg).run s = .ok () s := by
  refine run_then (show (getSlot : SlotM Status StreamCtx).run s = .ok s.slot s from rfl) ?_
  rw [if_pos h]
  rfl

theorem run_cursorWindow (hshown : Shown cfg a h name lo hi) (hc : a.env.Clean) (hup : a.cfgSet = true)
    (hs : cfg.segmented = true) : ∃ b, (cursorWindow cfg name).run a = .ok (lo, hi) b ∧ Alike cfg a b := by
  obtain ⟨i, hi, hscan, rfl, rfl⟩ := hshown.slot hs
  obtain ⟨b, hctx, hal, -⟩ := @tsCtxGetOrAlloc_spec cfg _ hc hup .ERR_INVAL
  refine ⟨b, ?_, hal⟩
  have hslot : (b.slotAt i).segsScanned = true := by rw [hal.slots]; exact hscan
  have hget : (get : AppM Status App).run b = .ok b b := rfl
  have hscanned : (orFail Status.ERR_INVAL (onSlot i (scanSegments cfg)) : AppM Status Unit).run b = .ok () b :=
    run_orFail (run_onSlot_still (run_scanSegments_again (s := ⟨b.slotAt i, b.env⟩) hslot))
  apply run_then hctx
  apply run_then hget
  dsimp only
  rw [hal.slotFind, hi]
  apply run_then hscanned
  apply run_then hget
  rw [hal.slots]
  rfl

/-- The header check of `zdb_ts_cursor_open_dir` on a file whose header is valid. -/
theorem run_ensureStreamHeader (hspan : Span cfg a name descending lo hi) (hs : cfg.segmented = false)
    (hv : headerValid name (a.env.contents (segFile cfg name lo)) = true) :
    ∃ e, (onEnv (ensureStreamHeader cfg name)).run a = .ok () { a with env := e } ∧ Leads a.env a.env.look e := by
  have hopen := hspan.files lo (Nat.le_refl _) hspan.le
  obtain ⟨vb, e, h₁, l₁⟩ := ensureHeaderEx_valid cfg hspan.clean hopen.look hv 0
  refine ⟨e, run_onEnv ?_, l₁⟩
  unfold ensureStreamHeader
  rw [buildPath_ok hs hspan.valid hopen.1]
  exact run_then rfl (run_then h₁ rfl)

/-- `zdb_ts_cursor_open_dir` on a segmented stream, once the segment window is known. -/
theorem opens_segmented {e : Sys} {b : App} (window : Window) (predicate : Option (Bytes → Bool))
    (hs : cfg.segmented = true) (hh : a.handles h = some name) (hup : a.cfgSet = true) (hcall : call.run a.env = .ok () e)
    (hwindow : (cursorWindow cfg name).run { a with env := e } = .ok (lo, hi) b)
    (hspan : Span cfg b name descending lo hi) :
    ∃ c d, (cursorOpenDir cfg h window predicate descending).run a = .ok c d ∧
      Opened cfg b name window predicate descending lo hi ⟨c, d⟩ := by
  have hset : ¬ (!a.cfgSet) = true := by simp [hup]
  have hget : (get : AppM Status App).run a = .ok a a := rfl
  have hslab : (onEnv (orFail .ERR_NOMEM call) : AppM Status Unit).run a = .ok () { a with env := e } :=
    run_onEnv (run_orFail hcall)
  have hfirst : Openable cfg name b.env descending (if descending then hi else lo) := by
    split
    · exact hspan.files hi hspan.le (Nat.le_refl _)
    · exact hspan.files lo (Nat.le_refl _) hspan.le
  obtain ⟨t, hrun, hr, hseg, hstart⟩ := run_openSegment
    (s := ⟨CursorCtx.start name window predicate descending lo hi, b⟩) hs hspan.clean hspan.valid hfirst
  obtain ⟨c, d, hbegin, hopened⟩ := run_begin window predicate hspan
    ⟨t, hrun, ⟨hr.alike, hr.query.name, hr.query.window, hr.query.predicate, hr.query.descending, hr.query.segLo,
      hr.query.segHi, hseg⟩, hstart.toOnFile⟩
  refine ⟨c, d, ?_, hopened⟩
  unfold cursorOpenDir
  apply run_then hget
  dsimp only
  rw [hh]
  dsimp only
  rw [if_neg hset, if_neg (by simp [hs])]
  apply run_then hslab
  rw [if_pos hs]
  exact run_then hwindow (run_then hbegin rfl)

/-- `zdb_ts_cursor_open_dir` on an unsegmented stream, once its header is there. -/
theorem opens_single {e₁ e₂ : Sys} (window : Window) (predicate : Option (Bytes → Bool)) (hs : cfg.segmented = false)
    (hh : a.handles h = some name) (hup : a.cfgSet = true)
    (hheader : (onEnv (ensureStreamHeader cfg name)).run a = .ok () { a with env := e₁ })
    (hcall : call.run e₁ = .ok () e₂) (hspan : Span cfg { a with env := e₂ } name descending 0 0) :
    ∃ c d, (cursorOpenDir cfg h window predicate descending).run a = .ok c d ∧
      Opened cfg { a with env := e₂ } name window predicate descending 0 0 ⟨c, d⟩ := by
  have hset : ¬ (!a.cfgSet) = true := by simp [hup]
  have hget : (get : AppM Status App).run a = .ok a a := rfl
  have hslab : (onEnv (orFail .ERR_NOMEM call) : AppM Status Unit).run { a with env := e₁ } =
      .ok () { a with env := e₂ } := run_onEnv (run_orFail hcall)
  obtain ⟨t, hrun, hr, hseg, hstart⟩ := run_openStream
    (s := ⟨CursorCtx.start name window predicate descending 0 0, { a with env := e₂ }⟩) hs hspan.clean hspan.valid
    (hspan.files 0 (Nat.le_refl _) (Nat.le_refl _))
  have hzero : (if descending then 0 else 0) = 0 := by split <;> rfl
  obtain ⟨c, d, hbegin, hopened⟩ := run_begin window predicate hspan
    ⟨t, hrun, ⟨hr.alike, hr.query.name, hr.query.window, hr.query.predicate, hr.query.descending, hr.query.segLo,
      hr.query.segHi, hseg⟩, by rw [hzero]; exact hstart.toOnFile⟩
  refine ⟨c, d, ?_, hopened⟩
  unfold cursorOpenDir
  apply run_then hget
  dsimp only
  rw [hh]
  dsimp only
  rw [if_neg hset, if_pos (by simp [hs])]
  apply run_then hheader
  apply run_then hslab
  rw [if_neg (by simp [hs])]
  exact run_then hbegin rfl

/-- `zdb_ts_cursor_open_dir` opens a cursor at the start of its walk. -/
theorem cursorOpenDir_opens (window : Window) (predicate : Option (Bytes → Bool))
    (hshown : Shown cfg a h name lo hi) (hspan : Span cfg a name descending lo hi) :
    ∃ c b, (cursorOpenDir cfg h window predicate descending).run a = .ok c b ∧
      Opened cfg a name window predicate descending lo hi ⟨c, b⟩ := by
  cases hs : cfg.segmented with
  | true =>
    obtain ⟨e₁, h₁, l₁⟩ := call_ok hspan.clean
    have hal₁ : Alike cfg a { a with env := e₁ } := alike_env a l₁
    have hshown₁ : Shown cfg { a with env := e₁ } h name lo hi :=
      ⟨hshown.handle, hshown.slot, by rw [hs]; exact fun hno => nomatch hno⟩
    obtain ⟨b, hwindow, hal₂⟩ := run_cursorWindow hshown₁ (l₁.clean hspan.clean) hspan.up hs
    have hal := hal₁.trans hal₂
    obtain ⟨c, d, hrun, hopened⟩ :=
      opens_segmented window predicate hs hshown.handle hspan.up h₁ hwindow (hspan.alike hal)
    exact ⟨c, d, hrun, { hopened with alike := hal.trans hopened.alike }⟩
  | false =>
    obtain ⟨rfl, rfl, hv⟩ := hshown.header hs
    obtain ⟨e₁, h₁, l₁⟩ := run_ensureStreamHeader hspan hs hv
    obtain ⟨e₂, h₂, l₂⟩ := call_ok (l₁.clean hspan.clean)
    have hal : Alike cfg a { a with env := e₂ } := alike_env a (l₁.trans (l₁.look ▸ l₂))
    obtain ⟨c, d, hrun, hopened⟩ :=
      opens_single window predicate hs hshown.handle hspan.up h₁ h₂ (hspan.alike hal)
    exact ⟨c, d, hrun, { hopened with alike := hal.trans hopened.alike }⟩

end Start

def streamBuf (cfg : Cfg) (a : App) (name : Bytes) (descending : Bool) : List RecItem :=
  match a.slotFind name with
  | none => []
  | some i => bufItems cfg (a.slotAt i) descending 0

def streamItems (cfg : Cfg) (a : App) (name : Bytes) (descending : Bool) (lo hi : Nat) : List RecItem :=
  if descending then streamBuf cfg a name true ++ spanItems cfg a.env name true lo hi
  else spanItems cfg a.env name false lo hi ++ streamBuf cfg a name false

def admitted (window : Window) (predicate : Option (Bytes → Bool)) (x : Bytes × Sample) : Bool :=
  windowMatch window x.2.tsMs && (match predicate with | none => true | some p => p x.1)

section Queries
variable {cfg : Cfg} {a : App} {name : Bytes} {window : Window} {predicate : Option (Bytes → Bool)}
  {descending : Bool} {lo hi : Nat} {s : CurSt}

theorem spanItems_congr {e e' : Sys} (l : Leads e e.look e') :
    spanItems cfg e' name descending lo hi = spanItems cfg e name descending lo hi := by
  unfold spanItems
  congr 1
  funext k
  rw [contents_congr l]

theorem streamBuf_congr {b : App} (l : Alike cfg a b) : streamBuf cfg b name descending = streamBuf cfg a name descending := by
  unfold streamBuf
  rw [l.slotFind]
  split
  · rfl
  · rw [l.slots]

theorem streamItems_congr {b : App} (l : Alike cfg a b) :
    streamItems cfg b name descending lo hi = streamItems cfg a name descending lo hi := by
  unfold streamItems
  rw [spanItems_congr l.env, spanItems_congr l.env, streamBuf_congr l, streamBuf_congr l]

theorem Started.buffer (h : Started cfg s) :
    bufAhead cfg s.cur s.app = streamBuf cfg s.app s.cur.streamName s.cur.descending := by
  unfold bufAhead
  rw [h.ramOffset]
  rfl

theorem Started.ahead (h : Started cfg s)
    (hs : Span cfg s.app s.cur.streamName s.cur.descending s.cur.segLo s.cur.segHi) :
    ahead cfg s = streamItems cfg s.app s.cur.streamName s.cur.descending s.cur.segLo s.cur.segHi := by
  unfold Ts.ahead streamItems
  rw [h.files hs, h.buffer]
  cases s.cur.descending <;> rfl

theorem Opened.span (h : Opened cfg a name window predicate descending lo hi s)
    (hs : Span cfg a name descending lo hi) :
    Span cfg s.app s.cur.streamName s.cur.descending s.cur.segLo s.cur.segHi := by
  rw [h.name, h.descending, h.segLo, h.segHi]
  exact hs.alike h.alike

theorem Opened.poised (h : Opened cfg a name window predicate descending lo hi s)
    (hs : Span cfg a name descending lo hi) (hsound : Sound (streamBuf cfg a name descending)) : Poised cfg s := by
  apply h.started.poised (h.span hs)
  rw [h.started.buffer, h.name, h.descending, streamBuf_congr h.alike]
  exact hsound

theorem Opened.ahead (h : Opened cfg a name window predicate descending lo hi s)
    (hs : Span cfg a name descending lo hi) : ahead cfg s = streamItems cfg a name descending lo hi := by
  rw [h.started.ahead (h.span hs), h.name, h.descending, h.segLo, h.segHi, streamItems_congr h.alike]

theorem Opened.pass (h : Opened cfg a name window predicate descending lo hi s) :
    s.cur.pass = admitted window predicate := by
  rw [← h.window, ← h.predicate]
  rfl

/-- What a walk with a cursor that has just been opened reports: the records of the files and of the buffer
that the window and the predicate select, one after the other. -/
theorem query_opened {b d : App} {c : CursorCtx} {h : Nat}
    (hopen : (cursorOpenDir cfg h window predicate descending).run a = .ok c d)
    (hopened : Opened cfg b name window predicate descending lo hi ⟨c, d⟩) (hspan : Span cfg b name descending lo hi)
    (hsound : Sound (streamBuf cfg b name descending)) (n : Nat) :
    Gives (queryCursor cfg h window predicate descending n) a
      (.ok (callsOver .ERR_NOT_FOUND (reports (admitted window predicate) (streamItems cfg b name descending lo hi)) n))
      fun t => Alike cfg b t := by
  obtain ⟨s, hwalk, hon, -⟩ := (walk_gives n (hopened.poised hspan hsound)).run_ok
  rw [hopened.pass, hopened.ahead hspan] at hwalk
  refine gives_ok (t := s.app) ?_ (hopened.alike.trans hon.alike)
  have hwith : (withCursor c (cursorWalk cfg n)).run d = .ok (callsOver .ERR_NOT_FOUND
      (reports (admitted window predicate) (streamItems cfg b name descending lo hi)) n, s.cur) s.app :=
    run_withCursor hwalk
  exact run_then hopen (run_then hwith rfl)

theorem query_gives (window : Window) (predicate : Option (Bytes → Bool)) (n : Nat) {h : Nat}
    (hshown : Shown cfg a h name lo hi) (hspan : Span cfg a name descending lo hi)
    (hsound : Sound (streamBuf cfg a name descending)) :
    Gives (queryCursor cfg h window predicate descending n) a
      (.ok (callsOver .ERR_NOT_FOUND (reports (admitted window predicate) (streamItems cfg a name descending lo hi)) n))
      fun b => Alike cfg a b := by
  obtain ⟨c, b, hopen, hopened⟩ := cursorOpenDir_opens window predicate hshown hspan
  exact query_opened hopen hopened hspan hsound n

end Queries

end ZephyrDB.Ts
