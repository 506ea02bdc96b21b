import ZephyrDB.Ts.Aggregate
import ZephyrDB.Ts.Alone
import ZephyrDB.Ts.Flipped

/-!
`zdb_ts_query_aggregate` for COUNT goes two ways: over the unbounded window by
the sizes of the files and of the buffer, over any other with a cursor. Where
the files are headers with whole records behind them, whatever their layouts,
both ways come to as many samples as a cursor yields.
-/

set_option autoImplicit false

namespace ZephyrDB.Ts

open Lib

/-- A file holds a header and behind it whole records that are valid in the layout it announces. -/
structure WholeFile (bs : Bytes) (layout : FileLayout) : Prop where
  known : layoutOf bs = .ok layout
  header : layout.hdrSize ≤ bs.length
  whole : layout.recSize ∣ bs.length - layout.hdrSize
  valid : ∀ raw ∈ chunks layout.recSize (bs.drop layout.hdrSize),
    ∃ sample, decoded layout.version layout.baseTsMs raw = .ok sample

/-- A buffer holds records that are valid in the layout of its slot. -/
structure WholeBuffer (cfg : Cfg) (slot : StreamCtx) : Prop where
  whole : slotRecSize cfg slot ∣ slot.ingestUsed
  valid : ∃ buf, slot.ingestBuf = some buf ∧ ∀ j < slot.ingestUsed / slotRecSize cfg slot,
    ∃ sample, decoded (slotVersion cfg slot) (slotBaseTs cfg slot) (slice buf (j * slotRecSize cfg slot)
      (slotRecSize cfg slot)) = .ok sample

/-- A stream whose slot is scanned, on storage that works, with all its files and its buffer in order. -/
structure InOrder (cfg : Cfg) (a : App) (h : Nat) (name : Bytes) (lo hi : Nat) : Prop where
  clean : a.env.Clean
  up : a.cfgSet = true
  valid : streamNameValid cfg name = true
  handle : a.handles h = some name
  scanned : cfg.segmented = true → ∃ i, a.slotFind name = some i ∧ (a.slotAt i).segsScanned = true ∧
    (a.slotAt i).oldestSeg = lo ∧ (a.slotAt i).curSeg = hi
  single : cfg.segmented = false → lo = 0 ∧ hi = 0 ∧ headerValid name (a.env.contents (segFile cfg name 0)) = true
  le : lo ≤ hi
  files : ∀ k, lo ≤ k → k ≤ hi → (segFile cfg name k).length < PATH_MAX ∧
    ∃ bs layout, a.env.look (segFile cfg name k) = some bs ∧ WholeFile bs layout
  buffer : ∀ i, a.slotFind name = some i → WholeBuffer cfg (a.slotAt i)

/-- Items that are all records handed out. -/
theorem exists_found {items : List RecItem} (h : ∀ item ∈ items, ∃ r : Bytes × Sample, item = foundItem r) :
    ∃ recs : List (Bytes × Sample), items = recs.map foundItem := by
  induction items with
  | nil => exact ⟨[], rfl⟩
  | cons item items ih =>
    obtain ⟨r, rfl⟩ := h item List.mem_cons_self
    obtain ⟨recs, rfl⟩ := ih fun item hmem => h item (List.mem_cons_of_mem _ hmem)
    exact ⟨r :: recs, rfl⟩

theorem WholeFile.items {bs : Bytes} {layout : FileLayout} (h : WholeFile bs layout) :
    (segmentItems bs false).length = (bs.length - layout.hdrSize) / layout.recSize ∧
      ∀ item ∈ segmentItems bs false, ∃ r : Bytes × Sample, item = foundItem r := by
  have hr := layoutOf_recSize h.known
  obtain ⟨n, hn⟩ := h.whole
  have hlen : (bs.drop layout.hdrSize).length = n * layout.recSize := by rw [List.length_drop, hn, Nat.mul_comm]
  obtain ⟨hcount, heach⟩ := chunks_exact hr hlen
  have hitems : segmentItems bs false = (chunks layout.recSize (bs.drop layout.hdrSize)).map (fileItem layout) := by
    unfold segmentItems
    rw [h.known]
    rfl
  rw [hitems, List.length_map, hcount, hn, Nat.mul_div_cancel_left _ hr]
  refine ⟨rfl, fun item hitem => ?_⟩
  obtain ⟨raw, hraw, rfl⟩ := List.mem_map.mp hitem
  obtain ⟨sample, hsample⟩ := h.valid raw hraw
  refine ⟨(raw, sample), ?_⟩
  rw [fileItem, if_pos (heach raw hraw), recordItem_ok hsample]
  rfl

theorem WholeBuffer.items {cfg : Cfg} {slot : StreamCtx} (h : WholeBuffer cfg slot) :
    (bufItems cfg slot false 0).length = slot.ingestUsed / slotRecSize cfg slot ∧
      ∀ item ∈ bufItems cfg slot false 0, ∃ r : Bytes × Sample, item = foundItem r := by
  obtain ⟨buf, hbuf, hvalid⟩ := h.valid
  unfold bufItems
  rw [hbuf]
  dsimp only
  rw [List.length_map, List.length_range, Nat.sub_zero]
  refine ⟨rfl, fun item hitem => ?_⟩
  obtain ⟨j, hj, rfl⟩ := List.mem_map.mp hitem
  obtain ⟨sample, hsample⟩ := hvalid j (List.mem_range.mp hj)
  rw [if_neg Bool.false_ne_true, Nat.zero_add]
  exact ⟨_, recordItem_ok hsample⟩

theorem decoded_of_found {version : Nat} {baseTsMs : UInt64} {raw : Bytes} {r : Bytes × Sample}
    (h : recordItem version baseTsMs raw = foundItem r) : ∃ sample, decoded version baseTsMs raw = .ok sample := by
  unfold recordItem at h
  split at h
  · rename_i sample hsample
    exact ⟨sample, hsample⟩
  · cases h
  · cases h

/-- The file of a segment of a log is in order. -/
theorem wholeFile_seg (name : Bytes) (g : Seg Format.fits) : WholeFile (segBytes name g) g.format.layout where
  known := layoutOf_header name g.format _
  header := by
    rw [segBytes_length]
    exact Nat.le_add_right _ _
  whole := by
    refine ⟨g.items.length, ?_⟩
    rw [segBytes_length, show g.format.layout.hdrSize = g.format.hdrSize from rfl, Nat.add_sub_cancel_left, Nat.mul_comm]
    rfl
  valid raw hraw := by
    have hhdr : (g.format.header name).length = g.format.layout.hdrSize := g.format.header_length name
    rw [segBytes, ← hhdr, List.drop_left, Format.records, show g.format.layout.recSize = g.format.recSize from rfl,
      chunks_flatMap g.format.recSize_pos fun x hx => Format.encode_length (g.ok x hx)] at hraw
    obtain ⟨x, hx, rfl⟩ := List.mem_map.mp hraw
    rw [layout_version]
    exact decoded_of_found (recordItem_encode (g.ok x hx))

section Count
variable {cfg : Cfg} {a : App} {h : Nat} {name : Bytes} {lo hi : Nat}

theorem InOrder.span (hq : InOrder cfg a h name lo hi) : Span cfg a name false lo hi where
  clean := hq.clean
  up := hq.up
  valid := hq.valid
  le := hq.le
  single hs := by rw [(hq.single hs).1, (hq.single hs).2.1]
  files k hlo hhi := by
    obtain ⟨hfits, bs, layout, hlook, hwhole⟩ := hq.files k hlo hhi
    exact ⟨hfits, bs, layout, hlook, hwhole.known, fun hno => nomatch hno⟩

theorem InOrder.shown (hq : InOrder cfg a h name lo hi) : Shown cfg a h name lo hi :=
  ⟨hq.handle, hq.scanned, hq.single⟩

/-- Everything that such a stream holds is a record to hand out. -/
theorem InOrder.items (hq : InOrder cfg a h name lo hi) :
    ∃ recs : List (Bytes × Sample), streamItems cfg a name false lo hi = recs.map foundItem := by
  apply exists_found
  intro item hitem
  unfold streamItems at hitem
  rw [if_neg Bool.false_ne_true] at hitem
  rcases List.mem_append.mp hitem with hfile | hbuf
  · obtain ⟨k, hk, hmem⟩ := List.mem_flatMap.mp hfile
    obtain ⟨hlo, hhi⟩ := mem_segsBetween hq.le hk
    obtain ⟨-, bs, layout, hlook, hwhole⟩ := hq.files k hlo hhi
    rw [Env.contents_eq, hlook, Option.getD_some] at hmem
    exact hwhole.items.2 item hmem
  · unfold streamBuf at hbuf
    split at hbuf
    · cases hbuf
    · rename_i i hi
      exact (hq.buffer i hi).items.2 item hbuf

theorem run_learn_whole {e : Sys} {path : Path} {bs : Bytes} {layout : FileLayout} (hc : e.Clean)
    (hlook : e.look path = some bs) (hwhole : WholeFile bs layout) :
    ∃ e₁ e₂, (fsStat path : Rc Nat).run e = .ok bs.length e₁ ∧ (cursorLearnLayout path).run e₁ = .ok layout e₂ ∧
      Leads e e.look e₂ := by
  obtain ⟨e₁, h₁, l₁⟩ := fsStat_existing hc hlook
  obtain ⟨e₂, h₂, l₂⟩ := run_cursorLearnLayout (l₁.clean hc) (by rw [l₁.look]; exact hlook) hwhole.known
  exact ⟨e₁, e₂, h₁, h₂, l₁.trans (l₁.look ▸ l₂)⟩

theorem countSegments_whole (hs : cfg.segmented = true) (hv : streamNameValid cfg name = true) (ks : List Nat) {e : Sys}
    (hc : e.Clean) (hfiles : ∀ k ∈ ks, (segFile cfg name k).length < PATH_MAX ∧
      ∃ bs layout, e.look (segFile cfg name k) = some bs ∧ WholeFile bs layout) :
    ∃ e', (countSegments cfg name ks).run e =
      .ok ((ks.map fun k => (segmentItems (e.contents (segFile cfg name k)) false).length).sum) e' ∧ Leads e e.look e' := by
  induction ks generalizing e with
  | nil => exact ⟨e, rfl, Leads.refl e⟩
  | cons k ks ih =>
    obtain ⟨hfits, bs, layout, hlook, hwhole⟩ := hfiles k List.mem_cons_self
    obtain ⟨e₁, e₂, h₁, h₂, l₂⟩ := run_learn_whole hc hlook hwhole
    obtain ⟨e₃, h₃, l₃⟩ := ih (l₂.clean hc) fun j hj => by
      rw [l₂.look]
      exact hfiles j (List.mem_cons_of_mem k hj)
    have hpath : (rethrow ((buildSegmentPath cfg name k).mapError statusFromErrno) : Zdb Path).run e =
        .ok (segFile cfg name k) e := by
      rw [buildSegmentPath_ok hs hv hfits]
      rfl
    have hfile : (countFile (segFile cfg name k)).run e =
        .ok (segmentItems (e.contents (segFile cfg name k)) false).length e₂ := by
      rw [Env.contents_eq, hlook, Option.getD_some, hwhole.items.1]
      exact run_then (run_attempt_ok h₁) (run_then (run_attempt_ok h₂) rfl)
    have hsame : (ks.map fun k => (segmentItems (e₂.contents (segFile cfg name k)) false).length) =
        ks.map fun k => (segmentItems (e.contents (segFile cfg name k)) false).length := by
      apply List.map_congr_left
      intro j _
      rw [contents_congr l₂]
    rw [hsame] at h₃
    exact ⟨e₃, run_then hpath (run_then hfile (run_then h₃ rfl)), l₂.trans (l₂.look ▸ l₃)⟩

theorem spanItems_length (cfg : Cfg) (e : Sys) (name : Bytes) (hle : lo ≤ hi) : (spanItems cfg e name false lo hi).length =
    ((List.range' lo (hi + 1 - lo)).map fun k => (segmentItems (e.contents (segFile cfg name k)) false).length).sum := by
  have hcount : hi + 1 - lo = hi - lo + 1 := by omega
  rw [spanItems, List.length_flatMap, hcount]
  rfl

theorem streamItems_length (cfg : Cfg) (a : App) (name : Bytes) (lo hi : Nat) :
    (streamItems cfg a name false lo hi).length =
      (spanItems cfg a.env name false lo hi).length + (streamBuf cfg a name false).length := by
  unfold streamItems
  rw [if_neg Bool.false_ne_true, List.length_append]

theorem InOrder.buffer_length (hq : InOrder cfg a h name lo hi) {i : Nat} (hi : a.slotFind name = some i) :
    (streamBuf cfg a name false).length = (a.slotAt i).ingestUsed / slotRecSize cfg (a.slotAt i) := by
  unfold streamBuf
  rw [hi]
  exact (hq.buffer i hi).items.1

/-- The fast path: what there is, by the sizes of the files and of the buffer. -/
theorem tsCountAll_whole (hq : InOrder cfg a h name lo hi) :
    outcome (tsCountAll cfg name) a = .ok ((streamItems cfg a name false lo hi).length % 2 ^ 32) := by
  have hget : (get : AppM Status App).run a = .ok a a := rfl
  rw [streamItems_length]
  unfold tsCountAll
  rw [outcome_then hget]
  dsimp only
  rw [if_neg (by simp [hq.up])]
  cases hs : cfg.segmented with
  | true =>
    obtain ⟨i, hi, -, rfl, rfl⟩ := hq.scanned hs
    obtain ⟨e, h₁, -⟩ := countSegments_whole hs hq.valid
      (List.range' (a.slotAt i).oldestSeg ((a.slotAt i).curSeg + 1 - (a.slotAt i).oldestSeg)) hq.clean fun k hk => by
        rw [List.mem_range'_1] at hk
        exact hq.files k hk.1 (by omega)
    rw [if_pos rfl, hi, spanItems_length _ _ _ hq.le, hq.buffer_length hi]
    dsimp only [Option.map_some]
    rw [outcome_then (run_onEnv h₁)]
    rfl
  | false =>
    obtain ⟨rfl, rfl, -⟩ := hq.single hs
    obtain ⟨hfits, bs, layout, hlook, hwhole⟩ := hq.files 0 (Nat.le_refl 0) (Nat.le_refl 0)
    obtain ⟨e₁, e₂, h₁, h₂, -⟩ := run_learn_whole hq.clean hlook hwhole
    have hpath : (rethrow ((buildPath cfg name).mapError statusFromErrno) : Zdb Path).run a.env =
        .ok (segFile cfg name 0) a.env := by
      rw [buildPath_ok hs hq.valid hfits]
      rfl
    have hstream : (countStream cfg name).run a.env = .ok (segmentItems bs false).length e₂ := by
      rw [hwhole.items.1]
      exact run_then hpath (run_then (run_attempt_ok h₁) (run_then (run_attempt_ok h₂) rfl))
    have hspan : (spanItems cfg a.env name false 0 0).length = (segmentItems bs false).length := by
      have hcontents : a.env.contents (segFile cfg name 0) = bs := by rw [Env.contents_eq, hlook, Option.getD_some]
      rw [spanItems_length _ _ _ (Nat.le_refl 0), ← hcontents]
      rfl
    rw [if_neg Bool.false_ne_true, outcome_then (run_onEnv hstream), hspan]
    cases hf : a.slotFind name with
    | none =>
      unfold streamBuf
      rw [hf]
      rfl
    | some i =>
      rw [hq.buffer_length hf]
      rfl

/-- The scan: what a cursor hands out. -/
theorem countScan_whole (window : Window) (hq : InOrder cfg a h name lo hi) {recs : List (Bytes × Sample)}
    (hitems : streamItems cfg a name false lo hi = recs.map foundItem) :
    outcome (do
        let c ← cursorOpenDir cfg h window none false
        let a ← get
        let used := ((a.slotFind name).map fun i => (a.slotAt i).ingestUsed).getD 0
        return (← withCursor c (countScan cfg (cursorFuel cfg ⟨c, a⟩ + used + 1) 0)).1 : AppM Status Nat) a =
      .ok ((recs.filter (admitted window none)).length % 2 ^ 32) := by
  have hsound : Sound (streamItems cfg a name false lo hi) := by
    rw [hitems]
    exact sound_found false recs
  have hbuf : Sound (streamBuf cfg a name false) := by
    intro r hr
    apply hsound r
    unfold streamItems
    exact List.mem_append_right _ hr
  obtain ⟨c, b, hopen, hopened⟩ := cursorOpenDir_opens window none hq.shown hq.span
  have hpoised := hopened.poised hq.span hbuf
  have hahead := hopened.ahead hq.span
  have hlen := ahead_length hpoised
  have hreports : reports (CursorCtx.pass c) (ahead cfg ⟨c, b⟩) = (recs.filter (admitted window none)).map .ok := by
    rw [show CursorCtx.pass c = admitted window none from hopened.pass, hahead, hitems, reports_items]
  have hle : (reports (CursorCtx.pass c) (ahead cfg ⟨c, b⟩)).length ≤ (ahead cfg ⟨c, b⟩).length :=
    List.length_filterMap_le _ _
  obtain ⟨s, hscan, -⟩ := (countScan_gives _ 0 hpoised (hahead ▸ hsound) (Nat.lt_of_le_of_lt hle hlen) (by decide)).run_ok
  rw [show CurSt.cur ⟨c, b⟩ = c from rfl, show CurSt.app ⟨c, b⟩ = b from rfl, show c.streamName = name from hopened.name,
    hreports, List.length_map, Nat.zero_add] at hscan
  exact outcome_of_run (run_then hopen (run_then (show (get : AppM Status App).run b = .ok b b from rfl)
    (run_then (run_withCursor hscan) rfl)))

/-- So is a stream that holds what a log says. -/
theorem Shows.inOrder {L : Log} (hshows : Shows cfg a name L) (hadm : Admissible cfg name) (hc : a.env.Clean)
    (ho : OpenFor cfg a h name) : InOrder cfg a h name L.lo L.past.length where
  clean := hc
  up := ho.2.1
  valid := hadm.1
  handle := ho.1
  scanned := (hshows.shown ho).slot
  single hs := (hshows.shown ho).header hs
  le := L.lo_le
  files k hlo hhi :=
    ⟨((hshows.span hadm hc ho.2.1 false).files k hlo hhi).1, _, _, hshows.files.file k hlo hhi, wholeFile_seg name _⟩
  buffer i hi := by
    have hready := hshows.slot i hi
    have hitems := bufItems_log hready.buffered hready.speaks false
    obtain ⟨b, hb, -⟩ := hready.buffered.block
    refine ⟨?_, b, hb, fun j hj => ?_⟩
    · rw [hready.speaks.recSize]
      exact ⟨L.buf.length, by rw [hready.buffered.used, Nat.mul_comm]; rfl⟩
    · have hmem : recordItem (slotVersion cfg (a.slotAt i)) (slotBaseTs cfg (a.slotAt i))
          (slice b (j * slotRecSize cfg (a.slotAt i)) (slotRecSize cfg (a.slotAt i))) ∈
            bufItems cfg (a.slotAt i) false 0 := by
        unfold bufItems
        rw [hb]
        refine List.mem_map.mpr ⟨j, List.mem_range.mpr hj, ?_⟩
        rw [if_neg Bool.false_ne_true, Nat.zero_add]
      rw [hitems] at hmem
      obtain ⟨r, -, hr⟩ := List.mem_map.mp hmem
      exact decoded_of_found hr.symm

/-- COUNT is the number of the samples that a cursor yields, over the unbounded window and over any other. -/
theorem count_agrees (cap : AggCap) (hq : InOrder cfg a h name lo hi)
    (hfew : (streamItems cfg a name false lo hi).length < 2 ^ 32) (window : Window) :
    ∃ found : List (Bytes × Sample),
      (∀ n, outcome (queryCursor cfg h window none false n) a = .ok (walkOf found n)) ∧
      outcome (tsQueryAggregate cfg cap h window .COUNT) a = .ok ⟨.COUNT, Float.ofNat found.length, found.length, false⟩ := by
  obtain ⟨recs, hitems⟩ := hq.items
  have hbuf : Sound (streamBuf cfg a name false) := by
    intro r hr
    apply sound_found false recs r
    rw [← hitems]
    unfold streamItems
    exact List.mem_append_right _ hr
  refine ⟨recs.filter (admitted window none), fun n => ?_, ?_⟩
  · have hwalk := (query_gives window none n hq.shown hq.span hbuf).1
    rw [hitems, reports_items, callsOver_walkOf] at hwalk
    exact hwalk
  · have hlt : (recs.filter (admitted window none)).length < 2 ^ 32 := by
      rw [hitems, List.length_map] at hfew
      exact Nat.lt_of_le_of_lt (List.length_filter_le _ _) hfew
    have hcount : outcome (tsQueryCount cfg h window) a = .ok (recs.filter (admitted window none)).length := by
      have hget : (get : AppM Status App).run a = .ok a a := rfl
      unfold tsQueryCount
      rw [outcome_then hget, hq.handle]
      dsimp only
      split
      · rename_i hw
        have hall : recs.filter (admitted window none) = recs := by
          apply List.filter_eq_self.mpr
          intro r _
          simp [admitted, windowMatch_of_unbounded hw]
        rw [hall] at hlt ⊢
        rw [tsCountAll_whole hq, hitems, List.length_map, Nat.mod_eq_of_lt hlt]
      · rw [countScan_whole window hq hitems, Nat.mod_eq_of_lt hlt]
    unfold tsQueryAggregate
    rw [if_pos rfl, outcome_then (run_of_outcome hcount)]
    rfl

end Count

/-- Four segments of a delta build are stored, and one sample is buffered. -/
theorem changing_counted : ∃ found : List (Bytes × Sample),
    (∀ n, outcome (queryCursor (Cfg.small true true true 64) 0 ⟨6, 4294967296⟩ none false n)
      (run (Cfg.small true true true 64) App.virgin (changing ++ reopened)) = .ok (walkOf found n)) ∧
    outcome (tsQueryAggregate (Cfg.small true true true 64) ⟨1, by decide⟩ 0 ⟨6, 4294967296⟩ .COUNT)
      (run (Cfg.small true true true 64) App.virgin (changing ++ reopened)) =
        .ok ⟨.COUNT, Float.ofNat found.length, found.length, false⟩ := by
  have halone := alone_changing true
  have hW := halone.orderly.world
  have ho := open_changing true
  obtain ⟨i, hi⟩ := Option.isSome_iff_exists.mp (ho.2.2 rfl)
  have hshows := shows_there hW ho (hW.knows [65]) (files_open hW rfl hi)
  refine count_agrees ⟨1, by decide⟩ (hshows.inOrder halone.admissible hW.clean ho) ?_ ⟨6, 4294967296⟩
  decide +kernel

end ZephyrDB.Ts
