import ZephyrDB.Ts.Contents
import ZephyrDB.Ts.SegmentCount

/-!
What a stream holds: the samples in its files, from a segment on, and those in
its buffer behind them, whatever else the files contain. The steps of an append
one by one: a record goes into the buffer, the buffer goes out to the newest
file, a segment is started.
-/

set_option autoImplicit false

namespace ZephyrDB.Ts

open Lib

def samplesOf (items : List RecItem) : List Sample :=
  items.filterMap fun
    | some (.ok x) => some x.2
    | _ => none

def StreamCtx.buffered (cfg : Cfg) (slot : StreamCtx) : List Sample := samplesOf (bufItems cfg slot false 0)

/-- The samples in `n` files of a stream from segment `lo` on. -/
def fileSamples (cfg : Cfg) (e : Sys) (name : Bytes) (lo n : Nat) : List Sample :=
  samplesOf ((List.range' lo n).flatMap fun k => segmentItems (e.contents (segFile cfg name k)) false)

def SlotSt.stored (cfg : Cfg) (s : SlotSt) (lo : Nat) : List Sample :=
  fileSamples cfg s.env s.slot.name lo (s.slot.curSeg - lo + 1)

/-- What a stream holds from segment `lo` on. -/
def SlotSt.samples (cfg : Cfg) (s : SlotSt) (lo : Nat) : List Sample := s.stored cfg lo ++ s.slot.buffered cfg

/-- The stream holds what it held, with these samples behind it, but for the segments that have gone. -/
structure Takes (cfg : Cfg) (xs : List Sample) (s t : SlotSt) : Prop where
  name : t.slot.name = s.slot.name
  oldest : s.slot.oldestSeg ≤ t.slot.oldestSeg
  newest : s.slot.curSeg ≤ t.slot.curSeg
  kept : ∀ lo, t.slot.oldestSeg ≤ lo → lo ≤ s.slot.curSeg → t.samples cfg lo = s.samples cfg lo ++ xs
  later : ∀ lo, t.slot.oldestSeg ≤ lo → s.slot.curSeg < lo → lo ≤ t.slot.curSeg →
    t.samples cfg lo <:+ s.slot.buffered cfg ++ xs
  tail : t.slot.buffered cfg <:+ s.slot.buffered cfg ++ xs

structure StreamCtx.Packed (cfg : Cfg) (slot : StreamCtx) : Prop where
  whole : slotRecSize cfg slot ∣ slot.ingestUsed
  room : slot.ingestUsed ≤ (slot.ingestBuf.getD []).length

def StreamCtx.Continues (cfg : Cfg) (slot : StreamCtx) (bs : Bytes) : Prop :=
  ∃ f n, Speaks cfg slot f ∧ layoutOf bs = .ok f.layout ∧ bs.length = f.hdrSize + n * f.recSize

structure Aligned (cfg : Cfg) (s : SlotSt) : Prop where
  scanned : cfg.segmented = true → s.slot.segsScanned = true
  single : cfg.segmented = false → s.slot.curSeg = 0
  file : ∃ bs, s.env.look (segFile cfg s.slot.name s.slot.curSeg) = some bs ∧ s.slot.Continues cfg bs
  free : cfg.segmented = true → ∀ k, s.slot.curSeg < k → s.env.look (segFile cfg s.slot.name k) = none

section Items
variable {cfg : Cfg} {slot : StreamCtx}

theorem samplesOf_append (xs ys : List RecItem) : samplesOf (xs ++ ys) = samplesOf xs ++ samplesOf ys := by
  simp [samplesOf]

theorem samples_walked {a : App} {name : Bytes} {i : Nat} (hi : a.slotFind name = some i) (lo : Nat) :
    SlotSt.samples cfg ⟨a.slotAt i, a.env⟩ lo =
      samplesOf (streamItems cfg a name false lo (a.slotAt i).curSeg) := by
  have hname := (slotFind_some hi).2
  simp [SlotSt.samples, SlotSt.stored, fileSamples, StreamCtx.buffered, streamItems, spanItems, segsBetween, streamBuf, hi,
    hname, samplesOf_append]

theorem pendingBytes_length (h : slot.Packed cfg) : slot.pendingBytes.length = slot.ingestUsed := by
  rw [StreamCtx.pendingBytes, List.length_take, Nat.min_eq_left h.room]

theorem buffered_eq (h : slot.Packed cfg) : slot.buffered cfg = samplesOf
    ((chunks (slotRecSize cfg slot) slot.pendingBytes).map (recordItem (slotVersion cfg slot) (slotBaseTs cfg slot))) := by
  obtain ⟨n, hn⟩ := h.whole
  have hroom := h.room
  rw [hn, Nat.mul_comm] at hroom
  have hpos := slotRecSize_pos cfg slot
  unfold StreamCtx.buffered bufItems StreamCtx.pendingBytes
  cases hbuf : slot.ingestBuf with
  | none => simp [samplesOf]
  | some buf =>
    rw [hbuf, Option.getD_some] at hroom
    rw [Option.getD_some, hn, Nat.mul_comm, chunks_range hpos hroom, List.map_map]
    simp [Nat.mul_div_cancel _ hpos, slice, Function.comp_def]

theorem buffered_empty (h : slot.ingestUsed = 0) : slot.buffered cfg = [] := by
  unfold StreamCtx.buffered bufItems
  cases slot.ingestBuf with
  | none => rfl
  | some buf => simp [h, samplesOf]

theorem packed_empty (h : slot.ingestUsed = 0) : slot.Packed cfg := by
  constructor
  · rw [h]
    exact Nat.dvd_zero _
  · omega

theorem pendingBytes_whole {raw : Bytes} {recSize : Nat} (h : Trail.takesWhole cfg raw recSize slot = true) :
    (slot.store raw recSize).pendingBytes = slot.pendingBytes ++ raw := by
  simp only [Trail.takesWhole, decide_eq_true_eq] at h
  obtain ⟨rfl, -, hroom⟩ := h
  unfold StreamCtx.pendingBytes StreamCtx.store
  cases hb : slot.ingestBuf with
  | none =>
    rw [hb, Option.getD_none, List.length_nil] at hroom
    have hnil : raw = [] := List.length_eq_zero_iff.mp (by omega)
    simp [hnil]
  | some buf =>
    rw [hb, Option.getD_some] at hroom
    have hfront : (buf.take slot.ingestUsed).length = slot.ingestUsed := by
      rw [List.length_take]
      omega
    simp only [Option.map_some, Option.getD_some, List.take_take, Nat.min_eq_left hroom]
    exact writeAt_take buf slot.ingestUsed raw (by omega)

theorem packed_store (h : slot.Packed cfg) {raw : Bytes} {recSize : Nat}
    (hw : Trail.takesWhole cfg raw recSize slot = true) : (slot.store raw recSize).Packed cfg := by
  simp only [Trail.takesWhole, decide_eq_true_eq] at hw
  obtain ⟨hlen, hsize, hroom⟩ := hw
  constructor
  · show slotRecSize cfg slot ∣ slot.ingestUsed + recSize
    rw [hsize]
    exact Nat.dvd_add h.whole (Nat.dvd_refl _)
  · show slot.ingestUsed + recSize ≤ _
    unfold StreamCtx.store
    cases hb : slot.ingestBuf with
    | none =>
      rw [hb] at hroom
      simpa using hroom
    | some buf =>
      rw [hb, Option.getD_some] at hroom
      have hlong : buf.length ≤ (writeAt buf slot.ingestUsed raw).length := by
        rw [writeAt_length]
        omega
      simpa [Nat.min_eq_left hlong] using hroom

theorem buffered_store (h : slot.Packed cfg) {sample : Sample} {raw : Bytes} {recSize : Nat}
    (henc : slotEncode cfg slot sample = some raw) (hw : Trail.takesWhole cfg raw recSize slot = true) :
    (slot.store raw recSize).buffered cfg = slot.buffered cfg ++ [sample] := by
  obtain ⟨n, hn⟩ := h.whole
  have hlen : raw.length = slotRecSize cfg slot := by
    simp only [Trail.takesWhole, decide_eq_true_eq] at hw
    exact hw.1.trans hw.2.1
  have hwhole : slot.pendingBytes.length = n * slotRecSize cfg slot := by rw [pendingBytes_length h, hn, Nat.mul_comm]
  have hpos := slotRecSize_pos cfg slot
  have hone : chunks (slotRecSize cfg slot) raw = [raw] := by
    have happend := chunks_append hpos hlen []
    simpa using happend
  have hitem := recordItem_encodeAs henc
  rw [buffered_eq (packed_store h hw), pendingBytes_whole hw, buffered_eq h]
  show samplesOf ((chunks (slotRecSize cfg slot) (slot.pendingBytes ++ raw)).map
    (recordItem (slotVersion cfg slot) (slotBaseTs cfg slot))) = _
  rw [chunks_append_mul hpos hwhole, hone, List.map_append, samplesOf_append, List.map_singleton, hitem]
  rfl

end Items

section Files
variable {cfg : Cfg} {s t u : SlotSt} {xs ys : List Sample} {e e' : Sys} {name : Bytes} {lo n : Nat}

theorem fileSamples_add (e : Sys) (name : Bytes) (lo m n : Nat) :
    fileSamples cfg e name lo (m + n) = fileSamples cfg e name lo m ++ fileSamples cfg e name (lo + m) n := by
  unfold fileSamples
  rw [← List.range'_append_1, List.flatMap_append, samplesOf_append]

theorem fileSamples_one (e : Sys) (name : Bytes) (lo : Nat) :
    fileSamples cfg e name lo 1 = samplesOf (segmentItems (e.contents (segFile cfg name lo)) false) := by
  simp [fileSamples]

theorem fileSamples_congr (h : ∀ k, lo ≤ k → k < lo + n → e'.look (segFile cfg name k) = e.look (segFile cfg name k)) :
    fileSamples cfg e' name lo n = fileSamples cfg e name lo n := by
  unfold fileSamples
  congr 1
  apply List.flatMap_congr
  intro k hk
  obtain ⟨hlo, hhi⟩ := List.mem_range'_1.mp hk
  rw [Env.contents_eq, Env.contents_eq, h k hlo hhi]

theorem stored_newest (h : lo ≤ s.slot.curSeg) : s.stored cfg lo =
    fileSamples cfg s.env s.slot.name lo (s.slot.curSeg - lo) ++
      samplesOf (segmentItems (s.env.contents (segFile cfg s.slot.name s.slot.curSeg)) false) := by
  rw [SlotSt.stored, fileSamples_add, fileSamples_one, Nat.add_sub_cancel' h]

theorem segFile_ne (hs : cfg.segmented = true) {j k : Nat} (h : j ≠ k) : segFile cfg name j ≠ segFile cfg name k := by
  unfold segFile
  rw [if_pos hs, if_pos hs]
  intro heq
  exact h (segmentPath_injective heq)

theorem Takes.of_buffer {slot : StreamCtx} (hname : slot.name = s.slot.name) (hold : slot.oldestSeg = s.slot.oldestSeg)
    (hcur : slot.curSeg = s.slot.curSeg) (hlook : e.look = s.env.look)
    (hbuf : slot.buffered cfg = s.slot.buffered cfg ++ xs) : Takes cfg xs s ⟨slot, e⟩ where
  name := hname
  oldest := hold.ge
  newest := hcur.ge
  kept lo _ _ := by
    have hstored : SlotSt.stored cfg ⟨slot, e⟩ lo = s.stored cfg lo := by
      unfold SlotSt.stored
      rw [hname, hcur]
      apply fileSamples_congr
      intro k _ _
      rw [hlook]
    rw [SlotSt.samples, SlotSt.samples, hstored, hbuf, List.append_assoc]
  later lo _ hlt hle := by
    rw [hcur] at hle
    omega
  tail := by
    rw [hbuf]

theorem Takes.of_still (hslot : t.slot = s.slot) (hlook : t.env.look = s.env.look) : Takes cfg [] s t := by
  apply Takes.of_buffer
  · rw [hslot]
  · rw [hslot]
  · rw [hslot]
  · exact hlook
  · rw [hslot, List.append_nil]

theorem Takes.refl (s : SlotSt) : Takes cfg [] s s := Takes.of_still rfl rfl

theorem Takes.trans (h : Takes cfg xs s t) (k : Takes cfg ys t u) : Takes cfg (xs ++ ys) s u where
  name := k.name.trans h.name
  oldest := h.oldest.trans k.oldest
  newest := h.newest.trans k.newest
  kept lo hlo hle := by
    rw [k.kept lo hlo (hle.trans h.newest), h.kept lo (k.oldest.trans hlo) hle, List.append_assoc]
  later lo hlo hlt hle := by
    rw [← List.append_assoc]
    rcases Nat.lt_or_ge t.slot.curSeg lo with hnew | hold
    · exact (k.later lo hlo hnew hle).trans (List.suffix_append_self_iff.mpr h.tail)
    · rw [k.kept lo hlo hold]
      exact List.suffix_append_self_iff.mpr (h.later lo (k.oldest.trans hlo) hlt hold)
  tail := by
    rw [← List.append_assoc]
    exact k.tail.trans (List.suffix_append_self_iff.mpr h.tail)

end Files

section Write
variable {cfg : Cfg} {s : SlotSt} {slot : StreamCtx} {bs : Bytes}

theorem StreamCtx.Continues.append (h : slot.Continues cfg bs) (hp : slot.Packed cfg) :
    slot.Continues cfg (bs ++ slot.pendingBytes) ∧
      samplesOf (segmentItems (bs ++ slot.pendingBytes) false) =
        samplesOf (segmentItems bs false) ++ slot.buffered cfg := by
  obtain ⟨f, n, hspeaks, hl, hlen⟩ := h
  obtain ⟨m, hm⟩ := hp.whole
  have hpending := pendingBytes_length hp
  have hhdr : f.hdrSize ≤ bs.length := by omega
  have hl' := layoutOf_append hl hhdr slot.pendingBytes
  rw [hspeaks.recSize, Nat.mul_comm] at hm
  rw [hm] at hpending
  constructor
  · refine ⟨f, n + m, hspeaks, hl', ?_⟩
    rw [List.length_append, hlen, hpending, Nat.add_mul, Nat.add_assoc]
  · have hrest : (bs.drop f.layout.hdrSize).length = n * f.recSize := by
      rw [List.length_drop, hlen]
      exact Nat.add_sub_cancel_left _ _
    have hitems : (chunks f.recSize slot.pendingBytes).map (fileItem f.layout) =
        (chunks f.recSize slot.pendingBytes).map (recordItem f.version f.baseTs) := by
      apply List.map_congr_left
      intro c hc
      have hone : c.length = f.layout.recSize := length_of_mem_chunks f.recSize_pos hpending c hc
      rw [fileItem, if_pos hone, layout_version]
      rfl
    have hdrop : (bs ++ slot.pendingBytes).drop f.layout.hdrSize = bs.drop f.layout.hdrSize ++ slot.pendingBytes :=
      List.drop_append_of_le_length hhdr
    have hsplit : fileItems f.layout (bs.drop f.layout.hdrSize ++ slot.pendingBytes) =
        fileItems f.layout (bs.drop f.layout.hdrSize) ++ (chunks f.recSize slot.pendingBytes).map (fileItem f.layout) := by
      unfold fileItems
      rw [← List.map_append]
      exact congrArg _ (chunks_append_mul f.recSize_pos hrest _)
    rw [segmentItems_ascending hl', segmentItems_ascending hl, hdrop, hsplit, samplesOf_append, hitems, buffered_eq hp,
      hspeaks.recSize, hspeaks.version, hspeaks.baseTs]

theorem Aligned.written (h : Aligned cfg s) (hp : s.slot.Packed cfg) {held : Bytes}
    (hheld : s.env.look (segFile cfg s.slot.name s.slot.curSeg) = some held) {e : Sys}
    (hlook : e.look = Function.update s.env.look (segFile cfg s.slot.name s.slot.curSeg)
      (some (held ++ s.slot.pendingBytes))) (bytes : Nat) :
    Aligned cfg ⟨{ s.slot with curSegBytes := bytes, ingestUsed := 0 }, e⟩ ∧
      Takes cfg [] s ⟨{ s.slot with curSegBytes := bytes, ingestUsed := 0 }, e⟩ := by
  obtain ⟨bs, hbs, hcont⟩ := h.file
  obtain rfl : bs = held := by
    rw [hheld] at hbs
    exact (Option.some.inj hbs).symm
  obtain ⟨⟨f, n, hspeaks, hl, hlen⟩, hitems⟩ := hcont.append hp
  have hhere : e.look (segFile cfg s.slot.name s.slot.curSeg) = some (bs ++ s.slot.pendingBytes) := by
    rw [hlook, Function.update_self]
  have hother : ∀ k, segFile cfg s.slot.name k ≠ segFile cfg s.slot.name s.slot.curSeg →
      e.look (segFile cfg s.slot.name k) = s.env.look (segFile cfg s.slot.name k) := by
    intro k hne
    rw [hlook, Function.update_of_ne hne]
  constructor
  · have hspeaks' : Speaks cfg { s.slot with curSegBytes := bytes, ingestUsed := 0 } f :=
      ⟨hspeaks.recSize, hspeaks.version, hspeaks.baseTs⟩
    refine ⟨h.scanned, h.single, ⟨_, hhere, f, n, hspeaks', hl, hlen⟩, ?_⟩
    intro hs k hk
    exact (hother k (segFile_ne hs (Nat.ne_of_gt hk))).trans (h.free hs k hk)
  · have hempty : StreamCtx.buffered cfg { s.slot with curSegBytes := bytes, ingestUsed := 0 } = [] := buffered_empty rfl
    refine ⟨rfl, Nat.le_refl _, Nat.le_refl _, ?_, ?_, ?_⟩
    · intro lo _ hle
      have hbelow : fileSamples cfg e s.slot.name lo (s.slot.curSeg - lo) =
          fileSamples cfg s.env s.slot.name lo (s.slot.curSeg - lo) := by
        apply fileSamples_congr
        intro k _ hk
        cases hs : cfg.segmented with
        | true => exact hother k (segFile_ne hs (by omega))
        | false =>
          have hzero := h.single hs
          omega
      have hnew : SlotSt.stored cfg ⟨{ s.slot with curSegBytes := bytes, ingestUsed := 0 }, e⟩ lo = _ := stored_newest hle
      rw [SlotSt.samples, SlotSt.samples, hempty, hnew, stored_newest hle, Env.contents_eq, Env.contents_eq, hhere, hheld]
      simp only [Option.getD_some, hitems, hbelow, List.append_nil, List.append_assoc]
    · intro lo _ hlt hle
      exact absurd hle (Nat.not_le_of_lt hlt)
    · rw [hempty]
      exact List.nil_suffix

end Write

section Start
variable {cfg : Cfg} {s t : SlotSt}

theorem segmentItems_header (name : Bytes) (f : Format) (n : Nat) : segmentItems ((f.header name).take n) false = [] := by
  have hlen := f.header_length name
  have hfull : ∀ bs, layoutOf bs = .ok f.layout → bs.length ≤ f.layout.hdrSize → segmentItems bs false = [] := by
    intro bs hl hle
    rw [segmentItems_ascending hl, List.drop_eq_nil_of_le hle]
    simp [fileItems]
  by_cases hn : f.hdrSize ≤ n
  · have hall : (f.header name).take n = f.header name ++ [] := by
      rw [List.append_nil, List.take_of_length_le (by omega)]
    rw [hall]
    apply hfull
    · exact layoutOf_header name f []
    · rw [List.append_nil]
      exact hlen.le
  · have htake : ((f.header name).take n).length = n := by
      rw [List.length_take]
      omega
    by_cases hshort : n < hdrSizeV1
    · have hl : layoutOf ((f.header name).take n) = .ok FileLayout.v1 := by
        have hslice : (slice ((f.header name).take n) 0 hdrSizeV2).length < hdrSizeV1 := by
          rw [slice_length]
          omega
        simp [layoutOf, hslice]
      rw [segmentItems_ascending hl, List.drop_eq_nil_of_le (by rw [htake]; exact hshort.le)]
      simp [fileItems]
    · cases f with
      | v1 => exact absurd (Nat.not_lt.mp hshort) hn
      | v2 base =>
        have hlong : hdrSizeV1 ≤ (((Format.v2 base).header name).take n).length := by omega
        have hversion : field (((Format.v2 base).header name).take n) 4 2 = STREAM_VERSION_V2 := by
          have hwhole := streamHeaderV2_version name [] base
          rw [List.append_nil] at hwhole
          have hfront := @field_front (((Format.v2 base).header name).take n) (((Format.v2 base).header name).drop n) 4 2
            (by unfold hdrSizeV1 at hlong; omega)
          rw [List.take_append_drop] at hfront
          exact hfront.symm.trans hwhole
        have hl := layoutOf_front [] hlong
        have hcut : (((Format.v2 base).header name).take n).length < hdrSizeV2 := by
          rw [htake]
          exact Nat.lt_of_not_le hn
        rw [List.append_nil, if_neg (not_not.mpr hversion), if_pos hcut] at hl
        simp [segmentItems, hl]

theorem ensureHeaderEx_absent (cfg : Cfg) (name path : Bytes) (baseTsMs : UInt64) {e : Sys} (h : e.look path = none) :
    Yields (ensureHeaderEx cfg name path baseTsMs) e
      (fun vb t => vb = ((buildFormat cfg baseTsMs).version, (buildFormat cfg baseTsMs).baseTs) ∧
        t.look = Function.update e.look path (some ((buildFormat cfg baseTsMs).header name)))
      fun _ t => ∃ n, t.contents path = ((buildFormat cfg baseTsMs).header name).take n ∧
        ∀ q, q ≠ path → t.look q = e.look q := by
  have hnone : e.contents path = [] := by rw [Env.contents_eq, h, Option.getD_none]
  have hbare : ∀ {t : Sys}, t.look = Function.update e.look path (some []) → ∃ n,
      t.contents path = ((buildFormat cfg baseTsMs).header name).take n ∧ ∀ q, q ≠ path → t.look q = e.look q := by
    intro t ht
    refine ⟨0, ?_, ?_⟩
    · rw [Env.contents_eq, ht, Function.update_self, Option.getD_some, List.take_zero]
    · intro q hq
      rw [ht, Function.update_of_ne hq]
  unfold ensureHeaderEx
  refine yields_bind (yields_adaptExcept _ ((fsOpen_create_yields e path).imp (fun _ _ h => h) ?_)) fun _ t hopen => ?_
  · rintro _ t ⟨_, ht⟩
    refine ⟨0, ?_, ?_⟩
    · rw [Env.contents_eq, ht.look, h, Option.getD_none, List.take_zero]
    · intro q _
      rw [ht.look]
  have hopened : t.look = Function.update e.look path (some []) := by rw [hopen.2.look, hnone]
  have hempty : t.contents path = [] := by rw [Env.contents_eq, hopened, Function.update_self, Option.getD_some]
  refine yields_bind (yields_adaptExcept _ ((fsRead_front path hdrSizeV2 t).imp (fun _ _ h => h) ?_)) ?_
  · intro _ u hu
    exact hbare (hu.trans hopened)
  rintro raw u ⟨⟨n, hraw⟩, hread⟩
  rw [hempty, List.take_nil] at hraw
  subst hraw
  have hthere : u.look path = some [] := by rw [hread, hopened, Function.update_self]
  rw [List.length_nil, if_pos rfl, newHeader_eq]
  refine yields_bind (yields_adaptExcept _ ((call_yields u).imp (fun _ _ h => h) ?_)) fun _ v hcall => ?_
  · rintro _ v ⟨_, hv⟩
    exact hbare (hv.look.trans (hread.trans hopened))
  have hlook : v.look = Function.update e.look path (some []) := hcall.2.look.trans (hread.trans hopened)
  have hthere : v.look path = some [] := by rw [hlook, Function.update_self]
  generalize (buildFormat cfg baseTsMs).header name = hdr
  have htorn : ∀ {w : Sys} {n : Nat}, w.look = Function.update v.look path (some (writeAt [] 0 (hdr.take n))) →
      ∃ n, w.contents path = hdr.take n ∧ ∀ q, q ≠ path → w.look q = e.look q := by
    intro w n hw
    refine ⟨n, ?_, ?_⟩
    · rw [Env.contents_eq, hw, Function.update_self, Option.getD_some, writeAt_nil]
    · intro q hq
      rw [hw, Function.update_of_ne hq, hlook, Function.update_of_ne hq]
  refine yields_bind (yields_adaptExcept _ ((fsWrite_yields v hthere 0 hdr).imp (fun _ _ h => h) ?_)) fun wr w hwrite => ?_
  · rintro _ w ⟨n, _, hw⟩
    exact htorn hw.look
  apply yields_guard (fun _ => htorn hwrite.2.2.look)
  intro hwr
  refine yields_pure ⟨rfl, ?_⟩
  rw [hwrite.2.2.look, not_not.mp hwr, List.take_length, writeAt_nil, hlook, Function.update_idem]

structure Begins (cfg : Cfg) (s t : SlotSt) : Prop where
  name : t.slot.name = s.slot.name
  used : t.slot.ingestUsed = 0
  curSeg : t.slot.curSeg = s.slot.curSeg + 1
  oldest : s.slot.oldestSeg ≤ t.slot.oldestSeg
  below : ∀ k, t.slot.oldestSeg ≤ k → k ≤ s.slot.curSeg →
    t.env.look (segFile cfg s.slot.name k) = s.env.look (segFile cfg s.slot.name k)
  bare : segmentItems (t.env.contents (segFile cfg s.slot.name (s.slot.curSeg + 1))) false = []

theorem Begins.takes (h : Begins cfg s t) (hs : s.slot.ingestUsed = 0) : Takes cfg [] s t := by
  have hbare : ∀ lo, lo ≤ s.slot.curSeg + 1 →
      t.samples cfg lo = fileSamples cfg t.env s.slot.name lo (s.slot.curSeg + 1 - lo) := by
    intro lo hle
    rw [SlotSt.samples, stored_newest (by rw [h.curSeg]; exact hle), buffered_empty h.used, h.name, h.curSeg, h.bare]
    simp [samplesOf]
  refine ⟨h.name, h.oldest, by rw [h.curSeg]; omega, ?_, ?_, ?_⟩
  · intro lo hlo hle
    have hcount : s.slot.curSeg + 1 - lo = s.slot.curSeg - lo + 1 := by omega
    rw [hbare lo (by omega), SlotSt.samples, buffered_empty hs, SlotSt.stored, hcount, List.append_nil, List.append_nil]
    apply fileSamples_congr
    intro k hk hlt
    exact h.below k (hlo.trans hk) (by omega)
  · intro lo _ hlt hle
    rw [h.curSeg] at hle
    have hnone : s.slot.curSeg + 1 - lo = 0 := by omega
    rw [hbare lo hle, hnone]
    exact List.nil_suffix
  · rw [buffered_empty h.used]
    exact List.nil_suffix

theorem Begins.sheds (hs : cfg.segmented = true) {u : SlotSt} (h : Begins cfg s t) (k : Sheds cfg t u) : Begins cfg s u where
  name := k.name.trans h.name
  used := by
    have hused : u.slot.ingestUsed = t.slot.ingestUsed := (congrArg StreamCtx.ingestUsed k.slot :)
    exact hused.trans h.used
  curSeg := k.curSeg.trans h.curSeg
  oldest := h.oldest.trans k.oldest
  below j hj hle := by
    have hlook := k.look hj
    rw [h.name] at hlook
    rw [← h.below j (k.oldest.trans hj) hle, segFile, if_pos hs, hlook]
  bare := by
    have hlook := k.active (Nat.le_refl t.slot.curSeg)
    have hbare := h.bare
    rw [h.name, h.curSeg] at hlook
    rw [segFile, if_pos hs, Env.contents_eq] at hbare ⊢
    rw [hlook, hbare]

theorem Aligned.sheds (hs : cfg.segmented = true) (h : Aligned cfg s) (k : Sheds cfg s t) : Aligned cfg t where
  scanned _ := by
    have hscanned : t.slot.segsScanned = s.slot.segsScanned := (congrArg StreamCtx.segsScanned k.slot :)
    exact hscanned.trans (h.scanned hs)
  single hs' := by
    rw [hs] at hs'
    cases hs'
  file := by
    obtain ⟨bs, hlook, f, n, hspeaks, hl, hlen⟩ := h.file
    rw [← k.slot] at hspeaks
    refine ⟨bs, ?_, f, n, ⟨hspeaks.recSize, hspeaks.version, hspeaks.baseTs⟩, hl, hlen⟩
    rw [segFile, if_pos hs] at hlook ⊢
    rw [k.name, k.curSeg, k.active (Nat.le_refl _), hlook]
  free _ j hj := by
    have hfree := h.free hs j
    rw [k.curSeg] at hj
    rw [segFile, if_pos hs] at hfree ⊢
    rw [k.name, k.active hj.le, hfree hj]

theorem speaks_setFormat (hs : cfg.segmented = true) (slot : StreamCtx) (f : Format) :
    Speaks cfg (slot.setFormat f.version f.baseTs) f := by
  have hrec : recSizeFor f.version ≠ 0 := Nat.pos_iff_ne_zero.mp f.recSize_pos
  have hver : f.version ≠ 0 := by
    cases f <;> simp [Format.version, STREAM_VERSION, STREAM_VERSION_V2]
  constructor
  · simp [slotRecSize, StreamCtx.setFormat, hs, hrec, Format.recSize]
  · simp [slotVersion, StreamCtx.setFormat, hs, hver]
  · simp [slotBaseTs, StreamCtx.setFormat, hs]

theorem startSegment_takes (hs : cfg.segmented = true) (baseTsMs : UInt64) (h : Aligned cfg s)
    (hused : s.slot.ingestUsed = 0) : Yields (startSegment cfg baseTsMs) s
      (fun _ t => Aligned cfg t ∧ t.slot.ingestUsed = 0 ∧ Takes cfg [] s t) fun _ t => Takes cfg [] s t := by
  have habsent : s.env.look (segmentPath cfg s.slot.name (s.slot.curSeg + 1)) = none := by
    have hfree := h.free hs (s.slot.curSeg + 1) (Nat.lt_succ_self _)
    rwa [segFile, if_pos hs] at hfree
  have hbegins : ∀ {slot : StreamCtx} {e : Sys}, slot.name = s.slot.name → slot.ingestUsed = s.slot.ingestUsed →
      slot.curSeg = s.slot.curSeg + 1 → slot.oldestSeg = s.slot.oldestSeg →
      (∃ n, e.contents (segmentPath cfg s.slot.name (s.slot.curSeg + 1)) =
        ((buildFormat cfg baseTsMs).header s.slot.name).take n) →
      (∀ q, q ≠ segmentPath cfg s.slot.name (s.slot.curSeg + 1) → e.look q = s.env.look q) →
      Begins cfg s ⟨slot, e⟩ := by
    intro slot e hname hbuf hcur hold hlast hother
    obtain ⟨n, hbytes⟩ := hlast
    refine ⟨hname, hbuf.trans hused, hcur, hold.ge, ?_, ?_⟩
    · intro k _ hle
      rw [segFile, if_pos hs]
      apply hother
      intro heq
      have hsame := segmentPath_injective heq
      omega
    · rw [segFile, if_pos hs, hbytes]
      exact segmentItems_header _ _ _
  have hbare : ∃ n, s.env.contents (segmentPath cfg s.slot.name (s.slot.curSeg + 1)) =
      ((buildFormat cfg baseTsMs).header s.slot.name).take n := by
    refine ⟨0, ?_⟩
    rw [Env.contents_eq, habsent, Option.getD_none, List.take_zero]
  unfold startSegment openSegment
  apply yields_then (run_updSlot _ s)
  apply yields_then (run_getSlot _)
  generalize hnext : ({ s.slot with curSeg := s.slot.curSeg + 1, curSegBytes := 0 } : StreamCtx) = next
  have hname : next.name = s.slot.name := by rw [← hnext]
  have hbuf : next.ingestUsed = s.slot.ingestUsed := by rw [← hnext]
  have hcur : next.curSeg = s.slot.curSeg + 1 := by rw [← hnext]
  have hold : next.oldestSeg = s.slot.oldestSeg := by rw [← hnext]
  have hscan : next.segsScanned = s.slot.segsScanned := by rw [← hnext]
  dsimp only
  rw [hname, hcur]
  cases hpath : buildSegmentPath cfg s.slot.name (s.slot.curSeg + 1) with
  | error err =>
    refine yields_fails (show (rethrow (.error err) : SlotM Errno Path).run ⟨next, s.env⟩ = .error err ⟨next, s.env⟩ from rfl) ?_
    exact (hbegins hname hbuf hcur hold hbare fun _ _ => rfl).takes hused
  | ok path =>
    obtain rfl : path = segmentPath cfg s.slot.name (s.slot.curSeg + 1) := buildEntryPath_ok hpath
    apply yields_then rfl
    have hheader := ensureHeaderEx_absent cfg s.slot.name _ baseTsMs habsent
    generalize buildFormat cfg baseTsMs = f at hheader hbegins
    refine yields_bind (P := fun vb t => ∃ e, t = ⟨next, e⟩ ∧ vb = (f.version, f.baseTs) ∧
      e.look = Function.update s.env.look (segmentPath cfg s.slot.name (s.slot.curSeg + 1)) (some (f.header s.slot.name)))
      (yields_zoom (yields_adaptExcept _ (hheader.imp (fun _ e h => ⟨e, rfl, h⟩) ?_))) ?_
    · rintro _ e ⟨n, hbytes, hother⟩
      exact (hbegins hname hbuf hcur hold ⟨n, hbytes⟩ hother).takes hused
    rintro vb t ⟨e, rfl, rfl, hlook⟩
    have hhere : e.look (segmentPath cfg s.slot.name (s.slot.curSeg + 1)) = some (f.header s.slot.name) := by
      rw [hlook, Function.update_self]
    have hother : ∀ q, q ≠ segmentPath cfg s.slot.name (s.slot.curSeg + 1) → e.look q = s.env.look q := by
      intro q hq
      rw [hlook, Function.update_of_ne hq]
    have hwhole : e.contents (segmentPath cfg s.slot.name (s.slot.curSeg + 1)) = (f.header s.slot.name).take f.hdrSize := by
      rw [Env.contents_eq, hhere, Option.getD_some, List.take_of_length_le (f.header_length _).le]
    have hbegun : Begins cfg s ⟨next.setFormat f.version f.baseTs, e⟩ :=
      hbegins hname hbuf hcur hold ⟨f.hdrSize, hwhole⟩ hother
    have hspeaks := speaks_setFormat hs next f
    have haligned : Aligned cfg ⟨next.setFormat f.version f.baseTs, e⟩ := by
      refine ⟨fun _ => hscan.trans (h.scanned hs), ?_, ?_, ?_⟩
      · intro hs'
        rw [hs] at hs'
        cases hs'
      · refine ⟨f.header s.slot.name, ?_, f, 0, hspeaks, ?_, ?_⟩
        · show e.look (segFile cfg next.name next.curSeg) = _
          rw [segFile, if_pos hs, hname, hcur, hhere]
        · have hlayout := layoutOf_header s.slot.name f []
          rwa [List.append_nil] at hlayout
        · rw [f.header_length, Nat.zero_mul, Nat.add_zero]
      · intro _ k hk
        have hlt : s.slot.curSeg + 1 < k := hcur ▸ hk
        have hfree := h.free hs k (by omega)
        show e.look (segFile cfg next.name k) = none
        rw [segFile, if_pos hs] at hfree ⊢
        rw [hname, hother _ fun heq => by have := segmentPath_injective heq; omega, hfree]
    apply yields_then (run_updSlot _ _)
    split
    · have hshed := (@sheds_discardSegments cfg (s.slot.curSeg + 1 - next.oldestSeg + 1)).yields
        ⟨next.setFormat f.version f.baseTs, e⟩
      refine hshed.imp ?_ ?_
      · intro _ t ht
        have hb := hbegun.sheds hs ht
        exact ⟨haligned.sheds hs ht, hb.used, hb.takes hused⟩
      · intro _ t ht
        exact (hbegun.sheds hs ht).takes hused
    · exact yields_pure ⟨haligned, hbegun.used, hbegun.takes hused⟩

end Start

end ZephyrDB.Ts
