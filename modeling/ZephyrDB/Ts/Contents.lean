import ZephyrDB.Ts.Opened
import ZephyrDB.Ts.Store

/-!
What the files and the buffer of a stream hold, item by item: the records of
its log, from the oldest segment that is retained to the buffer, in the order
of the walk.
-/

set_option autoImplicit false

namespace ZephyrDB.Ts

open Lib

theorem layoutOf_header (name : Bytes) (f : Format) (rest : Bytes) : layoutOf (f.header name ++ rest) = .ok f.layout := by
  have hlen : f.hdrSize ≤ (f.header name ++ rest.take (hdrSizeV2 - f.hdrSize)).length := by
    rw [List.length_append, f.header_length]
    exact Nat.le_add_right _ _
  unfold layoutOf
  rw [slice_header]
  generalize rest.take (hdrSizeV2 - f.hdrSize) = tail at hlen ⊢
  cases f with
  | v1 =>
    have hver : field (Format.v1.header name ++ tail) 4 2 = STREAM_VERSION := streamHeader_version name tail
    have hlong : hdrSizeV1 ≤ (Format.v1.header name ++ tail).length := hlen
    dsimp only
    rw [if_neg (by omega), if_pos (by rw [hver]; decide)]
    rfl
  | v2 baseTsMs =>
    have hver : field ((Format.v2 baseTsMs).header name ++ tail) 4 2 = STREAM_VERSION_V2 :=
      streamHeaderV2_version name tail baseTsMs
    have hbase : UInt64.ofNat (field ((Format.v2 baseTsMs).header name ++ tail) 12 8) = baseTsMs :=
      streamHeaderV2_base name tail baseTsMs
    have hlong : hdrSizeV2 ≤ ((Format.v2 baseTsMs).header name ++ tail).length := hlen
    have hv1 : hdrSizeV1 ≤ hdrSizeV2 := by decide
    dsimp only
    rw [if_neg (by omega), if_neg (by rw [hver]; exact fun h => h rfl), if_neg (by omega), hbase]
    rfl

theorem layoutOf_front {hdr : Bytes} (rest : Bytes) (hv1 : hdrSizeV1 ≤ hdr.length) :
    layoutOf (hdr ++ rest) = if field hdr 4 2 ≠ STREAM_VERSION_V2 then .ok FileLayout.v1
      else if (hdr ++ rest).length < hdrSizeV2 then .error .ERR_CORRUPT
      else .ok ⟨hdrSizeV2, recSizeV2, UInt64.ofNat (field (hdr ++ rest) 12 8)⟩ := by
  have h16 : 16 ≤ hdr.length := hv1
  have hlen : (slice (hdr ++ rest) 0 hdrSizeV2).length = min hdrSizeV2 (hdr ++ rest).length := by
    rw [slice_length, Nat.sub_zero]
  have hfield : ∀ off len, off + len ≤ hdrSizeV2 → field (slice (hdr ++ rest) 0 hdrSizeV2) off len = field (hdr ++ rest) off len := by
    intro off len h
    have htake : slice (hdr ++ rest) 0 hdrSizeV2 = (hdr ++ rest).take hdrSizeV2 := rfl
    rw [field, field, htake, slice_take _ h]
  unfold layoutOf
  dsimp only
  rw [hlen, hfield 4 2 (by decide), hfield 12 8 (by decide), @field_front hdr rest 4 2 (by omega)]
  have hlong : hdrSizeV1 ≤ min hdrSizeV2 (hdr ++ rest).length := by
    rw [List.length_append]
    exact Nat.le_min.mpr ⟨by decide, by omega⟩
  rw [if_neg (Nat.not_lt.mpr hlong)]
  have hshort : (min hdrSizeV2 (hdr ++ rest).length < hdrSizeV2) = ((hdr ++ rest).length < hdrSizeV2) :=
    propext ⟨fun h => by omega, fun h => by omega⟩
  simp only [hshort]

theorem layoutOf_append {bs : Bytes} {f : Format} (h : layoutOf bs = .ok f.layout) (hlen : f.hdrSize ≤ bs.length)
    (more : Bytes) : layoutOf (bs ++ more) = .ok f.layout := by
  have hv1 : hdrSizeV1 ≤ bs.length := (hdrSizeV1_le f).trans hlen
  have hbare := layoutOf_front [] hv1
  rw [List.append_nil, h] at hbare
  rw [layoutOf_front more hv1]
  split at hbare
  · rename_i hver
    rw [if_pos hver, hbare]
  · rename_i hver
    rw [if_neg hver]
    split at hbare
    · cases hbare
    · rename_i hlong
      have hlong' : ¬ (bs ++ more).length < hdrSizeV2 := by
        rw [List.length_append]
        omega
      have hbase : field (bs ++ more) 12 8 = field bs 12 8 := field_front (by unfold hdrSizeV2 at hlong; omega)
      rw [if_neg hlong', hbase, hbare]

theorem recordItem_encodeAs {version : Nat} {baseTsMs : UInt64} {sample : Sample} {raw : Bytes}
    (h : recordEncodeAs version baseTsMs sample = some raw) : recordItem version baseTsMs raw = foundItem (raw, sample) := by
  have hdec : decoded version baseTsMs raw = .ok sample := by
    rw [← outcome_recordDecodeAs version baseTsMs raw (Sys.blank fun _ => false)]
    exact outcome_of_run (run_recordDecodeAs_encode h _)
  rw [recordItem, hdec]
  rfl

theorem recordItem_encode {f : Format} {sample : Sample} (h : f.fits sample) :
    recordItem f.version f.baseTs (f.encode sample) = foundItem (f.encode sample, sample) :=
  recordItem_encodeAs (Format.encode?_eq h)

theorem fileItems_records {f : Format} {samples : List Sample} (h : ∀ x ∈ samples, f.fits x) :
    fileItems f.layout (f.records samples) = samples.map fun x => foundItem (f.encode x, x) := by
  unfold fileItems Format.records
  rw [show f.layout.recSize = f.recSize from rfl, chunks_flatMap f.recSize_pos fun x hx => Format.encode_length (h x hx),
    List.map_map]
  apply List.map_congr_left
  intro x hx
  have hlen : (f.encode x).length = f.layout.recSize := Format.encode_length (h x hx)
  rw [Function.comp_apply, fileItem, if_pos hlen, layout_version]
  exact recordItem_encode (h x hx)

def along {α : Type} (descending : Bool) (xs : List α) : List α := if descending then xs.reverse else xs

theorem along_map {α β : Type} (descending : Bool) (f : α → β) (xs : List α) :
    along descending (xs.map f) = (along descending xs).map f := by
  unfold along
  split
  · exact List.map_reverse.symm
  · rfl

theorem along_filter {α : Type} (descending : Bool) (p : α → Bool) (xs : List α) :
    (along descending xs).filter p = along descending (xs.filter p) := by
  unfold along
  split
  · exact List.filter_reverse
  · rfl

theorem segmentItems_whole {bs : Bytes} {layout : FileLayout} (hl : layoutOf bs = .ok layout) {n : Nat}
    (hlen : bs.length = layout.hdrSize + n * layout.recSize) (descending : Bool) :
    segmentItems bs descending = along descending (fileItems layout (bs.drop layout.hdrSize)) := by
  unfold segmentItems
  rw [hl, along]
  dsimp only
  split
  · have hlast : layout.lastWhole bs.length = bs.length := by
      rw [hlen, lastWhole_eq (Nat.le_add_right _ _), Nat.add_sub_cancel_left,
        Nat.mul_div_cancel _ (layoutOf_recSize hl)]
    rw [hlast, List.take_length]
  · rfl

theorem segmentItems_seg (name : Bytes) (g : Seg Format.fits) (descending : Bool) :
    segmentItems (segBytes name g) descending = along descending ((segRecords g).map foundItem) := by
  have hrecords : (segRecords g).map foundItem = fileItems g.format.layout (g.format.records g.items) := by
    rw [fileItems_records g.ok, segRecords, List.map_map]
    rfl
  have hhdr : (g.format.header name).length = g.format.layout.hdrSize := g.format.header_length name
  have hl : layoutOf (segBytes name g) = .ok g.format.layout := layoutOf_header name g.format _
  rw [segmentItems_whole hl (segBytes_length name g), hrecords, segBytes, ← hhdr, List.drop_left]

section Stream
variable {cfg : Cfg} {name : Bytes} {L : Log}

theorem retained_segs (L : Log) :
    (List.range' L.lo (L.past.length - L.lo + 1)).map L.seg = L.past.drop L.lo ++ [L.cur] := by
  have hlo := L.lo_le
  apply List.ext_getElem (by simp)
  intro i h₁ h₂
  rw [List.getElem_map, List.getElem_range', Nat.one_mul]
  rcases Nat.lt_or_ge i (L.past.length - L.lo) with hi | hi
  · rw [List.getElem_append_left (by rw [List.length_drop]; exact hi), List.getElem_drop, L.seg_past (by omega)]
  · have hcur : L.lo + i = L.past.length := by
      rw [List.length_append, List.length_drop, List.length_singleton] at h₂
      omega
    rw [List.getElem_append_right (by rw [List.length_drop]; exact hi), hcur, L.seg_cur]
    simp

theorem SegFiles.contents_retained {e : Sys} (h : SegFiles cfg name L e.look) {k : Nat} (hlo : L.lo ≤ k)
    (hhi : k ≤ L.past.length) : e.contents (segFile cfg name k) = segBytes name (L.seg k) := by
  rw [Env.contents_eq, h.file k hlo hhi, Option.getD_some]

theorem along_flatMap {α β : Type} (descending : Bool) (f : α → List β) (xs : List α) :
    (along descending xs).flatMap (fun x => along descending (f x)) = along descending (xs.flatMap f) := by
  unfold along
  split
  · exact List.reverse_flatMap.symm
  · rfl

theorem spanItems_along {e : Sys} {lo hi : Nat} (hle : lo ≤ hi) {F : Nat → List RecItem} (descending : Bool)
    (hF : ∀ k, lo ≤ k → k ≤ hi → segmentItems (e.contents (segFile cfg name k)) descending = along descending (F k)) :
    spanItems cfg e name descending lo hi = along descending ((List.range' lo (hi - lo + 1)).flatMap F) := by
  have hsegs : segsBetween descending lo hi = along descending (List.range' lo (hi - lo + 1)) := rfl
  have heach : ∀ k ∈ segsBetween descending lo hi,
      segmentItems (e.contents (segFile cfg name k)) descending = along descending (F k) := fun k hk =>
    hF k (mem_segsBetween hle hk).1 (mem_segsBetween hle hk).2
  rw [spanItems, List.flatMap_congr heach, hsegs, along_flatMap]

theorem retained_items (L : Log) :
    ((List.range' L.lo (L.past.length - L.lo + 1)).flatMap fun k => (segRecords (L.seg k)).map foundItem) =
      ((L.past.drop L.lo).flatMap segRecords ++ segRecords L.cur).map (foundItem (ε := Status)) := by
  rw [← List.flatMap_map L.seg fun g => (segRecords g).map foundItem, retained_segs, List.flatMap_append,
    List.flatMap_singleton, List.map_append, List.map_flatMap]

theorem spanItems_log {e : Sys} (h : SegFiles cfg name L e.look) (descending : Bool) :
    spanItems cfg e name descending L.lo L.past.length =
      along descending (((L.past.drop L.lo).flatMap segRecords ++ segRecords L.cur).map foundItem) := by
  have hseg : ∀ k, L.lo ≤ k → k ≤ L.past.length →
      segmentItems (e.contents (segFile cfg name k)) descending = along descending ((segRecords (L.seg k)).map foundItem) := by
    intro k hlo hhi
    rw [h.contents_retained hlo hhi, segmentItems_seg]
  rw [spanItems_along L.lo_le descending hseg, retained_items]

theorem bufItems_log {slot : StreamCtx} (hb : Buffered cfg L slot) (hs : Speaks cfg slot L.cur.format)
    (descending : Bool) : bufItems cfg slot descending 0 = along descending ((Log.bufRecords L).map foundItem) := by
  obtain ⟨buf, hbuf, -, htake⟩ := hb.block
  have hpos := L.cur.format.recSize_pos
  have hused : slot.ingestUsed = L.buf.length * L.cur.format.recSize := hb.used
  have hcount : (slot.ingestUsed - 0) / L.cur.format.recSize = L.buf.length := by
    rw [Nat.sub_zero, hused, Nat.mul_div_cancel _ hpos]
  have hslice : ∀ (j : Nat) (hj : j < L.buf.length), slice buf (j * L.cur.format.recSize) L.cur.format.recSize =
      L.cur.format.encode L.buf[j] := by
    intro j hj
    have hend : j * L.cur.format.recSize + L.cur.format.recSize ≤ slot.ingestUsed := by
      rw [hused, ← Nat.succ_mul]
      exact Nat.mul_le_mul_right _ hj
    rw [← slice_take buf hend, htake]
    exact slice_flatMap (fun x hx => Format.encode_length (L.buf_ok x hx)) hj
  have hitem : ∀ (j : Nat) (hj : j < L.buf.length),
      recordItem L.cur.format.version L.cur.format.baseTs (slice buf (j * L.cur.format.recSize) L.cur.format.recSize) =
        foundItem (L.cur.format.encode L.buf[j], L.buf[j]) := by
    intro j hj
    rw [hslice j hj]
    exact recordItem_encode (L.buf_ok _ (List.getElem_mem hj))
  unfold bufItems
  rw [hbuf]
  dsimp only
  rw [hs.recSize, hs.version, hs.baseTs, hcount]
  cases descending with
  | false =>
    apply List.ext_getElem (by simp [along, Log.bufRecords])
    intro j h₁ h₂
    have hj : j < L.buf.length := by simpa using h₁
    have hoff : 0 + j * L.cur.format.recSize = j * L.cur.format.recSize := Nat.zero_add _
    simp only [List.getElem_map, List.getElem_range, Bool.false_eq_true, if_false, hoff, hitem j hj]
    simp [along, Log.bufRecords]
  | true =>
    apply List.ext_getElem (by simp [along, Log.bufRecords])
    intro j h₁ h₂
    have hj : j < L.buf.length := by simpa using h₁
    have hoff : slot.ingestUsed - 0 - (j + 1) * L.cur.format.recSize = (L.buf.length - 1 - j) * L.cur.format.recSize := by
      rw [Nat.sub_zero, hused, ← Nat.sub_mul]
      congr 1
      omega
    simp only [List.getElem_map, List.getElem_range, if_true, hoff, hitem (L.buf.length - 1 - j) (by omega)]
    simp [along, Log.bufRecords]

theorem streamItems_log {a : App} {descending : Bool} (hf : SegFiles cfg name L a.env.look)
    (hb : streamBuf cfg a name descending = along descending ((Log.bufRecords L).map foundItem)) :
    streamItems cfg a name descending L.lo L.past.length = along descending ((Log.records L).map foundItem) := by
  unfold streamItems
  cases descending with
  | false =>
    rw [if_neg Bool.false_ne_true, spanItems_log hf, hb]
    simp [along, Log.records]
  | true =>
    rw [if_pos rfl, spanItems_log hf, hb]
    simp [along, Log.records]

theorem streamBuf_open {a : App} {i : Nat} (hi : a.slotFind name = some i)
    (hb : Buffered cfg L (a.slotAt i)) (hs : Speaks cfg (a.slotAt i) L.cur.format) (descending : Bool) :
    streamBuf cfg a name descending = along descending ((Log.bufRecords L).map foundItem) := by
  rw [streamBuf, hi]
  exact bufItems_log hb hs descending

theorem streamBuf_closed {a : App} (hi : a.slotFind name = none) (hbuf : L.buf = []) (descending : Bool) :
    streamBuf cfg a name descending = along descending ((Log.bufRecords L).map foundItem) := by
  rw [streamBuf, hi, Log.bufRecords, hbuf]
  cases descending <;> rfl

end Stream

end ZephyrDB.Ts
