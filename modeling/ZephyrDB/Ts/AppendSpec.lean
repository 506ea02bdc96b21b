import ZephyrDB.Ts.SlotSpec

/-!
Flushing the ingest buffer and appending to it, against the log: a flush is
`Log.drain`, an append is `Log.append`.
-/

set_option autoImplicit false

namespace ZephyrDB.Ts

open Lib

variable {cfg : Cfg} {name : Bytes} {L : Log} {s : SlotSt}

theorem rollSegmentIfFull_spec (hadm : Admissible cfg name) (hs : cfg.segmented = true)
    (h : Ready cfg name L s) (hbuf : L.buf = []) :
    Ends Over (rollSegmentIfFull cfg) s fun _ t =>
      Ready cfg name (if Log.full cfg L then Log.startSeg cfg L L.cur.format.baseTs else L) t := by
  have hl := h.learned hs
  have hfull : cfg.segmentBytes ≤ s.slot.curSegBytes ↔ Log.full cfg L := by
    rw [hl.curSegBytes]
    exact ⟨fun h => ⟨hs, h⟩, fun h => h.2⟩
  refine ends_bind (ends_of_run (run_getSlot s) (Q := fun a t => a = s.slot ∧ t = s) ⟨rfl, rfl⟩) ?_ ?_
  · rintro _ _ ⟨rfl, rfl⟩
    by_cases hf : Log.full cfg L
    · rw [if_pos (hfull.mpr hf), if_pos hf, hl.baseTs]
      exact startSegment_spec hadm hs h hbuf _
    · rw [if_neg (fun hle => hf (hfull.mp hle)), if_neg hf]
      exact ends_pure h
  · intro slot t ho
    refine @over_of_keeps cfg _ _ _ _ ?_ ho
    split
    · exact keeps_startSegment hs _ t
    · exact keeps_pure (moves_chains cfg) _ t

theorem SegFiles.write {look : Path → Option Bytes} (h : SegFiles cfg name L look) :
    SegFiles cfg name L.write (Function.update look (segFile cfg name L.past.length)
      (some (segBytes name L.cur ++ L.cur.format.records L.buf))) where
  file k hk hk' := by
    have hk' : k ≤ L.past.length := hk'
    have hbytes : segBytes name L.write.cur = segBytes name L.cur ++ L.cur.format.records L.buf := by
      simp [segBytes]
    rcases Nat.lt_or_eq_of_le hk' with hlt | rfl
    · by_cases hs : cfg.segmented = true
      · rw [Function.update_of_ne, h.file k hk hk', SegLog.seg_write_past L hlt]
        rw [segFile_of_segmented hs, segFile_of_segmented hs]
        intro heq
        have := segmentPath_injective heq
        omega
      · have hpast := (h.single (by simpa using hs)).1
        rw [hpast] at hlt
        cases hlt
    · have hcur := L.write.seg_cur
      simp only [SegLog.write_past] at hcur
      rw [Function.update_self, hcur, hbytes]
  window hs p v hp hv := by
    by_cases hcur : p = segmentPath cfg name L.past.length
    · exact ⟨L.past.length, L.lo_le, Nat.le_refl _, hcur⟩
    · rw [segFile_of_segmented hs, Function.update_of_ne hcur] at hp
      exact h.window hs p v hp hv
  single hs := h.single hs

theorem writeBuffer_spec (hadm : Admissible cfg name) (h : SlotRep cfg name L s) {b : Bytes}
    (hb : s.slot.ingestBuf = some b) (hlen : b.length = cfg.ingestSlabBlockSize)
    (hrec : b.take s.slot.ingestUsed = L.cur.format.records L.buf) :
    ∃ t, (writeBuffer cfg b s.slot.ingestUsed).run s = .ok () t ∧ Ready cfg name L.write t := by
  obtain ⟨t, hpath, hready, htb, htu⟩ := activePath_spec hadm h
  have hcur := hready.files.cur
  obtain ⟨e₁, h₁, l₁⟩ := fsOpen_existing hready.clean true hcur
  obtain ⟨e₂, h₂, l₂⟩ := fsAppend_ok (l₁.clean hready.clean) (b.take s.slot.ingestUsed)
    (show e₁.look (segFile cfg name L.past.length) = _ by rw [l₁.look, hcur])
  have l₂ := l₁.trans l₂
  rw [l₁.look, hrec] at l₂
  obtain ⟨e₃, h₃, l₃⟩ := call_ok (l₂.clean hready.clean)
  have l₃ := l₂.trans l₃
  rw [l₂.look] at l₃
  have hwr : (b.take s.slot.ingestUsed).length = s.slot.ingestUsed := by
    rw [hrec, Format.records_length L.buf_ok, h.buffered.used]
    rfl
  refine ⟨⟨{ t.slot with
      curSegBytes := if cfg.segmented then t.slot.curSegBytes + s.slot.ingestUsed else t.slot.curSegBytes
      ingestUsed := 0 }, e₃⟩, ?_, ?_⟩
  · apply run_then hpath
    apply run_then (run_onSys h₁)
    apply run_then (run_onSys h₂)
    dsimp only
    rw [if_neg (by simp [hwr])]
    exact run_then (run_onSys h₃) rfl
  · refine ⟨l₃.clean hready.clean, hready.named, hready.bound, ?_, fun hs => ?_, ?_⟩
    · exact ⟨hready.buffered.inUse, hready.buffered.capacity, by simp, Nat.zero_le _, b,
        htb.trans hb, hlen, by simp⟩
    · have hl := hready.learned hs
      refine ⟨hl.scanned, hl.oldestSeg, hl.curSeg, ?_, hl.version, hl.recSize, hl.baseTs⟩
      have hused := h.buffered.used
      simp only [hs, if_true, hl.curSegBytes, hused, SegLog.write_items, List.length_append, Nat.add_mul]
      rfl
    · show SegFiles cfg name _ e₃.look
      rw [l₃.look]
      exact hready.files.write

theorem run_flushBufferLocked_nil (h : SlotRep cfg name L s) (hbuf : L.buf = []) :
    (flushBufferLocked cfg).run s = .ok () s := by
  have hused : s.slot.ingestUsed = 0 := by rw [h.buffered.used, hbuf]; simp
  obtain ⟨b, hb, _⟩ := h.buffered.block
  apply run_then (run_getSlot s)
  simp [h.buffered.inUse, hb, hused]

theorem flush_pending_spec (hadm : Admissible cfg name) (h : SlotRep cfg name L s) (hbuf : L.buf ≠ []) :
    Ends Over (flushBufferLocked cfg) s fun _ t => Ready cfg name (Log.drain cfg L) t := by
  obtain ⟨b, hb, hlen, hrec⟩ := h.buffered.block
  have hpos : 0 < L.buf.length := List.length_pos_iff.mpr hbuf
  have hused : s.slot.ingestUsed ≠ 0 := by
    rw [h.buffered.used]
    exact Nat.mul_ne_zero (by omega) (Nat.pos_iff_ne_zero.mp (Format.recSize_pos _))
  obtain ⟨t, hwrite, ht⟩ := writeBuffer_spec hadm h hb hlen hrec
  have hhead : ∀ {r : EStateM.Result Errno SlotSt Unit},
      (if cfg.segmented then rollSegmentIfFull cfg else pure ()).run t = r →
      (flushBufferLocked cfg).run s = r := by
    intro r hr
    apply run_then (run_getSlot s)
    rw [h.buffered.inUse, hb]
    dsimp only
    rw [if_neg (by simp), if_pos hused]
    exact run_then hwrite hr
  have hpost : post (flushBufferLocked cfg) s =
      post (if cfg.segmented then rollSegmentIfFull cfg else pure ()) t := by
    unfold post
    rw [hhead rfl]
  unfold Log.drain
  rw [if_neg hbuf]
  by_cases hs : cfg.segmented = true
  · rw [if_pos hs] at hhead hpost
    rcases rollSegmentIfFull_spec hadm hs ht rfl with ⟨a, u, hrun, hu⟩ | ho
    · exact ends_of_run (hhead hrun) hu
    · exact .inr (hpost ▸ ho)
  · rw [if_neg hs] at hhead
    have hfull : ¬ Log.full cfg L.write := fun hf => hs hf.1
    rw [if_neg hfull]
    exact ends_of_run (hhead rfl) ht

theorem flushBufferLocked_spec (hadm : Admissible cfg name) (h : SlotRep cfg name L s) :
    Ends Over (flushBufferLocked cfg) s fun _ t => SlotRep cfg name (Log.drain cfg L) t := by
  by_cases hbuf : L.buf = []
  · rw [Log.drain_of_nil cfg hbuf]
    exact ends_of_run (run_flushBufferLocked_nil h hbuf) h
  · exact (flush_pending_spec hadm h hbuf).imp fun _ _ => Ready.rep

theorem Ready.flush (hadm : Admissible cfg name) (h : Ready cfg name L s) :
    Ends Over (flushBufferLocked cfg) s fun _ t => Ready cfg name (Log.drain cfg L) t := by
  by_cases hbuf : L.buf = []
  · rw [Log.drain_of_nil cfg hbuf]
    exact ends_of_run (run_flushBufferLocked_nil h.rep hbuf) h
  · exact flush_pending_spec hadm h.rep hbuf

structure Speaks (cfg : Cfg) (slot : StreamCtx) (f : Format) : Prop where
  recSize : slotRecSize cfg slot = f.recSize
  version : slotVersion cfg slot = f.version
  baseTs : slotBaseTs cfg slot = f.baseTs

theorem Speaks.encode {slot : StreamCtx} {f : Format} (h : Speaks cfg slot f) (sample : Sample) :
    slotEncode cfg slot sample = f.encode? sample := by
  rw [slotEncode, h.version, h.baseTs, Format.encode?]

theorem Ready.speaks (h : Ready cfg name L s) : Speaks cfg s.slot L.cur.format := by
  by_cases hs : cfg.segmented = true
  · have hl := h.learned hs
    have hrec : L.recSize ≠ 0 := Nat.pos_iff_ne_zero.mp (Format.recSize_pos _)
    have hver : L.cur.format.version ≠ 0 := by
      cases L.cur.format <;> simp [Format.version, STREAM_VERSION, STREAM_VERSION_V2]
    refine ⟨?_, ?_, ?_⟩
    · simp [slotRecSize, hs, hl.recSize, hrec]
      rfl
    · simp [slotVersion, hs, hl.version, hver]
    · simp [slotBaseTs, hs, hl.baseTs]
  · have hs : cfg.segmented = false := by simpa using hs
    rw [(h.files.single hs).2]
    exact ⟨by simp [slotRecSize, hs, Format.recSize, Format.version, recSizeFor, STREAM_VERSION,
      STREAM_VERSION_V2], by simp [slotVersion, hs, Format.version], by simp [slotBaseTs, hs, Format.baseTs]⟩

theorem Unlearned.speaks {slot : StreamCtx} (h : Unlearned slot) : Speaks cfg slot .v1 := by
  refine ⟨?_, ?_, ?_⟩
  · simp [slotRecSize, h.recSize, Format.recSize, Format.version, recSizeFor, STREAM_VERSION,
      STREAM_VERSION_V2]
  · simp [slotVersion, h.version, Format.version]
  · simp [slotBaseTs, h.baseTs, Format.baseTs]

theorem Buffered.push {slot : StreamCtx} (h : Buffered cfg L slot) {sample : Sample}
    (hfits : L.cur.format.fits sample) (hroom : ¬ Log.noRoom cfg L) :
    Buffered cfg (L.push sample hfits) (slot.store (L.cur.format.encode sample) L.recSize) := by
  obtain ⟨b, hb, hlen, hrec⟩ := h.block
  have hraw := Format.encode_length hfits
  have hcap : slot.ingestUsed + L.recSize ≤ cfg.ingestCapacity := by
    rw [h.used, ← Nat.succ_mul]
    exact Nat.not_lt.mp hroom
  have hblock : cfg.ingestCapacity ≤ b.length := by
    rw [hlen]
    exact Nat.min_le_right _ _
  have hraw' : (L.cur.format.encode sample).length = L.recSize := hraw
  refine ⟨h.inUse, h.capacity, ?_, hcap, _, by simp [StreamCtx.store, hb]; rfl, ?_, ?_⟩
  · show slot.ingestUsed + L.recSize = _
    rw [h.used]
    simp only [SegLog.push_buf, List.length_append, List.length_singleton, Nat.add_mul, Nat.one_mul]
    rfl
  · rw [List.length_take, writeAt_length _ _ _ (by omega)]
    omega
  · show ((writeAt b slot.ingestUsed (L.cur.format.encode sample)).take b.length).take
      (slot.ingestUsed + L.recSize) = _
    rw [List.take_take, Nat.min_eq_left (by omega), ← hraw', writeAt_take _ _ _ (by omega), hrec]
    simp

theorem SlotRep.push (h : SlotRep cfg name L s) {sample : Sample} (hspeaks : Speaks cfg s.slot L.cur.format)
    (hfits : L.cur.format.fits sample) (hroom : ¬ Log.noRoom cfg L) :
    SlotRep cfg name (L.push sample hfits)
      ⟨s.slot.store (L.cur.format.encode sample) L.recSize, s.env⟩ := by
  refine ⟨h.clean, h.named, h.bound, h.buffered.push hfits hroom, ?_⟩
  cases h.known with
  | learned hl hf =>
    exact .learned (fun hs => ⟨(hl hs).scanned, (hl hs).oldestSeg, (hl hs).curSeg, (hl hs).curSegBytes,
      (hl hs).version, (hl hs).recSize, (hl hs).baseTs⟩) ⟨hf.file, hf.window, hf.single⟩
  | unlearned hs hu hst hbuf =>
    have hv1 : L.cur.format = .v1 := by
      have hver := hspeaks.version
      rw [hu.speaks.version] at hver
      cases hfmt : L.cur.format with
      | v1 => rfl
      | v2 b =>
        rw [hfmt] at hver
        cases hver
    refine .unlearned hs ⟨hu.scanned, hu.oldestSeg, hu.curSeg, hu.version, hu.recSize, hu.baseTs⟩ ?_
      fun _ => hv1
    cases hst with
    | files hf => exact .files ⟨hf.file, hf.window, hf.single⟩
    | absent h1 h2 h3 h4 h5 => exact .absent h1 h2 h3 h4 h5
    | legacy h1 h2 h3 h4 h5 => exact .legacy h1 h2 h3 h4 h5

theorem Ready.push (h : Ready cfg name L s) {sample : Sample} (hfits : L.cur.format.fits sample)
    (hroom : ¬ Log.noRoom cfg L) :
    Ready cfg name (L.push sample hfits) ⟨s.slot.store (L.cur.format.encode sample) L.recSize, s.env⟩ :=
  ⟨h.clean, h.named, h.bound, h.buffered.push hfits hroom,
    fun hs => ⟨(h.learned hs).scanned, (h.learned hs).oldestSeg, (h.learned hs).curSeg,
      (h.learned hs).curSegBytes, (h.learned hs).version, (h.learned hs).recSize, (h.learned hs).baseTs⟩,
    ⟨h.files.file, h.files.window, h.files.single⟩⟩

structure Fluent (cfg : Cfg) (name : Bytes) (L : Log) (s : SlotSt) : Prop where
  rep : SlotRep cfg name L s
  speaks : Speaks cfg s.slot L.cur.format

theorem Ready.fluent (h : Ready cfg name L s) : Fluent cfg name L s := ⟨h.rep, h.speaks⟩

theorem Fluent.push (h : Fluent cfg name L s) {sample : Sample} (hfits : L.cur.format.fits sample)
    (hroom : ¬ Log.noRoom cfg L) :
    Fluent cfg name (L.push sample hfits) ⟨s.slot.store (L.cur.format.encode sample) L.recSize, s.env⟩ :=
  ⟨h.rep.push h.speaks hfits hroom, ⟨h.speaks.recSize, h.speaks.version, h.speaks.baseTs⟩⟩

theorem room_of_nil (hbuf : L.buf = []) (hcap : L.recSize ≤ cfg.ingestCapacity) : ¬ Log.noRoom cfg L := by
  simp [Log.noRoom, hbuf]
  exact hcap

theorem rebaseRecord_spec (hadm : Admissible cfg name) (hs : cfg.segmented = true)
    (h : Ready cfg name L s) (sample : Sample)
    (hcap : Log.BuildFits cfg cfg.ingestCapacity) :
    Ends Over (rebaseRecord cfg sample) s fun n t =>
      n = (Log.rebase cfg L sample).recSize ∧ Ready cfg name (Log.rebase cfg L sample) t := by
  unfold rebaseRecord
  dsimp only
  rw [if_neg (by simp [hs])]
  rw [← bind_assoc]
  have hstart : Ends Over (toStatus (flushBufferLocked cfg) >>= fun _ => toStatus (startSegment cfg sample.tsMs)) s
      fun _ t => Ready cfg name (Log.startSeg cfg (Log.drain cfg L) sample.tsMs) t :=
    ends_bind (ends_adaptExcept _ (h.flush hadm))
      (fun _ t ht => ends_adaptExcept _ (startSegment_spec hadm hs ht (Log.drain_buf cfg L) sample.tsMs))
      fun _ t ho => over_of_keeps (keeps_toStatus (keeps_startSegment hs _ t)) ho
  refine ends_bind hstart (fun _ u hu => ?_) fun _ u ho => @over_of_keeps cfg _ _ _ _ (keeps_getSlot_bind ?_) ho
  · have hfits := Log.fits_startSeg cfg (Log.drain cfg L) sample
    have henc : slotEncode cfg u.slot sample = some _ :=
      (hu.speaks.encode sample).trans (Format.encode?_eq hfits)
    have hroom := @room_of_nil cfg _ (Log.startSeg_buf cfg (Log.drain cfg L) sample.tsMs)
      ((Log.buildFormat_recSize cfg _ _).trans_le hcap)
    have hpush : Ready cfg name (Log.rebase cfg L sample) _ := hu.push hfits hroom
    refine ends_of_run (a := (Log.startSeg cfg (Log.drain cfg L) sample.tsMs).recSize) ?_ ⟨rfl, hpush⟩
    apply run_then (run_getSlot u)
    rw [henc, hu.speaks.recSize]
    exact run_then (run_updSlot _ u) rfl
  · split
    · exact keeps_throw (moves_chains cfg) _ u
    · apply keeps_bind (moves_chains cfg) (moves_store cfg _ _ u)
      intro _ v _
      exact keeps_pure (moves_chains cfg) _ v

/-- A slot encodes records of the newest segment's format; one that is not scanned takes that to be
version 1. -/
theorem SlotRep.learned_or (h : SlotRep cfg name L s) :
    Ready cfg name L s ∨ (cfg.segmented = true ∧ Unlearned s.slot) := by
  cases h.known with
  | learned hl hf => exact .inl ⟨h.clean, h.named, h.bound, h.buffered, hl, hf⟩
  | unlearned hs hu _ _ => exact .inr ⟨hs, hu⟩

theorem encodeRecord_spec (hadm : Admissible cfg name) (h : Fluent cfg name L s) {sample : Sample}
    (hcap : Log.BuildFits cfg cfg.ingestCapacity) {recSize : Nat}
    (hroom : L.cur.format.fits sample → recSize = L.recSize ∧ ¬ Log.noRoom cfg L) :
    Ends Over (encodeRecord cfg sample recSize) s fun n t =>
      n = (Log.encoded cfg L sample).recSize ∧ Fluent cfg name (Log.encoded cfg L sample) t := by
  unfold Log.encoded
  by_cases hfits : L.cur.format.fits sample
  · have henc : slotEncode cfg s.slot sample = some (L.cur.format.encode sample) :=
      (h.speaks.encode sample).trans (Format.encode?_eq hfits)
    obtain ⟨rfl, hempty⟩ := hroom hfits
    rw [dif_pos hfits]
    refine ends_of_run (a := L.recSize) (t := ⟨_, s.env⟩) ?_ ⟨rfl, h.push hfits hempty⟩
    apply run_then (run_getSlot s)
    rw [henc]
    exact run_then (run_updSlot _ s) rfl
  · have hnone : slotEncode cfg s.slot sample = none := by
      rw [h.speaks.encode]
      exact Option.not_isSome_iff_eq_none.mp hfits
    have hready : Ready cfg name L s ∧ cfg.segmented = true := by
      rcases h.rep.learned_or with hr | ⟨_, hu⟩
      · refine ⟨hr, ?_⟩
        by_contra hs
        have hv1 := (hr.files.single (by simpa using hs)).2
        exact hfits (hv1 ▸ Format.fits_v1 sample)
      · rw [hu.speaks.encode] at hnone
        exact absurd hnone (Option.ne_none_iff_isSome.mpr (Format.fits_v1 sample))
    rw [dif_neg hfits]
    refine ends_bind (ends_of_run (run_getSlot s) (Q := fun a t => a = s.slot ∧ t = s) ⟨rfl, rfl⟩) ?_ ?_
    · rintro _ _ ⟨rfl, rfl⟩
      rw [hnone]
      exact (rebaseRecord_spec hadm hready.2 hready.1 sample hcap).imp fun n t ⟨hn, ht⟩ => ⟨hn, ht.fluent⟩
    · intro slot t ho
      refine @over_of_keeps cfg _ _ _ _ ?_ ho
      split
      · apply keeps_bind (moves_chains cfg) (moves_store cfg _ _ t)
        intro _ u _
        exact keeps_pure (moves_chains cfg) _ u
      · exact keeps_rebaseRecord cfg sample t

theorem appendRecord_spec (hadm : Admissible cfg name) (h : Fluent cfg name L s) {sample : Sample}
    (hcap : L.recSize ≤ cfg.ingestCapacity)
    (hcap' : Log.BuildFits cfg cfg.ingestCapacity)
    (hsteady : Log.Steady cfg L sample) :
    Ends Over (appendRecord cfg sample) s fun n t =>
      n = (Log.append cfg L sample).recSize ∧ Fluent cfg name (Log.append cfg L sample) t := by
  obtain ⟨b, hb, _⟩ := h.rep.buffered.block
  have hrec : slotRecSize cfg s.slot = L.recSize := h.speaks.recSize
  have hnomem : ¬ ((decide (s.slot.ingestCapacity < slotRecSize cfg s.slot) ||
      s.slot.ingestBuf.isNone) = true) := by
    simp [hrec, hb, h.rep.buffered.capacity, hcap]
  have hfull : s.slot.ingestCapacity < s.slot.ingestUsed + slotRecSize cfg s.slot ↔ Log.noRoom cfg L := by
    rw [h.rep.buffered.capacity, h.rep.buffered.used, hrec, Log.noRoom, Nat.succ_mul]
  have hhead : ∀ {m : SlotM Status Nat} {Q : Nat → SlotSt → Prop},
      (appendRecord cfg sample).run s = m.run s → Ends Over m s Q →
        Ends Over (appendRecord cfg sample) s Q := by
    intro m Q heq hm
    unfold Ends post at *
    rw [heq]
    exact hm
  unfold Log.append
  by_cases hno : Log.noRoom cfg L
  · have hbuf : L.buf ≠ [] := fun hnil => room_of_nil hnil hcap hno
    have hroomeq : Log.room cfg L = Log.drain cfg L := if_pos hno
    refine hhead (m := toStatus (flushBufferLocked cfg) >>= fun _ => encodeRecord cfg sample L.recSize)
      ?_ ?_
    · apply run_then (run_getSlot s)
      dsimp only
      rw [if_neg hnomem, if_pos (hfull.mpr hno), hrec]
    · rw [hroomeq]
      refine ends_bind (ends_adaptExcept _ (flush_pending_spec hadm h.rep hbuf)) (fun _ t ht => ?_)
        fun _ t ho => over_of_keeps (keeps_encodeRecord cfg sample _ t) ho
      apply encodeRecord_spec hadm ht.fluent hcap'
      intro hfits
      have hsame := hsteady hno hfits
      exact ⟨hsame.symm, room_of_nil (Log.drain_buf cfg L) (hsame ▸ hcap)⟩
  · have hroomeq : Log.room cfg L = L := if_neg hno
    refine hhead (m := encodeRecord cfg sample L.recSize) ?_ ?_
    · apply run_then (run_getSlot s)
      dsimp only
      rw [if_neg hnomem, if_neg (fun hlt => hno (hfull.mp hlt)), hrec]
    · rw [hroomeq]
      exact encodeRecord_spec hadm h hcap' fun _ => ⟨rfl, hno⟩

theorem appendRecords_spec (hadm : Admissible cfg name) (hbuild : Log.BuildFits cfg cfg.ingestCapacity)
    (samples : List Sample) (L : Log) (s : SlotSt) (h : Fluent cfg name L s)
    (hcap : L.recSize ≤ cfg.ingestCapacity) (hsteady : Log.SteadyAll cfg L samples) :
    Ends Over (appendRecords cfg samples) s fun _ t =>
      Fluent cfg name (samples.foldl (Log.append cfg) L) t := by
  induction samples generalizing L s with
  | nil => exact ends_pure h
  | cons sample samples ih =>
    refine ends_bind (appendRecord_spec hadm h hcap hbuild hsteady.1) (fun _ t ht => ?_)
      fun _ t ho => over_of_keeps (keeps_appendRecords cfg samples t) ho
    refine ih _ t ht.2 ?_ hsteady.2
    rcases Log.append_recSize cfg L sample with hr | hr
    · exact hr.trans_le hcap
    · exact hr.trans_le hbuild

theorem run_appendRecord_nomem (h : Fluent cfg name L s) (sample : Sample)
    (hcap : cfg.ingestCapacity < L.recSize) : (appendRecord cfg sample).run s = .error .ERR_NOMEM s := by
  have hrec : slotRecSize cfg s.slot = L.recSize := h.speaks.recSize
  show (getSlot >>= _).run s = _
  apply run_then (run_getSlot s)
  dsimp only
  rw [if_pos (by simp [hrec, h.rep.buffered.capacity, hcap])]
  rfl

end ZephyrDB.Ts
