import ZephyrDB.Ts.Packing

/-!
What an append and a batch do to what their stream holds, whatever fails on the
way: a flush to make room, a roll, a rebase. They are as good as the state they
find: a stream whose newest file the buffer continues, one that has no file
yet, or a buffer with room for all of it.
-/

set_option autoImplicit false

namespace ZephyrDB.Ts

open Lib

structure Unbegun (cfg : Cfg) (s : SlotSt) : Prop where
  segmented : cfg.segmented = true
  unscanned : s.slot.segsScanned = false
  unformed : s.slot.segVersion = 0
  first : s.slot.oldestSeg = 0 ∧ s.slot.curSeg = 0
  unlisted : ∀ entry, (s.env.look (tsPath cfg entry)).isSome = true → segSeq s.slot.name entry = none
  absent : ∀ k, s.env.look (segmentPath cfg s.slot.name k) = none
  legacy : s.env.look (streamPath cfg s.slot.name) = none

structure Roomy (cfg : Cfg) (slot : StreamCtx) (samples : List Sample) : Prop where
  room : slot.ingestUsed + samples.length * slotRecSize cfg slot ≤ slot.ingestCapacity
  fits : ∀ x ∈ samples, (slotEncode cfg slot x).isSome = true

def Flushable (cfg : Cfg) (s : SlotSt) : Prop := Aligned cfg s ∨ Unbegun cfg s

def Prepared (cfg : Cfg) (samples : List Sample) (s : SlotSt) : Prop := Flushable cfg s ∨ Roomy cfg s.slot samples

structure Reaches (cfg : Cfg) (s t : SlotSt) : Prop where
  aligned : Aligned cfg t
  packed : t.slot.Packed cfg
  takes : Takes cfg [] s t
  used : t.slot.ingestUsed = s.slot.ingestUsed
  buf : t.slot.ingestBuf = s.slot.ingestBuf

structure Gains (cfg : Cfg) (xs : List Sample) (s t : SlotSt) : Prop where
  packed : t.slot.Packed cfg
  takes : Takes cfg xs s t
  last : ∀ x ∈ xs.getLast?, (t.slot.buffered cfg).getLast? = some x

structure Empties (cfg : Cfg) (s t : SlotSt) : Prop where
  aligned : Aligned cfg t
  used : t.slot.ingestUsed = 0
  takes : Takes cfg [] s t

abbrev Unharmed (cfg : Cfg) (s t : Noted SlotSt Trail) : Prop := .uncounted ∉ t.notes.marks → Takes cfg [] s.st t.st

section Scan
variable {cfg : Cfg} {s : Noted SlotSt Trail}

theorem fsStat_absent {e : Sys} {path : Path} (h : e.look path = none) :
    Yields (fsStat path) e (fun _ _ => False) fun _ t => t.look = e.look := by
  unfold fsStat
  apply yields_bind ((call_yields e).imp (fun _ _ h => h) fun _ _ h => h.2.look)
  intro _ t ⟨_, hspent⟩
  apply yields_get_bind
  have hnone : t.files.lookup path = none := (congrFun hspent.look path).trans h
  rw [hnone]
  exact yields_throw hspent.look

theorem Unbegun.takes {s t : SlotSt} (h : Unbegun cfg s) (hname : t.slot.name = s.slot.name)
    (hfirst : t.slot.oldestSeg = 0 ∧ t.slot.curSeg = 0)
    (hbare : segmentItems (t.env.contents (segmentPath cfg s.slot.name 0)) false = [])
    (hbuf : t.slot.buffered cfg = s.slot.buffered cfg) : Takes cfg [] s t := by
  have hstored : ∀ lo, lo ≤ 0 → s.stored cfg lo = [] ∧ t.stored cfg lo = [] := by
    intro lo hlo
    obtain rfl := Nat.le_zero.mp hlo
    have hnone : s.env.contents (segmentPath cfg s.slot.name 0) = [] := by
      rw [Env.contents_eq, h.absent 0, Option.getD_none]
    have hempty : segmentItems [] false = [] := by
      rw [← List.take_zero (l := Format.v1.header [])]
      exact segmentItems_header _ _ _
    constructor
    · rw [SlotSt.stored, h.first.2, fileSamples_one, segFile, if_pos h.segmented, hnone, hempty]
      rfl
    · rw [SlotSt.stored, hfirst.2, fileSamples_one, segFile, if_pos h.segmented, hname, hbare]
      rfl
  refine ⟨hname, ?_, ?_, ?_, ?_, ?_⟩
  · rw [h.first.1]
    exact Nat.zero_le _
  · rw [h.first.2]
    exact Nat.zero_le _
  · intro lo _ hle
    rw [h.first.2] at hle
    obtain ⟨hs, ht⟩ := hstored lo hle
    rw [SlotSt.samples, SlotSt.samples, hs, ht, hbuf, List.append_nil]
  · intro lo _ hlt hle
    rw [hfirst.2] at hle
    omega
  · rw [hbuf, List.append_nil]

theorem buffered_setFormat {slot : StreamCtx} {version : Nat} {baseTsMs : UInt64}
    (h : Trail.agreesWith cfg slot (slot.setFormat version baseTsMs) = true) :
    (slot.setFormat version baseTsMs).buffered cfg = slot.buffered cfg := by
  simp only [Trail.agreesWith, decide_eq_true_eq] at h
  rcases h with hempty | ⟨hsize, hversion, hbase⟩
  · rw [buffered_empty hempty, buffered_empty (by exact hempty)]
  · unfold StreamCtx.buffered bufItems
    rw [hsize, hversion, hbase]
    rfl

theorem Unbegun.begun {s : SlotSt} (h : Unbegun cfg s) (hp : s.slot.Packed cfg) {f : Format}
    (hagrees : Trail.agreesWith cfg s.slot (s.slot.setFormat f.version f.baseTs) = true) {e : Sys}
    (hlook : e.look = Function.update s.env.look (segmentPath cfg s.slot.name 0) (some (f.header s.slot.name)))
    (bytes : Nat) :
    Reaches cfg s ⟨{ s.slot.setFormat f.version f.baseTs with curSegBytes := bytes, segsScanned := true }, e⟩ := by
  have hhere : e.look (segmentPath cfg s.slot.name 0) = some (f.header s.slot.name) := by rw [hlook, Function.update_self]
  have hbuf := buffered_setFormat hagrees
  obtain ⟨hrec, hver, hbase⟩ := speaks_setFormat h.segmented s.slot f
  have hpacked := packed_setFormat hp hagrees
  refine ⟨⟨fun _ => rfl, fun _ => h.first.2, ?_, ?_⟩, ⟨hpacked.whole, hpacked.room⟩, ?_, rfl, rfl⟩
  · refine ⟨f.header s.slot.name, ?_, f, 0, ⟨hrec, hver, hbase⟩, ?_, ?_⟩
    · show e.look (segFile cfg s.slot.name s.slot.curSeg) = _
      rw [segFile, if_pos h.segmented, h.first.2, hhere]
    · have hlayout := layoutOf_header s.slot.name f []
      rwa [List.append_nil] at hlayout
    · rw [f.header_length, Nat.zero_mul, Nat.add_zero]
  · intro _ k hk
    have hpos : 0 < k := Nat.lt_of_le_of_lt (Nat.zero_le _) hk
    show e.look (segFile cfg s.slot.name k) = none
    rw [segFile, if_pos h.segmented, hlook, Function.update_of_ne, h.absent k]
    intro heq
    have hsame := segmentPath_injective heq
    omega
  · refine h.takes rfl h.first ?_ hbuf
    show segmentItems (e.contents (segmentPath cfg s.slot.name 0)) false = []
    rw [Env.contents_eq, hhere, Option.getD_some, ← List.take_length (l := f.header s.slot.name)]
    exact segmentItems_header _ _ _

theorem learnNewest_reaches (h : Unbegun cfg s.st) (hp : s.st.slot.Packed cfg) :
    Yields (Trail.learnNewest cfg s.st.slot.name 0 0) s (fun _ t => t.notes.Tight → Reaches cfg s.st t.st)
      fun _ t => t.notes.Tight → Takes cfg [] s.st t.st := by
  have hsame : ({ s.st.slot with oldestSeg := 0, curSeg := 0 } : StreamCtx) = s.st.slot := by
    obtain ⟨hold, hcur⟩ := h.first
    calc ({ s.st.slot with oldestSeg := 0, curSeg := 0 } : StreamCtx)
        = { s.st.slot with oldestSeg := s.st.slot.oldestSeg, curSeg := s.st.slot.curSeg } := by rw [hold, hcur]
      _ = s.st.slot := rfl
  unfold Trail.learnNewest
  apply yields_then (run_silent_updSlot _ s)
  rw [hsame]
  cases hpath : buildSegmentPath cfg s.st.slot.name 0 with
  | error err => exact yields_fails rfl fun _ => Takes.refl s.st
  | ok path =>
    obtain rfl : path = segmentPath cfg s.st.slot.name 0 := buildEntryPath_ok hpath
    apply yields_then rfl
    have hheader := yields_of_carries (s := ⟨s.st.env, s.notes⟩)
      (Trail.plain_ensureHeaderEx s.st.slot.name (segmentPath cfg s.st.slot.name 0) 0)
      (ensureHeaderEx_absent cfg s.st.slot.name (segmentPath cfg s.st.slot.name 0) 0 (h.absent 0))
    generalize hformat : buildFormat cfg 0 = f at hheader
    refine yields_bind (P := fun vb t => vb = (f.version, f.baseTs) ∧ t.st.slot = s.st.slot ∧ t.st.env.look =
      Function.update s.st.env.look (segmentPath cfg s.st.slot.name 0) (some (f.header s.st.slot.name)))
      (yields_zoom (hheader.imp (fun _ _ h => ⟨h.1, rfl, h.2⟩) ?_)) ?_
    · intro _ t ⟨n, hbytes, _⟩ _
      refine h.takes (t := ⟨s.st.slot, t.st⟩) rfl h.first ?_ rfl
      rw [hbytes]
      exact segmentItems_header _ _ _
    rintro _ t ⟨rfl, hslot, hlook⟩
    apply yields_bind (Trail.yields_marked _ t)
    intro _ u ⟨hu, hgrows, hmark⟩
    apply yields_then (run_silent_onSys _ u)
    apply yields_bind (Trail.yields_leaveWhen _)
    intro _ v ⟨hv, hgrows', _⟩
    apply yields_of_run (run_silent_updSlot _ v)
    intro htight
    have hagrees : Trail.agreesWith cfg s.st.slot (s.st.slot.setFormat f.version f.baseTs) = true := by
      have hnone : Mark.mixed ∉ u.notes.marks := (htight.earlier hgrows'.marks).not_mem rfl
      rw [← hslot]
      simpa using hmark hnone
    have hstat : (post (fsStat (segmentPath cfg s.st.slot.name 0)) u.st.env).look = u.st.env.look :=
      (leads_of_within (keeps_fsStat _ _)).look
    rw [hu] at hv hstat
    rw [hv, hslot]
    exact h.begun hp hagrees (hstat.trans hlook) _

theorem adoptLegacy_absent {s : Noted Sys Trail} {name : Bytes} (h : s.st.look (streamPath cfg name) = none) :
    Yields (Trail.adoptLegacy cfg name) s (fun _ t => t.st.look = s.st.look) fun _ t => t.st.look = s.st.look := by
  unfold Trail.adoptLegacy
  cases hlegacy : buildPath cfg name with
  | error err => exact yields_fails rfl rfl
  | ok legacy =>
    obtain rfl : legacy = streamPath cfg name := buildEntryPath_ok hlegacy
    apply yields_then rfl
    cases buildSegmentPath cfg name 0 with
    | error err => exact yields_fails rfl rfl
    | ok path =>
      apply yields_then rfl
      apply yields_then (run_silent_attempt _ s)
      have hstat := fsStat_absent h
      unfold Yields at hstat
      cases hr : (fsStat (streamPath cfg name)).run s.st with
      | ok size t =>
        rw [hr] at hstat
        exact hstat.elim
      | error err t =>
        rw [hr] at hstat
        rw [outcome_of_error hr, post_of_error hr]
        exact yields_pure hstat

theorem Aligned.reaches {s : SlotSt} (h : Aligned cfg s) (hp : s.slot.Packed cfg) : Reaches cfg s s :=
  ⟨h, hp, Takes.refl s, rfl, rfl⟩

theorem scan_reaches (hs : cfg.segmented = true) (h : Flushable cfg s.st) (hp : s.st.slot.Packed cfg) :
    Yields (Trail.scanSegments cfg) s (fun _ t => t.notes.Tight → Reaches cfg s.st t.st)
      fun _ t => t.notes.Tight → Takes cfg [] s.st t.st := by
  apply yields_then (run_silent_getSlot s)
  rcases h with haligned | hbegin
  · rw [if_pos (haligned.scanned hs)]
    apply yields_pure
    intro _
    exact haligned.reaches hp
  · rw [if_neg (by rw [hbegin.unscanned]; decide)]
    apply yields_guard
    · intro _ _
      exact Takes.refl s.st
    intro _
    apply yields_then (run_silent_onSys _ s)
    have hnone : scanned s.st.slot.name ((outcome (fsList (tsDir cfg)) s.st.env).toOption.getD []) = [] := by
      apply List.filterMap_eq_nil_iff.mpr
      intro entry hentry
      obtain ⟨p, hp, hname⟩ := fsList_sub hentry
      obtain ⟨rfl, _, _⟩ := entryName_eq_some.mp hname
      exact hbegin.unlisted entry hp
    dsimp only
    rw [hnone, if_pos (by rfl)]
    have hlist : (post (fsList (tsDir cfg)) s.st.env).look = s.st.env.look := (leads_of_within (keeps_fsList _ _)).look
    generalize post (fsList (tsDir cfg)) s.st.env = e at hlist
    have hunbegun : ∀ {e' : Sys}, e'.look = e.look → Unbegun cfg ⟨s.st.slot, e'⟩ := by
      intro e' he
      rw [hlist] at he
      refine ⟨hs, hbegin.unscanned, hbegin.unformed, hbegin.first, ?_, ?_, ?_⟩
      · rw [he]
        exact hbegin.unlisted
      · rw [he]
        exact hbegin.absent
      · rw [he]
        exact hbegin.legacy
    have hlegacy : e.look (streamPath cfg s.st.slot.name) = none := (hunbegun rfl).legacy
    refine yields_bind (P := fun _ t => t.st.slot = s.st.slot ∧ t.st.env.look = e.look)
      (yields_zoom ((adoptLegacy_absent (s := ⟨e, s.notes⟩) hlegacy).imp (fun _ _ h => ⟨rfl, h⟩) ?_)) ?_
    · intro _ t ht _
      exact Takes.of_still rfl (ht.trans hlist)
    intro _ t ⟨hslot, hlook⟩
    have hstill : Takes cfg [] s.st t.st := Takes.of_still hslot (hlook.trans hlist)
    have ht : Unbegun cfg t.st := by
      have hb := hunbegun hlook
      rwa [← hslot] at hb
    rw [← hslot] at hp ⊢
    apply (learnNewest_reaches ht hp).imp
    · intro _ u hu htight
      obtain ⟨haligned, hpacked, htakes, hused, hbuf⟩ := hu htight
      rw [hslot] at hused hbuf
      exact ⟨haligned, hpacked, hstill.trans htakes, hused, hbuf⟩
    · intro _ u hu htight
      exact hstill.trans (hu htight)

theorem activePath_reaches (h : Flushable cfg s.st) (hp : s.st.slot.Packed cfg) :
    Yields (Trail.activePath cfg) s
      (fun path t => t.notes.Tight → path = segFile cfg t.st.slot.name t.st.slot.curSeg ∧ Reaches cfg s.st t.st)
      fun _ t => t.notes.Tight → Takes cfg [] s.st t.st := by
  unfold Trail.activePath
  cases hs : cfg.segmented with
  | true =>
    rw [if_pos rfl]
    have hscan : Yields (orFail Errno.EIO (Trail.scanSegments cfg)) s (fun _ t => t.notes.Tight → Reaches cfg s.st t.st)
        fun _ t => t.notes.Tight → Takes cfg [] s.st t.st :=
      yields_adaptExcept _ ((scan_reaches hs h hp).imp (fun _ _ h => h) fun _ _ h => h)
    apply yields_bind hscan
    intro _ t ht
    apply yields_then (run_silent_getSlot t)
    apply yields_rethrow
    cases hpath : buildSegmentPath cfg t.st.slot.name t.st.slot.curSeg with
    | ok path =>
      intro htight
      refine ⟨?_, ht htight⟩
      rw [segFile, if_pos hs]
      exact buildEntryPath_ok hpath
    | error err => exact fun htight => (ht htight).takes
  | false =>
    have haligned : Aligned cfg s.st := by
      rcases h with haligned | hbegin
      · exact haligned
      · rw [hbegin.segmented] at hs
        cases hs
    rw [if_neg Bool.false_ne_true]
    apply yields_then (run_silent_getSlot s)
    apply yields_rethrow
    cases hpath : buildPath cfg s.st.slot.name with
    | ok path =>
      intro _
      refine ⟨?_, haligned.reaches hp⟩
      rw [segFile, if_neg (by rw [hs]; decide)]
      exact buildEntryPath_ok hpath
    | error err => exact fun _ => Takes.refl s.st

end Scan

section Slot
variable {cfg : Cfg} {s : Noted SlotSt Trail} {sample : Sample}

theorem writeBuffer_takes (h : Flushable cfg s.st) (hp : s.st.slot.Packed cfg) {buf : Bytes} {used : Nat}
    (hbuf : s.st.slot.ingestBuf = some buf) (hused : s.st.slot.ingestUsed = used) :
    Yields (Trail.writeBuffer cfg buf used) s (fun _ t => t.notes.Tight → Empties cfg s.st t.st)
      fun _ t => t.notes.Tight → Unharmed cfg s t := by
  have hR := Trail.tells_chains fun s : SlotSt => s.env.side.health
  have hpath : Yields (Trail.activePath cfg) s
      (fun path t => t.notes.Tight → path = segFile cfg t.st.slot.name t.st.slot.curSeg ∧ Reaches cfg s.st t.st)
      fun _ t => t.notes.Tight → Unharmed cfg s t :=
    (activePath_reaches h hp).imp (fun _ _ h => h) fun _ _ h htight _ => h htight
  unfold Trail.writeBuffer
  refine yields_bind_tight hpath (fun path => ?_) fun path t ⟨hpath, hreach⟩ => ?_
  · apply always_bind hR (Trail.tells_quietSys (fixes_fsOpen _ _ _))
    intro _
    apply always_bind hR (always_get hR)
    intro s
    apply always_bind hR (Trail.tells_orLeave rfl rfl _ (Trail.tells_quietSys (fixes_fsAppend _ _)))
    intro wr
    apply always_ite
    · apply always_bind hR (Trail.tells_leaveWhen rfl rfl _)
      intro _
      exact fun s => hR.refl s
    · apply always_bind hR (Trail.tells_orLeave rfl rfl _ (Trail.tells_quietSys fixes_call))
      intro _
      exact Trail.tells_updSlot _
  obtain ⟨haligned, hp, hbefore, hused', hbuf'⟩ := hreach
  rw [← hused'] at hused
  rw [← hbuf'] at hbuf
  obtain ⟨held, hheld, _⟩ := haligned.file
  have hpending : t.st.slot.pendingBytes = buf.take used := by
    rw [StreamCtx.pendingBytes, hbuf, Option.getD_some, hused]
  have hlength : (buf.take used).length = used := by
    rw [← hpending, pendingBytes_length hp, hused]
  have hstill : ∀ {u : Noted SlotSt Trail} {e : Sys}, u.st = ⟨t.st.slot, e⟩ → e.look = t.st.env.look →
      Takes cfg [] s.st u.st := by
    intro u e hu hlook
    rw [hu]
    exact hbefore.trans (Takes.of_still rfl hlook)
  generalize hfile : segFile cfg t.st.slot.name t.st.slot.curSeg = file at hpath hheld
  subst hpath
  refine yields_bind ((yields_silent_onSys (fsOpen_create_yields t.st.env path)).imp (fun _ _ h => h) ?_) ?_
  · rintro _ _ ⟨e, rfl, _, hopen⟩ _ _
    exact hstill rfl hopen.look
  rintro _ _ ⟨e, rfl, _, hopen⟩
  have hopened : e.look = t.st.env.look := by
    rw [hopen.look, Function.update_eq_self_iff, Env.contents_eq, hheld, Option.getD_some]
  have hthere : e.look path = some held := by rw [hopened, hheld]
  have hcontents : e.contents path = held := by rw [Env.contents_eq, hthere, Option.getD_some]
  have hsame : ∀ {bs : Bytes} {e' : Sys}, e'.look = Function.update e.look path (some bs) →
      Trail.changed path held e' = false → e'.look = t.st.env.look := by
    intro bs e' hlook hunchanged
    have hbytes : bs = held := by
      rw [Trail.changed, Env.contents_eq, hlook, Function.update_self, Option.getD_some] at hunchanged
      simpa using hunchanged
    rw [hlook, hbytes, ← hthere, Function.update_eq_self, hopened]
  apply yields_get_bind
  dsimp only
  rw [hcontents]
  have happend := yields_silent_onSys (s := ⟨⟨t.st.slot, e⟩, t.notes⟩) (fsAppend_yields e hthere (buf.take used))
  refine yields_bind ((Trail.yields_orLeave happend).imp (fun _ _ h => h) ?_) ?_
  · rintro _ u ⟨_, ⟨e', rfl, n, _, hspent⟩, hst, _, hmark⟩ _ hnone
    exact hstill hst (hsame hspent.look (hmark hnone))
  rintro wr _ ⟨e', rfl, _, _, hspent⟩
  dsimp only
  split
  · apply yields_bind (Trail.yields_leaveWhen _)
    intro _ u hu _ hnone
    exact hstill hu.1 (hsame hspent.look (hu.2.2 hnone))
  rename_i hwr
  obtain rfl := not_not.mp hwr
  have hcall := yields_silent_onSys (s := ⟨⟨t.st.slot, e'⟩, t.notes⟩) (call_yields e')
  refine yields_bind ((Trail.yields_orLeave hcall).imp (fun _ _ h => h) ?_) ?_
  · rintro _ u ⟨_, ⟨e'', rfl, _, hclosed⟩, hst, _, hmark⟩ _ hnone
    exact hstill hst (hsame (hclosed.look.trans hspent.look) (hmark hnone))
  rintro _ _ ⟨e'', rfl, _, hclosed⟩
  have hall : (buf.take wr).take wr = buf.take wr := List.take_of_length_le hlength.le
  have hlook : e''.look = Function.update t.st.env.look (segFile cfg t.st.slot.name t.st.slot.curSeg)
      (some (held ++ t.st.slot.pendingBytes)) := by
    rw [hclosed.look, hspent.look, hall, hopened, hfile, hpending]
  obtain ⟨hafter, htakes⟩ := haligned.written hp (hfile ▸ hheld) hlook
    (if cfg.segmented then t.st.slot.curSegBytes + wr else t.st.slot.curSegBytes)
  apply yields_of_run (run_silent_updSlot _ _)
  intro _
  exact ⟨hafter, rfl, hbefore.trans htakes⟩

theorem flush_takes (h : Flushable cfg s.st) (hp : s.st.slot.Packed cfg) :
    Yields (Trail.flushBufferLocked cfg) s
      (fun _ t => t.notes.Tight → Empties cfg s.st t.st ∨ Unbegun cfg s.st ∧ s.st.slot.ingestUsed = 0)
      fun _ t => t.notes.Tight → Unharmed cfg s t := by
  have hstill : s.notes.Tight → Unharmed cfg s s := fun _ _ => Takes.refl s.st
  apply yields_then (run_silent_getSlot s)
  apply yields_guard
  · intro _
    exact hstill
  intro _
  cases hbuf : s.st.slot.ingestBuf with
  | none => exact yields_throw hstill
  | some buf =>
    dsimp only
    split
    · refine yields_bind_tight (writeBuffer_takes h hp hbuf rfl) (fun _ => ?_) ?_
      · exact always_ite Trail.tells_slotLaw.roll (always_pure (Trail.tells_chains _) _)
      intro _ t ht
      split
      · rename_i hs
        apply yields_then (run_silent_getSlot t)
        split
        · have hstart := yields_of_carries (Trail.plain_startSegment t.st.slot.segBaseTsMs)
            (startSegment_takes hs _ ht.aligned ht.used)
          apply hstart.imp
          · intro _ u ⟨hu, hused, hbegun⟩ _
            exact .inl ⟨hu, hused, ht.takes.trans hbegun⟩
          · intro _ u hbegun _ _
            exact ht.takes.trans hbegun
        · apply yields_pure
          intro _
          exact .inl ht
      · apply yields_pure
        intro _
        exact .inl ht
    · rename_i hempty
      have hused := not_not.mp hempty
      apply yields_pure
      intro _
      rcases h with haligned | hbegin
      · exact .inl ⟨haligned, hused, Takes.refl s.st⟩
      · exact .inr ⟨hbegin, hused⟩

theorem flushed_takes (h : Flushable cfg s.st) (hp : s.st.slot.Packed cfg) :
    Yields (toStatus (Trail.flushBufferLocked cfg)) s
      (fun _ t => t.notes.Tight → Empties cfg s.st t.st ∨ Unbegun cfg s.st ∧ s.st.slot.ingestUsed = 0)
      fun _ t => t.notes.Tight → Unharmed cfg s t :=
  yields_adaptExcept _ ((flush_takes h hp).imp (fun _ _ h => h) fun _ _ h => h)

theorem Aligned.store (h : Aligned cfg s.st) (raw : Bytes) (recSize : Nat) :
    Aligned cfg ⟨s.st.slot.store raw recSize, s.st.env⟩ := by
  obtain ⟨bs, hlook, f, n, hspeaks, hl, hlen⟩ := h.file
  exact ⟨h.scanned, h.single, ⟨bs, hlook, f, n, ⟨hspeaks.recSize, hspeaks.version, hspeaks.baseTs⟩, hl, hlen⟩, h.free⟩

theorem Flushable.store (h : Flushable cfg s.st) (raw : Bytes) (recSize : Nat) :
    Flushable cfg ⟨s.st.slot.store raw recSize, s.st.env⟩ := by
  rcases h with haligned | hbegin
  · exact .inl (haligned.store raw recSize)
  · exact .inr ⟨hbegin.segmented, hbegin.unscanned, hbegin.unformed, hbegin.first, hbegin.unlisted, hbegin.absent,
      hbegin.legacy⟩

theorem Roomy.store {slot : StreamCtx} {rest : List Sample} (h : Roomy cfg slot (sample :: rest)) (raw : Bytes) :
    Roomy cfg (slot.store raw (slotRecSize cfg slot)) rest := by
  constructor
  · have hroom := h.room
    rw [List.length_cons, Nat.succ_mul] at hroom
    show slot.ingestUsed + slotRecSize cfg slot + rest.length * slotRecSize cfg slot ≤ slot.ingestCapacity
    omega
  · intro x hx
    exact h.fits x (List.mem_cons_of_mem _ hx)

theorem Gains.after {xs : List Sample} {t u : SlotSt} (h : Takes cfg [] s.st t) (k : Gains cfg xs t u) :
    Gains cfg xs s.st u := ⟨k.packed, h.trans k.takes, k.last⟩

theorem store_takes (hp : s.st.slot.Packed cfg) {raw : Bytes} (recSize : Nat) (henc : slotEncode cfg s.st.slot sample = some raw)
    {E : Status → Noted SlotSt Trail → Prop} : Yields (Trail.storeRecord cfg raw recSize) s
      (fun _ t => t.st = ⟨s.st.slot.store raw recSize, s.st.env⟩ ∧ (t.notes.Tight → Gains cfg [sample] s.st t.st)) E := by
  apply (Trail.yields_marked _ s).imp ?_ (fun _ _ h => h)
  intro _ t ⟨ht, _, hmark⟩
  refine ⟨ht, ?_⟩
  intro htight
  have hwhole : Trail.takesWhole cfg raw recSize s.st.slot = true := by simpa using hmark (htight.not_mem rfl)
  have hbuf := buffered_store hp henc hwhole
  rw [ht]
  refine ⟨packed_store hp hwhole, Takes.of_buffer rfl rfl rfl rfl hbuf, ?_⟩
  intro x hx
  rw [hbuf, List.getLast?_concat]
  exact hx

theorem Unbegun.encodes {s : SlotSt} (h : Unbegun cfg s) (sample : Sample) : (slotEncode cfg s.slot sample).isSome = true := by
  have hversion : slotVersion cfg s.slot = STREAM_VERSION := by simp [slotVersion, h.unformed]
  rw [slotEncode, hversion]
  rfl

theorem rebase_takes (h : Flushable cfg s.st) (hp : s.st.slot.Packed cfg) (hno : slotEncode cfg s.st.slot sample = none) :
    Yields (Trail.rebaseRecord cfg sample) s
      (fun _ t => t.notes.Tight → Flushable cfg t.st ∧ Gains cfg [sample] s.st t.st)
      fun _ t => t.notes.Tight → Unharmed cfg s t := by
  have hR := Trail.tells_chains fun s : SlotSt => s.env.side.health
  unfold Trail.rebaseRecord
  apply yields_guard
  · intro _ _ _
    exact Takes.refl s.st
  intro hs
  have hs : cfg.segmented = true := by simpa using hs
  refine yields_bind_tight (flushed_takes h hp) (fun _ => ?_) ?_
  · apply always_bind hR (always_adaptExcept _ (Trail.tells_startSegment _))
    intro _
    apply always_bind hR Trail.tells_getSlot
    intro slot
    cases slotEncode cfg slot sample with
    | none => exact always_throw hR _
    | some raw => exact Trail.tells_slotLaw.stored _ _ _
  intro _ t ht
  rcases ht with ht | ⟨hbegin, _⟩
  · have hstart := yields_of_carries (Trail.plain_startSegment sample.tsMs) (startSegment_takes hs _ ht.aligned ht.used)
    refine yields_bind (yields_adaptExcept _ (hstart.imp (fun _ _ h => h) ?_)) ?_
    · intro _ u hbegun _ _
      exact ht.takes.trans hbegun
    intro _ u ⟨hu, hused, hbegun⟩
    have htaken : Takes cfg [] s.st u.st := ht.takes.trans hbegun
    apply yields_then (run_silent_getSlot u)
    cases henc : slotEncode cfg u.st.slot sample with
    | none => exact yields_throw fun _ _ => htaken
    | some raw =>
      apply yields_bind (store_takes (packed_empty hused) _ henc)
      intro _ v ⟨hv, hgains⟩
      apply yields_pure
      intro htight
      refine ⟨?_, Gains.after htaken (hgains htight)⟩
      rw [hv]
      exact .inl (hu.store raw _)
  · have hsome := hbegin.encodes sample
    rw [hno] at hsome
    cases hsome

theorem encode_takes (h : Flushable cfg s.st) (hp : s.st.slot.Packed cfg) (recSize : Nat) :
    Yields (Trail.encodeRecord cfg sample recSize) s
      (fun _ t => t.notes.Tight → Flushable cfg t.st ∧ Gains cfg [sample] s.st t.st)
      fun _ t => t.notes.Tight → Unharmed cfg s t := by
  apply yields_then (run_silent_getSlot s)
  cases henc : slotEncode cfg s.st.slot sample with
  | none => exact rebase_takes h hp henc
  | some raw =>
    apply yields_bind (store_takes hp recSize henc)
    intro _ t ⟨ht, hgains⟩
    apply yields_pure
    intro htight
    refine ⟨?_, hgains htight⟩
    rw [ht]
    exact h.store raw recSize

theorem append_takes {rest : List Sample} (h : Prepared cfg (sample :: rest) s.st) (hp : s.st.slot.Packed cfg) :
    Yields (Trail.appendRecord cfg sample) s
      (fun _ t => t.notes.Tight → Prepared cfg rest t.st ∧ Gains cfg [sample] s.st t.st)
      fun _ t => t.notes.Tight → Unharmed cfg s t := by
  apply yields_then (run_silent_getSlot s)
  apply yields_guard
  · intro _ _ _
    exact Takes.refl s.st
  intro hlarge
  cases h with
  | inl hflush =>
    have hencode : ∀ t : Noted SlotSt Trail, Flushable cfg t.st → t.st.slot.Packed cfg → Takes cfg [] s.st t.st →
        Yields (Trail.encodeRecord cfg sample (slotRecSize cfg s.st.slot)) t
          (fun _ u => u.notes.Tight → Prepared cfg rest u.st ∧ Gains cfg [sample] s.st u.st)
          fun _ u => u.notes.Tight → Unharmed cfg s u := by
      intro t ht hp' htakes
      apply (encode_takes ht hp' _).imp
      · intro _ u hu htight
        exact ⟨.inl (hu htight).1, Gains.after htakes (hu htight).2⟩
      · intro _ u hu htight hnone
        exact htakes.trans (hu htight hnone)
    dsimp only
    split
    · rename_i hfull
      apply yields_bind_tight (flushed_takes hflush hp) (fun _ => Trail.tells_slotLaw.encode _ _)
      intro _ t ht
      rcases ht with ht | ⟨_, hused⟩
      · exact hencode t (.inl ht.aligned) (packed_empty ht.used) ht.takes
      · -- An empty buffer has room for a record.
        simp only [Bool.or_eq_true, decide_eq_true_eq, not_or] at hlarge
        omega
    · exact hencode s hflush hp (Takes.refl s.st)
  | inr hroomy =>
    have hfits : ¬ s.st.slot.ingestCapacity < s.st.slot.ingestUsed + slotRecSize cfg s.st.slot := by
      have hroom := hroomy.room
      rw [List.length_cons, Nat.succ_mul] at hroom
      omega
    obtain ⟨raw, henc⟩ := Option.isSome_iff_exists.mp (hroomy.fits sample List.mem_cons_self)
    dsimp only
    rw [if_neg hfits]
    apply yields_then (run_silent_getSlot s)
    rw [henc]
    apply yields_bind (store_takes hp _ henc)
    intro _ t ⟨ht, hgains⟩
    apply yields_pure
    intro htight
    refine ⟨.inr ?_, hgains htight⟩
    rw [ht]
    exact hroomy.store raw

theorem batch_takes (samples : List Sample) (h : Prepared cfg samples s.st) (hp : s.st.slot.Packed cfg) :
    Yields (Trail.appendRecords cfg samples) s (fun _ t => t.notes.Tight → Gains cfg samples s.st t.st)
      fun _ t => t.notes.Tight → .uncounted ∉ t.notes.marks →
        ∃ k < samples.length, Takes cfg (samples.take k) s.st t.st := by
  induction samples generalizing s with
  | nil =>
    apply yields_pure
    intro _
    exact ⟨hp, Takes.refl s.st, fun _ hx => by cases hx⟩
  | cons sample rest ih =>
    refine yields_bind_tight ((append_takes h hp).imp (fun _ _ h => h) ?_) (fun _ => Trail.tells_slotLaw.batch rest) ?_
    · intro _ t ht htight hcounted
      exact ⟨0, Nat.succ_pos _, ht htight hcounted⟩
    intro _ t ⟨hprep, hgains⟩
    cases rest with
    | nil => exact yields_pure fun _ => hgains
    | cons next rest =>
      apply (ih hprep hgains.packed).imp
      · intro _ u hu htight
        have hrest := hu htight
        exact ⟨hrest.packed, hgains.takes.trans hrest.takes, hrest.last⟩
      · intro _ u hu htight hcounted
        obtain ⟨k, hk, htakes⟩ := hu htight hcounted
        exact ⟨k + 1, Nat.succ_lt_succ hk, hgains.takes.trans htakes⟩

end Slot

end ZephyrDB.Ts
