import ZephyrDB.Ts.SegmentSpec

/-!
The programs on a slot refine the operations of the log: scanning learns the
log that is stored, flushing drains it, and appending a record appends the
sample, as long as the record format does not change between the moment the
record size is read and the moment the record is encoded.
-/

set_option autoImplicit false

namespace ZephyrDB.Ts

open Lib

structure Learned (L : Log) (slot : StreamCtx) : Prop where
  scanned : slot.segsScanned = true
  oldestSeg : slot.oldestSeg = L.lo
  curSeg : slot.curSeg = L.past.length
  curSegBytes : slot.curSegBytes = L.cur.items.length * L.recSize
  version : slot.segVersion = L.cur.format.version
  recSize : slot.segRecSize = L.recSize
  baseTs : slot.segBaseTsMs = L.cur.format.baseTs

/-- The segment fields of a slot as `zdb_ts_slot_claim` leaves them. -/
structure Unlearned (slot : StreamCtx) : Prop where
  scanned : slot.segsScanned = false
  oldestSeg : slot.oldestSeg = 0
  curSeg : slot.curSeg = 0
  version : slot.segVersion = 0
  recSize : slot.segRecSize = 0
  baseTs : slot.segBaseTsMs = 0

structure Buffered (cfg : Cfg) (L : Log) (slot : StreamCtx) : Prop where
  inUse : slot.inUse = true
  capacity : slot.ingestCapacity = cfg.ingestCapacity
  used : slot.ingestUsed = L.buf.length * L.recSize
  fit : slot.ingestUsed ≤ cfg.ingestCapacity
  block : ∃ b, slot.ingestBuf = some b ∧ b.length = cfg.ingestSlabBlockSize ∧
    b.take slot.ingestUsed = L.cur.format.records L.buf

/-- What a slot knows of its stream's files: everything; or, until it is scanned, nothing, and then
it takes the stream for a version 1 one. -/
inductive Known (cfg : Cfg) (name : Bytes) (L : Log) (s : SlotSt) : Prop where
  | learned (h : cfg.segmented = true → Learned L s.slot) (files : SegFiles cfg name L s.env.look)
  | unlearned (hs : cfg.segmented = true) (h : Unlearned s.slot) (stored : Stored cfg name L s.env.look)
      (hbuf : L.buf ≠ [] → L.cur.format = .v1)

/-- The slot and the files represent the log. -/
structure SlotRep (cfg : Cfg) (name : Bytes) (L : Log) (s : SlotSt) : Prop where
  clean : s.env.Clean
  named : s.slot.name = name
  bound : L.past.length < 10000
  buffered : Buffered cfg L s.slot
  known : Known cfg name L s

def Over (s : SlotSt) : Prop := s.slot.segsScanned = true ∧ 10000 ≤ s.slot.curSeg

theorem over_of_keeps {cfg : Cfg} {ε α : Type} {m : SlotM ε α} {s : SlotSt} (h : Keeps (Moves cfg) m s)
    (ho : Over s) : Over (post m s) := by
  obtain ⟨hs, hle⟩ := h.scanned ho.1
  exact ⟨hs, ho.2.trans hle⟩

theorem foldl_min_eq {lo init : Nat} {xs : List Nat} (hge : ∀ x ∈ xs, lo ≤ x) (hinit : lo ≤ init)
    (hmem : lo ∈ xs ∨ init = lo) : xs.foldl min init = lo := by
  induction xs generalizing init with
  | nil => simpa using hmem
  | cons x xs ih =>
    have hx := hge x (by simp)
    apply ih (fun y hy => hge y (by simp [hy])) (by omega)
    rcases hmem with hmem | rfl
    · rcases List.mem_cons.mp hmem with rfl | hmem
      · exact .inr (by omega)
      · exact .inl hmem
    · exact .inr (by omega)

theorem foldl_max_eq {hi init : Nat} {xs : List Nat} (hle : ∀ x ∈ xs, x ≤ hi) (hinit : init ≤ hi)
    (hmem : hi ∈ xs ∨ init = hi) : xs.foldl max init = hi := by
  induction xs generalizing init with
  | nil => simpa using hmem
  | cons x xs ih =>
    have hx := hle x (by simp)
    apply ih (fun y hy => hle y (by simp [hy])) (by omega)
    rcases hmem with hmem | rfl
    · rcases List.mem_cons.mp hmem with rfl | hmem
      · exact .inr (by omega)
      · exact .inl hmem
    · exact .inr (by omega)

theorem mem_scanned {cfg : Cfg} {name : Bytes} {e : Sys} {v : Nat} :
    v ∈ scanned name (e.files.keys.filterMap (entryName (tsDir cfg))) ↔
      ∃ p, (e.look p).isSome ∧ Scans cfg name p v := by
  simp only [scanned, List.mem_filterMap, Scans]
  constructor
  · rintro ⟨entry, ⟨p, hp, hentry⟩, hv⟩
    exact ⟨p, Files.mem_keys.mp hp, entry, hentry, hv⟩
  · rintro ⟨p, hp, entry, hentry, hv⟩
    exact ⟨entry, ⟨p, Files.mem_keys.mpr hp, hentry⟩, hv⟩

/-- What the scan makes of a directory that holds these segments of the stream. -/
theorem scanned_between {cfg : Cfg} {name : Bytes} {e : Sys} {lo hi : Nat} (hn : (47 : UInt8) ∉ name)
    (hle : lo ≤ hi) (hbound : hi < 10000)
    (hthere : ∀ k, lo ≤ k → k ≤ hi → (e.look (segmentPath cfg name k)).isSome)
    (honly : ∀ p v, (e.look p).isSome → Scans cfg name p v → ∃ k, lo ≤ k ∧ k ≤ hi ∧ p = segmentPath cfg name k) :
    let seqs := scanned name (e.files.keys.filterMap (entryName (tsDir cfg)))
    seqs.isEmpty = false ∧ seqs.foldl min (2 ^ 32 - 1) = lo ∧ seqs.foldl max 0 = hi := by
  intro seqs
  have hmem : ∀ k, lo ≤ k → k ≤ hi → k ∈ seqs := by
    intro k hlo hhi
    obtain ⟨v, hv, heq⟩ := @scans_segmentPath cfg _ hn k
    have hk : v = k := heq (by omega)
    exact mem_scanned.mpr ⟨segmentPath cfg name k, hthere k hlo hhi, hk ▸ hv⟩
  have hrange : ∀ v ∈ seqs, lo ≤ v ∧ v ≤ hi := by
    intro v hv
    obtain ⟨p, hp, entry, hentry, hseq⟩ := mem_scanned.mp hv
    obtain ⟨k, hlo, hhi, rfl⟩ := honly p v hp ⟨entry, hentry, hseq⟩
    rw [entryName_segmentPath hn] at hentry
    cases hentry
    rw [segSeq_segmentEntry name (by omega)] at hseq
    cases hseq
    exact ⟨hlo, hhi⟩
  have hlo := hmem lo (Nat.le_refl _) hle
  have hhi := hmem hi hle (Nat.le_refl _)
  refine ⟨?_, ?_, ?_⟩
  · cases hc : seqs with
    | nil => rw [hc] at hlo; cases hlo
    | cons _ _ => rfl
  · exact foldl_min_eq (fun v hv => (hrange v hv).1) (by omega) (.inl hlo)
  · exact foldl_max_eq (fun v hv => (hrange v hv).2) (by omega) (.inl hhi)

theorem scanned_window {cfg : Cfg} {name : Bytes} {L : Log} {e : Sys} (hn : (47 : UInt8) ∉ name)
    (hs : cfg.segmented = true) (hbound : L.past.length < 10000) (h : SegFiles cfg name L e.look) :
    let seqs := scanned name (e.files.keys.filterMap (entryName (tsDir cfg)))
    seqs.isEmpty = false ∧ seqs.foldl min (2 ^ 32 - 1) = L.lo ∧ seqs.foldl max 0 = L.past.length := by
  apply scanned_between hn L.lo_le hbound _ (h.window hs)
  intro k hlo hhi
  rw [← segFile_of_segmented hs, h.file k hlo hhi]
  rfl

theorem scanned_nil {cfg : Cfg} {name : Bytes} {e : Sys}
    (h : ∀ p v, (e.look p).isSome → ¬ Scans cfg name p v) :
    scanned name (e.files.keys.filterMap (entryName (tsDir cfg))) = [] := by
  rw [List.eq_nil_iff_forall_not_mem]
  intro v hv
  obtain ⟨p, hp, hscan⟩ := mem_scanned.mp hv
  exact h p v hp hscan

theorem run_learnNewest {cfg : Cfg} {name bs : Bytes} {s : SlotSt} {f : Format} {lowest highest size : Nat}
    {look : Path → Option Bytes} (hadm : Admissible cfg name) (hs : cfg.segmented = true) (hbound : highest < 10000)
    (hc : s.env.Clean) (hens : ∃ e', (ensureHeaderEx cfg name (segmentPath cfg name highest) 0).run s.env =
      .ok (f.version, f.baseTs) e' ∧ Leads s.env look e')
    (hlook : look (segmentPath cfg name highest) = some bs) (hlen : bs.length = f.hdrSize + size) :
    ∃ e', (learnNewest cfg name lowest highest).run s =
        .ok () ⟨{ s.slot.setFormat f.version f.baseTs with
          oldestSeg := lowest
          curSeg := highest
          curSegBytes := size
          segsScanned := true }, e'⟩ ∧ Leads s.env look e' := by
  obtain ⟨e₁, h₁, l₁⟩ := hens
  obtain ⟨e₂, h₂, l₂⟩ := fsStat_existing (l₁.clean hc)
    (show e₁.look (segmentPath cfg name highest) = _ by rw [l₁.look, hlook])
  have l₂ := l₁.trans l₂
  rw [l₁.look] at l₂
  refine ⟨e₂, ?_, l₂⟩
  apply run_then (run_updSlot _ s)
  rw [hadm.buildSegmentPath hs hbound]
  refine run_then (show (rethrow _).run _ = .ok (segmentPath cfg name highest) _ from rfl) ?_
  refine run_then (run_onSys h₁) ?_
  apply run_then (run_updSlot _ _)
  apply run_then (run_onSys (run_attempt_ok h₂))
  rw [run_updSlot]
  have hsize : bs.length - hdrSizeFor f.version = size := by
    rw [hlen]
    exact Nat.add_sub_cancel_left _ _
  simp only [StreamCtx.setFormat, Except.toOption, Option.getD_some, hsize]

theorem Learned.of_setFormat {L : Log} (slot : StreamCtx) :
    Learned L { slot.setFormat L.cur.format.version L.cur.format.baseTs with
      oldestSeg := L.lo
      curSeg := L.past.length
      curSegBytes := L.cur.items.length * L.recSize
      segsScanned := true } :=
  ⟨rfl, rfl, rfl, rfl, rfl, rfl, rfl⟩

theorem segFiles_zero {cfg : Cfg} {name : Bytes} {L : Log} {look : Path → Option Bytes}
    (hs : cfg.segmented = true) (hpast : L.past = [])
    (hfile : look (segmentPath cfg name 0) = some (segBytes name L.cur))
    (hscan : ∀ p v, (look p).isSome → Scans cfg name p v → p = segmentPath cfg name 0) :
    SegFiles cfg name L look where
  file k hlo hhi := by
    have hk : k = 0 := by simpa [hpast] using hhi
    subst hk
    rw [segFile_of_segmented hs, hfile]
    simp [SegLog.seg, hpast]
  window _ p v hp hv := by
    have hlo := L.lo_le
    rw [hpast] at hlo
    exact ⟨0, by simpa using hlo, Nat.zero_le _, hscan p v hp hv⟩
  single h := by rw [hs] at h; cases h

/-- `zdb_ts_scan_segments` on a slot that was never scanned. -/
theorem run_scanSegments {cfg : Cfg} {name : Bytes} {s : SlotSt} (hadm : Admissible cfg name) (hc : s.env.Clean)
    (hname : s.slot.name = name) (hun : s.slot.segsScanned = false) :
    ∃ e, Leads s.env s.env.look e ∧ ∀ {r : EStateM.Result Status SlotSt Unit},
      (if (scanned name (s.env.files.keys.filterMap (entryName (tsDir cfg)))).isEmpty then do
          onSys (adoptLegacy cfg name)
          learnNewest cfg name 0 0
        else learnNewest cfg name
          ((scanned name (s.env.files.keys.filterMap (entryName (tsDir cfg)))).foldl min (2 ^ 32 - 1))
          ((scanned name (s.env.files.keys.filterMap (entryName (tsDir cfg)))).foldl max 0)).run
        ⟨s.slot, e⟩ = r → (scanSegments cfg).run s = r := by
  obtain ⟨e, h, l⟩ := fsList_ok hc (tsDir cfg)
  refine ⟨e, l, ?_⟩
  intro r hr
  apply run_then (run_getSlot s)
  rw [if_neg (by simp [hun])]
  dsimp only
  rw [if_neg (Nat.not_le.mpr hadm.tsDir_length)]
  apply run_then (run_onSys (run_attempt_ok h))
  rw [hname]
  exact hr

/-- It learns the segments that are there from their names, and the rest from the newest one. -/
theorem scan_between {cfg : Cfg} {name rest : Bytes} {s : SlotSt} {f : Format} {lo hi : Nat} (hadm : Admissible cfg name)
    (hs : cfg.segmented = true) (hc : s.env.Clean) (hname : s.slot.name = name) (hun : s.slot.segsScanned = false)
    (hle : lo ≤ hi) (hbound : hi < 10000)
    (hthere : ∀ k, lo ≤ k → k ≤ hi → (s.env.look (segmentPath cfg name k)).isSome)
    (honly : ∀ p v, (s.env.look p).isSome → Scans cfg name p v → ∃ k, lo ≤ k ∧ k ≤ hi ∧ p = segmentPath cfg name k)
    (hnewest : s.env.look (segmentPath cfg name hi) = some (f.header name ++ rest)) :
    ∃ e', (scanSegments cfg).run s =
        .ok () ⟨{ s.slot.setFormat f.version f.baseTs with
          oldestSeg := lo
          curSeg := hi
          curSegBytes := rest.length
          segsScanned := true }, e'⟩ ∧ Leads s.env s.env.look e' := by
  obtain ⟨e₁, l₁, hstart⟩ := @run_scanSegments cfg name s hadm hc hname hun
  obtain ⟨hne, hmin, hmax⟩ := scanned_between hadm.no_slash hle hbound hthere honly
  have hnewest₁ : e₁.look (segmentPath cfg name hi) = some (f.header name ++ rest) := by rw [l₁.look, hnewest]
  obtain ⟨e₂, h₂, l₂⟩ := @run_learnNewest _ _ _ ⟨s.slot, e₁⟩ f lo _ rest.length _ hadm hs hbound (l₁.clean hc)
    (ensureHeaderEx_existing (l₁.clean hc) hnewest₁ 0) hnewest₁ (by rw [List.length_append, Format.header_length])
  have l₂ := l₁.trans l₂
  rw [l₁.look] at l₂
  refine ⟨e₂, hstart ?_, l₂⟩
  rw [hne, hmin, hmax]
  exact h₂

theorem scan_stored {cfg : Cfg} {name : Bytes} {L : Log} {s : SlotSt} (hadm : Admissible cfg name)
    (hs : cfg.segmented = true) (hc : s.env.Clean) (hname : s.slot.name = name)
    (hbound : L.past.length < 10000) (hun : s.slot.segsScanned = false)
    (h : Stored cfg name L s.env.look) :
    ∃ e', (scanSegments cfg).run s =
        .ok () ⟨{ s.slot.setFormat L.cur.format.version L.cur.format.baseTs with
          oldestSeg := L.lo
          curSeg := L.past.length
          curSegBytes := L.cur.items.length * L.recSize
          segsScanned := true }, e'⟩ ∧
      e'.Clean ∧ e'.shared = s.env.shared ∧ SegFiles cfg name L e'.look := by
  have hslash := hadm.no_slash
  obtain ⟨e₁, l₁, hstart⟩ := @run_scanSegments cfg name s hadm hc hname hun
  have hc₁ := l₁.clean hc
  cases h with
  | files hf =>
    have hcur := hf.cur
    rw [segFile_of_segmented hs] at hcur
    obtain ⟨e₂, h₂, l₂⟩ := @scan_between cfg name _ s _ _ _ hadm hs hc hname hun L.lo_le hbound (by
      intro k hlo hhi
      rw [← segFile_of_segmented hs, hf.file k hlo hhi]
      rfl) (hf.window hs) hcur
    rw [Format.records_length L.cur.ok] at h₂
    refine ⟨e₂, h₂, l₂.clean hc, l₂.shared, ?_⟩
    rw [l₂.look]
    exact hf
  | absent hpast hitems hformat hnone hscan =>
    have hnil := scanned_nil (hscan hs)
    have hlo : L.lo = 0 := by simpa [hpast] using L.lo_le
    have hrec : segBytes name L.cur = (buildFormat cfg 0).header name := by
      rw [segBytes, hitems, hformat]
      simp
    obtain ⟨e₂, h₂, l₂⟩ := fsStat_missing hc₁
      (show e₁.look (streamPath cfg name) = none by rw [l₁.look, hnone])
    have l₂ := l₁.trans l₂
    have hfresh : e₂.look (segmentPath cfg name 0) = none := by
      rw [l₂.look, l₁.look]
      obtain ⟨v, hv, _⟩ := @scans_segmentPath cfg _ hslash 0
      by_contra hne
      exact hscan hs _ v (Option.isSome_iff_ne_none.mpr hne) hv
    have hens := @ensureHeaderEx_new cfg name _ _ (l₂.clean hc) hfresh 0
    rw [← hformat] at hens
    obtain ⟨e₃, h₃, l₃⟩ := @run_learnNewest _ _ _ ⟨s.slot, e₂⟩ L.cur.format 0 _ (L.cur.items.length * L.recSize) _
      hadm hs (by decide) (l₂.clean hc) hens (Function.update_self _ _ _) (by rw [Format.header_length, hitems]; simp)
    have l₃ := l₂.trans l₃
    refine ⟨e₃, hstart ?_, l₃.clean hc, l₃.shared, ?_⟩
    · rw [hnil]
      refine run_then (run_onSys (a := ()) (e := e₂) ?_) ?_
      · unfold adoptLegacy
        rw [hadm.buildPath, hadm.buildSegmentPath hs (by decide)]
        refine run_then (show (rethrow _).run _ = .ok (streamPath cfg name) _ from rfl) ?_
        refine run_then (show (rethrow _).run _ = .ok (segmentPath cfg name 0) _ from rfl) ?_
        exact run_then (run_attempt_error h₂) rfl
      · rw [h₃, hpast, hlo]
        rfl
    · rw [l₃.look, l₂.look, l₁.look]
      apply segFiles_zero hs hpast (by rw [Function.update_self, hrec, hformat])
      intro p v hp hv
      by_contra hne
      rw [Function.update_of_ne hne] at hp
      exact hscan hs p v hp hv
  | legacy _ hpast hformat hfile hscan =>
    have hnil := scanned_nil hscan
    have hlo : L.lo = 0 := by simpa [hpast] using L.lo_le
    have hfile₁ : e₁.look (streamPath cfg name) = some (segBytes name L.cur) := by rw [l₁.look, hfile]
    obtain ⟨e₂, h₂, l₂⟩ := fsStat_existing hc₁ hfile₁
    obtain ⟨e₃, h₃, l₃⟩ := @fsRename_existing _ _ (l₂.clean hc₁) _ (segmentPath cfg name 0) _
      (show e₂.look (streamPath cfg name) = _ by rw [l₂.look, hfile₁])
    have l₃ := (l₁.trans l₂).trans l₃
    rw [l₂.look, l₁.look] at l₃
    have hseg : e₃.look (segmentPath cfg name 0) = some (segBytes name L.cur) := by
      rw [l₃.look, Function.update_self]
    obtain ⟨e₄, h₄, l₄⟩ := @run_learnNewest _ _ _ ⟨s.slot, e₃⟩ _ 0 0 _ _ hadm hs
      (by decide) (l₃.clean hc) (ensureHeaderEx_existing (f := L.cur.format) (l₃.clean hc) hseg 0)
      hseg (segBytes_length name L.cur)
    have l₄ := l₃.trans l₄
    refine ⟨e₄, hstart ?_, l₄.clean hc, l₄.shared, ?_⟩
    · rw [hnil]
      refine run_then (run_onSys (a := ()) (e := e₃) ?_) ?_
      · unfold adoptLegacy
        rw [hadm.buildPath, hadm.buildSegmentPath hs (by decide)]
        refine run_then (show (rethrow _).run _ = .ok (streamPath cfg name) _ from rfl) ?_
        refine run_then (show (rethrow _).run _ = .ok (segmentPath cfg name 0) _ from rfl) ?_
        exact run_then (run_attempt_ok h₂) (run_toStatus h₃)
      · rw [h₄, hpast, hlo]
        rfl
    · rw [l₄.look]
      apply segFiles_zero hs hpast hseg
      intro p v hp hv
      by_contra hne
      rw [l₃.look, Function.update_of_ne hne] at hp
      by_cases hps : p = streamPath cfg name
      · rw [hps, Function.update_self] at hp
        cases hp
      · rw [Function.update_of_ne hps] at hp
        exact hscan p v hp hv

structure Ready (cfg : Cfg) (name : Bytes) (L : Log) (s : SlotSt) : Prop where
  clean : s.env.Clean
  named : s.slot.name = name
  bound : L.past.length < 10000
  buffered : Buffered cfg L s.slot
  learned : cfg.segmented = true → Learned L s.slot
  files : SegFiles cfg name L s.env.look

theorem Ready.rep {cfg : Cfg} {name : Bytes} {L : Log} {s : SlotSt} (h : Ready cfg name L s) :
    SlotRep cfg name L s :=
  ⟨h.clean, h.named, h.bound, h.buffered, .learned h.learned h.files⟩

theorem Buffered.congr {cfg : Cfg} {L L' : Log} {slot slot' : StreamCtx} (h : Buffered cfg L slot)
    (hL : L'.buf = L.buf ∧ L'.cur.format = L.cur.format)
    (hu : slot'.inUse = slot.inUse) (hc : slot'.ingestCapacity = slot.ingestCapacity)
    (hused : slot'.ingestUsed = slot.ingestUsed) (hb : slot'.ingestBuf = slot.ingestBuf) :
    Buffered cfg L' slot' where
  inUse := hu.trans h.inUse
  capacity := hc.trans h.capacity
  used := by rw [hused, h.used, hL.1, Log.recSize, Log.recSize, hL.2]
  fit := hused ▸ h.fit
  block := by rw [hb, hused, hL.1, hL.2]; exact h.block

theorem scanSegments_spec {cfg : Cfg} {name : Bytes} {L : Log} {s : SlotSt}
    (hadm : Admissible cfg name) (hs : cfg.segmented = true) (h : SlotRep cfg name L s) :
    ∃ t, (scanSegments cfg).run s = .ok () t ∧ Ready cfg name L t ∧
      t.slot.ingestBuf = s.slot.ingestBuf ∧ t.slot.ingestUsed = s.slot.ingestUsed := by
  cases h.known with
  | learned hl hf =>
    refine ⟨s, ?_, ⟨h.clean, h.named, h.bound, h.buffered, hl, hf⟩, rfl, rfl⟩
    apply run_then (run_getSlot s)
    rw [if_pos (hl hs).scanned]
    rfl
  | unlearned _ hu hst _ =>
    obtain ⟨e', hrun, hc, _, hf⟩ := scan_stored hadm hs h.clean h.named h.bound hu.scanned hst
    exact ⟨_, hrun, ⟨hc, h.named, h.bound, h.buffered.congr ⟨rfl, rfl⟩ rfl rfl rfl rfl,
      fun _ => Learned.of_setFormat s.slot, hf⟩, rfl, rfl⟩

theorem activePath_spec {cfg : Cfg} {name : Bytes} {L : Log} {s : SlotSt}
    (hadm : Admissible cfg name) (h : SlotRep cfg name L s) :
    ∃ t, (activePath cfg).run s = .ok (segFile cfg name L.past.length) t ∧ Ready cfg name L t ∧
      t.slot.ingestBuf = s.slot.ingestBuf ∧ t.slot.ingestUsed = s.slot.ingestUsed := by
  unfold activePath
  split
  · rename_i hs
    obtain ⟨t, hrun, hready, hb, hu⟩ := scanSegments_spec hadm hs h
    refine ⟨t, ?_, hready, hb, hu⟩
    apply run_then (run_orFail hrun)
    apply run_then (run_getSlot t)
    rw [hready.named, (hready.learned hs).curSeg, hadm.buildSegmentPath hs hready.bound,
      segFile_of_segmented hs]
    rfl
  · rename_i hs
    have hs : cfg.segmented = false := by simpa using hs
    cases h.known with
    | unlearned hs' => rw [hs] at hs'; cases hs'
    | learned hl hf =>
      refine ⟨s, ?_, ⟨h.clean, h.named, h.bound, h.buffered, hl, hf⟩, rfl, rfl⟩
      apply run_then (run_getSlot s)
      rw [h.named, hadm.buildPath, segFile_of_single hs]
      rfl

theorem run_discardSegment {cfg : Cfg} {e : Sys} {path : Path} {bs : Bytes} (hc : e.Clean)
    (hp : e.look path = some bs) :
    ∃ e', (discardSegment cfg path).run e = .ok () e' ∧ Leads e (Function.update e.look path none) e' := by
  have hunlink : ∀ {e : Sys}, e.Clean → e.look path = some bs →
      ∃ e', (unlinkIfPresent path).run e = .ok () e' ∧ Leads e (Function.update e.look path none) e' := by
    intro e hc hp
    obtain ⟨e₁, h₁, l₁⟩ := fsUnlink_existing hc hp
    exact ⟨e₁, run_then (run_attempt_ok h₁) rfl, l₁⟩
  unfold discardSegment
  split
  · obtain ⟨e₁, h₁, l₁⟩ := fsStat_existing hc hp
    obtain ⟨e₂, h₂, l₂⟩ := hunlink (l₁.clean hc) (by rw [l₁.look, hp])
    rw [l₁.look] at l₂
    exact ⟨e₂, run_then (run_attempt_ok h₁) h₂, l₁.trans l₂⟩
  · exact hunlink hc hp

/-- The loop of `zdb_ts_start_segment` gives up the oldest segments until the complement fits. -/
theorem discardSegments_spec {cfg : Cfg} {name : Bytes} (hadm : Admissible cfg name)
    (hs : cfg.segmented = true) (n : Nat) (L : Log) (s : SlotSt) (h : Ready cfg name L s)
    (hn : L.past.length - L.lo < n) (lo : Nat) (hlo : lo = max L.lo (L.past.length + 1 - cfg.maxSegments))
    (hle : lo ≤ L.past.length) :
    ∃ t, (discardSegments cfg n).run s = .ok () t ∧ Ready cfg name (L.advance lo hle) t := by
  induction n generalizing L s with
  | zero => omega
  | succ n ih =>
    have hl := h.learned hs
    have hlole := L.lo_le
    have hmax := cfg.two_le_maxSegments
    unfold discardSegments
    by_cases hmore : s.slot.curSeg - s.slot.oldestSeg + 1 > cfg.maxSegments
    · rw [hl.curSeg, hl.oldestSeg] at hmore
      have hfile := h.files.file L.lo (Nat.le_refl _) L.lo_le
      rw [segFile_of_segmented hs] at hfile
      obtain ⟨e₁, hunlink, l₁⟩ := run_discardSegment h.clean hfile
      have hstep : L.lo + 1 ≤ L.past.length := by omega
      have hready : Ready cfg name (L.advance (L.lo + 1) hstep)
          ⟨{ s.slot with oldestSeg := s.slot.oldestSeg + 1 }, e₁⟩ := by
        refine ⟨l₁.clean h.clean, h.named, h.bound, h.buffered.congr ⟨rfl, rfl⟩ rfl rfl rfl rfl, fun _ => ?_, ?_⟩
        · exact ⟨hl.scanned, by rw [SegLog.advance_lo, hl.oldestSeg], hl.curSeg, hl.curSegBytes,
            hl.version, hl.recSize, hl.baseTs⟩
        · show SegFiles cfg name _ e₁.look
          rw [l₁.look]
          refine ⟨fun k hk hk' => ?_, fun _ p v hp hv => ?_, fun hf => by rw [hs] at hf; cases hf⟩
          · have hk : L.lo + 1 ≤ k := hk
            rw [Function.update_of_ne, h.files.file k (by omega) hk']
            · rfl
            · rw [segFile_of_segmented hs]
              intro heq
              have := segmentPath_injective heq
              omega
          · have hne : p ≠ segmentPath cfg name L.lo := by
              rintro rfl
              rw [Function.update_self] at hp
              cases hp
            rw [Function.update_of_ne hne] at hp
            obtain ⟨k, hk, hk', rfl⟩ := h.files.window hs p v hp hv
            have hkne : k ≠ L.lo := fun heq => hne (by rw [heq])
            exact ⟨k, show L.lo + 1 ≤ k by omega, hk', rfl⟩
      obtain ⟨t, hrun, ht⟩ := ih (L.advance (L.lo + 1) hstep) _ hready
        (by show L.past.length - (L.lo + 1) < n; omega)
        (by show lo = max (L.lo + 1) (L.past.length + 1 - cfg.maxSegments); omega) hle
      refine ⟨t, ?_, ht⟩
      apply run_then (run_getSlot s)
      rw [hl.curSeg, hl.oldestSeg, if_pos hmore, h.named,
        hadm.buildSegmentPath hs (show L.lo < 10000 by have := h.bound; omega)]
      refine run_then (show (rethrow _).run _ = .ok (segmentPath cfg name L.lo) _ from rfl) ?_
      apply run_then (run_onSys hunlink)
      apply run_then (run_updSlot _ _)
      exact hrun
    · have heq : lo = L.lo := by
        rw [hl.curSeg, hl.oldestSeg] at hmore
        omega
      subst heq
      refine ⟨s, ?_, h⟩
      apply run_then (run_getSlot s)
      rw [if_neg hmore]
      rfl

theorem SegFiles.start {cfg : Cfg} {name : Bytes} {L : Log} {look : Path → Option Bytes}
    (h : SegFiles cfg name L look) (hs : cfg.segmented = true) (f : Format) :
    SegFiles cfg name (L.start f L.lo L.lo_le)
      (Function.update look (segmentPath cfg name (L.past.length + 1)) (some (f.header name))) where
  file k hk hk' := by
    have hk' : k ≤ L.past.length + 1 := by simpa using hk'
    rw [segFile_of_segmented hs]
    rcases Nat.lt_or_eq_of_le hk' with hlt | rfl
    · rw [Function.update_of_ne, ← segFile_of_segmented hs, h.file k hk (by omega),
        SegLog.seg_start _ _ _ _ (by omega)]
      intro heq
      have := segmentPath_injective heq
      omega
    · have hcur := (L.start f L.lo L.lo_le).seg_cur
      simp only [SegLog.start_past, List.length_append, List.length_singleton] at hcur
      rw [Function.update_self, hcur]
      simp [segBytes]
  window _ p v hp hv := by
    by_cases hnew : p = segmentPath cfg name (L.past.length + 1)
    · exact ⟨L.past.length + 1, by have := L.lo_le; simp; omega, by simp, hnew⟩
    · rw [Function.update_of_ne hnew] at hp
      obtain ⟨k, hk, hk', rfl⟩ := h.window hs p v hp hv
      exact ⟨k, hk, by simp; omega, rfl⟩
  single hf := by rw [hs] at hf; cases hf

theorem startSegment_spec {cfg : Cfg} {name : Bytes} {L : Log} {s : SlotSt}
    (hadm : Admissible cfg name) (hs : cfg.segmented = true) (h : Ready cfg name L s)
    (hbuf : L.buf = []) (baseTsMs : UInt64) :
    Ends Over (startSegment cfg baseTsMs) s fun _ t => Ready cfg name (Log.startSeg cfg L baseTsMs) t := by
  have hl := h.learned hs
  obtain rfl := h.named
  by_cases hbound : L.past.length + 1 < 10000
  · obtain ⟨e₁, h₁, l₁⟩ := @ensureHeaderEx_new cfg s.slot.name _ _ h.clean
      (h.files.next_absent hs hadm.no_slash) baseTsMs
    have hready : Ready cfg s.slot.name (L.start (buildFormat cfg baseTsMs) L.lo L.lo_le)
        ⟨({ s.slot with curSeg := s.slot.curSeg + 1, curSegBytes := 0 } : StreamCtx).setFormat
          (buildFormat cfg baseTsMs).version (buildFormat cfg baseTsMs).baseTs, e₁⟩ := by
      refine ⟨l₁.clean h.clean, h.named, by simpa using hbound, ?_, fun _ => ?_, ?_⟩
      · have hused : s.slot.ingestUsed = 0 := by rw [h.buffered.used, hbuf]; simp
        obtain ⟨b, hb, hlen, _⟩ := h.buffered.block
        exact ⟨h.buffered.inUse, h.buffered.capacity,
          by show s.slot.ingestUsed = _; rw [hused]; simp, h.buffered.fit,
          b, hb, hlen, by show b.take s.slot.ingestUsed = _; rw [hused]; simp⟩
      · exact ⟨hl.scanned, hl.oldestSeg, by simp [StreamCtx.setFormat, hl.curSeg],
          by simp [StreamCtx.setFormat], rfl, rfl, rfl⟩
      · show SegFiles cfg s.slot.name _ e₁.look
        rw [l₁.look]
        exact h.files.start hs _
    have hhead : ∀ {r : EStateM.Result Errno SlotSt Unit},
        (if cfg.rollover then discardSegments cfg (s.slot.curSeg + 1 - s.slot.oldestSeg + 1)
          else pure ()).run
          ⟨({ s.slot with curSeg := s.slot.curSeg + 1, curSegBytes := 0 } : StreamCtx).setFormat
            (buildFormat cfg baseTsMs).version (buildFormat cfg baseTsMs).baseTs, e₁⟩ = r →
        (startSegment cfg baseTsMs).run s = r := by
      intro r hr
      apply run_then (run_updSlot _ s)
      apply run_then (run_getSlot _)
      have hpath : buildSegmentPath cfg s.slot.name (s.slot.curSeg + 1) =
          .ok (segmentPath cfg s.slot.name (L.past.length + 1)) := by
        rw [hl.curSeg, hadm.buildSegmentPath hs hbound]
      dsimp only
      rw [hpath]
      refine run_then (show (rethrow _).run _ = .ok (segmentPath cfg s.slot.name (L.past.length + 1)) _
        from rfl) ?_
      refine run_then (run_onSys (run_orFail h₁)) (run_then (run_updSlot _ _) ?_)
      exact hr
    by_cases hroll : cfg.rollover = true
    · have hlo : Log.nextLo cfg L = max L.lo (L.past.length + 1 + 1 - cfg.maxSegments) := by
        simp [Log.nextLo, hroll]
      obtain ⟨t, hrun, ht⟩ := discardSegments_spec hadm hs (L.past.length + 1 - L.lo + 1)
        (L.start (buildFormat cfg baseTsMs) L.lo L.lo_le) _ hready (by simp) (Log.nextLo cfg L) (by simpa using hlo)
        (by have := Log.nextLo_le cfg L; simp; omega)
      have hwhole : (startSegment cfg baseTsMs).run s = .ok () t := by
        apply hhead
        rw [if_pos hroll, ← hrun, ← hl.curSeg, ← hl.oldestSeg]
      exact ends_of_run hwhole ht
    · apply ends_of_run (hhead (by rw [if_neg hroll]; rfl))
      have hstart : Log.startSeg cfg L baseTsMs = L.start (buildFormat cfg baseTsMs) L.lo L.lo_le := by
        simp [Log.startSeg, Log.nextLo, hroll]
      rw [hstart]
      exact hready
  · refine .inr ?_
    have hover : Over ⟨{ s.slot with curSeg := s.slot.curSeg + 1, curSegBytes := 0 }, s.env⟩ :=
      ⟨hl.scanned, by show 10000 ≤ s.slot.curSeg + 1; rw [hl.curSeg]; omega⟩
    rw [startSegment, post_then (run_updSlot _ s)]
    exact over_of_keeps (keeps_openSegment hs baseTsMs _) hover

end ZephyrDB.Ts
