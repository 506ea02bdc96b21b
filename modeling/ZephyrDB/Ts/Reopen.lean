import ZephyrDB.Ts.Opening

/-!
Closing a stream and opening it again: how the segment window is read back
from the names of the files. A number of more than four digits is printed in
full, and only its first four digits are scanned.
-/

set_option autoImplicit false

namespace ZephyrDB.Ts

open Lib

/-- The directory of a stream that is alone in it: whole segments numbered `lo` to `hi`, under the names
the store gives them, and perhaps a watermark. -/
structure Segments (cfg : Cfg) (name : Bytes) (lo hi : Nat) (look : Path → Option Bytes) : Prop where
  le : lo ≤ hi
  file : ∀ k, lo ≤ k → k ≤ hi → ∃ p g, buildSegmentPath cfg name k = .ok p ∧ look p = some (segBytes name g)
  alone : ∀ p entry, (look p).isSome → entryName (tsDir cfg) p = some entry →
    entry = watermarkEntry name ∨ ∃ k, lo ≤ k ∧ k ≤ hi ∧ entry = segmentEntry name k

/-- An instance that runs with no stream open, no handle on another stream, and a slot to open one in. -/
structure Idle (cfg : Cfg) (name : Bytes) (a : App) : Prop where
  clean : a.env.Clean
  running : a.cfgSet = true
  free : ∀ i, (a.slotAt i).inUse = false
  vacant : none ∈ a.table cfg
  bound : ∀ h n, a.handles h = some n → n = name

/-- Close a handle, open the stream again, and read the window that its cursors start with. -/
def reopen (cfg : Cfg) (h : Nat) (name : Bytes) : AppM Status (Nat × Nat) := do
  tsClose cfg h
  tsOpen cfg h name
  cursorWindow cfg name

/-- The slot of the stream has the window `lo` to `hi`, and the next write goes to file `hi`. -/
def Resumes (cfg : Cfg) (name : Bytes) (lo hi : Nat) (a : App) : Prop :=
  ∃ i, a.slotFind name = some i ∧ (a.slotAt i).segsScanned = true ∧ (a.slotAt i).oldestSeg = lo ∧
    (a.slotAt i).curSeg = hi ∧ outcome (activePath cfg) ⟨a.slotAt i, a.env⟩ = .ok (segmentPath cfg name hi)

section Names
variable {cfg : Cfg} {name : Bytes} {lo hi : Nat} {look : Path → Option Bytes}

theorem four_le_printPadded (n : Nat) : 4 ≤ (printPadded 4 n).length := by
  simp only [printPadded, List.length_append, List.length_replicate]
  omega

theorem Segments.admissible (h : Segments cfg name lo hi look) (hs : cfg.segmented = true) :
    Admissible cfg name := by
  obtain ⟨p, _, hp, _⟩ := h.file lo (Nat.le_refl _) h.le
  unfold buildSegmentPath buildEntryPath at hp
  split at hp
  · cases hp
  · rename_i hvalid
    split at hp
    · cases hp
    · rename_i hlen
      refine ⟨by simpa using hvalid, ?_⟩
      have h0 : (printPadded 4 0).length = 4 := by decide
      have hlo := four_le_printPadded lo
      rw [segFile_of_segmented hs]
      simp only [segmentPath, tsPath, segmentEntry, List.length_append, List.length_cons, h0] at hlen ⊢
      omega

theorem Segments.look_eq (h : Segments cfg name lo hi look) {k : Nat} (hlo : lo ≤ k) (hhi : k ≤ hi) :
    ∃ g, look (segmentPath cfg name k) = some (segBytes name g) := by
  obtain ⟨p, g, hp, hlook⟩ := h.file k hlo hhi
  rw [buildEntryPath_ok hp] at hlook
  exact ⟨g, hlook⟩

theorem segSeq_watermarkEntry (name : Bytes) : segSeq name (watermarkEntry name) = none := by
  cases h : segSeq name (watermarkEntry name) with
  | none => rfl
  | some v =>
    obtain ⟨rest, hrest, hscan⟩ := segSeq_eq_some.mp h
    have : rest = [119, 109, 107] := by simpa [watermarkEntry, dotWmk] using hrest.symm
    rw [this, show scanUnsigned 4 [119, 109, 107] = none by decide] at hscan
    cases hscan

theorem segSeq_streamEntry (name : Bytes) : segSeq name (streamEntry name) = none := by
  cases h : segSeq name (streamEntry name) with
  | none => rfl
  | some v =>
    obtain ⟨rest, hrest, hscan⟩ := segSeq_eq_some.mp h
    have : rest = [122, 116, 115] := by simpa [streamEntry, dotZts] using hrest.symm
    rw [this, show scanUnsigned 4 [122, 116, 115] = none by decide] at hscan
    cases hscan

theorem segSeq_segmentEntry_lt {seq v : Nat} (h : segSeq name (segmentEntry name seq) = some v) : v < 10000 := by
  obtain ⟨rest, hrest, hscan⟩ := segSeq_eq_some.mp h
  have hr : rest = printPadded 4 seq ++ dotZts := by simpa [segmentEntry] using hrest.symm
  obtain ⟨c, cs, hc⟩ := List.exists_cons_of_ne_nil (printPadded_ne_nil 4 seq)
  have hd : isDigit c = true := printPadded_digits 4 seq c (by simp [hc])
  rw [hr, hc, List.cons_append, scanUnsigned_digit hd] at hscan
  exact scanRun_lt hscan

def FourDigits (cfg : Cfg) (name : Bytes) (look : Path → Option Bytes) : Prop :=
  ∀ p v, (look p).isSome → Scans cfg name p v → v < 10000

theorem Segments.fourDigits (h : Segments cfg name lo hi look) : FourDigits cfg name look := by
  rintro p v hp ⟨entry, hentry, hv⟩
  rcases h.alone p entry hp hentry with rfl | ⟨k, _, _, rfl⟩
  · rw [segSeq_watermarkEntry] at hv
    cases hv
  · exact segSeq_segmentEntry_lt hv

theorem FourDigits.within {e e' : Sys} (h : FourDigits cfg name e.look) (hw : Within (Owns cfg name) e e') :
    FourDigits cfg name e'.look := by
  intro p v hp hv
  by_cases hown : Owns cfg name p
  · obtain ⟨entry, hentry, hseq⟩ := hv
    obtain ⟨x, hx, rfl⟩ := hown
    cases tsPath_injective (entryName_eq_some.mp hentry).1
    cases hx with
    | stream => rw [segSeq_streamEntry] at hseq; cases hseq
    | watermark => rw [segSeq_watermarkEntry] at hseq; cases hseq
    | segment seq _ => exact segSeq_segmentEntry_lt hseq
  · rw [← Env.lookup_eq, hw.lookup p hown] at hp
    exact h p v hp hv

end Names

section Found
variable {cfg : Cfg} {name : Bytes} {lo hi : Nat} {a : App}

theorem Segments.exists_log (h : Segments cfg name lo hi a.env.look) (hs : cfg.segmented = true) :
    ∃ L : Log, L.lo = lo ∧ L.past.length = hi ∧ L.buf = [] ∧ SegFiles cfg name L a.env.look := by
  have hn := (h.admissible hs).no_slash
  have hseg : ∀ k, ∃ g, lo ≤ k → k ≤ hi → a.env.look (segmentPath cfg name k) = some (segBytes name g) := by
    intro k
    by_cases hk : lo ≤ k ∧ k ≤ hi
    · obtain ⟨g, hg⟩ := h.look_eq hk.1 hk.2
      exact ⟨g, fun _ _ => hg⟩
    · exact ⟨⟨.v1, [], by simp⟩, fun hlo hhi => absurd ⟨hlo, hhi⟩ hk⟩
  choose G hG using hseg
  refine ⟨⟨(List.range hi).map G, G hi, lo, [], by simpa using h.le, by simp⟩, rfl, by simp, rfl, ?_, ?_, ?_⟩
  · intro k hlo hhi
    have hk : k ≤ hi := by simpa using hhi
    rw [segFile_of_segmented hs, hG k hlo hk]
    rcases Nat.lt_or_eq_of_le hk with hlt | rfl
    · simp [SegLog.seg, List.getD, hlt]
    · simp [SegLog.seg, List.getD]
  · rintro _ p v hp ⟨entry, hentry, hv⟩
    rcases h.alone p entry hp hentry with rfl | ⟨k, hlo, hhi, rfl⟩
    · rw [segSeq_watermarkEntry] at hv
      cases hv
    · exact ⟨k, hlo, by simpa using hhi, (entryName_eq_some.mp hentry).1⟩
  · intro hf
    rw [hs] at hf
    cases hf

theorem Idle.find (hI : Idle cfg name a) (n : Bytes) : a.slotFind n = none :=
  slotFind_none.mpr fun i hi => by simp [hI.free i] at hi

theorem Idle.world (hI : Idle cfg name a) {L : Log} (hbuf : L.buf = []) (hbound : L.past.length < 10000)
    (hf : SegFiles cfg name L a.env.look) :
    World cfg (fun n => n = name) (fun _ => True) a ⟨a.cfgSet, a.table cfg, a.pending, a.handles, fun _ => L⟩ where
  clean := hI.clean
  running := rfl
  table := rfl
  pending := rfl
  handles := rfl
  bound := hI.bound
  mine i hi := by simp [hI.free i] at hi
  rep i hi := by simp [hI.free i] at hi
  unique i _ hi := by simp [hI.free i] at hi
  stored n hn _ := ⟨hn ▸ .files hf, hbuf, hbound⟩
  informed _ _ _ := .inr trivial

theorem cursorWindow_spec {N U : Bytes → Prop} {A : Store} (hF : Family cfg N) (hW : World cfg N U a A)
    (hs : cfg.segmented = true) (hrun : a.cfgSet = true) {i : Nat} (hi : a.slotFind name = some i) :
    ∃ a', (cursorWindow cfg name).run a = .ok ((A.logs name).lo, (A.logs name).past.length) a' ∧
      World cfg N U a' A ∧ a'.slotFind name = some i ∧ Learned (A.logs name) (a'.slotAt i) := by
  have hadm : Admissible cfg name := by
    obtain ⟨hin, hname⟩ := slotFind_some hi
    exact hF.admissible name (hname ▸ hW.mine i hin)
  obtain ⟨a₁, h₁, l₁, _⟩ := @tsCtxGetOrAlloc_spec cfg _ hW.clean hrun .ERR_INVAL
  have hW₁ := hW.alike l₁
  have hi₁ : a₁.slotFind name = some i := (l₁.slotFind name).trans hi
  obtain ⟨t, ht, hready, _⟩ := scanSegments_spec hadm hs (hW₁.rep_find hi₁)
  obtain ⟨a₂, h₂, hW₂, hslot, henv, hi₂⟩ := hW₁.onSlot hF hi₁ (keeps_scanSegments hs _) ht hready.rep
  rw [setLog_self] at hW₂
  have hlearned : Learned (A.logs name) (a₂.slotAt i) := hslot ▸ hready.learned hs
  refine ⟨a₂, run_then h₁ (run_then (run_get a₁) ?_), hW₂, hi₂, hlearned⟩
  rw [hi₁]
  apply run_then (run_orFail h₂)
  apply run_then (run_get a₂)
  dsimp only
  rw [hlearned.oldestSeg, hlearned.curSeg]
  rfl

theorem resumes_of_learned {N U : Bytes → Prop} {A : Store} (hF : Family cfg N) (hW : World cfg N U a A)
    (hs : cfg.segmented = true) {i : Nat} (hi : a.slotFind name = some i)
    (hl : Learned (A.logs name) (a.slotAt i)) :
    Resumes cfg name (A.logs name).lo (A.logs name).past.length a := by
  have hadm : Admissible cfg name := by
    obtain ⟨hin, hname⟩ := slotFind_some hi
    exact hF.admissible name (hname ▸ hW.mine i hin)
  obtain ⟨t, ht, _⟩ := activePath_spec hadm (hW.rep_find hi)
  rw [segFile_of_segmented hs] at ht
  exact ⟨i, hi, hl.scanned, hl.oldestSeg, hl.curSeg, outcome_of_run ht⟩

theorem openStream_vacant {A : Store} {h i : Nat} (hvalid : streamNameValid cfg name = true)
    (hrun : A.running = true) (hfind : A.find name = none) (hvac : A.vacant = some i) :
    A.openStream cfg h name = (.OK, (A.setKey i (some (name, 1))).bind h (some name)) := by
  simp [Store.openStream, hvalid, hrun, hfind, hvac]

theorem reopened_below (hs : cfg.segmented = true) (hI : Idle cfg name a)
    (hseg : Segments cfg name lo hi a.env.look) (hhi : hi < 10000) (h : Nat) :
    ∃ a', (do
        tsOpen cfg h name
        cursorWindow cfg name : AppM Status (Nat × Nat)).run a = .ok (lo, hi) a' ∧ Resumes cfg name lo hi a' := by
  have hadm := hseg.admissible hs
  have hF := Family.singleton hadm
  obtain ⟨L, rfl, rfl, hbuf, hfiles⟩ := hseg.exists_log hs
  have hW := hI.world hbuf hhi hfiles
  obtain ⟨i, hvac⟩ : ∃ i, (a.table cfg).findIdx? Option.isNone = some i := by
    rw [← Option.isSome_iff_exists, List.findIdx?_isSome, List.any_eq_true]
    exact ⟨none, hI.vacant, rfl⟩
  have hopen := tsOpen_spec hF hW rfl h (.inr trivial)
  rw [openStream_vacant hadm.1 hI.running ((hW.find_eq name).trans (hI.find name)) hvac] at hopen
  obtain ⟨a₁, h₁, hW₁⟩ := hopen.run_ok
  have hfind₁ : ∃ j, a₁.slotFind name = some j := by
    rw [← Option.isSome_iff_exists, slotFind_table cfg, hW₁.table, List.findIdx?_isSome, List.any_eq_true]
    obtain ⟨hlt, _⟩ := List.findIdx?_eq_some_iff_getElem.mp hvac
    exact ⟨some (name, 1), List.mem_set hlt _, by simp⟩
  obtain ⟨j, hj⟩ := hfind₁
  obtain ⟨a₂, h₂, hW₂, hj₂, hl⟩ := cursorWindow_spec hF hW₁ hs (hW₁.running.trans hI.running) hj
  exact ⟨a₂, run_then h₁ h₂, resumes_of_learned hF hW₂ hs hj₂ hl⟩

end Found

/-- A slot of the stream whose newest segment number has at most four digits, and so do all the numbers
that scanning its directory yields. -/
structure ShortSlot (cfg : Cfg) (name : Bytes) (s : SlotSt) : Prop where
  named : s.slot.name = name
  curSeg : s.slot.curSeg < 10000
  digits : FourDigits cfg name s.env.look

structure Short (cfg : Cfg) (name : Bytes) (a : App) : Prop where
  slots : ∀ i, (a.slotAt i).inUse = true → (a.slotAt i).name = name ∧ (a.slotAt i).curSeg < 10000
  digits : FourDigits cfg name a.env.look

section Short
variable {cfg : Cfg} {name : Bytes}

theorem shortSlot_onSys {ε α : Type} {m : EStateM ε Sys α} {s : SlotSt}
    (h : s.slot.name = name → Keeps (Within (Owns cfg name)) m s.env) :
    Keeps (Preserves (ShortSlot cfg name)) (onSys m) s := by
  intro hs
  unfold onSys
  rw [post_zoom]
  exact ⟨hs.named, hs.curSeg, hs.digits.within (h hs.named)⟩

theorem shortSlot_updSlot {ε : Type} {f : StreamCtx → StreamCtx} {s : SlotSt}
    (hn : (f s.slot).name = s.slot.name) (hc : (f s.slot).curSeg < 10000 ∨ (f s.slot).curSeg = s.slot.curSeg) :
    Keeps (Preserves (ShortSlot cfg name)) (updSlot (ε := ε) f) s := fun hs =>
  ⟨hn.trans hs.named, hc.elim id fun h => h ▸ hs.curSeg, hs.digits⟩

theorem shortSlot_learnNewest (hs : cfg.segmented = true) {lowest highest : Nat} (hhi : highest < 10000)
    (s : SlotSt) : Keeps (Preserves (ShortSlot cfg name)) (learnNewest cfg name lowest highest) s := by
  have hR := preserves_chains (ShortSlot cfg name)
  apply keeps_bind hR (shortSlot_updSlot rfl (.inl hhi))
  intro _ t _
  apply keeps_bind hR (keeps_rethrow hR _ t)
  intro segPath u hp
  have hown : Owns cfg name segPath := segmentPath_of_run hp ▸ owns_segmentPath _ _ hs
  apply keeps_bind hR (shortSlot_onSys fun _ => keeps_ensureHeaderEx cfg name hown 0 _)
  intro vb v _
  apply keeps_bind hR (shortSlot_updSlot rfl (.inr rfl))
  intro _ w _
  apply keeps_bind hR (shortSlot_onSys fun _ => keeps_attempt (keeps_fsStat _ _))
  intro size x _
  exact shortSlot_updSlot rfl (.inr rfl)

theorem fsList_sub {dir : Path} {e : Sys} {entry : Bytes}
    (h : entry ∈ (outcome (fsList dir) e).toOption.getD []) :
    ∃ p, (e.look p).isSome ∧ entryName dir p = some entry := by
  have hmem : entry ∈ e.files.keys.filterMap (entryName dir) := by
    simp only [outcome, fsList, EStateM.run] at h
    split at h
    · rename_i heq
      split at heq
      · cases heq
        exact h
      · cases heq
        exact List.mem_of_mem_take h
      · cases heq
    · cases h
  obtain ⟨p, hp, heq⟩ := List.mem_filterMap.mp hmem
  exact ⟨p, Files.mem_keys.mp hp, heq⟩

theorem foldl_max_lt {n init : Nat} {xs : List Nat} (hinit : init < n) (h : ∀ x ∈ xs, x < n) :
    xs.foldl max init < n := by
  induction xs generalizing init with
  | nil => exact hinit
  | cons x xs ih =>
    have hx := h x (by simp)
    exact ih (by omega) fun y hy => h y (by simp [hy])

theorem shortSlot_scanSegments (hs : cfg.segmented = true) (s : SlotSt) :
    Keeps (Preserves (ShortSlot cfg name)) (scanSegments cfg) s := by
  have hR := preserves_chains (ShortSlot cfg name)
  intro hshort
  refine (keeps_getSlot_bind (R := Preserves (ShortSlot cfg name)) ?_) hshort
  rw [hshort.named]
  dsimp only
  split
  · exact keeps_pure hR _ s
  split
  · apply keeps_bind hR (keeps_throw hR _ s)
    intro _ _ h
    exact by cases h
  apply keeps_bind hR (shortSlot_onSys fun _ => keeps_attempt (keeps_fsList _ _))
  intro entries t ht
  split
  · apply keeps_bind hR (shortSlot_onSys fun _ => keeps_adoptLegacy hs _ _)
    intro _ u _
    exact shortSlot_learnNewest hs (by decide) u
  · refine shortSlot_learnNewest hs ?_ t
    obtain ⟨e, he, rfl⟩ := run_of_onSys ht
    cases he
    apply foldl_max_lt (by decide)
    intro v hv
    obtain ⟨entry, hentry, hseq⟩ := List.mem_filterMap.mp hv
    obtain ⟨p, hp, hname⟩ := fsList_sub hentry
    exact hshort.digits p v hp ⟨entry, hname, hseq⟩

theorem shortSlot_activePath (hs : cfg.segmented = true) (s : SlotSt) :
    Keeps (Preserves (ShortSlot cfg name)) (activePath cfg) s := by
  have hR := preserves_chains (ShortSlot cfg name)
  unfold activePath
  rw [if_pos hs]
  apply keeps_bind hR (keeps_orFail _ (shortSlot_scanSegments hs s))
  intro _ t _
  exact keeps_getSlot_bind (keeps_rethrow hR _ t)

theorem short_onEnv {ε α : Type} {m : EStateM ε Sys α} {a : App}
    (h : Keeps (Within (Owns cfg name)) m a.env) : Keeps (Preserves (Short cfg name)) (onEnv m) a := by
  intro ha
  unfold onEnv
  rw [post_zoom]
  exact ⟨ha.slots, ha.digits.within h⟩

theorem short_setSlot {a : App} (ha : Short cfg name a) {i : Nat} {slot : StreamCtx}
    (h : slot.inUse = true → slot.name = name ∧ slot.curSeg < 10000) : Short cfg name (a.setSlot i slot) := by
  refine ⟨fun j hj => ?_, ha.digits⟩
  by_cases hi : HasSlot a i
  · rw [slotAt_setSlot hi] at hj ⊢
    split
    · rename_i hji
      rw [if_pos hji] at hj
      exact h hj
    · rename_i hji
      rw [if_neg hji] at hj
      exact ha.slots j hj
  · have hsame : (a.setSlot i slot).slotAt j = a.slotAt j := by
      unfold App.slotAt App.setSlot
      cases hc : a.tsCtx with
      | none => rfl
      | some ctx =>
        have hle : ctx.streams.length ≤ i := Nat.le_of_not_lt fun hlt => hi ⟨ctx, hc, hlt⟩
        simp [List.set_eq_of_length_le hle]
    rw [hsame] at hj ⊢
    exact ha.slots j hj

theorem short_onSlot {ε α : Type} {m : SlotM ε α} {a : App} {i : Nat} (hi : a.slotFind name = some i)
    (h : Keeps (Preserves (ShortSlot cfg name)) m ⟨a.slotAt i, a.env⟩) :
    Keeps (Preserves (Short cfg name)) (onSlot i m) a := by
  intro ha
  obtain ⟨hin, hname⟩ := slotFind_some hi
  have ht := h ⟨hname, (ha.slots i hin).2, ha.digits⟩
  unfold onSlot
  rw [post_zoom]
  have hset := @short_setSlot _ _ _ ha i (post m ⟨a.slotAt i, a.env⟩).slot fun _ => ⟨ht.named, ht.curSeg⟩
  exact ⟨hset.slots, ht.digits⟩

theorem keeps_probeLayout {P : Path → Prop} (path : Path) (e : Sys) :
    Keeps (Within P) (probeLayout path) e := by
  have hR := within_chains (κ := Diag) P
  apply keeps_bind hR (keeps_attempt (keeps_fsStat path e))
  intro r t _
  split
  · exact keeps_pure hR _ t
  · apply keeps_bind hR (keeps_attempt (keeps_cursorLearnLayout path t))
    intro r u _
    split <;> exact keeps_pure hR _ u

theorem keeps_recoverWalk {P : Path → Prop} (layout : FileLayout) (path : Path) (fuel goodEnd : Nat) (e : Sys) :
    Keeps (Within P) (recoverWalk layout path fuel goodEnd) e := by
  have hR := within_chains (κ := Diag) P
  induction fuel generalizing goodEnd e with
  | zero => exact keeps_pure hR _ e
  | succ fuel ih =>
    apply keeps_bind hR (keeps_toStatus (keeps_fsRead path _ _ e))
    intro raw t _
    split
    · exact keeps_pure hR _ t
    · apply keeps_bind hR (keeps_attempt (keeps_recordDecodeAs _ _ _ t))
      intro r u _
      split
      · exact ih _ u
      · exact keeps_pure hR _ u

theorem keeps_recoverFile {P : Path → Prop} (name : Bytes) {path : Path} (hp : P path) (e : Sys) :
    Keeps (Within P) (recoverFile name path) e := by
  have hR := within_chains (κ := Diag) P
  unfold recoverFile
  dsimp only
  repeat' first
    | split
    | exact keeps_pure hR _ _
    | exact keeps_throw hR _ _
    | exact keeps_probeLayout path _
    | exact keeps_recoverWalk _ _ _ _ _
    | exact keeps_streamHeaderDecode _ _ _
    | exact keeps_updStats _ _
    | exact keeps_toStatus (keeps_call _)
    | exact keeps_toStatus (keeps_fsOpen hp _ _ _)
    | exact keeps_toStatus (keeps_fsRead path _ _ _)
    | exact keeps_toStatus (keeps_fsWrite hp _ _ _)
    | exact keeps_toStatus (keeps_fsTruncate hp _ _)
    | refine keeps_get_bind ?_
    | refine keeps_bind hR ?_ fun _ _ _ => ?_

theorem short_tsCtxGetOrAlloc (onNull : Status) (a : App) :
    Keeps (Preserves (Short cfg name)) (tsCtxGetOrAlloc cfg onNull) a := by
  have hR := preserves_chains (Short cfg name)
  apply keeps_get_bind
  dsimp only
  split
  · apply keeps_bind hR (keeps_throw hR _ a)
    intro _ _ h
    exact by cases h
  cases hctx : a.tsCtx with
  | some ctx => exact keeps_pure hR _ a
  | none =>
    apply keeps_bind hR (short_onEnv (keeps_orFail _ (keeps_call _)))
    intro _ b _
    intro hb
    show Short cfg name { b with tsCtx := some ⟨List.replicate cfg.maxStreams StreamCtx.zero, false, false⟩ }
    refine ⟨fun i hi => ?_, hb.digits⟩
    by_cases hlt : i < cfg.maxStreams <;> simp [App.slotAt, List.getD, hlt, StreamCtx.zero] at hi

theorem owns_recoverPath (hs : cfg.segmented = true) {a b : App} {p : Path}
    (h : (recoverPath cfg name).run a = .ok p b) : Owns cfg name p := by
  unfold recoverPath at h
  rw [if_pos hs, EStateM.run_bind] at h
  cases hctx : (tsCtxGetOrAlloc cfg .ERR_INVAL).run a with
  | error r t => rw [hctx] at h; cases h
  | ok _ c =>
    rw [hctx] at h
    dsimp only at h
    rw [EStateM.run_bind, run_get] at h
    dsimp only at h
    cases hi : c.slotFind name with
    | none => rw [hi] at h; cases h
    | some i =>
      rw [hi] at h
      obtain ⟨_, hname⟩ := slotFind_some hi
      replace h : (toStatus (onSlot i (activePath cfg))).run c = .ok p b := h
      cases hpath : (activePath cfg).run ⟨c.slotAt i, c.env⟩ with
      | error r t =>
        have hrun : (onSlot i (activePath cfg)).run c = .error r _ := run_zoom_error hpath
        rw [toStatus, run_adapt_error hrun] at h
        cases h
      | ok q t =>
        have hrun : (onSlot i (activePath cfg)).run c = .ok q _ := run_zoom hpath
        rw [run_toStatus hrun] at h
        cases h
        have hmoves := keeps_activePath cfg ⟨c.slotAt i, c.env⟩
        rw [Keeps, post_of_run hpath] at hmoves
        have hown := owns_activePath hpath
        rwa [hmoves.name, hname] at hown

theorem short_recoverStream (hs : cfg.segmented = true) (a : App) :
    Keeps (Preserves (Short cfg name)) (recoverStream cfg name) a := by
  have hR := preserves_chains (Short cfg name)
  have hpath : ∀ b, Keeps (Preserves (Short cfg name)) (recoverPath cfg name) b := by
    intro b
    unfold recoverPath
    rw [if_pos hs]
    apply keeps_bind hR (short_tsCtxGetOrAlloc _ b)
    intro _ c _
    apply keeps_get_bind
    split
    · exact keeps_throw hR _ c
    · rename_i i hi
      exact keeps_toStatus (short_onSlot hi (shortSlot_activePath hs _))
  apply keeps_bind hR (short_onEnv (keeps_updStats _ _))
  intro _ b _
  refine keeps_bind hR (keeps_attempt (keeps_bind hR (hpath b) fun path c hc => short_onEnv ?_)) fun r c _ => ?_
  · exact keeps_recoverFile name (owns_recoverPath hs hc) c.env
  · split
    · exact keeps_pure hR _ c
    · apply keeps_bind hR (short_onEnv (keeps_updStats _ _))
      intro _ d _
      apply keeps_bind hR (short_onEnv (keeps_healthCheck _))
      intro _ e _
      exact keeps_throw hR _ e

theorem short_ensureStreamDir (a : App) : Keeps (Preserves (Short cfg name)) (ensureStreamDir cfg) a := by
  have hR := preserves_chains (Short cfg name)
  have hready : ∀ b : App, Keeps (Preserves (Short cfg name)) (modify (m := AppM Errno) fun a =>
      { a with tsCtx := a.tsCtx.map fun ctx => { ctx with tsDirReady := true } }) b := by
    intro b hb
    refine ⟨fun i hi => ?_, hb.digits⟩
    have hslot : (post (modify (m := AppM Errno) fun a : App =>
        { a with tsCtx := a.tsCtx.map fun ctx => { ctx with tsDirReady := true } }) b).slotAt i = b.slotAt i := by
      rw [post, run_modify]
      unfold App.slotAt
      cases b.tsCtx <;> rfl
    rw [hslot] at hi ⊢
    exact hb.slots i hi
  apply keeps_get_bind
  dsimp only
  split
  · split
    · apply keeps_bind hR (keeps_throw hR _ a)
      intro _ _ h
      exact by cases h
    apply keeps_bind hR (short_onEnv (keeps_attempt (keeps_call _)))
    intro r b _
    split
    · exact hready b
    · apply keeps_bind hR (keeps_throw hR _ b)
      intro _ _ h
      exact by cases h
    · exact hready b
  · exact keeps_pure hR _ a

theorem short_slotClaim (a : App) : Keeps (Preserves (Short cfg name)) (slotClaim cfg name) a := by
  have hR := preserves_chains (Short cfg name)
  apply keeps_get_bind
  split
  · rename_i i hi
    intro ha
    apply short_setSlot ha
    intro hin
    exact ha.slots i hin
  · split
    · exact keeps_throw hR _ a
    · rename_i i _
      refine keeps_bind hR (fun ha => short_setSlot ha fun h => by cases h) fun _ b _ => ?_
      apply keeps_bind hR (short_onEnv (keeps_orFail _ (keeps_call _)))
      intro _ c _
      exact fun hc => short_setSlot hc fun _ => ⟨rfl, Nat.zero_lt_succ _⟩

theorem short_tsOpen (hs : cfg.segmented = true) (h : Nat) (a : App) :
    Keeps (Preserves (Short cfg name)) (tsOpen cfg h name) a := by
  have hR := preserves_chains (Short cfg name)
  have hbind : ∀ b : App, Keeps (Preserves (Short cfg name))
      (modify (m := AppM Status) fun a : App => a.bind h (some name)) b := fun b hb => ⟨hb.slots, hb.digits⟩
  unfold tsOpen
  dsimp only
  rw [if_neg (show ¬ (!cfg.segmented) = true by simp [hs])]
  split
  · apply keeps_bind hR (keeps_throw hR _ a)
    intro _ _ h
    exact by cases h
  apply keeps_get_bind
  split
  · apply keeps_bind hR (keeps_throw hR _ a)
    intro _ _ h
    exact by cases h
  apply keeps_bind hR (short_tsCtxGetOrAlloc _ a)
  intro _ b _
  apply keeps_bind hR (keeps_toStatus (short_ensureStreamDir b))
  intro _ c _
  apply keeps_bind hR (short_slotClaim c)
  intro _ d _
  apply keeps_bind hR (hbind d)
  intro _ e _
  split
  · apply keeps_bind hR (keeps_attempt (short_recoverStream hs e))
    intro r f _
    split
    · apply keeps_bind hR (short_onEnv (keeps_updStats _ _))
      intro _ g _
      exact keeps_throw hR _ g
    · split
      · apply keeps_bind hR (short_onEnv (keeps_updStats _ _))
        intro _ g _
        exact keeps_throw hR _ g
      · exact keeps_pure hR _ f
  · exact keeps_pure hR _ e

theorem cursorWindow_short (hs : cfg.segmented = true) {a b : App} {lo hi : Nat} (ha : Short cfg name a)
    (h : (cursorWindow cfg name).run a = .ok (lo, hi) b) : hi < 10000 := by
  unfold cursorWindow at h
  rw [EStateM.run_bind] at h
  have hctx := @short_tsCtxGetOrAlloc cfg name .ERR_INVAL a ha
  cases hr : (tsCtxGetOrAlloc cfg .ERR_INVAL).run a with
  | error r t => rw [hr] at h; cases h
  | ok _ c =>
    rw [post_of_run hr] at hctx
    rw [hr] at h
    dsimp only at h
    rw [EStateM.run_bind, run_get] at h
    dsimp only at h
    cases hi : c.slotFind name with
    | none => rw [hi] at h; cases h
    | some i =>
      rw [hi] at h
      dsimp only at h
      rw [EStateM.run_bind] at h
      have hscan := short_onSlot hi (shortSlot_scanSegments hs ⟨c.slotAt i, c.env⟩) hctx
      have hmoves := keeps_scanSegments hs ⟨c.slotAt i, c.env⟩
      cases ht : (scanSegments cfg).run ⟨c.slotAt i, c.env⟩ with
      | error r t =>
        have hrun : (onSlot i (scanSegments cfg)).run c = .error r _ := run_zoom_error ht
        rw [orFail, run_adapt_error hrun] at h
        cases h
      | ok _ t =>
        have hrun : (onSlot i (scanSegments cfg)).run c = .ok () { c.setSlot i t.slot with env := t.env } :=
          run_zoom ht
        rw [run_orFail hrun] at h
        rw [post_of_run hrun] at hscan
        rw [Keeps, post_of_run ht] at hmoves
        have hslot : ({ c.setSlot i t.slot with env := t.env } : App).slotAt i = t.slot :=
          (slotAt_setSlot (hasSlot_of_inUse (slotFind_some hi).1) i).trans (if_pos rfl)
        have hin := hmoves.inUse.trans (slotFind_some hi).1
        have hlt := (hscan.slots i (by rw [hslot]; exact hin)).2
        cases h
        exact hlt

theorem Idle.short {a : App} {lo hi : Nat} (hI : Idle cfg name a) (hseg : Segments cfg name lo hi a.env.look) :
    Short cfg name a :=
  ⟨fun i hi => by simp [hI.free i] at hi, hseg.fourDigits⟩

end Short

/-- Reopening a stream that is alone in its directory finds its segment window again, and goes on in the
newest segment, exactly when that segment's number has at most four digits. -/
theorem reopen_finds_window_iff {cfg : Cfg} {name : Bytes} {lo hi h : Nat} {a b : App}
    (hs : cfg.segmented = true) (hclose : (tsClose cfg h).run a = .ok () b) (hidle : Idle cfg name b)
    (hseg : Segments cfg name lo hi b.env.look) :
    (outcome (reopen cfg h name) a = .ok (lo, hi) ∧ Resumes cfg name lo hi (post (reopen cfg h name) a)) ↔
      hi < 10000 := by
  constructor
  · rintro ⟨hout, _⟩
    have hall := run_of_outcome hout
    unfold reopen at hall
    rw [EStateM.run_bind, hclose] at hall
    dsimp only at hall
    rw [EStateM.run_bind] at hall
    cases hopen : (tsOpen cfg h name).run b with
    | error r t => rw [hopen] at hall; cases hall
    | ok _ c =>
      rw [hopen] at hall
      have hshort := short_tsOpen hs h b (hidle.short hseg)
      rw [post_of_run hopen] at hshort
      exact cursorWindow_short hs hshort hall
  · intro hhi
    obtain ⟨a', hrun, hres⟩ := reopened_below hs hidle hseg hhi h
    have hall : (reopen cfg h name).run a = .ok (lo, hi) a' := run_then hclose hrun
    rw [post_of_run hall]
    exact ⟨outcome_of_run hall, hres⟩

/-- Stream `"A"` open with nothing buffered, on its segments 0 and 1. -/
def openedPair : App where
  cfgSet := true
  tsCtx := some ⟨[StreamCtx.fresh (Cfg.small true false true 280) [65], StreamCtx.zero], false, true⟩
  handles := fun h => if h = 0 then some [65] else none
  env :=
    { Sys.blank (fun _ => false) with
      files := [(⟨segmentPath (Cfg.small true false true 280) [65] 0, Format.v1.header [65]⟩ : (_ : Path) × Bytes),
        ⟨segmentPath (Cfg.small true false true 280) [65] 1, Format.v1.header [65]⟩].toAList }

theorem pair_reopened :
    (outcome (reopen (Cfg.small true false true 280) 0 [65]) openedPair = .ok (0, 1) ∧
      Resumes (Cfg.small true false true 280) [65] 0 1
        (post (reopen (Cfg.small true false true 280) 0 [65]) openedPair)) ↔ 1 < 10000 := by
  have hclose : (tsClose (Cfg.small true false true 280) 0).run openedPair = .ok ()
      { openedPair with
        tsCtx := some ⟨[StreamCtx.zero, StreamCtx.zero], false, true⟩
        handles := Function.update openedPair.handles 0 none } := by
    rfl
  have hkeys : ∀ p, (openedPair.env.look p).isSome →
      p = segmentPath (Cfg.small true false true 280) [65] 0 ∨
        p = segmentPath (Cfg.small true false true 280) [65] 1 := fun p hp => by
    have hmem := Files.mem_keys.mpr hp
    rwa [show openedPair.env.files.keys = [segmentPath (Cfg.small true false true 280) [65] 0,
      segmentPath (Cfg.small true false true 280) [65] 1] by decide +kernel, List.mem_pair] at hmem
  refine reopen_finds_window_iff (by decide) hclose ⟨fun _ => rfl, rfl, fun i => ?_, by decide, fun h n hn => ?_⟩
    ⟨by decide, fun k _ hk => ?_, fun p entry hp hentry => .inr ?_⟩
  · match i with
    | 0 => rfl
    | 1 => rfl
    | _ + 2 => rfl
  · by_cases h0 : h = 0
    · subst h0
      cases hn
    · have hn' : (none : Option Bytes) = some n := by
        rw [← hn]
        simp [openedPair, Function.update, h0]
      cases hn'
  · refine ⟨segmentPath (Cfg.small true false true 280) [65] k, ⟨.v1, [], by simp⟩, ?_⟩
    match k with
    | 0 => exact ⟨rfl, by decide +kernel⟩
    | 1 => exact ⟨rfl, by decide +kernel⟩
  · rcases hkeys p hp with rfl | rfl
    · rw [entryName_segmentPath (by decide)] at hentry
      exact ⟨0, by decide, by decide, (Option.some.inj hentry).symm⟩
    · rw [entryName_segmentPath (by decide)] at hentry
      exact ⟨1, by decide, by decide, (Option.some.inj hentry).symm⟩

/-- A stream whose only segment is 9999, filled by eleven samples: the window 9999 to 10000 is read back
as 1000 to 9999. -/
theorem five_digits_lost :
    let cfg := Cfg.small true false true 280
    let a := run cfg (App.boot { Sys.blank (fun _ => false) with
      files := [(⟨segmentPath cfg [65] 9999, Format.v1.header [65]⟩ : (_ : Path) × Bytes)].toAList })
      [.open 0 [65], .batch 0 ((List.range 11).map fun n => ⟨UInt64.ofNat n, 0⟩)]
    (a.slotAt 0).oldestSeg = 9999 ∧ (a.slotAt 0).curSeg = 10000 ∧
      (outcome (reopen cfg 0 [65]) a).toOption = some (1000, 9999) := by
  decide +kernel

end ZephyrDB.Ts
