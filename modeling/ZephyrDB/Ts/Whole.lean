import ZephyrDB.Ts.Withheld

/-!
How many whole records a file holds: by the four places of the source that compute
where they end, and by a descending walk over the file.
-/

set_option autoImplicit false

namespace ZephyrDB.Ts

open Lib

/-- The layout that a file names; one too short for a header of version 1 counts as version 1. -/
def namedLayout (text : Bytes) : FileLayout :=
  if hdrSizeV1 ≤ text.length ∧ field text 4 2 = STREAM_VERSION_V2 then
    ⟨hdrSizeV2, recSizeV2, UInt64.ofNat (field text 12 8)⟩
  else FileLayout.v1

/-- The whole records behind the header of a file of this size. -/
def FileLayout.wholeRecords (layout : FileLayout) (size : Nat) : Nat :=
  if size ≤ layout.hdrSize then 0 else (size - layout.hdrSize) / layout.recSize

/-- Where `n` records end. -/
def FileLayout.endOf (layout : FileLayout) (n : Nat) : Nat := layout.hdrSize + n * layout.recSize

/-- The places that compute where the whole records of a file end. -/
inductive EndSite
  | openSegment
  | openDir
  | reset
  | countAll
  deriving DecidableEq

/-- The subtraction of `size_t` values that a place makes for a descending walk over a file. None is made
where the layout of the file is refused, and by the last two none for a file that ends with its header. -/
def EndSite.subtracts (site : EndSite) (text : Bytes) : Option (Nat × Nat) :=
  match layoutOf text with
  | .error _ => none
  | .ok layout =>
    match site with
    | .openSegment => some (text.length, layout.hdrSize)
    | .openDir => some (text.length, layout.hdrSize)
    | .reset =>
      if 0 < layout.recSize ∧ layout.hdrSize < text.length then some (text.length, layout.hdrSize) else none
    | .countAll => if layout.hdrSize < text.length then some (text.length, layout.hdrSize) else none

/-- `a - b` of `size_t` values, which wraps around. -/
def sizeSub (a b : Nat) : Nat := if b ≤ a then a - b else 2 ^ 32 - (b - a)

/-- The whole records that a place takes a file to hold. -/
def EndSite.records (site : EndSite) (text : Bytes) : Nat :=
  match site.subtracts text with
  | none => 0
  | some (size, hdr) => sizeSub size hdr / (namedLayout text).recSize

/-- What file `k` of a stream contributes to `zdb_ts_count_all`. -/
def countOne (cfg : Cfg) (name : Bytes) (k : Nat) : Zdb Nat :=
  if cfg.segmented then countSegments cfg name [k] else countStream cfg name

/-- The records that `zdb_ts_cursor_read_file_record` hands out, at most `n` of them. -/
def readOut (cfg : Cfg) : Nat → CurM Status (List Bytes)
  | 0 => return []
  | n + 1 => do
    match ← attempt (ε := Status) (cursorReadFileRecord cfg ((← get).cur.segCount + 1)) with
    | .error .ERR_NOT_FOUND => return []
    | .error rc => throw rc
    | .ok raw => return raw :: (← readOut cfg n)

section Layout
variable {text : Bytes} {layout : FileLayout}

theorem slice_front_length (bs : Bytes) (n : Nat) : (slice bs 0 n).length = min n bs.length := by
  rw [slice_length, Nat.sub_zero]

theorem field_slice_front (bs : Bytes) {off len n : Nat} (h : off + len ≤ n) :
    field (slice bs 0 n) off len = field bs off len := by
  have hfront : slice bs 0 n = bs.take n := by rw [slice, List.drop_zero]
  unfold field
  rw [hfront, slice_take bs h]

/-- A file is too short for a header of version 1, or as long as the header of the layout it names, or it
ends within that header, which is then one of version 2. -/
theorem layoutOf_named (text : Bytes) :
    (text.length < hdrSizeV1 ∧ layoutOf text = .ok FileLayout.v1 ∧ namedLayout text = FileLayout.v1) ∨
    ((namedLayout text).hdrSize ≤ text.length ∧ layoutOf text = .ok (namedLayout text)) ∨
    (hdrSizeV1 ≤ text.length ∧ text.length < (namedLayout text).hdrSize ∧ layoutOf text = .error .ERR_CORRUPT) := by
  have hle : hdrSizeV1 ≤ hdrSizeV2 := by decide
  have hv1 : min hdrSizeV2 text.length < hdrSizeV1 ↔ text.length < hdrSizeV1 := by omega
  have hv2 : min hdrSizeV2 text.length < hdrSizeV2 ↔ text.length < hdrSizeV2 := by omega
  unfold layoutOf
  simp only [slice_front_length, hv1, hv2, field_slice_front text (by decide : 4 + 2 ≤ hdrSizeV2),
    field_slice_front text (by decide : 12 + 8 ≤ hdrSizeV2)]
  by_cases hshort : text.length < hdrSizeV1
  · have hname : namedLayout text = FileLayout.v1 := if_neg fun h => Nat.not_lt.mpr h.1 hshort
    rw [if_pos hshort, hname]
    exact .inl ⟨hshort, rfl, rfl⟩
  · have hlong : hdrSizeV1 ≤ text.length := Nat.not_lt.mp hshort
    rw [if_neg hshort]
    by_cases hver : field text 4 2 = STREAM_VERSION_V2
    · have hname : namedLayout text = ⟨hdrSizeV2, recSizeV2, UInt64.ofNat (field text 12 8)⟩ :=
        if_pos ⟨hlong, hver⟩
      rw [if_neg (not_not.mpr hver), hname]
      by_cases htorn : text.length < hdrSizeV2
      · rw [if_pos htorn]
        exact .inr (.inr ⟨hlong, htorn, rfl⟩)
      · rw [if_neg htorn]
        exact .inr (.inl ⟨Nat.not_lt.mp htorn, rfl⟩)
    · have hname : namedLayout text = FileLayout.v1 := if_neg fun h => hver h.2
      rw [if_pos hver, hname]
      exact .inr (.inl ⟨hlong, rfl⟩)

theorem namedLayout_hdrSize (text : Bytes) : hdrSizeV1 ≤ (namedLayout text).hdrSize := by
  unfold namedLayout
  split
  · exact show hdrSizeV1 ≤ hdrSizeV2 by decide
  · exact Nat.le_refl hdrSizeV1

theorem wholeRecords_eq (layout : FileLayout) (size : Nat) :
    layout.wholeRecords size = (size - layout.hdrSize) / layout.recSize := by
  unfold FileLayout.wholeRecords
  split
  · rename_i hle
    rw [Nat.sub_eq_zero_of_le hle, Nat.zero_div]
  · rfl

theorem endOf_wholeRecords (h : layout.hdrSize ≤ text.length) :
    layout.endOf (layout.wholeRecords text.length) = layout.lastWhole text.length := by
  rw [lastWhole_eq h, wholeRecords_eq]
  rfl

theorem endOf_le (h : layout.hdrSize ≤ text.length) :
    layout.endOf (layout.wholeRecords text.length) ≤ text.length := by
  have := Nat.div_mul_le_self (text.length - layout.hdrSize) layout.recSize
  rw [endOf_wholeRecords h, lastWhole_eq h]
  omega

end Layout

section Sites
variable {text : Bytes} {layout : FileLayout}

theorem subtracts_learned (site : EndSite) (h : layoutOf text = .ok layout) :
    site.subtracts text = some (text.length, layout.hdrSize) ∨
      site.subtracts text = none ∧ text.length ≤ layout.hdrSize := by
  have hrec := layoutOf_recSize h
  unfold EndSite.subtracts
  rw [h]
  cases site with
  | openSegment => exact .inl rfl
  | openDir => exact .inl rfl
  | reset =>
    by_cases hlt : layout.hdrSize < text.length
    · exact .inl (if_pos ⟨hrec, hlt⟩)
    · exact .inr ⟨if_neg fun hc => hlt hc.2, Nat.not_lt.mp hlt⟩
  | countAll =>
    by_cases hlt : layout.hdrSize < text.length
    · exact .inl (if_pos hlt)
    · exact .inr ⟨if_neg hlt, Nat.not_lt.mp hlt⟩

theorem subtracts_refused (site : EndSite) {rc : Status} (h : layoutOf text = .error rc) :
    site.subtracts text = none := by
  unfold EndSite.subtracts
  rw [h]

theorem records_whole (site : EndSite) (h : hdrSizeV1 ≤ text.length) :
    site.records text = (namedLayout text).wholeRecords text.length := by
  rw [wholeRecords_eq]
  unfold EndSite.records
  rcases layoutOf_named text with ⟨hshort, -⟩ | ⟨hle, hok⟩ | ⟨-, htorn, herr⟩
  · exact absurd h (Nat.not_le.mpr hshort)
  · rcases subtracts_learned site hok with hsome | ⟨hnone, hend⟩
    · rw [hsome]
      dsimp only
      rw [sizeSub, if_pos hle]
    · rw [hnone, Nat.sub_eq_zero_of_le hend, Nat.zero_div]
  · rw [subtracts_refused site herr, Nat.sub_eq_zero_of_le htorn.le, Nat.zero_div]

theorem subtracts_iff :
    (∀ (site : EndSite) (size hdr : Nat), site.subtracts text = some (size, hdr) → hdr ≤ size) ↔
      hdrSizeV1 ≤ text.length := by
  constructor
  · intro h
    by_contra hshort
    have hv1 : layoutOf text = .ok FileLayout.v1 := by
      rcases layoutOf_named text with ⟨-, hok, -⟩ | ⟨hle, -⟩ | ⟨hle, -, -⟩
      · exact hok
      · exact absurd ((namedLayout_hdrSize text).trans hle) hshort
      · exact absurd hle hshort
    have hopen : EndSite.openSegment.subtracts text = some (text.length, FileLayout.v1.hdrSize) := by
      unfold EndSite.subtracts
      rw [hv1]
    exact hshort (h _ _ _ hopen)
  · intro hle site size hdr hsub
    rcases layoutOf_named text with ⟨hshort, -⟩ | ⟨hlong, hok⟩ | ⟨-, -, herr⟩
    · exact absurd hle (Nat.not_le.mpr hshort)
    · rcases subtracts_learned site hok with hsome | ⟨hnone, -⟩
      · rw [hsome] at hsub
        cases hsub
        exact hlong
      · rw [hnone] at hsub
        cases hsub
    · rw [subtracts_refused site herr] at hsub
      cases hsub

theorem lastWhole_records {site : EndSite} (hs : site = .openSegment ∨ site = .openDir) (h : layoutOf text = .ok layout)
    (hname : namedLayout text = layout) :
    layout.lastWhole text.length % 2 ^ 32 = layout.endOf (site.records text) % 2 ^ 32 := by
  have hsub : site.subtracts text = some (text.length, layout.hdrSize) := by
    unfold EndSite.subtracts
    rw [h]
    rcases hs with rfl | rfl <;> rfl
  unfold EndSite.records FileLayout.lastWhole FileLayout.endOf
  rw [hsub, hname]
  dsimp only
  unfold sizeSub
  split
  · rfl
  · exact Nat.mod_mod _ _

end Sites

section Count
variable {cfg : Cfg} {name text : Bytes} {k : Nat} {e : Sys}

theorem counted_eq (text : Bytes) :
    (match layoutOf text with
      | .error _ => 0
      | .ok layout => (text.length - layout.hdrSize) / layout.recSize) =
      (namedLayout text).wholeRecords text.length := by
  rw [wholeRecords_eq]
  rcases layoutOf_named text with ⟨-, hok, hname⟩ | ⟨-, hok⟩ | ⟨-, htorn, herr⟩
  · rw [hok, hname]
  · rw [hok]
  · rw [herr, Nat.sub_eq_zero_of_le htorn.le, Nat.zero_div]

theorem outcome_countFile {path : Path} (hc : e.Clean) (h : e.look path = some text) :
    outcome (countFile path) e = .ok ((namedLayout text).wholeRecords text.length) := by
  obtain ⟨e₁, h₁, l₁⟩ := fsStat_existing hc h
  unfold countFile
  rw [outcome_then (run_attempt_ok h₁)]
  dsimp only
  rw [outcome_then (run_attempt _ e₁), outcome_cursorLearnLayout (l₁.clean hc) (by rw [l₁.look, h]), ← counted_eq]
  cases layoutOf text <;> rfl

theorem outcome_countOne (hc : e.Clean) (hv : streamNameValid cfg name = true)
    (hlen : (segFile cfg name k).length < PATH_MAX) (h : e.look (segFile cfg name k) = some text) :
    outcome (countOne cfg name k) e = .ok ((namedLayout text).wholeRecords text.length) := by
  unfold countOne
  cases hs : cfg.segmented with
  | true =>
    have hbuild : (rethrow ((buildSegmentPath cfg name k).mapError statusFromErrno) : Zdb Path).run e =
        .ok (segFile cfg name k) e := by
      rw [buildSegmentPath_ok hs hv hlen]
      rfl
    have hfile := run_of_outcome (outcome_countFile hc h)
    exact outcome_of_run (run_then hbuild (run_then hfile (run_then rfl rfl)))
  | false =>
    have hbuild : (rethrow ((buildPath cfg name).mapError statusFromErrno) : Zdb Path).run e =
        .ok (segFile cfg name k) e := by
      rw [buildPath_ok hs hv hlen]
      rfl
    obtain ⟨e₁, h₁, l₁⟩ := fsStat_existing hc h
    rw [if_neg Bool.false_ne_true, countStream, outcome_then hbuild, outcome_then (run_attempt_ok h₁)]
    dsimp only
    rw [outcome_then (run_attempt _ e₁), outcome_cursorLearnLayout (l₁.clean hc) (by rw [l₁.look, h]), ← counted_eq]
    cases layoutOf text <;> rfl

end Count

/-- A descending cursor with the whole of a file open, and `m` of its records in front of it. -/
structure Behind (s : CurSt) (path : Path) (text : Bytes) (m : Nat) : Prop where
  clean : s.app.env.Clean
  down : s.cur.descending = true
  onFile : OnFile s.cur path text
  there : s.app.env.look path = some text
  at_end : s.cur.fileOffset = s.cur.layout.endOf m
  fits : s.cur.layout.endOf m ≤ text.length
  last : s.cur.curSeg = s.cur.segLo

section Walk
variable {cfg : Cfg} {s : CurSt} {path : Path} {text : Bytes} {m : Nat}

theorem FileLayout.endOf_succ (layout : FileLayout) (m : Nat) :
    layout.endOf (m + 1) = layout.endOf m + layout.recSize := by
  unfold FileLayout.endOf
  rw [Nat.add_mul, Nat.one_mul, Nat.add_assoc]

theorem Behind.back (h : Behind s path text (m + 1)) (n : Nat) :
    ∃ t, (cursorReadFileRecord cfg (n + 1)).run s =
        .ok (slice text (s.cur.layout.endOf m) s.cur.layout.recSize) t ∧
      Behind t path text m ∧ t.cur.layout = s.cur.layout := by
  obtain ⟨pos, hfile⟩ := h.onFile.file
  obtain ⟨hsize, hlen⟩ := h.onFile.size h.down
  have hrec := layoutOf_recSize h.onFile.layout
  have hat := h.at_end
  have hfits := h.fits
  rw [FileLayout.endOf_succ] at hat hfits
  have hprev : s.cur.fileOffset - s.cur.layout.recSize = s.cur.layout.endOf m := by omega
  have hroom : s.cur.layout.hdrSize + s.cur.layout.recSize ≤ s.cur.fileOffset := by
    rw [hat, FileLayout.endOf]
    omega
  obtain ⟨e₁, h₁, l₁⟩ := run_readBack h.clean h.down hfile (hlen ▸ hsize) hroom
  rw [visible_all h.there, hprev] at h₁
  have hraw : (slice text (s.cur.layout.endOf m) s.cur.layout.recSize).length = s.cur.layout.recSize := by
    rw [slice_length]
    omega
  generalize slice text (s.cur.layout.endOf m) s.cur.layout.recSize = raw at h₁ hraw ⊢
  let c₁ : CursorCtx := { s.cur with
    fileOffset := s.cur.layout.endOf m
    file := some ⟨path, text.length, s.cur.layout.endOf m + raw.length⟩ }
  obtain ⟨e₂, h₂, l₂⟩ := run_seekTo (s := ⟨c₁, { s.app with env := e₁ }⟩) (l₁.clean h.clean) (s.cur.layout.endOf m)
    fun hneg => Nat.not_lt.mpr (hlen ▸ hsize) hneg.2
  have l := l₁.trans (l₁.look ▸ l₂)
  let c₂ : CursorCtx := { c₁ with file := some ⟨path, text.length, s.cur.layout.endOf m⟩ }
  refine ⟨⟨c₂, { s.app with env := e₂ }⟩, ?_, ⟨l.clean h.clean, h.down, ⟨h.onFile.layout, ⟨_, rfl⟩, h.onFile.size⟩, ?_,
    rfl, Nat.le_trans (Nat.le_add_right _ _) hfits, h.last⟩, rfl⟩
  · rw [cursorReadFileRecord]
    apply run_then (run_getCur s)
    dsimp only
    rw [if_neg (by rw [hfile]; exact Bool.false_ne_true)]
    apply run_then h₁
    rw [if_neg (by omega), if_neg (not_not.mpr hraw), if_pos h.down, hprev]
    exact run_then (run_orFail h₂) rfl
  · rw [l.look]
    exact h.there

theorem Behind.done (h : Behind s path text 0) (n : Nat) :
    (cursorReadFileRecord cfg (n + 1)).run s = .error .ERR_NOT_FOUND s := by
  obtain ⟨pos, hfile⟩ := h.onFile.file
  have hrec := layoutOf_recSize h.onFile.layout
  have hnone : cursorReadHere.run s = .ok [] s := by
    apply run_then (run_getCur s)
    dsimp only
    rw [if_pos h.down, if_pos (by rw [h.at_end, FileLayout.endOf]; omega)]
    rfl
  rw [run_fileRecord_nil (by rw [hfile]; rfl) hnone]
  cases hs : cfg.segmented with
  | false => rfl
  | true =>
    have hend : s.cur.atEnd = true := by
      unfold CursorCtx.atEnd
      rw [if_pos h.down, h.last, beq_self_eq_true]
    exact run_fails (run_adapt_error (f := fun _ => Status.ERR_NOT_FOUND) (run_nextSegment_end hend _))

theorem run_readOut (h : Behind s path text m) {n : Nat} (hn : m < n) :
    outcome (readOut cfg n) s =
      .ok ((List.range m).reverse.map fun j => slice text (s.cur.layout.endOf j) s.cur.layout.recSize) := by
  induction n generalizing s m with
  | zero => exact absurd hn (Nat.not_lt_zero _)
  | succ n ih =>
    cases m with
    | zero => exact outcome_of_run (run_then (run_getCur s) (run_then (run_attempt_error (h.done _)) rfl))
    | succ m =>
      obtain ⟨t, hback, ht, hlayout⟩ := @Behind.back cfg s path text m h s.cur.segCount
      have hrest := run_of_outcome (ih ht (Nat.lt_of_succ_lt_succ hn))
      rw [List.range_succ, List.reverse_append, List.reverse_singleton, List.singleton_append, List.map_cons, ← hlayout]
      rw [← hlayout] at hback
      exact outcome_of_run (run_then (run_getCur s) (run_then (run_attempt_ok hback) (run_then hrest rfl)))

end Walk

/-- File `k` of a stream is there, whatever it holds, on a storage that does not fail. -/
structure Standby (cfg : Cfg) (a : App) (name : Bytes) (k : Nat) (text : Bytes) : Prop where
  clean : a.env.Clean
  up : a.cfgSet = true
  valid : streamNameValid cfg name = true
  fits : (segFile cfg name k).length < PATH_MAX
  there : a.env.look (segFile cfg name k) = some text

/-- A descending cursor over file `k` of a stream alone, opened and reset as `zdb_ts_cursor_open_dir` does. -/
def backOpen (cfg : Cfg) (name : Bytes) (k : Nat) (window : Window) (predicate : Option (Bytes → Bool)) :
    AppM Status CursorCtx := do
  let (_, c) ← withCursor (CursorCtx.start name window predicate true k k) do
    cursorOpenOne cfg name k
    cursorReset
  return c

def backWalk (cfg : Cfg) (name : Bytes) (k : Nat) (window : Window) (predicate : Option (Bytes → Bool)) :
    AppM Status (List Bytes) := do
  let c ← backOpen cfg name k window predicate
  return (← withCursor c do readOut cfg (cursorFuel cfg (← get) + 1)).1

/-- Every place finds the whole records of a file, and none makes a subtraction that wraps around. -/
structure SitesAgree (text : Bytes) : Prop where
  records : ∀ site : EndSite, site.records text = (namedLayout text).wholeRecords text.length
  noWrap : ∀ (site : EndSite) (size hdr : Nat), site.subtracts text = some (size, hdr) → hdr ≤ size

/-- A descending cursor is opened behind the whole records of the file, where the open's own subtraction
puts them, and so it is reset; as many are counted, and as many are read. -/
structure WholeAgrees (cfg : Cfg) (a : App) (name : Bytes) (k : Nat) (text : Bytes) (window : Window)
    (predicate : Option (Bytes → Bool)) : Prop extends SitesAgree text where
  opened : ∃ t, (cursorOpenOne cfg name k).run ⟨CursorCtx.start name window predicate true k k, a⟩ = .ok () t ∧
    t.cur.fileOffset = (namedLayout text).endOf ((namedLayout text).wholeRecords text.length)
  sought : ∀ site : EndSite, site = .openSegment ∨ site = .openDir →
    (namedLayout text).lastWhole text.length % 2 ^ 32 = (namedLayout text).endOf (site.records text) % 2 ^ 32
  rewound : ∃ c b, (backOpen cfg name k window predicate).run a = .ok c b ∧
    c.fileOffset = (namedLayout text).endOf ((namedLayout text).wholeRecords text.length)
  counted : outcome (countOne cfg name k) a.env = .ok ((namedLayout text).wholeRecords text.length)
  walked : ∃ raws, outcome (backWalk cfg name k window predicate) a = .ok raws ∧
    raws.length = (namedLayout text).wholeRecords text.length

section Agree
variable {cfg : Cfg} {a : App} {name text : Bytes} {k : Nat} {window : Window} {predicate : Option (Bytes → Bool)}

theorem Standby.span (h : Standby cfg a name k text) (hle : (namedLayout text).hdrSize ≤ text.length)
    (hl : layoutOf text = .ok (namedLayout text)) : Span cfg a name true k k :=
  ⟨h.clean, h.up, h.valid, Nat.le_refl k, fun _ => rfl, fun j hlo hhi => by
    obtain rfl := Nat.le_antisymm hhi hlo
    exact ⟨h.fits, text, _, h.there, hl, fun _ => hle⟩⟩

theorem Standby.contents (h : Standby cfg a name k text) : a.env.contents (segFile cfg name k) = text := by
  rw [Env.contents_eq, h.there, Option.getD_some]

theorem run_openOne_refused (window : Window) (predicate : Option (Bytes → Bool)) (h : Standby cfg a name k text)
    {rc : Status} (hl : layoutOf text = .error rc) :
    ∃ t, (cursorOpenOne cfg name k).run ⟨CursorCtx.start name window predicate true k k, a⟩ = .error rc t := by
  have hlearn : ∀ {s : CurSt}, s.app.env.Clean → s.app.env.look (segFile cfg name k) = some text →
      ∃ t, (cursorLearn (segFile cfg name k)).run s = .error rc t := fun {s} hc hlook =>
    ⟨_, run_then (run_updCur _ s) (run_fails (run_zoom_error (run_zoom_error
      (run_of_outcome_error ((outcome_cursorLearnLayout hc hlook).trans hl)))))⟩
  unfold cursorOpenOne
  cases hs : cfg.segmented with
  | true =>
    let s₀ : CurSt := ⟨CursorCtx.start name window predicate true k k, a⟩
    have hbuild : (rethrow ((buildSegmentPath cfg name k).mapError statusFromErrno) : CurM Status Path).run s₀ =
        .ok (segFile cfg name k) s₀ := by
      rw [buildSegmentPath_ok hs h.valid h.fits]
      rfl
    obtain ⟨e₁, h₁, l₁⟩ := run_cursorOpenFile (s := s₀) h.clean h.there
    let c₁ : CursorCtx := { s₀.cur with file := some ⟨segFile cfg name k, text.length, 0⟩, curSeg := k }
    obtain ⟨t, h₂⟩ := hlearn (s := ⟨c₁, { a with env := e₁ }⟩) (l₁.clean h.clean) (by rw [l₁.look]; exact h.there)
    exact ⟨t, run_then (run_updCur _ _) (run_then (run_getCur _) (run_then hbuild (run_then h₁
      (run_then (run_updCur _ _) (run_fails h₂)))))⟩
  | false =>
    let s₀ : CurSt := ⟨CursorCtx.start name window predicate true k k, a⟩
    have hbuild : (rethrow ((buildPath cfg name).mapError statusFromErrno) : CurM Status Path).run s₀ =
        .ok (segFile cfg name k) s₀ := by
      rw [buildPath_ok hs h.valid h.fits]
      rfl
    obtain ⟨e₁, h₁, l₁⟩ := run_cursorOpenFile (s := s₀) h.clean h.there
    let c₁ : CursorCtx := { s₀.cur with file := some ⟨segFile cfg name k, text.length, 0⟩ }
    obtain ⟨t, h₂⟩ := hlearn (s := ⟨c₁, { a with env := e₁ }⟩) (l₁.clean h.clean) (by rw [l₁.look]; exact h.there)
    exact ⟨t, run_then hbuild (run_then h₁ (run_fails h₂))⟩

theorem run_backOpen (window : Window) (predicate : Option (Bytes → Bool)) (h : Standby cfg a name k text)
    (hle : (namedLayout text).hdrSize ≤ text.length) (hl : layoutOf text = .ok (namedLayout text)) :
    (∃ t, (cursorOpenOne cfg name k).run ⟨CursorCtx.start name window predicate true k k, a⟩ = .ok () t ∧
      t.cur.fileOffset = (namedLayout text).endOf ((namedLayout text).wholeRecords text.length)) ∧
    ∃ c b, (backOpen cfg name k window predicate).run a = .ok c b ∧ c.layout = namedLayout text ∧
      cursorFuel cfg ⟨c, b⟩ = text.length ∧
      Behind ⟨c, b⟩ (segFile cfg name k) text ((namedLayout text).wholeRecords text.length) := by
  have hspan := h.span hle hl
  obtain ⟨t, hrun, hr, hstart⟩ := run_openOne window predicate hspan
  obtain ⟨c, b, hbegin, hopened⟩ := run_begin window predicate hspan ⟨t, hrun, hr, hstart.toOnFile⟩
  have hstarted := hopened.started.start
  have hfirst : c.curSeg = k := by
    have := hopened.started.first
    rw [hopened.segLo, hopened.segHi, ite_self] at this
    exact this
  have hname : c.streamName = name := hopened.name
  have hlook : b.env.look (segFile cfg name k) = some text := by
    rw [hopened.alike.env.look]
    exact h.there
  have htext : b.env.contents (segFile cfg name k) = text := by
    rw [Env.contents_eq, hlook, Option.getD_some]
  rw [h.contents] at hstart
  rw [show (⟨c, b⟩ : CurSt).cur.streamName = name from hname, show (⟨c, b⟩ : CurSt).cur.curSeg = k from hfirst,
    htext] at hstarted
  have hends : ∀ {d : CursorCtx}, AtStart d (segFile cfg name k) text → d.descending = true →
      d.layout = namedLayout text ∧ d.fileOffset = (namedLayout text).endOf ((namedLayout text).wholeRecords text.length) := by
    intro d hd hdown
    have hlay : d.layout = namedLayout text := Except.ok.inj (hd.layout.symm.trans hl)
    exact ⟨hlay, by rw [hd.down hdown, hlay, endOf_wholeRecords hle]⟩
  obtain ⟨hlay, hoff⟩ := hends hstarted hopened.descending
  refine ⟨⟨t, hrun, (hends hstart hr.descending).2⟩, c, b, run_then hbegin rfl, hlay, ?_,
    hopened.alike.env.clean h.clean, hopened.descending, hstarted.toOnFile, hlook, ?_, ?_, ?_⟩
  · unfold cursorFuel CursorCtx.segCount
    rw [show c.segLo = k from hopened.segLo, show c.segHi = k from hopened.segHi, Nat.sub_self, hname]
    simp [htext]
  · show c.fileOffset = c.layout.endOf _
    rw [hoff, hlay]
  · show c.layout.endOf _ ≤ _
    rw [hlay]
    exact endOf_le hle
  · exact hfirst.trans hopened.segLo.symm

theorem sitesAgree_iff : SitesAgree text ↔ hdrSizeV1 ≤ text.length :=
  ⟨fun h => subtracts_iff.mp h.noWrap, fun h => ⟨fun site => records_whole site h, subtracts_iff.mpr h⟩⟩

theorem wholeAgrees_of_long (window : Window) (predicate : Option (Bytes → Bool)) (h : Standby cfg a name k text)
    (hle : (namedLayout text).hdrSize ≤ text.length) : WholeAgrees cfg a name k text window predicate := by
  have hl : layoutOf text = .ok (namedLayout text) := by
    rcases layoutOf_named text with ⟨-, hok, hname⟩ | ⟨-, hok⟩ | ⟨-, htorn, -⟩
    · rw [hok, hname]
    · exact hok
    · exact absurd hle (Nat.not_le.mpr htorn)
  obtain ⟨hopened, c, b, hrun, hlay, hfuel, hbehind⟩ := run_backOpen window predicate h hle hl
  have hfew : (namedLayout text).wholeRecords text.length < cursorFuel cfg ⟨c, b⟩ + 1 := by
    rw [hfuel, wholeRecords_eq]
    exact Nat.lt_succ_of_le ((Nat.div_le_self _ _).trans (Nat.sub_le _ _))
  have hread : outcome (do readOut cfg (cursorFuel cfg (← get) + 1) : CurM Status (List Bytes)) ⟨c, b⟩ =
      .ok ((List.range ((namedLayout text).wholeRecords text.length)).reverse.map fun j =>
        slice text (c.layout.endOf j) c.layout.recSize) := by
    rw [outcome_then (run_getCur ⟨c, b⟩)]
    exact run_readOut hbehind hfew
  have hwith := run_withCursor (run_of_outcome hread)
  refine ⟨sitesAgree_iff.mpr ((namedLayout_hdrSize text).trans hle), hopened,
    fun site hs => lastWhole_records hs hl rfl, ⟨c, b, hrun, ?_⟩,
    outcome_countOne h.clean h.valid h.fits h.there, _, outcome_of_run (run_then hrun (run_then hwith rfl)), ?_⟩
  · rw [hbehind.at_end, hlay]
  · rw [List.length_map, List.length_reverse, List.length_range]

/-- The places agree on a file without wrapping around exactly when it is at least as long as a header of
version 1, and a descending walk reads as many records exactly when it is as long as the header it names. -/
theorem whole_records_agree_iff (window : Window) (predicate : Option (Bytes → Bool))
    (h : Standby cfg a name k text) :
    (SitesAgree text ↔ hdrSizeV1 ≤ text.length) ∧
      (WholeAgrees cfg a name k text window predicate ↔ (namedLayout text).hdrSize ≤ text.length) := by
  refine ⟨sitesAgree_iff, fun hw => ?_, wholeAgrees_of_long window predicate h⟩
  rcases layoutOf_named text with ⟨hshort, -⟩ | ⟨hlong, -⟩ | ⟨-, -, herr⟩
  · exact absurd (sitesAgree_iff.mp hw.toSitesAgree) (Nat.not_le.mpr hshort)
  · exact hlong
  · -- The cursor does not come to a computation: the layout of a header cut short is refused.
    obtain ⟨t, hrun, -⟩ := hw.opened
    obtain ⟨u, hfail⟩ := run_openOne_refused window predicate h herr
    rw [hfail] at hrun
    cases hrun

end Agree

/-- An instance with segments 0 and 1 of stream `A`, which hold these bytes and a header alone. -/
def App.sealed (text : Bytes) : App where
  cfgSet := true
  tsCtx := none
  handles := fun _ => some [65]
  env := { Sys.blank (fun _ => false) with
    files := ((∅ : Files).insert (segFile (Cfg.small true false false 64) [65] 1) (streamHeaderEncode [65])).insert
      (segFile (Cfg.small true false false 64) [65] 0) text }

theorem sealed_standby (text : Bytes) : Standby (Cfg.small true false false 64) (App.sealed text) [65] 0 text where
  clean := fun _ => rfl
  up := rfl
  valid := by decide
  fits := by decide
  there := by
    show Files.look (AList.insert _ text _) _ = some text
    rw [Files.look_insert, Function.update_self]

/-- A record, and three bytes of another one. -/
theorem torn_record_agrees : WholeAgrees (Cfg.small true false false 64)
    (App.sealed (streamHeaderEncode [65] ++ (recordEncode ⟨5, 7⟩ ++ [1, 2, 3]))) [65] 0
    (streamHeaderEncode [65] ++ (recordEncode ⟨5, 7⟩ ++ [1, 2, 3])) Window.all none :=
  (whole_records_agree_iff Window.all none (sealed_standby _)).2.mpr (by decide +kernel)

/-- Three bytes of a header: the count finds no record there and the reset none, but opening a descending
cursor takes the file to hold more than a hundred million, and is refused. -/
theorem torn_header_wraps :
    Standby (Cfg.small true false false 64) (App.sealed [87, 68, 90]) [65] 0 [87, 68, 90] ∧
    (namedLayout [87, 68, 90]).wholeRecords 3 = 0 ∧ EndSite.countAll.records [87, 68, 90] = 0 ∧
    EndSite.reset.records [87, 68, 90] = 0 ∧ EndSite.openSegment.subtracts [87, 68, 90] = some (3, 16) ∧
    EndSite.openSegment.records [87, 68, 90] = 153391688 ∧
    outcome (cursorOpenOne (Cfg.small true false false 64) [65] 0)
      ⟨CursorCtx.start [65] Window.all none true 0 0, App.sealed [87, 68, 90]⟩ = .error .ERR_INVAL ∧
    ¬ WholeAgrees (Cfg.small true false false 64) (App.sealed [87, 68, 90]) [65] 0 [87, 68, 90] Window.all none :=
  ⟨sealed_standby _, by decide, by decide, by decide, by decide, by decide, by decide +kernel, fun h =>
    absurd (sitesAgree_iff.mp h.toSitesAgree) (by decide)⟩

end ZephyrDB.Ts
