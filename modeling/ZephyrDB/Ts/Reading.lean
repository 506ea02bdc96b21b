import ZephyrDB.Ts.Ahead

/-!
Reading through a cursor: one call takes the first item ahead of it that is to
be reported, and leaves the cursor with what is behind that item.
-/

set_option autoImplicit false

namespace ZephyrDB.Ts

open Lib

theorem visible_congr {e e' : Sys} (l : Leads e e.look e') (p : Path) (size : Nat) :
    e'.visible p size = e.visible p size := by
  unfold Env.visible
  rw [l.shared, Env.contents_eq, Env.contents_eq, l.look]

theorem contents_congr {e e' : Sys} (l : Leads e e.look e') (p : Path) : e'.contents p = e.contents p := by
  rw [Env.contents_eq, Env.contents_eq, l.look]

def Openable (cfg : Cfg) (name : Bytes) (e : Sys) (descending : Bool) (k : Nat) : Prop :=
  (segFile cfg name k).length < PATH_MAX ∧ ∃ bs layout, e.look (segFile cfg name k) = some bs ∧
    layoutOf bs = .ok layout ∧ (descending = true → layout.hdrSize ≤ bs.length)

structure Walkable (cfg : Cfg) (s : CurSt) : Prop where
  clean : s.app.env.Clean
  up : s.app.cfgSet = true
  valid : streamNameValid cfg s.cur.streamName = true
  lo_le : s.cur.segLo ≤ s.cur.curSeg
  le_hi : s.cur.curSeg ≤ s.cur.segHi
  single : cfg.segmented = false → s.cur.segLo = s.cur.segHi
  opened : s.cur.file.isSome = true
  recSize : 0 < s.cur.layout.recSize
  back : s.cur.descending = true → ∀ f, s.cur.file = some f → s.cur.layout.hdrSize ≤ s.cur.fileSize ∧
    ∃ m, s.cur.fileOffset = s.cur.layout.hdrSize + m * s.cur.layout.recSize ∧
      s.cur.fileOffset ≤ (s.app.env.visible f.path f.size).length
  segs : ∀ k ∈ s.cur.segsAhead, Openable cfg s.cur.streamName s.app.env s.cur.descending k

structure SameFile (c c' : CursorCtx) : Prop where
  curSeg : c'.curSeg = c.curSeg
  layout : c'.layout = c.layout
  fileSize : c'.fileSize = c.fileSize
  file : (c'.file.map fun f => (f.path, f.size)) = c.file.map fun f => (f.path, f.size)

theorem SameFile.refl (c : CursorCtx) : SameFile c c := ⟨rfl, rfl, rfl, rfl⟩

theorem SameFile.trans {a b c : CursorCtx} (h : SameFile a b) (k : SameFile b c) : SameFile a c :=
  ⟨k.curSeg.trans h.curSeg, k.layout.trans h.layout, k.fileSize.trans h.fileSize, k.file.trans h.file⟩

section Frame
variable {cfg : Cfg} {s : CurSt} {a : App}

theorem Openable.congr {name : Bytes} {e e' : Sys} {descending : Bool} {k : Nat} (h : Openable cfg name e descending k)
    (l : Leads e e.look e') : Openable cfg name e' descending k := by
  unfold Openable
  rw [l.look]
  exact h

theorem Walkable.alike (h : Walkable cfg s) (l : Alike cfg s.app a) : Walkable cfg ⟨s.cur, a⟩ where
  clean := l.env.clean h.clean
  up := l.running.trans h.up
  valid := h.valid
  lo_le := h.lo_le
  le_hi := h.le_hi
  single := h.single
  opened := h.opened
  recSize := h.recSize
  back hd f hf := by
    obtain ⟨hsize, m, hat, hle⟩ := h.back hd f hf
    exact ⟨hsize, m, hat, by rw [visible_congr l.env]; exact hle⟩
  segs k hk := (h.segs k hk).congr l.env

theorem here_congr (c : CursorCtx) {e e' : Sys} (l : Leads e e.look e') : c.here e' = c.here e := by
  unfold CursorCtx.here
  split
  · rfl
  · rw [visible_congr l]

theorem segItems_congr (c : CursorCtx) {e e' : Sys} (l : Leads e e.look e') : c.segItems cfg e' = c.segItems cfg e := by
  funext k
  unfold CursorCtx.segItems
  rw [contents_congr l]

theorem filesAhead_congr (c : CursorCtx) {e e' : Sys} (l : Leads e e.look e') :
    c.filesAhead cfg e' = c.filesAhead cfg e := by
  unfold CursorCtx.filesAhead
  rw [here_congr c l, segItems_congr c l]

theorem bufAhead_congr (c : CursorCtx) (l : Alike cfg s.app a) : bufAhead cfg c a = bufAhead cfg c s.app := by
  unfold bufAhead
  rw [l.slotFind]
  split
  · rfl
  · rw [l.slots]

end Frame

section Here
variable {cfg : Cfg} {s : CurSt} {f : FileHandle}

theorem run_readAt (hc : s.app.env.Clean) (hf : s.cur.file = some f) :
    ∃ e, cursorRead.run s = .ok (slice (s.app.env.visible f.path f.size) f.pos s.cur.layout.recSize)
        ⟨{ s.cur with file := some { f with pos := f.pos +
          (slice (s.app.env.visible f.path f.size) f.pos s.cur.layout.recSize).length } }, { s.app with env := e }⟩ ∧
      Leads s.app.env s.app.env.look e := by
  obtain ⟨e, h₁, l₁⟩ := fsReadHandle_ok hc f.path f.size f.pos s.cur.layout.recSize
  refine ⟨e, ?_, l₁⟩
  apply run_then (run_getCur s)
  dsimp only
  rw [hf]
  exact run_then (run_onCurEnv (run_toStatus h₁)) rfl

theorem here_ascending (hd : s.cur.descending = false) (hf : s.cur.file = some f) :
    s.cur.here s.app.env = fileItems s.cur.layout ((s.app.env.visible f.path f.size).drop f.pos) := by
  unfold CursorCtx.here
  rw [hf]
  simp [hd]

theorem here_descending (hd : s.cur.descending = true) (hf : s.cur.file = some f) :
    s.cur.here s.app.env = (fileItems s.cur.layout
      (((s.app.env.visible f.path f.size).take s.cur.fileOffset).drop s.cur.layout.hdrSize)).reverse := by
  unfold CursorCtx.here
  rw [hf]
  simp [hd]

theorem fileItems_nil (layout : FileLayout) : fileItems layout [] = [] := by simp [fileItems]

theorem fileItems_cons {layout : FileLayout} (hr : 0 < layout.recSize) {bs : Bytes} (hb : bs ≠ []) :
    fileItems layout bs = fileItem layout (bs.take layout.recSize) :: fileItems layout (bs.drop layout.recSize) := by
  rw [fileItems, chunks_cons hr hb, List.map_cons]
  rfl

theorem fileItems_snoc {layout : FileLayout} (hr : 0 < layout.recSize) {bs : Bytes} {m : Nat}
    (hle : layout.hdrSize + (m + 1) * layout.recSize ≤ bs.length) :
    fileItems layout ((bs.take (layout.hdrSize + (m + 1) * layout.recSize)).drop layout.hdrSize) =
      fileItems layout ((bs.take (layout.hdrSize + m * layout.recSize)).drop layout.hdrSize) ++
        [fileItem layout (slice bs (layout.hdrSize + m * layout.recSize) layout.recSize)] := by
  have hdrop : ∀ n, (bs.take (layout.hdrSize + n)).drop layout.hdrSize = (bs.drop layout.hdrSize).take n := fun n => by
    rw [List.drop_take, Nat.add_sub_cancel_left]
  have hlen : (m + 1) * layout.recSize ≤ (bs.drop layout.hdrSize).length := by
    rw [List.length_drop]
    omega
  rw [hdrop, hdrop, fileItems, chunks_snoc hr hlen, List.map_append, List.drop_drop]
  rfl

theorem run_readHere_nil (h : Walkable cfg s) (hf : s.cur.file = some f) (hnil : s.cur.here s.app.env = []) :
    ∃ s', cursorReadHere.run s = .ok [] s' ∧ Reads cfg s s' ∧ Walkable cfg s' ∧ SameFile s.cur s'.cur ∧
      s'.cur.here s'.app.env = [] := by
  by_cases hd : s.cur.descending = true
  · obtain ⟨_, m, hat, hle⟩ := h.back hd f hf
    refine ⟨s, ?_, Reads.refl cfg s, h, SameFile.refl _, hnil⟩
    have hm : m = 0 := by
      by_contra hne
      obtain ⟨n, rfl⟩ := Nat.exists_eq_succ_of_ne_zero hne
      rw [here_descending hd hf, hat, fileItems_snoc h.recSize (hat ▸ hle)] at hnil
      simp at hnil
    apply run_then (run_getCur s)
    dsimp only
    rw [if_pos hd, if_pos (by rw [hat, hm]; have := h.recSize; omega)]
    rfl
  · have hd : s.cur.descending = false := by simpa using hd
    have hempty : (s.app.env.visible f.path f.size).drop f.pos = [] := by
      by_contra hne
      rw [here_ascending hd hf, fileItems_cons h.recSize hne] at hnil
      cases hnil
    obtain ⟨e, h₁, l₁⟩ := run_readAt h.clean hf
    have hraw : slice (s.app.env.visible f.path f.size) f.pos s.cur.layout.recSize = [] := by
      rw [slice, hempty, List.take_nil]
    rw [hraw] at h₁
    have hsame : ({ s.cur with file := some { f with pos := f.pos + ([] : Bytes).length } } : CursorCtx) = s.cur := by
      rw [List.length_nil, Nat.add_zero, ← hf]
    rw [hsame] at h₁
    have hal : Alike cfg s.app { s.app with env := e } := alike_env s.app l₁
    refine ⟨⟨s.cur, { s.app with env := e }⟩, ?_, ⟨hal, SameQuery.refl _⟩, h.alike hal, SameFile.refl _, ?_⟩
    · apply run_then (run_getCur s)
      dsimp only
      rw [if_neg (by simp [hd])]
      exact h₁
    · rw [here_congr s.cur l₁]
      exact hnil

theorem Walkable.moved (h : Walkable cfg s) (hf : s.cur.file = some f) {g : FileHandle} (hp : g.path = f.path)
    (hs : g.size = f.size) : Walkable cfg ⟨{ s.cur with file := some g }, s.app⟩ where
  clean := h.clean
  up := h.up
  valid := h.valid
  lo_le := h.lo_le
  le_hi := h.le_hi
  single := h.single
  opened := rfl
  recSize := h.recSize
  back hd g' hg := by
    cases hg
    rw [hp, hs]
    exact h.back hd f hf
  segs := h.segs

theorem run_readBack (hc : s.app.env.Clean) (hd : s.cur.descending = true) (hf : s.cur.file = some f)
    (hsize : s.cur.layout.hdrSize ≤ s.cur.fileSize)
    (hat : s.cur.layout.hdrSize + s.cur.layout.recSize ≤ s.cur.fileOffset) :
    ∃ e, cursorReadHere.run s = .ok
        (slice (s.app.env.visible f.path f.size) (s.cur.fileOffset - s.cur.layout.recSize) s.cur.layout.recSize)
        ⟨{ s.cur with
            fileOffset := s.cur.fileOffset - s.cur.layout.recSize
            file := some { f with pos := s.cur.fileOffset - s.cur.layout.recSize +
              (slice (s.app.env.visible f.path f.size) (s.cur.fileOffset - s.cur.layout.recSize)
                s.cur.layout.recSize).length } }, { s.app with env := e }⟩ ∧
      Leads s.app.env s.app.env.look e := by
  obtain ⟨e₁, h₁, l₁⟩ := run_seekTo (s := ⟨{ s.cur with fileOffset := s.cur.fileOffset - s.cur.layout.recSize },
    s.app⟩) hc (s.cur.fileOffset - s.cur.layout.recSize) fun hneg => Nat.not_lt.mpr hsize hneg.2
  obtain ⟨e₂, h₂, l₂⟩ := run_readAt (s := ⟨{ s.cur with
      fileOffset := s.cur.fileOffset - s.cur.layout.recSize
      file := s.cur.file.map fun f => { f with pos := s.cur.fileOffset - s.cur.layout.recSize } },
    { s.app with env := e₁ }⟩) (f := { f with pos := s.cur.fileOffset - s.cur.layout.recSize })
    (l₁.clean hc) (by simp [hf])
  dsimp only at h₂
  rw [visible_congr l₁] at h₂
  refine ⟨e₂, ?_, l₁.trans (l₁.look ▸ l₂)⟩
  apply run_then (run_getCur s)
  dsimp only
  rw [if_pos hd, if_neg (Nat.not_lt.mpr hat)]
  exact run_then (run_updCur _ s) (run_then (run_orFail h₁) h₂)

theorem run_readHere_cons (h : Walkable cfg s) (hf : s.cur.file = some f) {item : RecItem} {rest : List RecItem}
    (hcons : s.cur.here s.app.env = item :: rest) :
    ∃ raw s', cursorReadHere.run s = .ok raw s' ∧ raw ≠ [] ∧ item = fileItem s.cur.layout raw ∧
      Reads cfg s s' ∧ Walkable cfg s' ∧ SameFile s.cur s'.cur ∧ s'.cur.here s'.app.env = rest := by
  by_cases hd : s.cur.descending = true
  · obtain ⟨hsize, m, hat, hle⟩ := h.back hd f hf
    obtain ⟨n, rfl⟩ : ∃ n, m = n + 1 := by
      apply Nat.exists_eq_succ_of_ne_zero
      intro hm
      rw [here_descending hd hf, hat, hm, Nat.zero_mul, Nat.add_zero, List.drop_eq_nil_of_le (by simp),
        fileItems_nil] at hcons
      cases hcons
    have hprev : s.cur.fileOffset - s.cur.layout.recSize = s.cur.layout.hdrSize + n * s.cur.layout.recSize := by
      rw [hat, Nat.add_mul, Nat.one_mul]
      omega
    have hfits : s.cur.layout.hdrSize + n * s.cur.layout.recSize + s.cur.layout.recSize ≤
        (s.app.env.visible f.path f.size).length := by
      rw [hat, Nat.add_mul, Nat.one_mul] at hle
      omega
    rw [here_descending hd hf, hat, fileItems_snoc h.recSize (hat ▸ hle), List.reverse_append,
      List.reverse_singleton, List.singleton_append] at hcons
    obtain ⟨rfl, rfl⟩ := List.cons.inj hcons
    obtain ⟨e, h₁, l⟩ := run_readBack h.clean hd hf hsize (by rw [hat, Nat.add_mul, Nat.one_mul]; omega)
    let back := s.cur.fileOffset - s.cur.layout.recSize
    let raw := slice (s.app.env.visible f.path f.size) back s.cur.layout.recSize
    let f' : FileHandle := { f with pos := back + raw.length }
    let s' : CurSt := ⟨{ s.cur with fileOffset := back, file := some f' }, { s.app with env := e }⟩
    have hsame : SameFile s.cur s'.cur := ⟨rfl, rfl, rfl, by rw [hf]; rfl⟩
    refine ⟨raw, s', h₁, ?_, ?_, ⟨alike_env s.app l, ⟨rfl, rfl, rfl, rfl, rfl, rfl, rfl, rfl⟩⟩, ?_, hsame, ?_⟩
    · intro hnil
      have hlen := congrArg List.length hnil
      dsimp only [raw, back] at hlen
      rw [slice_length, List.length_nil, hprev] at hlen
      have := h.recSize
      omega
    · dsimp only [raw, back]
      rw [hprev]
    · refine { h.alike (alike_env s.app l) with opened := rfl, back := fun _ g hg => ?_ }
      cases hg
      refine ⟨hsize, n, hprev, ?_⟩
      dsimp only [s', f', back]
      rw [visible_congr l, hprev]
      omega
    · refine (here_descending (s := s') hd rfl).trans ?_
      dsimp only [s', f', back]
      rw [visible_congr l, hprev]
  · have hd : s.cur.descending = false := by simpa using hd
    have hne : (s.app.env.visible f.path f.size).drop f.pos ≠ [] := by
      intro hnil
      rw [here_ascending hd hf, hnil, fileItems_nil] at hcons
      cases hcons
    rw [here_ascending hd hf, fileItems_cons h.recSize hne] at hcons
    obtain ⟨rfl, rfl⟩ := List.cons.inj hcons
    obtain ⟨e, h₁, l₁⟩ := run_readAt h.clean hf
    have hal : Alike cfg s.app { s.app with env := e } := alike_env s.app l₁
    let raw := slice (s.app.env.visible f.path f.size) f.pos s.cur.layout.recSize
    let f' : FileHandle := { f with pos := f.pos + raw.length }
    let s' : CurSt := ⟨{ s.cur with file := some f' }, { s.app with env := e }⟩
    have hsame : SameFile s.cur s'.cur := ⟨rfl, rfl, rfl, by rw [hf]; rfl⟩
    refine ⟨raw, s', ?_, ?_, rfl, ⟨hal, ⟨rfl, rfl, rfl, rfl, rfl, rfl, rfl, rfl⟩⟩,
      (h.alike hal).moved hf rfl rfl, hsame, ?_⟩
    · apply run_then (run_getCur s)
      dsimp only
      rw [if_neg (by simp [hd])]
      exact h₁
    · intro hnil
      have hlen := congrArg List.length hnil
      dsimp only [raw] at hlen
      rw [slice, List.length_take, List.length_nil] at hlen
      have := h.recSize
      have := List.length_pos_iff.mpr hne
      omega
    · refine (here_ascending (s := s') hd rfl).trans ?_
      dsimp only [s', f', raw]
      rw [visible_congr l₁, slice, List.length_take, List.drop_drop]
      -- A stretch that is cut short is the last one.
      rcases Nat.le_total s.cur.layout.recSize ((s.app.env.visible f.path f.size).drop f.pos).length with hw | hw
      · rw [Nat.min_eq_left hw]
      · rw [Nat.min_eq_right hw, List.length_drop]
        rw [List.length_drop] at hw
        rw [List.drop_eq_nil_of_le (by omega), List.drop_eq_nil_of_le (by omega)]

end Here

section Open
variable {cfg : Cfg}

theorem buildSegmentPath_ok {name : Bytes} {k : Nat} (hs : cfg.segmented = true)
    (hv : streamNameValid cfg name = true) (hlen : (segFile cfg name k).length < PATH_MAX) :
    buildSegmentPath cfg name k = .ok (segFile cfg name k) := by
  rw [segFile_of_segmented hs] at hlen ⊢
  unfold segmentPath at hlen
  simp [buildSegmentPath, buildEntryPath, hv, segmentPath, Nat.not_le.mpr hlen]

/-- The cursor has the file at `path` open, with these contents. -/
structure OnFile (c : CursorCtx) (path : Path) (bs : Bytes) : Prop where
  layout : layoutOf bs = .ok c.layout
  file : ∃ pos, c.file = some ⟨path, bs.length, pos⟩
  size : c.descending = true → c.layout.hdrSize ≤ bs.length ∧ c.fileSize = bs.length

structure AtStart (c : CursorCtx) (path : Path) (bs : Bytes) : Prop extends OnFile c path bs where
  up : c.descending = false → c.file = some ⟨path, bs.length, c.layout.hdrSize⟩
  down : c.descending = true → c.fileOffset = c.layout.lastWhole bs.length

theorem OnFile.same {c c' : CursorCtx} {path : Path} {bs : Bytes} (h : OnFile c path bs) (hs : SameFile c c')
    (hd : c'.descending = c.descending) : OnFile c' path bs where
  layout := hs.layout ▸ h.layout
  file := by
    obtain ⟨pos, hf⟩ := h.file
    have hmap := hs.file
    rw [hf] at hmap
    obtain ⟨f, hf', heq⟩ := Option.map_eq_some_iff.mp hmap
    exact ⟨f.pos, by rw [hf']; cases f; cases heq; rfl⟩
  size hdesc := by
    rw [hs.layout, hs.fileSize]
    exact h.size (hd ▸ hdesc)

theorem lastWhole_eq {layout : FileLayout} {size : Nat} (h : layout.hdrSize ≤ size) :
    layout.lastWhole size = layout.hdrSize + (size - layout.hdrSize) / layout.recSize * layout.recSize := by
  rw [FileLayout.lastWhole, if_pos h]

theorem visible_all {e : Sys} {path : Path} {bs : Bytes} (h : e.look path = some bs) :
    e.visible path bs.length = bs := by
  unfold Env.visible
  rw [Env.contents_eq, h, Option.getD_some]
  split
  · rfl
  · exact List.take_length

theorem AtStart.here {c : CursorCtx} {path : Path} {bs : Bytes} {e : Sys} (h : AtStart c path bs)
    (hlook : e.look path = some bs) : c.here e = segmentItems bs c.descending := by
  obtain ⟨pos, hf⟩ := h.file
  unfold CursorCtx.here segmentItems
  rw [h.layout]
  cases hd : c.descending with
  | true =>
    rw [hf, h.down hd]
    simp only [if_true, visible_all hlook]
  | false =>
    rw [h.up hd]
    simp only [visible_all hlook]
    rfl

theorem AtStart.back {c : CursorCtx} {path : Path} {bs : Bytes} {e : Sys} (h : AtStart c path bs)
    (hlook : e.look path = some bs) (hd : c.descending = true) (f : FileHandle) (hf : c.file = some f) :
    c.layout.hdrSize ≤ c.fileSize ∧ ∃ m, c.fileOffset = c.layout.hdrSize + m * c.layout.recSize ∧
      c.fileOffset ≤ (e.visible f.path f.size).length := by
  obtain ⟨pos, hfile⟩ := h.file
  obtain ⟨hle, hsize⟩ := h.size hd
  rw [hfile] at hf
  cases hf
  rw [h.down hd, lastWhole_eq hle, visible_all hlook, hsize]
  refine ⟨hle, _, rfl, ?_⟩
  have := Nat.div_mul_le_self (bs.length - c.layout.hdrSize) c.layout.recSize
  omega

theorem layoutOf_hdrSize {bs : Bytes} {layout : FileLayout} (h : layoutOf bs = .ok layout) : layout.hdrSize ≤ hdrSizeV2 := by
  have hv1 : FileLayout.v1.hdrSize ≤ hdrSizeV2 := by decide
  unfold layoutOf at h
  dsimp only at h
  repeat' split at h
  all_goals cases h
  · exact hv1
  · exact hv1
  · exact Nat.le_refl hdrSizeV2

theorem run_cursorOpenFile {s : CurSt} {path : Path} {bs : Bytes} (hc : s.app.env.Clean)
    (h : s.app.env.look path = some bs) :
    ∃ e, (cursorOpenFile path).run s =
        .ok () ⟨{ s.cur with file := some ⟨path, bs.length, 0⟩ }, { s.app with env := e }⟩ ∧
      Leads s.app.env s.app.env.look e := by
  obtain ⟨e, h₁, l₁⟩ := fsOpen_existing hc false h
  refine ⟨e, ?_, l₁⟩
  have hcall : (onCurEnv (toStatus (fsOpen path false false))).run ⟨{ s.cur with file := none }, s.app⟩ =
      .ok () ⟨{ s.cur with file := none }, { s.app with env := e }⟩ := run_onCurEnv (run_toStatus h₁)
  have hsize : (e.contents path).length = bs.length := by rw [Env.contents_eq, l₁.look, h, Option.getD_some]
  apply run_then (run_updCur _ s)
  apply run_then hcall
  apply run_then (run_getCur _)
  rw [run_updCur]
  dsimp only
  rw [hsize]

theorem run_cursorLearn {s : CurSt} {path : Path} {bs : Bytes} {layout : FileLayout} (hc : s.app.env.Clean)
    (h : s.app.env.look path = some bs) (hl : layoutOf bs = .ok layout) :
    ∃ e, (cursorLearn path).run s = .ok () ⟨{ s.cur with layout := layout }, { s.app with env := e }⟩ ∧
      Leads s.app.env s.app.env.look e := by
  obtain ⟨e, h₁, l₁⟩ := run_cursorLearnLayout hc h hl
  exact ⟨e, run_then (run_updCur _ s) (run_then (run_onCurEnv h₁) rfl), l₁⟩

theorem run_cursorLearnSize {s : CurSt} (hc : s.app.env.Clean) :
    ∃ e, cursorLearnSize.run s =
        .ok () ⟨{ s.cur with fileSize := (s.cur.file.map FileHandle.size).getD 0 }, { s.app with env := e }⟩ ∧
      Leads s.app.env s.app.env.look e := by
  obtain ⟨e, h₁, l₁⟩ := call_ok hc
  exact ⟨e, run_then (run_onCurEnv (run_toStatus h₁)) rfl, l₁⟩

theorem run_openSegment {s : CurSt} {k : Nat} (hs : cfg.segmented = true) (hc : s.app.env.Clean)
    (hv : streamNameValid cfg s.cur.streamName = true)
    (ho : Openable cfg s.cur.streamName s.app.env s.cur.descending k) :
    ∃ s', (cursorOpenSegment cfg k).run s = .ok () s' ∧ Reads cfg s s' ∧ s'.cur.curSeg = k ∧
      AtStart s'.cur (segFile cfg s.cur.streamName k) (s.app.env.contents (segFile cfg s.cur.streamName k)) := by
  obtain ⟨hlen, bs, layout, hlook, hlayout, hlong⟩ := ho
  have hhdr := layoutOf_hdrSize hlayout
  rw [Env.contents_eq, hlook, Option.getD_some]
  generalize hpath : segFile cfg s.cur.streamName k = path at *
  obtain ⟨e₁, h₁, l₁⟩ := run_cursorOpenFile (s := ⟨{ s.cur with file := none }, s.app⟩) hc hlook
  obtain ⟨e₂, h₂, l₂⟩ := run_cursorLearn (s := ⟨{ s.cur with file := some ⟨path, bs.length, 0⟩, curSeg := k },
    { s.app with env := e₁ }⟩) (l₁.clean hc) (by rw [l₁.look]; exact hlook) hlayout
  have l₁₂ := l₁.trans (l₁.look ▸ l₂)
  have hbuild : (rethrow ((buildSegmentPath cfg s.cur.streamName k).mapError statusFromErrno) : CurM Status Path).run
      ⟨{ s.cur with file := none }, s.app⟩ = .ok path ⟨{ s.cur with file := none }, s.app⟩ := by
    rw [buildSegmentPath_ok hs hv (hpath ▸ hlen), hpath]
    rfl
  by_cases hd : s.cur.descending = true
  · obtain ⟨e₃, h₃, l₃⟩ := run_cursorLearnSize (s := ⟨{ s.cur with
      file := some ⟨path, bs.length, 0⟩, curSeg := k, layout := layout }, { s.app with env := e₂ }⟩) (l₁₂.clean hc)
    have l₁₃ := l₁₂.trans (l₁₂.look ▸ l₃)
    obtain ⟨e₄, h₄, l₄⟩ := run_seekTo (s := ⟨{ s.cur with
      file := some ⟨path, bs.length, 0⟩, curSeg := k, layout := layout, fileSize := bs.length,
      fileOffset := layout.lastWhole bs.length }, { s.app with env := e₃ }⟩) (l₁₃.clean hc) (layout.lastWhole bs.length)
      fun hneg => Nat.not_lt.mpr (hlong hd) hneg.2
    have l := l₁₃.trans (l₁₃.look ▸ l₄)
    let c : CursorCtx := { s.cur with
      file := some ⟨path, bs.length, layout.lastWhole bs.length⟩, curSeg := k, layout := layout, fileSize := bs.length,
      fileOffset := layout.lastWhole bs.length }
    refine ⟨⟨c, { s.app with env := e₄ }⟩, ?_, reads_env s (c := c) ⟨rfl, rfl, rfl, rfl, rfl, rfl, rfl, rfl⟩ l, rfl,
      ⟨⟨hlayout, ⟨_, rfl⟩, fun _ => ⟨hlong hd, rfl⟩⟩, fun hup => ?_, fun _ => rfl⟩⟩
    · apply run_then (run_updCur _ s)
      apply run_then (run_getCur _)
      apply run_then hbuild
      apply run_then h₁
      apply run_then (run_updCur _ _)
      apply run_then h₂
      apply run_then (run_getCur _)
      dsimp only
      rw [if_pos hd]
      apply run_then h₃
      apply run_then (run_updCur _ _)
      apply run_then (run_getCur _)
      exact run_toStatus h₄
    · exact absurd (hd.symm.trans hup) (by decide)
  · have hd : s.cur.descending = false := by simpa using hd
    obtain ⟨e₃, h₃, l₃⟩ := run_seekTo (s := ⟨{ s.cur with
      file := some ⟨path, bs.length, 0⟩, curSeg := k, layout := layout, fileOffset := layout.hdrSize },
      { s.app with env := e₂ }⟩) (l₁₂.clean hc) layout.hdrSize (fun hneg => by
        have := hneg.1
        unfold hdrSizeV2 at hhdr
        omega)
    have l := l₁₂.trans (l₁₂.look ▸ l₃)
    let c : CursorCtx := { s.cur with
      file := some ⟨path, bs.length, layout.hdrSize⟩, curSeg := k, layout := layout, fileOffset := layout.hdrSize }
    refine ⟨⟨c, { s.app with env := e₃ }⟩, ?_, reads_env s (c := c) ⟨rfl, rfl, rfl, rfl, rfl, rfl, rfl, rfl⟩ l, rfl,
      ⟨⟨hlayout, ⟨_, rfl⟩, fun hdown => ?_⟩, fun _ => rfl, fun hdown => ?_⟩⟩
    · apply run_then (run_updCur _ s)
      apply run_then (run_getCur _)
      apply run_then hbuild
      apply run_then h₁
      apply run_then (run_updCur _ _)
      apply run_then h₂
      apply run_then (run_getCur _)
      dsimp only
      rw [if_neg (by simp [hd])]
      apply run_then (run_updCur _ _)
      apply run_then (run_getCur _)
      exact run_toStatus h₃
    · exact absurd (hd.symm.trans hdown) (by decide)
    · exact absurd (hd.symm.trans hdown) (by decide)

/-! The segment numbers that `zdb_ts_cursor_next_segment` steps through. -/

def CursorCtx.atEnd (c : CursorCtx) : Bool := if c.descending then c.curSeg == c.segLo else c.segHi ≤ c.curSeg

def CursorCtx.next (c : CursorCtx) : Nat := if c.descending then c.curSeg - 1 else c.curSeg + 1

theorem segsAhead_end {c : CursorCtx} (h : c.atEnd = true) : c.segsAhead = [] := by
  unfold CursorCtx.atEnd at h
  unfold CursorCtx.segsAhead
  split at h
  · rename_i hd
    rw [if_pos hd, eq_of_beq h, Nat.sub_self]
    rfl
  · rename_i hd
    rw [if_neg hd, Nat.sub_eq_zero_of_le (by simpa using h)]
    rfl

theorem segsAhead_next {c : CursorCtx} (h : c.atEnd = false) (hlo : c.segLo ≤ c.curSeg) (hhi : c.curSeg ≤ c.segHi) :
    c.segsAhead = c.next :: ({ c with curSeg := c.next } : CursorCtx).segsAhead ∧ c.segLo ≤ c.next ∧
      c.next ≤ c.segHi := by
  unfold CursorCtx.atEnd at h
  unfold CursorCtx.segsAhead CursorCtx.next
  split at h
  · rename_i hd
    have hne : c.curSeg ≠ c.segLo := by simpa using h
    have hlen : c.curSeg - c.segLo = (c.curSeg - 1 - c.segLo) + 1 := by omega
    simp only [hd, if_true]
    rw [hlen, List.range'_1_concat, List.reverse_append, List.reverse_singleton, List.singleton_append]
    refine ⟨congrArg (· :: _) (by omega), by omega, by omega⟩
  · rename_i hd
    have hlt : ¬ c.segHi ≤ c.curSeg := by simpa using h
    have hlen : c.segHi - c.curSeg = (c.segHi - (c.curSeg + 1)) + 1 := by omega
    simp only [hd, Bool.false_eq_true, if_false]
    rw [hlen, List.range'_succ]
    exact ⟨rfl, by omega, by omega⟩

theorem SameQuery.segsAhead {c c' : CursorCtx} (h : SameQuery c c') (hk : c'.curSeg = c.curSeg) :
    c'.segsAhead = c.segsAhead := by
  unfold CursorCtx.segsAhead
  rw [h.descending, h.segLo, h.segHi, hk]

theorem run_nextSegment_end {s : CurSt} (h : s.cur.atEnd = true) (n : Nat) :
    (cursorNextSegment cfg (n + 1)).run s = .error .ERR_NOT_FOUND s := by
  rw [cursorNextSegment]
  apply run_then (run_getCur s)
  have hcond : (if s.cur.descending = true then s.cur.curSeg == s.cur.segLo
      else decide (s.cur.segHi ≤ s.cur.curSeg)) = true := h
  dsimp only
  rw [if_pos hcond]
  rfl

theorem run_nextSegment {s : CurSt} (h : Walkable cfg s) (hs : cfg.segmented = true) (hend : s.cur.atEnd = false) (n : Nat) :
    ∃ s', (cursorNextSegment cfg (n + 1)).run s = .ok () s' ∧ Reads cfg s s' ∧ Walkable cfg s' ∧
      s'.cur.curSeg = s.cur.next ∧ s.cur.segsAhead = s.cur.next :: s'.cur.segsAhead ∧
      AtStart s'.cur (segFile cfg s.cur.streamName s.cur.next)
        (s.app.env.contents (segFile cfg s.cur.streamName s.cur.next)) := by
  obtain ⟨hahead, hlo, hhi⟩ := segsAhead_next hend h.lo_le h.le_hi
  have hopen := h.segs s.cur.next (by rw [hahead]; exact List.mem_cons_self)
  obtain ⟨s', hrun, hreads, hseg, hstart⟩ := run_openSegment hs h.clean h.valid hopen
  obtain ⟨_, bs, layout, hlook, hlayout, _⟩ := hopen
  have hq := hreads.query
  have hsegs : s'.cur.segsAhead = ({ s.cur with curSeg := s.cur.next } : CursorCtx).segsAhead := by
    have hq' : SameQuery ({ s.cur with curSeg := s.cur.next } : CursorCtx) s'.cur :=
      ⟨hq.name, hq.window, hq.predicate, hq.descending, hq.ramOffset, hq.fileDone, hq.segLo, hq.segHi⟩
    exact hq'.segsAhead hseg
  have hbs : s.app.env.contents (segFile cfg s.cur.streamName s.cur.next) = bs := by
    rw [Env.contents_eq, hlook, Option.getD_some]
  rw [hbs] at hstart ⊢
  have hlook' : s'.app.env.look (segFile cfg s.cur.streamName s.cur.next) = some bs := by
    rw [hreads.alike.env.look]
    exact hlook
  refine ⟨s', ?_, hreads, ?_, hseg, by rw [hsegs]; exact hahead, hstart⟩
  · rw [cursorNextSegment]
    apply run_then (run_getCur s)
    have hcond : ¬ (if s.cur.descending = true then s.cur.curSeg == s.cur.segLo
        else decide (s.cur.segHi ≤ s.cur.curSeg)) = true := by
      rw [← Bool.not_eq_true] at hend
      exact hend
    dsimp only
    rw [if_neg hcond]
    exact run_then (run_attempt_ok hrun) rfl
  · obtain ⟨pos, hfile⟩ := hstart.file
    refine ⟨hreads.alike.env.clean h.clean, hreads.alike.running.trans h.up, hq.name ▸ h.valid, ?_, ?_, ?_,
      by rw [hfile]; rfl, layoutOf_recSize hstart.layout, fun hd f hf => hstart.back hlook' hd f hf, fun k hk => ?_⟩
    · rw [hq.segLo, hseg]
      exact hlo
    · rw [hq.segHi, hseg]
      exact hhi
    · rw [hs]
      exact fun hc => nomatch hc
    · rw [hq.name, hq.descending]
      refine (h.segs k ?_).congr hreads.alike.env
      rw [hahead, ← hsegs]
      exact List.mem_cons_of_mem _ hk

end Open

section Files
variable {cfg : Cfg}

def Standing (cfg : Cfg) (s : CurSt) : Prop :=
  OnFile s.cur (segFile cfg s.cur.streamName s.cur.curSeg)
    (s.app.env.contents (segFile cfg s.cur.streamName s.cur.curSeg))

theorem Standing.same {s s' : CurSt} (h : Standing cfg s) (hr : Reads cfg s s') (hf : SameFile s.cur s'.cur) :
    Standing cfg s' := by
  unfold Standing
  rw [hr.query.name, hf.curSeg, contents_congr hr.alike.env]
  exact OnFile.same h hf hr.query.descending

theorem filesAhead_eq {s : CurSt} (h : Walkable cfg s) (hd : s.cur.fileDone = false) :
    s.cur.filesAhead cfg s.app.env =
      s.cur.here s.app.env ++ s.cur.segsAhead.flatMap (s.cur.segItems cfg s.app.env) := by
  have hn : s.cur.file.isNone = false := by
    rw [Option.isNone_eq_false_iff]
    exact h.opened
  rw [CursorCtx.filesAhead, hd, hn]
  rfl

structure After (cfg : Cfg) (s s' : CurSt) (rest : List RecItem) : Prop where
  reads : Reads cfg s s'
  walkable : Walkable cfg s'
  ahead : s'.cur.filesAhead cfg s'.app.env = rest
  standing : Standing cfg s → Standing cfg s'

theorem SameQuery.segItems {c c' : CursorCtx} (h : SameQuery c c') {e e' : Sys} (l : Leads e e.look e') :
    c'.segItems cfg e' = c.segItems cfg e := by
  rw [segItems_congr c' l]
  funext k
  unfold CursorCtx.segItems
  rw [h.name, h.descending]

theorem after_of_same {s s' : CurSt} {rest : List RecItem} (hd : s.cur.fileDone = false) (hr : Reads cfg s s')
    (hw : Walkable cfg s') (hf : SameFile s.cur s'.cur) (hrest : s'.cur.here s'.app.env = rest) :
    After cfg s s' (rest ++ s.cur.segsAhead.flatMap (s.cur.segItems cfg s.app.env)) where
  reads := hr
  walkable := hw
  ahead := by
    rw [filesAhead_eq hw (hr.query.fileDone.trans hd), hrest, hr.query.segsAhead hf.curSeg,
      hr.query.segItems hr.alike.env]
  standing hs := hs.same hr hf

theorem run_settle {s s' : CurSt} (hr : Reads cfg s s') (hw : Walkable cfg s')
    (hf : SameFile s.cur s'.cur) :
    ∃ s'', (if s.cur.descending = true then
        orFail Status.ERR_IO (seekTo (s.cur.fileOffset - s.cur.layout.recSize))
      else updCur fun c => { c with fileOffset := c.fileOffset + c.layout.recSize } : CurM Status Unit).run s' =
        .ok () s'' ∧ Reads cfg s s'' ∧ Walkable cfg s'' ∧ SameFile s.cur s''.cur ∧
      s''.cur.here s''.app.env = s'.cur.here s'.app.env := by
  obtain ⟨f', hf'⟩ := Option.isSome_iff_exists.mp hw.opened
  by_cases hd : s.cur.descending = true
  · have hd' : s'.cur.descending = true := hr.query.descending.trans hd
    obtain ⟨hsize, _⟩ := hw.back hd' f' hf'
    obtain ⟨e, h₁, l₁⟩ := run_seekTo hw.clean (s.cur.fileOffset - s.cur.layout.recSize)
      fun hneg => Nat.not_lt.mpr hsize hneg.2
    rw [hf'] at h₁
    let g : FileHandle := { f' with pos := s.cur.fileOffset - s.cur.layout.recSize }
    have hal : Alike cfg s'.app { s'.app with env := e } := alike_env s'.app l₁
    refine ⟨⟨{ s'.cur with file := some g }, { s'.app with env := e }⟩, ?_, ?_, (hw.alike hal).moved hf' rfl rfl, ?_, ?_⟩
    · rw [if_pos hd]
      exact run_orFail h₁
    · exact hr.trans ⟨hal, ⟨rfl, rfl, rfl, rfl, rfl, rfl, rfl, rfl⟩⟩
    · exact hf.trans ⟨rfl, rfl, rfl, by rw [hf']; rfl⟩
    · have hto := here_descending (s := ⟨{ s'.cur with file := some g }, { s'.app with env := e }⟩) hd' rfl
      apply hto.trans
      rw [here_descending hd' hf', visible_congr l₁]
  · refine ⟨⟨{ s'.cur with fileOffset := s'.cur.fileOffset + s'.cur.layout.recSize }, s'.app⟩, ?_, ?_, ?_, ?_, ?_⟩
    · rw [if_neg hd]
      rfl
    · exact hr.trans ⟨Alike.refl cfg s'.app, ⟨rfl, rfl, rfl, rfl, rfl, rfl, rfl, rfl⟩⟩
    · refine ⟨hw.clean, hw.up, hw.valid, hw.lo_le, hw.le_hi, hw.single, hw.opened, hw.recSize, fun hdown => ?_, hw.segs⟩
      exact absurd (hr.query.descending.symm.trans hdown) hd
    · exact hf.trans ⟨rfl, rfl, rfl, rfl⟩
    · have hd' : s'.cur.descending = false := by
        rw [hr.query.descending]
        simpa using hd
      rw [here_ascending hd' hf']
      exact here_ascending (s := ⟨{ s'.cur with fileOffset := s'.cur.fileOffset + s'.cur.layout.recSize }, s'.app⟩) hd' hf'

theorem run_fileRecord_here {s : CurSt} (h : Walkable cfg s) (hdone : s.cur.fileDone = false) {item : RecItem}
    {rest : List RecItem} (hcons : s.cur.here s.app.env = item :: rest) (n : Nat) :
    ∃ s', After cfg s s' (rest ++ s.cur.segsAhead.flatMap (s.cur.segItems cfg s.app.env)) ∧
      ((∃ raw, (cursorReadFileRecord cfg (n + 1)).run s = .ok raw s' ∧
          item = recordItem s'.cur.layout.version s'.cur.layout.baseTsMs raw) ∨
        ((cursorReadFileRecord cfg (n + 1)).run s = .error .ERR_CORRUPT s' ∧ item = some (.error .ERR_CORRUPT))) := by
  obtain ⟨f, hf⟩ := Option.isSome_iff_exists.mp h.opened
  obtain ⟨raw, s₁, h₁, hne, rfl, hr₁, hw₁, hs₁, hhere⟩ := run_readHere_cons h hf hcons
  have hopen : ¬ s.cur.file.isNone = true := by
    rw [hf]
    exact Bool.false_ne_true
  have hlen : raw.length ≠ 0 := by
    rw [Ne, List.length_eq_zero_iff]
    exact hne
  by_cases hwhole : raw.length = s.cur.layout.recSize
  · obtain ⟨s₂, h₂, hr₂, hw₂, hs₂, hhere₂⟩ := run_settle hr₁ hw₁ hs₁
    refine ⟨s₂, after_of_same hdone hr₂ hw₂ hs₂ (hhere₂.trans hhere), .inl ⟨raw, ?_, ?_⟩⟩
    · rw [cursorReadFileRecord]
      apply run_then (run_getCur s)
      dsimp only
      rw [if_neg hopen]
      apply run_then h₁
      rw [if_neg hlen, if_neg (not_not.mpr hwhole)]
      split at h₂
      · rename_i hd
        rw [if_pos hd]
        exact run_then h₂ rfl
      · rename_i hd
        rw [if_neg hd]
        exact run_then h₂ rfl
    · rw [fileItem, if_pos hwhole, hs₂.layout]
  · refine ⟨s₁, after_of_same hdone hr₁ hw₁ hs₁ hhere, .inr ⟨?_, by rw [fileItem, if_neg hwhole]⟩⟩
    rw [cursorReadFileRecord]
    apply run_then (run_getCur s)
    dsimp only
    rw [if_neg hopen]
    apply run_then h₁
    rw [if_neg hlen, if_pos hwhole]
    rfl

/-- The head of `zdb_ts_cursor_read_file_record` where the open file has nothing left. -/
theorem run_fileRecord_nil {s s₁ : CurSt} (hopen : s.cur.file.isSome = true) (h₁ : cursorReadHere.run s = .ok [] s₁)
    (n : Nat) : (cursorReadFileRecord cfg (n + 1)).run s =
      ((do
        if !cfg.segmented then throw .ERR_NOT_FOUND
        orFail .ERR_NOT_FOUND (cursorNextSegment cfg s.cur.segCount)
        cursorReadFileRecord cfg n : CurM Status Bytes)).run s₁ := by
  rw [cursorReadFileRecord]
  apply run_then (run_getCur s)
  have hn : ¬ s.cur.file.isNone = true := by
    rw [Option.isNone_iff_eq_none]
    exact Option.isSome_iff_ne_none.mp hopen
  dsimp only
  rw [if_neg hn]
  apply run_then h₁
  rw [if_pos List.length_nil]

theorem run_fileRecord_end {s : CurSt} (h : Walkable cfg s) (hdone : s.cur.fileDone = false)
    (hnil : s.cur.here s.app.env = []) (hend : s.cur.atEnd = true) (n : Nat) :
    ∃ s', After cfg s s' [] ∧ (cursorReadFileRecord cfg (n + 1)).run s = .error .ERR_NOT_FOUND s' := by
  obtain ⟨f, hf⟩ := Option.isSome_iff_exists.mp h.opened
  obtain ⟨s₁, h₁, hr₁, hw₁, hs₁, hhere⟩ := run_readHere_nil h hf hnil
  have hafter := after_of_same hdone hr₁ hw₁ hs₁ hhere
  rw [segsAhead_end hend] at hafter
  refine ⟨s₁, hafter, ?_⟩
  rw [run_fileRecord_nil h.opened h₁]
  cases hseg : cfg.segmented with
  | false => rfl
  | true =>
    have hend₁ : s₁.cur.atEnd = true := by
      unfold CursorCtx.atEnd at hend ⊢
      rw [hr₁.query.descending, hr₁.query.segLo, hr₁.query.segHi, hs₁.curSeg]
      exact hend
    exact run_fails (run_adapt_error (f := fun _ => Status.ERR_NOT_FOUND) (run_nextSegment_end hend₁ _))

/-- `zdb_ts_cursor_read_file_record` reads the first item that the files have ahead of the cursor. -/
theorem run_fileRecord {s : CurSt} (h : Walkable cfg s) (hdone : s.cur.fileDone = false) {n : Nat}
    (hn : s.cur.segsAhead.length < n) :
    (s.cur.filesAhead cfg s.app.env = [] ∧
      ∃ s', After cfg s s' [] ∧ (cursorReadFileRecord cfg n).run s = .error .ERR_NOT_FOUND s') ∨
    ∃ item rest s', s.cur.filesAhead cfg s.app.env = item :: rest ∧ After cfg s s' rest ∧
      ((∃ raw, (cursorReadFileRecord cfg n).run s = .ok raw s' ∧
          item = recordItem s'.cur.layout.version s'.cur.layout.baseTsMs raw) ∨
        ((cursorReadFileRecord cfg n).run s = .error .ERR_CORRUPT s' ∧ item = some (.error .ERR_CORRUPT))) := by
  induction n generalizing s with
  | zero => exact absurd hn (Nat.not_lt_zero _)
  | succ n ih =>
    rw [filesAhead_eq h hdone]
    cases hhere : s.cur.here s.app.env with
    | cons item rest =>
      obtain ⟨s', hafter, hrun⟩ := run_fileRecord_here h hdone hhere n
      exact .inr ⟨item, _, s', rfl, hafter, hrun⟩
    | nil =>
      cases hend : s.cur.atEnd with
      | true =>
        obtain ⟨s', hafter, hrun⟩ := run_fileRecord_end h hdone hhere hend n
        exact .inl ⟨by rw [segsAhead_end hend]; rfl, s', hafter, hrun⟩
      | false =>
        obtain ⟨f, hf⟩ := Option.isSome_iff_exists.mp h.opened
        obtain ⟨s₁, h₁, hr₁, hw₁, hs₁, _⟩ := run_readHere_nil h hf hhere
        have hseg : cfg.segmented = true := by
          by_contra hne
          have hone := h.single (by simpa using hne)
          have hlo := h.lo_le
          have hhi := h.le_hi
          unfold CursorCtx.atEnd at hend
          split at hend
          · rw [show s.cur.curSeg = s.cur.segLo by omega, beq_self_eq_true] at hend
            cases hend
          · rw [decide_eq_true (show s.cur.segHi ≤ s.cur.curSeg by omega)] at hend
            cases hend
        have hend₁ : s₁.cur.atEnd = false := by
          unfold CursorCtx.atEnd at hend ⊢
          rw [hr₁.query.descending, hr₁.query.segLo, hr₁.query.segHi, hs₁.curSeg]
          exact hend
        obtain ⟨s₂, h₂, hr₂, hw₂, hk, hahead, hstart⟩ := run_nextSegment hw₁ hseg hend₁ (s.cur.segHi - s.cur.segLo)
        have hrun : (cursorReadFileRecord cfg (n + 1)).run s = (cursorReadFileRecord cfg n).run s₂ := by
          rw [run_fileRecord_nil h.opened h₁, hseg]
          exact run_then (run_orFail h₂) rfl
        have hr := hr₁.trans hr₂
        have hahead' : s.cur.segsAhead = s₁.cur.next :: s₂.cur.segsAhead := by
          rw [← hr₁.query.segsAhead hs₁.curSeg]
          exact hahead
        have hdone₂ : s₂.cur.fileDone = false := hr.query.fileDone.trans hdone
        have hnext : s₁.cur.streamName = s.cur.streamName := hr₁.query.name
        obtain ⟨_, bs, layout, hlook, _⟩ := hw₁.segs s₁.cur.next (by rw [hahead]; exact List.mem_cons_self)
        have hbs : s₁.app.env.contents (segFile cfg s₁.cur.streamName s₁.cur.next) = bs := by
          rw [Env.contents_eq, hlook, Option.getD_some]
        have hitems : s₂.cur.here s₂.app.env = s.cur.segItems cfg s.app.env s₁.cur.next := by
          rw [hbs] at hstart
          rw [hstart.here (by rw [hr₂.alike.env.look]; exact hlook), hr.query.descending]
          unfold CursorCtx.segItems
          rw [← hnext, ← contents_congr hr₁.alike.env, hbs]
        have hfiles : s₂.cur.filesAhead cfg s₂.app.env = s.cur.segsAhead.flatMap (s.cur.segItems cfg s.app.env) := by
          rw [filesAhead_eq hw₂ hdone₂, hitems, hahead', List.flatMap_cons, hr.query.segItems hr.alike.env]
        have hstand : Standing cfg s₂ := by
          unfold Standing
          rw [hk, hr₂.query.name, contents_congr hr₂.alike.env]
          exact hstart.toOnFile
        have hlater : ∀ {s' : CurSt} {rest : List RecItem}, After cfg s₂ s' rest → After cfg s s' rest :=
          fun ha => ⟨hr.trans ha.reads, ha.walkable, ha.ahead, fun _ => ha.standing hstand⟩
        have hshort : s₂.cur.segsAhead.length < n := by
          rw [hahead', List.length_cons] at hn
          omega
        rw [List.nil_append, hrun, ← hfiles]
        rcases ih hw₂ hdone₂ hshort with ⟨hnil, s', ha, hend'⟩ | ⟨item, rest, s', hcons, ha, hres⟩
        · exact .inl ⟨hnil, s', hlater ha, hend'⟩
        · exact .inr ⟨item, rest, s', hcons, hlater ha, hres⟩

end Files

end ZephyrDB.Ts
