import ZephyrDB.Doc.Cut

/-!
Documents over failures and power cuts.

Every file under a live name is complete, at any time: it was staged first and
then renamed. What an open reports is decided by the live and the staged file
together, and a save or a delete that is cut short may leave a staged file that
is complete where no live one stands.
-/

set_option autoImplicit false

namespace ZephyrDB.Doc

open Lib

/-- The calls before the `n`-th work; the `n`-th has moved `k` bytes when the power goes; later calls find
nothing to work with. -/
def powerCut (n k : Nat) : Nat → Fault := fun tick =>
  if tick < n then .none else if tick = n then .fail Errno.EIO k else .fail Errno.EIO 0

def cutShort (F : Files) (now : UInt64) (n k : Nat) : DocSys := ⟨F, powerCut n k, 0, false, [], now⟩

/-- The files that saves and deletes leave, from no files on, whatever calls fail and wherever the power
goes. -/
inductive Reachable (cfg : DocCfg) : Files → Prop where
  | empty : Reachable cfg ∅
  | save {s : DocSt} (reach : Reachable cfg s.env.files) (built : Built cfg s.doc) :
      Reachable cfg (post (docSave cfg) s).env.files
  | delete {e : DocSys} (reach : Reachable cfg e.files) (collectionName documentId : CString) :
      Reachable cfg (post (docDelete cfg collectionName documentId) e).files

/-- Every live file can be read. -/
def Sound (cfg : DocCfg) (look : Path → Option Bytes) : Prop :=
  ∀ collectionName documentId text, fileAt cfg look collectionName documentId DOC_FILE_EXT = some text →
    ∃ snap, decode cfg text = .ok snap

section Paths
variable {cfg : DocCfg} {collectionName documentId collectionName' documentId' : CString} {path tmpPath : Path}

theorem docPath_eq_append (collectionName documentId : CString) (ext : Bytes) :
    docPath cfg collectionName documentId ext =
      (collectionPath cfg collectionName.val ++ 47 :: documentId.val) ++ ext := by
  simp [docPath]

theorem live_suffix_ne (xs ys : Bytes) : xs ++ DOC_FILE_EXT ≠ ys ++ DOC_TMP_EXT := by
  intro heq
  have hlast := congrArg List.getLast? heq
  have hc : (xs ++ DOC_FILE_EXT).getLast? = some 99 := by
    rw [List.getLast?_append]
    rfl
  have hp : (ys ++ DOC_TMP_EXT).getLast? = some 112 := by
    rw [List.getLast?_append]
    rfl
  rw [hc, hp] at hlast
  cases hlast

theorem live_ne_staged
    (hlive : buildDocPath cfg collectionName documentId DOC_FILE_EXT = .ok path)
    (hstaged : buildDocPath cfg collectionName' documentId' DOC_TMP_EXT = .ok tmpPath) : path ≠ tmpPath := by
  rw [buildDocPath_eq hlive, buildDocPath_eq hstaged, docPath_eq_append, docPath_eq_append]
  exact live_suffix_ne _ _

def Drops (e : DocSys) (tick : Nat) (before after : Option Bytes) : Prop :=
  (after = none ∧ ¬ FailsAt e tick) ∨ (after = before ∧ FailsAt e tick)

/-- Every way a delete can end: both files are dealt with; or only the live one, for want of a path for
the other; or none is. -/
theorem docDelete_cases (collectionName documentId : CString) (e : DocSys) :
    (∃ path tmpPath live left, Paths cfg collectionName documentId path tmpPath ∧
      (post (docDelete cfg collectionName documentId) e).look =
        Function.update (Function.update e.look path live) tmpPath left ∧
      Drops e e.tick (e.look path) live ∧ Drops e (e.tick + 1) (e.look tmpPath) left) ∨
    (∃ path live err, buildDocPath cfg collectionName documentId DOC_FILE_EXT = .ok path ∧
      buildDocPath cfg collectionName documentId DOC_TMP_EXT = .error err ∧
      (post (docDelete cfg collectionName documentId) e).look = Function.update e.look path live ∧
      Drops e e.tick (e.look path) live) ∨
    ((keysValid cfg collectionName documentId = false ∨
        ∃ err, buildDocPath cfg collectionName documentId DOC_FILE_EXT = .error err) ∧
      (post (docDelete cfg collectionName documentId) e).look = e.look) := by
  by_cases hkeys : keysValid cfg collectionName documentId = true
  swap
  · refine .inr (.inr ⟨.inl (by simpa using hkeys), ?_⟩)
    unfold docDelete
    rw [if_pos (by simpa using hkeys)]
    rfl
  cases hlive : buildDocPath cfg collectionName documentId DOC_FILE_EXT with
  | error err =>
    refine .inr (.inr ⟨.inr ⟨err, rfl⟩, ?_⟩)
    unfold docDelete
    rw [if_neg (by simp [hkeys]), hlive]
    rfl
  | ok path =>
    have hend : ∀ {Q : DocSys → Prop} (rc : Except Errno Unit) (e₂ : DocSys), Q e₂ →
        Yields (toStatus (rethrow rc) : EStateM Status DocSys Unit) e₂ (fun _ => Q) fun _ => Q := fun rc e₂ hq =>
      yields_adaptExcept _ (yields_rethrow (by cases rc <;> exact hq))
    cases htmp : buildDocPath cfg collectionName documentId DOC_TMP_EXT with
    | error err =>
      let Q : DocSys → Prop := fun e' => ∃ live, e'.look = Function.update e.look path live ∧
        Drops e e.tick (e.look path) live
      obtain ⟨live, hl, hd⟩ : Q (post (docDelete cfg collectionName documentId) e) := by
        refine Yields.post (Q := Q) ?_
        unfold docDelete
        rw [if_neg (by simp [hkeys]), hlive, htmp]
        refine yields_then (t := e) rfl (yields_bind (unlink_discards path e _) fun rc e₁ h => ?_)
        obtain ⟨⟨live, hd⟩, -⟩ := h
        exact hend rc e₁ ⟨live, hd.leads.look, hd.left⟩
      exact .inr (.inl ⟨path, live, err, rfl, rfl, hl, hd⟩)
    | ok tmpPath =>
      have hpaths : Paths cfg collectionName documentId path tmpPath := ⟨hlive, htmp⟩
      let Q : DocSys → Prop := fun e' => ∃ live left,
        e'.look = Function.update (Function.update e.look path live) tmpPath left ∧
          Drops e e.tick (e.look path) live ∧ Drops e (e.tick + 1) (e.look tmpPath) left
      obtain ⟨live, left, h⟩ : Q (post (docDelete cfg collectionName documentId) e) := by
        refine Yields.post (Q := Q) ?_
        unfold docDelete
        rw [if_neg (by simp [hkeys]), hlive, htmp]
        refine yields_then (t := e) rfl (yields_bind (unlink_discards path e _) fun rc e₁ h => ?_)
        obtain ⟨⟨live, hd⟩, ht⟩ := h
        apply yields_bind (unlink_discards tmpPath e₁ _)
        intro _ e₂ h
        obtain ⟨⟨left, hd'⟩, -⟩ := h
        have hother : e₁.look tmpPath = e.look tmpPath := by
          rw [hd.leads.look, Function.update_of_ne hpaths.ne]
        refine hend rc e₂ ⟨live, left, by rw [hd'.leads.look, hd.leads.look], hd.left, ?_⟩
        unfold Drops
        rw [← ht, ← failsAt_of_faults hd.leads.faults, ← hother]
        exact hd'.left
      exact .inl ⟨path, tmpPath, live, left, hpaths, h⟩

theorem fileAt_eq {look : Path → Option Bytes} {ext : Bytes}
    (h : buildDocPath cfg collectionName documentId ext = .ok path) :
    fileAt cfg look collectionName documentId ext = look path := by
  unfold fileAt
  rw [h]

theorem Sound.update {look : Path → Option Bytes} (h : Sound cfg look)
    (hpaths : Paths cfg collectionName documentId path tmpPath) {live left : Option Bytes}
    (hlive : live = look path ∨ ∀ text, live = some text → ∃ snap, decode cfg text = .ok snap) :
    Sound cfg (Function.update (Function.update look path live) tmpPath left) := by
  intro c i text hfile
  cases hp : buildDocPath cfg c i DOC_FILE_EXT with
  | error err =>
    unfold fileAt at hfile
    rw [hp] at hfile
    cases hfile
  | ok p =>
    rw [fileAt_eq hp, Function.update_of_ne (live_ne_staged hp hpaths.staged)] at hfile
    by_cases heq : p = path
    · subst heq
      rw [Function.update_self] at hfile
      rcases hlive with rfl | hgood
      · exact h c i text (by rw [fileAt_eq hp, hfile])
      · exact hgood text hfile
    · rw [Function.update_of_ne heq] at hfile
      exact h c i text (by rw [fileAt_eq hp, hfile])

theorem Sound.save {s : DocSt} (h : Sound cfg s.env.look) (ht : Tidy cfg s.doc) :
    Sound cfg (post (docSave cfg) s).env.look := by
  rw [docSave_post s ht.valid]
  have hsave : Yields (saveLocked cfg (s.doc.savedAt s.env.side)) s.env (fun _ e' => Sound cfg e'.look)
      fun _ e' => Sound cfg e'.look := by
    refine (saveLocked_yields cfg (s.doc.savedAt s.env.side) s.env).imp ?_ ?_
    · rintro _ e' ⟨path, tmpPath, hpaths, hl⟩
      rw [hl.look, Function.update_comm hpaths.ne]
      refine h.update hpaths (.inr fun text heq => ⟨(s.doc.savedAt s.env.side).snapshot, ?_⟩)
      rw [← Option.some.inj heq]
      exact decode_docBytes (ht.savedAt _)
    · rintro _ e' (⟨hl, -⟩ | ⟨path, tmpPath, hpaths, live, left, hun⟩)
      · rwa [hl.look]
      · rw [hun.leads.look]
        apply h.update hpaths
        apply hun.fate.imp_right
        rintro rfl
        exact nofun
  exact hsave.post

theorem Sound.drop {look : Path → Option Bytes} (h : Sound cfg look) (path : Path) :
    Sound cfg (Function.update look path none) := by
  intro c i text hfile
  cases hp : buildDocPath cfg c i DOC_FILE_EXT with
  | error err =>
    unfold fileAt at hfile
    rw [hp] at hfile
    cases hfile
  | ok p =>
    rw [fileAt_eq hp] at hfile
    by_cases heq : p = path
    · rw [heq, Function.update_self] at hfile
      cases hfile
    · rw [Function.update_of_ne heq] at hfile
      exact h c i text (by rw [fileAt_eq hp, hfile])

theorem Drops.either {e : DocSys} {tick : Nat} {before after : Option Bytes} (h : Drops e tick before after) :
    after = before ∨ after = none := h.elim (fun h => .inr h.1) fun h => .inl h.1

theorem Sound.delete {e : DocSys} (h : Sound cfg e.look) (collectionName documentId : CString) :
    Sound cfg (post (docDelete cfg collectionName documentId) e).look := by
  rcases docDelete_cases collectionName documentId e with
    ⟨path, tmpPath, live, left, hpaths, hl, hd, -⟩ | ⟨path, live, err, -, -, hl, hd⟩ | ⟨-, hl⟩
  · rw [hl]
    apply h.update hpaths
    apply hd.either.imp_right
    rintro rfl
    exact nofun
  · rw [hl]
    rcases hd.either with rfl | rfl
    · rwa [Function.update_eq_self]
    · exact h.drop path
  · rwa [hl]

theorem Reachable.sound {F : Files} (h : Reachable cfg F) : Sound cfg F.look := by
  induction h with
  | empty =>
    intro c i text hfile
    unfold fileAt at hfile
    split at hfile
    · simp [Files.look] at hfile
    · cases hfile
  | save _ built ih => exact Sound.save ih built.tidy
  | delete _ c i ih => exact Sound.delete ih c i

end Paths

theorem failsAt_cutShort (F : Files) (now : UInt64) (n k tick : Nat) :
    FailsAt (cutShort F now n k) tick ↔ n ≤ tick := by
  unfold FailsAt Fault.Fails cutShort powerCut
  dsimp only
  by_cases hlt : tick < n
  · simp [hlt]
  · by_cases heq : tick = n
    · simp [heq]
    · simp [hlt, heq]
      omega

section Cut
variable {cfg : DocCfg} {doc : Document} {path tmpPath : Path}

theorem live_of_staged {collectionName documentId : CString}
    (h : buildDocPath cfg collectionName documentId DOC_TMP_EXT = .ok tmpPath) :
    ∃ path, buildDocPath cfg collectionName documentId DOC_FILE_EXT = .ok path := by
  have hfit : ¬ DOC_PATH_MAX ≤ (docPath cfg collectionName documentId DOC_TMP_EXT).length := by
    intro hle
    rw [buildDocPath, fitPath, if_pos hle] at h
    cases h
  have hle : (docPath cfg collectionName documentId DOC_FILE_EXT).length ≤
      (docPath cfg collectionName documentId DOC_TMP_EXT).length := by
    simp [docPath_eq_append, DOC_FILE_EXT, DOC_TMP_EXT]
  exact ⟨_, by rw [buildDocPath, fitPath, if_neg (by omega)]⟩

theorem Paths.dirs {collectionName documentId : CString} (h : Paths cfg collectionName documentId path tmpPath) :
    buildRootPath cfg = .ok (rootPath cfg) ∧
      buildCollectionPath cfg collectionName.val = .ok (collectionPath cfg collectionName.val) := by
  have hfit : ¬ DOC_PATH_MAX ≤ (docPath cfg collectionName documentId DOC_TMP_EXT).length := by
    intro hle
    have := h.staged
    rw [buildDocPath, fitPath, if_pos hle] at this
    cases this
  simp only [docPath, collectionPath, List.length_append, List.length_cons] at hfit
  constructor
  · rw [buildRootPath, fitPath, if_neg (by omega)]
  · rw [buildCollectionPath, fitPath, if_neg (by
      simp only [collectionPath, List.length_append, List.length_cons]
      omega)]

theorem saveLocked_cut (hpaths : Paths cfg doc.collectionName doc.documentId path tmpPath) (F : Files)
    (now : UInt64) :
    (post (saveLocked cfg doc) (cutShort F now 3 0)).look = Function.update F.look tmpPath (some []) := by
  obtain ⟨e, he⟩ : ∃ e, e = cutShort F now 3 0 := ⟨_, rfl⟩
  have hfails : ∀ tick, FailsAt e tick ↔ 3 ≤ tick := fun tick => he ▸ failsAt_cutShort F now 3 0 tick
  have hlook : e.look = F.look := by rw [he]; rfl
  have htick : e.tick = 0 := by rw [he]; rfl
  rw [← he, ← hlook]
  let Q : DocSys → Prop := fun e' => e'.look = Function.update e.look tmpPath (some [])
  refine Yields.post (Q := Q) ?_
  unfold saveLocked
  refine yields_bind (yields_adaptExcept statusFromErrno ((ensureDirs_yields cfg doc.collectionName e).imp
    (fun _ _ h => h) fun _ _ h => ?_)) fun _ e₁ ⟨⟨h₁, ht₁⟩, _⟩ => ?_
  · rcases h.2 with ⟨err, n, hf, -⟩ | ⟨err, n, hf, -⟩ | ⟨err, herr⟩ | ⟨err, herr⟩
    · exact absurd ((hfails _).mp ⟨err, n, hf⟩) (by omega)
    · exact absurd ((hfails _).mp ⟨err, n, hf⟩) (by omega)
    · rw [hpaths.dirs.1] at herr
      cases herr
    · rw [hpaths.dirs.2] at herr
      cases herr
  rw [hpaths.live, hpaths.staged]
  refine yields_bind (P := fun p e' => e₁ = e') rfl fun _ e₂ he₂ => ?_
  subst he₂
  refine yields_bind (P := fun p e' => p = tmpPath ∧ e₁ = e') ⟨rfl, rfl⟩ fun p e₂ ⟨hp, he₂⟩ => ?_
  subst hp he₂
  have hdead : ∀ {e'}, e'.faults = e.faults → ∀ tick, FailsAt e' tick ↔ 3 ≤ tick := fun h tick =>
    (failsAt_of_faults h tick).trans (hfails tick)
  unfold stageFile
  refine yields_bind (P := fun _ _ => False) ?_ fun _ _ h => h.elim
  refine yields_bind (yields_adaptExcept statusFromErrno ((fsOpen_truncate_yields e₁ p).imp (fun _ _ h => h)
    fun err _ h => ?_)) fun _ e₂ ⟨_, h₂⟩ => ?_
  · obtain ⟨n, hf⟩ := h.1
    have := (hdead h₁.faults e₁.tick).mp ⟨err, n, hf⟩
    omega
  have hfaults₂ : e₂.faults = e.faults := h₂.faults.trans h₁.faults
  have ht₂ : e₂.tick = 3 := by rw [h₂.tick, ht₁, htick]
  have hl₂ : e₂.look = Function.update e.look p (some []) := by rw [h₂.look, h₁.look]
  have hempty : e₂.look p = some [] := by rw [hl₂, Function.update_self]
  have hwrite : Yields (writePieces p 0 (docHdr doc :: fieldsEmit doc)) e₂ (fun _ _ => False)
      fun _ e' => Q e' ∧ e'.faults = e.faults ∧ e'.tick = 4 := by
    have hhdr : ¬ (docHdr doc).isEmpty = true := by
      rw [List.isEmpty_iff_length_eq_zero, docHdr_length]
      decide
    unfold writePieces
    rw [if_neg hhdr]
    refine yields_bind (P := fun _ _ => False) (yields_adaptExcept statusFromErrno
      ((fsWrite_yields e₂ hempty 0 (docHdr doc)).imp (fun _ _ h => ?_) fun err e' h => ?_)) fun _ _ h => h.elim
    · exact h.1 ((hdead hfaults₂ e₂.tick).mpr (by omega))
    · obtain ⟨n, hf, hs⟩ := h
      have hn : n = 0 := by
        unfold Env.fault at hf
        rw [hfaults₂, he, ht₂] at hf
        cases hf
        rfl
      subst hn
      refine ⟨?_, hs.faults.trans hfaults₂, by rw [hs.tick, ht₂]⟩
      show e'.look = _
      rw [hs.look, hl₂, Function.update_idem]
      rfl
  apply yields_bind (yields_attempt hwrite)
  intro x e₃ hx
  cases x with
  | ok _ => exact hx.elim
  | error ret =>
    obtain ⟨hq₃, hfaults₃, ht₃⟩ := hx
    apply yields_bind (yields_attempt (call_yields e₃))
    intro x e₄ hx
    have hs₄ : Spent e₃ e₃.look e₄ := by
      cases x with
      | ok _ => exact hx.2
      | error _ => exact hx.2
    refine (discard_yields e₄ ret).imp (fun _ _ h => h) fun _ e' h => ?_
    obtain ⟨left, hd⟩ := h
    have hfail : FailsAt e₄ e₄.tick := (hdead (hs₄.faults.trans hfaults₃) _).mpr (by rw [hs₄.tick, ht₃]; omega)
    rcases hd.left with ⟨-, hf⟩ | ⟨rfl, -⟩
    · exact absurd hfail hf
    · show e'.look = _
      rw [hd.leads.look, Function.update_eq_self, hs₄.look]
      exact hq₃

end Cut

/-- No live file, but a complete staged one: what an interrupted save of a new document may leave. -/
def Orphaned (cfg : DocCfg) (F : Files) (collectionName documentId : CString) : Prop :=
  fileAt cfg F.look collectionName documentId DOC_FILE_EXT = none ∧
    ∃ snap, stored cfg (fileAt cfg F.look collectionName documentId DOC_TMP_EXT) = .ok snap

section Found
variable {cfg : DocCfg} {collectionName documentId : CString} {path tmpPath : Path} {look look' : Path → Option Bytes}

theorem opened_congr {F F' : Files} (h : found cfg F'.look collectionName documentId =
    found cfg F.look collectionName documentId) :
    opened cfg F' collectionName documentId = opened cfg F collectionName documentId := by
  rw [opened_eq, opened_eq, h]

theorem orphaned_iff {F : Files} (hpaths : Paths cfg collectionName documentId path tmpPath) :
    Orphaned cfg F collectionName documentId ↔
      F.look path = none ∧ ∃ snap, stored cfg (F.look tmpPath) = .ok snap := by
  unfold Orphaned
  rw [fileAt_eq hpaths.live, fileAt_eq hpaths.staged]

theorem found_staged (hpaths : Paths cfg collectionName documentId path tmpPath) (hnone : look path = none) :
    found cfg look collectionName documentId =
      (stored cfg (look tmpPath)).mapError fun _ => .ERR_NOT_FOUND := by
  unfold found
  rw [hpaths.live]
  dsimp only
  rw [hnone]
  dsimp only
  rw [hpaths.staged]

theorem found_nothing (hpaths : Paths cfg collectionName documentId path tmpPath) (hnone : look path = none)
    (hst : ¬ ∃ snap, stored cfg (look tmpPath) = .ok snap) :
    found cfg look collectionName documentId = .error .ERR_NOT_FOUND := by
  rw [found_staged hpaths hnone]
  cases hs : stored cfg (look tmpPath) with
  | ok snap => exact absurd ⟨snap, hs⟩ hst
  | error status => rfl

theorem Sound.found (h : Sound cfg look) : found cfg look collectionName documentId ≠ .error .ERR_CORRUPT := by
  unfold Doc.found
  cases hpath : buildDocPath cfg collectionName documentId DOC_FILE_EXT with
  | error err =>
    have herr : err = .ENAMETOOLONG := by
      unfold buildDocPath fitPath at hpath
      split at hpath
      · exact (Except.error.inj hpath).symm
      · cases hpath
    subst herr
    exact nofun
  | ok p =>
    dsimp only
    cases hl : look p with
    | some text =>
      obtain ⟨snap, hdec⟩ := h collectionName documentId text (by rw [fileAt_eq hpath, hl])
      dsimp only
      rw [hdec]
      exact nofun
    | none =>
      dsimp only
      cases buildDocPath cfg collectionName documentId DOC_TMP_EXT with
      | error err => exact nofun
      | ok q =>
        dsimp only
        cases stored cfg (look q) <;> exact nofun

theorem opened_whole {F : Files} (h : Sound cfg F.look) :
    opened cfg F collectionName documentId ≠ .error .ERR_CORRUPT := by
  rw [opened_eq]
  split
  · have := @Sound.found cfg collectionName documentId F.look h
    intro heq
    cases hf : found cfg F.look collectionName documentId with
    | ok snap =>
      rw [hf] at heq
      cases heq
    | error status =>
      rw [hf] at heq this
      cases heq
      exact this rfl
  · exact nofun

end Found

section Save
variable {cfg : DocCfg} {F : Files} {doc : Document} {path tmpPath : Path}

/-- The files that a save leaves when the power goes at its `n`-th call. -/
def cutSave (cfg : DocCfg) (F : Files) (doc : Document) (now : UInt64) (n k : Nat) : Files :=
  (post (docSave cfg) ⟨doc, cutShort F now n k⟩).env.files

theorem cutSave_look (ht : Tidy cfg doc) (now : UInt64) (n k : Nat) :
    (cutSave cfg F doc now n k).look = (post (saveLocked cfg (doc.savedAt now)) (cutShort F now n k)).look :=
  congrArg Env.look (docSave_post ⟨doc, cutShort F now n k⟩ ht.valid)

theorem stored_part {new : Document} (ht : Tidy cfg new) {left : Option Bytes}
    (hpart : ∀ part, left = some part → part <+: docBytes new) (hwhole : left ≠ some (docBytes new)) :
    ¬ ∃ snap, stored cfg left = .ok snap := by
  rintro ⟨snap, hst⟩
  cases left with
  | none => cases hst
  | some part =>
    have hdec := decode_cut ht (hpart part rfl) fun heq => hwhole (congrArg some heq)
    unfold stored at hst
    dsimp only at hst
    rw [hdec] at hst
    cases hst

theorem found_unsaved {new : Document} (ht : Tidy cfg new) {e : DocSys} {look' : Path → Option Bytes}
    {live left : Option Bytes} (hpaths : Paths cfg new.collectionName new.documentId path tmpPath)
    (hlook : look' = Function.update (Function.update e.look path live) tmpPath left)
    (hpart : ∀ part, left = some part → part <+: docBytes new) :
    found cfg look' new.collectionName new.documentId =
      live.elim (if left = some (docBytes new) then .ok new.snapshot else .error .ERR_NOT_FOUND) (decode cfg) := by
  have hl : look' path = live := by
    rw [hlook, Function.update_of_ne hpaths.ne.symm, Function.update_self]
  have hr : look' tmpPath = left := by rw [hlook, Function.update_self]
  cases live with
  | some text => exact found_live hpaths.live hl
  | none =>
    by_cases hwhole : left = some (docBytes new)
    · rw [found_staged hpaths hl, hr, Option.elim_none, if_pos hwhole, hwhole]
      unfold stored
      dsimp only
      rw [decode_docBytes ht]
      rfl
    · rw [found_nothing hpaths hl (hr ▸ stored_part ht hpart hwhole), Option.elim_none, if_neg hwhole]

theorem opened_new {F' : Files} {new : Document} (ht : Tidy cfg new)
    (h : found cfg F'.look new.collectionName new.documentId = .ok new.snapshot) :
    opened cfg F' new.collectionName new.documentId = .ok new := by
  rw [opened_eq, if_pos ht.keys, h]
  exact congrArg Except.ok ht.document

theorem saveLocked_found {new : Document} (ht : Tidy cfg new) (e : DocSys) : Yields (saveLocked cfg new) e
    (fun _ e' => found cfg e'.look new.collectionName new.documentId = .ok new.snapshot)
    fun _ e' => (found cfg e'.look new.collectionName new.documentId =
          found cfg e.look new.collectionName new.documentId ∧
        ∀ path tmpPath, Paths cfg new.collectionName new.documentId path tmpPath → ¬ Stages cfg new e) ∨
      ∃ path tmpPath live left, Paths cfg new.collectionName new.documentId path tmpPath ∧
        Unsaved cfg new path tmpPath e live left e' ∧
        found cfg e'.look new.collectionName new.documentId =
          live.elim (if left = some (docBytes new) then .ok new.snapshot else .error .ERR_NOT_FOUND) (decode cfg) := by
  refine (saveLocked_yields cfg new e).imp ?_ ?_
  · rintro _ e' ⟨path, tmpPath, hpaths, hl⟩
    rw [found_live hpaths.live (by rw [hl.look, Function.update_self]), decode_docBytes ht]
  · rintro _ e' (⟨hl, hno⟩ | ⟨path, tmpPath, hpaths, live, left, hun⟩)
    · exact .inl ⟨by rw [hl.look], hno⟩
    · exact .inr ⟨path, tmpPath, live, left, hpaths, hun, found_unsaved ht hpaths hun.leads.look hun.part⟩

/-- Where the live file has been left alone, an open finds what it found, or the new document if no live
file was there and the staged one is whole. -/
theorem found_kept {new : Document} {e : DocSys} {left : Option Bytes}
    (hpaths : Paths cfg new.collectionName new.documentId path tmpPath)
    (hsafe : e.look path = none → ¬ ∃ snap, stored cfg (e.look tmpPath) = .ok snap) :
    (e.look path).elim (if left = some (docBytes new) then .ok new.snapshot else .error .ERR_NOT_FOUND)
        (decode cfg) = found cfg e.look new.collectionName new.documentId ∨
      (e.look path = none ∧ left = some (docBytes new)) := by
  cases hl : e.look path with
  | some text => exact .inl (found_live hpaths.live hl).symm
  | none =>
    by_cases hwhole : left = some (docBytes new)
    · exact .inr ⟨rfl, hwhole⟩
    · rw [Option.elim_none, if_neg hwhole, found_nothing hpaths hl (hsafe hl)]
      exact .inl rfl

/-- A save that loses power leaves the document as it was, or complete as it was to be, at every point
where the power may go and in every store that saves, deletes, failures and earlier power cuts can leave;
unless the document has no live file and a complete staged one. -/
theorem crashed_save_iff (hreach : Reachable cfg F) (hbuilt : Built cfg doc) :
    (∀ now n k,
        (opened cfg (cutSave cfg F doc now n k) doc.collectionName doc.documentId =
            opened cfg F doc.collectionName doc.documentId ∨
          opened cfg (cutSave cfg F doc now n k) doc.collectionName doc.documentId = .ok (doc.savedAt now)) ∧
        opened cfg (cutSave cfg F doc now n k) doc.collectionName doc.documentId ≠ .error .ERR_CORRUPT) ↔
      ¬ Orphaned cfg F doc.collectionName doc.documentId := by
  have ht := hbuilt.tidy
  constructor
  · rintro hall ⟨hnone, snap, hst⟩
    cases hstaged : buildDocPath cfg doc.collectionName doc.documentId DOC_TMP_EXT with
    | error err =>
      unfold fileAt at hst
      rw [hstaged] at hst
      cases hst
    | ok tmpPath =>
      obtain ⟨path, hlive⟩ := live_of_staged hstaged
      have hpaths : Paths cfg doc.collectionName doc.documentId path tmpPath := ⟨hlive, hstaged⟩
      rw [fileAt_eq hlive] at hnone
      rw [fileAt_eq hstaged] at hst
      -- the power goes when the staged copy has been truncated
      have hsaved := ht.savedAt 0
      have hcut := @cutSave_look cfg F doc ht 0 3 0
      rw [@saveLocked_cut cfg (doc.savedAt 0) path tmpPath hpaths F 0] at hcut
      have hshort : (some [] : Option Bytes) ≠ some (docBytes (doc.savedAt 0)) := by
        intro heq
        have := congrArg List.length (Option.some.inj heq)
        rw [docBytes_eq, List.length_append, docHdr_length] at this
        simp [DOC_HDR_SIZE] at this
        omega
      have hafter := @found_unsaved cfg path tmpPath (doc.savedAt 0) hsaved (cutShort F 0 3 0)
        (cutSave cfg F doc 0 3 0).look none (some []) hpaths
        (by rw [hcut, show (cutShort F 0 3 0).look = F.look from rfl, ← hnone, Function.update_eq_self])
        (fun part hp => by cases hp; exact List.nil_prefix)
      rw [Option.elim_none, if_neg hshort] at hafter
      have hbefore : found cfg F.look doc.collectionName doc.documentId = .ok snap := by
        rw [found_staged hpaths hnone, hst]
        rfl
      have hopened : opened cfg (cutSave cfg F doc 0 3 0) doc.collectionName doc.documentId =
          .error .ERR_NOT_FOUND := by
        rw [opened_eq, if_pos ht.keys]
        exact congrArg (Except.map _) hafter
      rcases (hall 0 3 0).1 with h | h
      · rw [hopened, opened_eq, if_pos ht.keys, hbefore] at h
        cases h
      · rw [hopened] at h
        cases h
  · intro hsafe now n k
    have hsaved := ht.savedAt now
    refine ⟨?_, opened_whole (Reachable.save (s := ⟨doc, cutShort F now n k⟩) hreach hbuilt).sound⟩
    obtain ⟨e, he⟩ : ∃ e, e = cutShort F now n k := ⟨_, rfl⟩
    have hlook : e.look = F.look := by rw [he]; rfl
    have hfails : ∀ tick, FailsAt e tick ↔ n ≤ tick := fun tick => he ▸ failsAt_cutShort F now n k tick
    have hall : Yields (saveLocked cfg (doc.savedAt now)) e
        (fun _ e' => found cfg e'.look doc.collectionName doc.documentId =
            found cfg F.look doc.collectionName doc.documentId ∨
          found cfg e'.look doc.collectionName doc.documentId = .ok (doc.savedAt now).snapshot)
        fun _ e' => found cfg e'.look doc.collectionName doc.documentId =
            found cfg F.look doc.collectionName doc.documentId ∨
          found cfg e'.look doc.collectionName doc.documentId = .ok (doc.savedAt now).snapshot := by
      refine (saveLocked_found hsaved e).imp (fun _ _ h => .inr h) ?_
      rintro _ e' (⟨hsame, -⟩ | ⟨path, tmpPath, live, left, hpaths, hun, hfound⟩)
      · exact .inl (hlook ▸ hsame)
      · by_cases hkept : live = e.look path
        · subst hkept
          have hpaths' : Paths cfg doc.collectionName doc.documentId path tmpPath := hpaths
          have hsafe' : e.look path = none → ¬ ∃ snap, stored cfg (e.look tmpPath) = .ok snap := by
            rw [hlook]
            exact fun hnone hst => hsafe ((orphaned_iff hpaths').mpr ⟨hnone, hst⟩)
          rcases @found_kept cfg path tmpPath (doc.savedAt now) e left hpaths hsafe' with h | ⟨hnone, hwhole⟩
          · exact .inl (hlook ▸ hfound.trans h)
          · rw [hnone, Option.elim_none, if_pos hwhole] at hfound
            exact .inr hfound
        · -- the live file was removed: the power went before the staged file could be
          have hgone : live = none := hun.fate.resolve_left hkept
          by_cases hwhole : left = some (docBytes (doc.savedAt now))
          · rw [hgone, Option.elim_none, if_pos hwhole] at hfound
            exact .inr hfound
          · obtain ⟨h₁, h₂⟩ := hun.lost hkept hwhole
            rw [hfails] at h₁ h₂
            omega
    have hcut := @cutSave_look cfg F doc ht now n k
    rw [← he] at hcut
    rcases hall.post with h | h
    · exact .inl (opened_congr (hcut ▸ h))
    · exact .inr (opened_new hsaved (hcut ▸ h))

end Save

/-! #### A first save, and one cut short -/

/-- The document of `freshSt`, which no field has been set in. -/
def freshDoc : Document := (freshSt 7).doc

/-- The store after a first save of it. -/
def savedFiles : Files := (post (docSave sampleCfg) (freshSt 7)).env.files

theorem savedFiles_reachable : Reachable sampleCfg savedFiles :=
  .save (s := freshSt 7) .empty freshSt_built

theorem savedFiles_safe : ¬ Orphaned sampleCfg savedFiles sampleCollection sampleName := by
  rintro ⟨h, -⟩
  have hsome : (fileAt sampleCfg savedFiles.look sampleCollection sampleName DOC_FILE_EXT).isSome = true := by
    decide +kernel
  rw [h] at hsome
  cases hsome

/-- Over a saved document a second save may be cut right after it has truncated the staged file. -/
theorem second_save_cut :
    (opened sampleCfg (cutSave sampleCfg savedFiles freshDoc 9 3 0) sampleCollection sampleName =
        opened sampleCfg savedFiles sampleCollection sampleName ∨
      opened sampleCfg (cutSave sampleCfg savedFiles freshDoc 9 3 0) sampleCollection sampleName =
        .ok (freshDoc.savedAt 9)) ∧
    opened sampleCfg (cutSave sampleCfg savedFiles freshDoc 9 3 0) sampleCollection sampleName ≠
      .error .ERR_CORRUPT :=
  (crashed_save_iff savedFiles_reachable freshSt_built).mpr savedFiles_safe 9 3 0

def orphanFiles : Files := cutSave sampleCfg ∅ freshDoc 7 5 0

/-- The staged copy can be read; a second save is cut short after it has truncated that copy. -/
theorem orphan_lost : ¬ ∀ F doc, Reachable sampleCfg F → Built sampleCfg doc → ∀ now n k,
    opened sampleCfg (cutSave sampleCfg F doc now n k) doc.collectionName doc.documentId =
        opened sampleCfg F doc.collectionName doc.documentId ∨
      opened sampleCfg (cutSave sampleCfg F doc now n k) doc.collectionName doc.documentId =
        .ok (doc.savedAt now) := by
  intro h
  have hbefore : (opened sampleCfg orphanFiles sampleCollection sampleName).toOption = some freshDoc := by
    decide +kernel
  have hafter : (opened sampleCfg (cutSave sampleCfg orphanFiles freshDoc 9 3 0) sampleCollection
      sampleName).toOption = none := by decide +kernel
  have hreach : Reachable sampleCfg orphanFiles := .save (s := ⟨freshDoc, cutShort ∅ 7 5 0⟩) .empty freshSt_built
  rcases h orphanFiles freshDoc hreach freshSt_built 9 3 0 with hsame | hnew
  · rw [show freshDoc.collectionName = sampleCollection from rfl, show freshDoc.documentId = sampleName from rfl] at hsame
    rw [hsame, hbefore] at hafter
    cases hafter
  · rw [show freshDoc.collectionName = sampleCollection from rfl, show freshDoc.documentId = sampleName from rfl] at hnew
    rw [hnew] at hafter
    cases hafter

section Save
variable {cfg : DocCfg} {F : Files} {doc : Document} {path tmpPath : Path}

/-- What an open returned before a save that fails is what it returns after it. Either the live file is
there and no refused rename is followed by its removal and another failure; or an open found nothing, and
no whole staging file outlives the failure; or it found the very document that such a file holds. -/
def Spared (cfg : DocCfg) (new : Document) (e : DocSys) (live : Option Bytes) : Prop :=
  (live ≠ none ∧ ¬ Displaced cfg new e live) ∨
    ((Outlives cfg new e live → opened cfg e.files new.collectionName new.documentId = .ok new) ∧
      (¬ Outlives cfg new e live →
        opened cfg e.files new.collectionName new.documentId = .error .ERR_NOT_FOUND))

theorem opened_unsaved {F' : Files} {new : Document} (ht : Tidy cfg new) {left : Option Bytes} {whole : Prop}
    (hwhole : left = some (docBytes new) ↔ whole)
    (hfound : found cfg F'.look new.collectionName new.documentId =
      if left = some (docBytes new) then .ok new.snapshot else .error .ERR_NOT_FOUND)
    (before : Except Status Document) :
    opened cfg F' new.collectionName new.documentId = before ↔
      (whole → before = .ok new) ∧ (¬ whole → before = .error .ERR_NOT_FOUND) := by
  by_cases hw : whole
  · rw [if_pos (hwhole.mpr hw)] at hfound
    rw [opened_new ht hfound]
    simp only [hw, true_implies, not_true_eq_false, false_implies, and_true]
    exact eq_comm
  · rw [if_neg fun h => hw (hwhole.mp h)] at hfound
    have hopened : opened cfg F' new.collectionName new.documentId = .error .ERR_NOT_FOUND := by
      rw [opened_eq, if_pos ht.keys, hfound]
      rfl
    rw [hopened]
    simp only [hw, false_implies, not_false_eq_true, true_implies, true_and]
    exact eq_comm

/-- A save that fails, in any store at all and whatever calls of it fail, leaves what an open returns as it
was exactly when it did not open its staging file, or the document is spared. -/
theorem failed_save_keeps_iff {s : DocSt} (hbuilt : Built cfg s.doc) {status : Status}
    (hfail : outcome (docSave cfg) s = .error status) :
    opened cfg (post (docSave cfg) s).env.files s.doc.collectionName s.doc.documentId =
        opened cfg s.env.files s.doc.collectionName s.doc.documentId ↔
      ∀ path tmpPath, Paths cfg s.doc.collectionName s.doc.documentId path tmpPath →
        Stages cfg (s.doc.savedAt s.env.side) s.env →
          Spared cfg (s.doc.savedAt s.env.side) s.env (s.env.look path) := by
  have hsaved := hbuilt.tidy.savedAt s.env.side
  rw [docSave_outcome s hbuilt.tidy.valid] at hfail
  have hrun := run_of_outcome_error hfail
  have hfiles : (post (docSave cfg) s).env.files =
      (post (saveLocked cfg (s.doc.savedAt s.env.side)) s.env).files :=
    congrArg Env.files (docSave_post s hbuilt.tidy.valid)
  rw [hfiles]
  rcases (saveLocked_found hsaved s.env).run_error hrun with
    ⟨hsame, hno⟩ | ⟨path, tmpPath, live, left, hpaths, hun, hfound⟩
  · have hkept := opened_congr (F := s.env.files) hsame
    exact iff_of_true hkept fun path tmpPath hp hst => absurd hst (hno path tmpPath hp)
  · have hstages : Stages cfg (s.doc.savedAt s.env.side) s.env := ⟨hun.dirs, hun.opened⟩
    have hat : (∀ path tmpPath, Paths cfg s.doc.collectionName s.doc.documentId path tmpPath →
        Stages cfg (s.doc.savedAt s.env.side) s.env →
          Spared cfg (s.doc.savedAt s.env.side) s.env (s.env.look path)) ↔
        Spared cfg (s.doc.savedAt s.env.side) s.env (s.env.look path) := by
      constructor
      · exact fun h => h path tmpPath hpaths hstages
      · intro h p q hp _
        rwa [Except.ok.inj (hp.live.symm.trans hpaths.live)]
    rw [hat]
    unfold Spared
    -- what is left decides, unless the live file is left
    have hgone : live = none → (opened cfg (post (saveLocked cfg (s.doc.savedAt s.env.side)) s.env).files
        s.doc.collectionName s.doc.documentId = opened cfg s.env.files s.doc.collectionName s.doc.documentId ↔
          (Outlives cfg (s.doc.savedAt s.env.side) s.env (s.env.look path) →
            opened cfg s.env.files s.doc.collectionName s.doc.documentId = .ok (s.doc.savedAt s.env.side)) ∧
          (¬ Outlives cfg (s.doc.savedAt s.env.side) s.env (s.env.look path) →
            opened cfg s.env.files s.doc.collectionName s.doc.documentId = .error .ERR_NOT_FOUND)) := by
      intro hnone
      rw [hnone] at hfound
      exact opened_unsaved hsaved hun.whole hfound _
    rcases hun.live with ⟨hlive, hstays⟩ | ⟨hlive, hdisplaced⟩
    · cases hl : s.env.look path with
      | some text =>
        rw [hlive, hl] at hfound
        have hsame : found cfg (post (saveLocked cfg (s.doc.savedAt s.env.side)) s.env).files.look
            s.doc.collectionName s.doc.documentId =
              found cfg s.env.files.look s.doc.collectionName s.doc.documentId :=
          hfound.trans (found_live hpaths.live hl).symm
        rw [hl] at hstays
        exact iff_of_true (opened_congr hsame) (.inl ⟨nofun, hstays⟩)
      | none =>
        rw [hgone (hlive.trans hl), hl]
        exact (or_iff_right fun h => h.1 rfl).symm
    · rw [hgone hlive]
      exact (or_iff_right fun h => h.2 hdisplaced).symm

end Save

/-- The same configuration over a file system whose rename refuses to replace. -/
def fatCfg : DocCfg := { sampleCfg with renameReplaces := false }

def displacedSt : DocSt :=
  ⟨freshDoc, ⟨(post (docSave fatCfg) (freshSt 7)).env.files,
    fun tick => if tick = 7 then .fail Errno.EIO 0 else .none, 0, false, [], 9⟩⟩

theorem freshSt_built_fat : Built fatCfg freshDoc :=
  @Built.create fatCfg { quiet ∅ with side := 7 } _ sampleCollection sampleName _ rfl

theorem displaced_lost : ¬ ∀ s : DocSt, Reachable fatCfg s.env.files → Built fatCfg s.doc → ∀ status,
    outcome (docSave fatCfg) s = .error status →
      opened fatCfg (post (docSave fatCfg) s).env.files s.doc.collectionName s.doc.documentId =
        opened fatCfg s.env.files s.doc.collectionName s.doc.documentId := by
  intro h
  have hreach : Reachable fatCfg displacedSt.env.files := .save (s := freshSt 7) .empty freshSt_built_fat
  have hbefore : (opened fatCfg displacedSt.env.files sampleCollection sampleName).toOption = some freshDoc := by
    decide +kernel
  have hafter : (opened fatCfg (post (docSave fatCfg) displacedSt).env.files sampleCollection
      sampleName).toOption = none := by decide +kernel
  have hfail : (outcome (docSave fatCfg) displacedSt).toOption = none := by decide +kernel
  cases ho : outcome (docSave fatCfg) displacedSt with
  | ok _ =>
    rw [ho] at hfail
    cases hfail
  | error status =>
    have hsame := h displacedSt hreach freshSt_built_fat status ho
    rw [show displacedSt.doc.collectionName = sampleCollection from rfl,
      show displacedSt.doc.documentId = sampleName from rfl] at hsame
    rw [hsame, hbefore] at hafter
    cases hafter

/-- The disk is full when the header is to be written; the fault at the seventh call meets no rename. -/
def fullSt : DocSt :=
  ⟨freshDoc, ⟨(post (docSave fatCfg) (freshSt 7)).env.files, fun tick =>
    if tick = 3 then .fail .ENOSPC 0 else if tick = 7 then .fail Errno.EIO 0 else .none, 0, false, [], 9⟩⟩

theorem full_kept :
    opened fatCfg (post (docSave fatCfg) fullSt).env.files sampleCollection sampleName =
      opened fatCfg fullSt.env.files sampleCollection sampleName := by
  have hfail : outcome (docSave fatCfg) fullSt = .error Status.ERR_IO := by
    have h : (match outcome (docSave fatCfg) fullSt with
        | .ok _ => none
        | .error status => some status) = some Status.ERR_IO := by decide +kernel
    cases ho : outcome (docSave fatCfg) fullSt with
    | ok _ => rw [ho] at h; cases h
    | error status => rw [ho] at h; cases h; rfl
  refine (failed_save_keeps_iff (s := fullSt) freshSt_built_fat hfail).mpr fun path tmpPath hpaths _ => .inl ⟨?_, ?_⟩
  · intro hnone
    have hsome : (fileAt fatCfg fullSt.env.files.look sampleCollection sampleName DOC_FILE_EXT).isSome = true := by
      decide +kernel
    have hpaths' : Paths fatCfg sampleCollection sampleName path tmpPath := hpaths
    rw [fileAt_eq hpaths'.live, show fullSt.env.files.look path = none from hnone] at hsome
    cases hsome
  · rintro ⟨⟨hmoved, -⟩, -⟩
    have hfull : fullSt.env.faults 3 = .fail .ENOSPC 0 := rfl
    have hhdr : ¬ (docHdr (fullSt.doc.savedAt fullSt.env.side)).isEmpty = true := by
      rw [List.isEmpty_iff_length_eq_zero, docHdr_length]
      decide
    unfold savePieces AllMoved at hmoved
    rw [if_neg hhdr] at hmoved
    exact not_pieceMoved_of_fail hfull hmoved.1

section Delete
variable {cfg : DocCfg} {F : Files} {collectionName documentId : CString} {path tmpPath : Path}

/-- The files that a delete leaves when the power goes at its `n`-th call. -/
def cutDelete (cfg : DocCfg) (F : Files) (collectionName documentId : CString) (now : UInt64) (n k : Nat) : Files :=
  (post (docDelete cfg collectionName documentId) (cutShort F now n k)).files

/-- Beside the live file of a valid name stands a staged one that can be read as something else. -/
def Shadowed (cfg : DocCfg) (F : Files) (collectionName documentId : CString) : Prop :=
  keysValid cfg collectionName documentId = true ∧ ∃ text snap, fileAt cfg F.look collectionName documentId DOC_FILE_EXT = some text ∧
    stored cfg (fileAt cfg F.look collectionName documentId DOC_TMP_EXT) = .ok snap ∧ decode cfg text ≠ .ok snap

theorem paths_of_fileAt {text : Bytes} {snap : Snapshot}
    (hlive : fileAt cfg F.look collectionName documentId DOC_FILE_EXT = some text)
    (hstaged : stored cfg (fileAt cfg F.look collectionName documentId DOC_TMP_EXT) = .ok snap) :
    ∃ path tmpPath, Paths cfg collectionName documentId path tmpPath ∧ F.look path = some text ∧
      stored cfg (F.look tmpPath) = .ok snap := by
  unfold fileAt at hlive hstaged
  cases hp : buildDocPath cfg collectionName documentId DOC_FILE_EXT with
  | error err =>
    rw [hp] at hlive
    cases hlive
  | ok path =>
    cases hq : buildDocPath cfg collectionName documentId DOC_TMP_EXT with
    | error err =>
      rw [hq] at hstaged
      cases hstaged
    | ok tmpPath =>
      rw [hp] at hlive
      rw [hq] at hstaged
      exact ⟨path, tmpPath, ⟨hp, hq⟩, hlive, hstaged⟩

/-- A delete that loses power leaves the document as it was, or gone, at every point where the power may
go and in every store that saves, deletes, failures and earlier power cuts can leave; unless a staged file
that reads as something else stands beside the live one. -/
theorem crashed_delete_iff (hreach : Reachable cfg F) (collectionName documentId : CString) :
    (∀ now n k,
        (opened cfg (cutDelete cfg F collectionName documentId now n k) collectionName documentId =
            opened cfg F collectionName documentId ∨
          opened cfg (cutDelete cfg F collectionName documentId now n k) collectionName documentId =
            .error .ERR_NOT_FOUND) ∧
        opened cfg (cutDelete cfg F collectionName documentId now n k) collectionName documentId ≠
          .error .ERR_CORRUPT) ↔
      ¬ Shadowed cfg F collectionName documentId := by
  constructor
  · rintro hall ⟨hkeys, text, snap, hlive, hstaged, hother⟩
    have hread : ∀ {F' : Files} {r : Except Status Snapshot}, found cfg F'.look collectionName documentId = r →
        opened cfg F' collectionName documentId = r.map (Snapshot.document cfg collectionName documentId) :=
      fun h => by rw [opened_eq, if_pos hkeys, h]
    obtain ⟨path, tmpPath, hpaths, hl, hst⟩ := paths_of_fileAt hlive hstaged
    -- the power goes between the two removals
    have hfails := failsAt_cutShort F 0 1 0
    have hafter : found cfg (cutDelete cfg F collectionName documentId 0 1 0).look collectionName documentId =
        .ok snap := by
      rcases docDelete_cases collectionName documentId (cutShort F 0 1 0) with
        ⟨p, q, live, left, hpq, hlook, hd, hd'⟩ | ⟨-, -, err, -, herr, -⟩ | ⟨hno | ⟨err, herr⟩, -⟩
      · obtain rfl : p = path := Except.ok.inj (hpq.live.symm.trans hpaths.live)
        obtain rfl : q = tmpPath := Except.ok.inj (hpq.staged.symm.trans hpaths.staged)
        have hgone : live = none := (hd.resolve_right fun h => absurd ((hfails 0).mp h.2) (by omega)).1
        have hleft : left = F.look q := (hd'.resolve_left fun h => h.2 ((hfails 1).mpr (Nat.le_refl 1))).1
        have hlook' : (cutDelete cfg F collectionName documentId 0 1 0).look =
            Function.update (Function.update F.look p live) q left := hlook
        rw [found_staged hpaths (by rw [hlook', Function.update_of_ne hpaths.ne.symm, Function.update_self, hgone]),
          hlook', Function.update_self, hleft, hst]
        rfl
      · rw [hpaths.staged] at herr
        cases herr
      · rw [hkeys] at hno
        cases hno
      · rw [hpaths.live] at herr
        cases herr
    have hbefore := found_live hpaths.live hl
    rcases (hall 0 1 0).1 with h | h
    · rw [hread hafter, hread hbefore] at h
      cases hdec : decode cfg text with
      | error status =>
        rw [hdec] at h
        cases h
      | ok snap' =>
        rw [hdec] at h hother
        apply hother
        apply congrArg Except.ok
        obtain ⟨f₁, c₁, u₁⟩ := snap
        obtain ⟨f₂, c₂, u₂⟩ := snap'
        cases h
        rfl
    · rw [hread hafter] at h
      cases h
  · intro hsafe now n k
    refine ⟨?_, opened_whole
      (Reachable.delete (e := cutShort F now n k) hreach collectionName documentId).sound⟩
    by_cases hkeys : keysValid cfg collectionName documentId = true
    swap
    · exact .inl (by rw [opened_eq, opened_eq, if_neg hkeys, if_neg hkeys])
    have hor : found cfg (cutDelete cfg F collectionName documentId now n k).look collectionName documentId =
          found cfg F.look collectionName documentId ∨
        found cfg (cutDelete cfg F collectionName documentId now n k).look collectionName documentId =
          .error .ERR_NOT_FOUND := by
      rcases docDelete_cases collectionName documentId (cutShort F now n k) with
        ⟨path, tmpPath, live, left, hpaths, hlook, hd, hd'⟩ | ⟨path, live, err, hp, herr, hlook, hd⟩ | ⟨-, hlook⟩
      · have hlook' : (cutDelete cfg F collectionName documentId now n k).look =
            Function.update (Function.update F.look path live) tmpPath left := hlook
        have hl : (cutDelete cfg F collectionName documentId now n k).look path = live := by
          rw [hlook', Function.update_of_ne hpaths.ne.symm, Function.update_self]
        have hr : (cutDelete cfg F collectionName documentId now n k).look tmpPath = left := by
          rw [hlook', Function.update_self]
        have hlive : live = F.look path ∨ live = none := hd.either
        have hleft : left = F.look tmpPath ∨ left = none := hd'.either
        cases hF : F.look path with
        | none =>
          have hnone : live = none := hlive.elim (fun h => h.trans hF) id
          rw [found_staged hpaths (hl.trans hnone), found_staged hpaths hF, hr]
          rcases hleft with rfl | rfl
          · exact .inl rfl
          · exact .inr rfl
        | some text =>
          rcases hlive with rfl | rfl
          · exact .inl ((found_live hpaths.live (hl.trans hF)).trans (found_live hpaths.live hF).symm)
          · rw [found_staged hpaths hl, found_live hpaths.live hF, hr]
            cases hst : stored cfg left with
            | error status => exact .inr rfl
            | ok snap =>
              have hsame : left = F.look tmpPath := hleft.resolve_right fun h => by
                rw [h] at hst
                cases hst
              refine .inl (Eq.symm (not_not.mp fun hne => hsafe ⟨hkeys, text, snap, ?_, ?_, hne⟩))
              · rw [fileAt_eq hpaths.live, hF]
              · rw [fileAt_eq hpaths.staged, ← hsame, hst]
      · have hlook' : (cutDelete cfg F collectionName documentId now n k).look = Function.update F.look path live :=
          hlook
        have hlive : live = F.look path ∨ live = none := hd.either
        rw [hlook']
        rcases hlive with rfl | rfl
        · exact .inl (by rw [Function.update_eq_self])
        · refine .inr ?_
          unfold found
          rw [hp, herr]
          dsimp only
          rw [Function.update_self]
      · exact .inl (congrArg (fun look => found cfg look collectionName documentId) hlook)
    rcases hor with h | h
    · exact .inl (opened_congr h)
    · refine .inr ?_
      rw [opened_eq, if_pos hkeys, h]
      rfl

end Delete

theorem savedFiles_unshadowed : ¬ Shadowed sampleCfg savedFiles sampleCollection sampleName := by
  rintro ⟨-, text, snap, -, hst, -⟩
  have hnone : fileAt sampleCfg savedFiles.look sampleCollection sampleName DOC_TMP_EXT = none := by decide +kernel
  rw [hnone] at hst
  cases hst

/-- Its delete may be cut between the two unlinks. -/
theorem saved_delete_cut :
    (opened sampleCfg (cutDelete sampleCfg savedFiles sampleCollection sampleName 9 1 0) sampleCollection
          sampleName = opened sampleCfg savedFiles sampleCollection sampleName ∨
      opened sampleCfg (cutDelete sampleCfg savedFiles sampleCollection sampleName 9 1 0) sampleCollection
          sampleName = .error .ERR_NOT_FOUND) ∧
    opened sampleCfg (cutDelete sampleCfg savedFiles sampleCollection sampleName 9 1 0) sampleCollection
      sampleName ≠ .error .ERR_CORRUPT :=
  (crashed_delete_iff savedFiles_reachable sampleCollection sampleName).mpr savedFiles_unshadowed 9 1 0

def shadowFiles : Files := cutSave sampleCfg savedFiles freshDoc 9 5 0

/-- The delete is cut short between its two removals: the version that was never committed is read. -/
theorem shadow_raised : ¬ ∀ F, Reachable sampleCfg F → ∀ collectionName documentId now n k,
    opened sampleCfg (cutDelete sampleCfg F collectionName documentId now n k) collectionName documentId =
        opened sampleCfg F collectionName documentId ∨
      opened sampleCfg (cutDelete sampleCfg F collectionName documentId now n k) collectionName documentId =
        .error .ERR_NOT_FOUND := by
  intro h
  have hreach : Reachable sampleCfg shadowFiles :=
    .save (s := ⟨freshDoc, cutShort savedFiles 9 5 0⟩) savedFiles_reachable freshSt_built
  have hbefore : (opened sampleCfg shadowFiles sampleCollection sampleName).toOption = some freshDoc := by
    decide +kernel
  have hafter : (opened sampleCfg (cutDelete sampleCfg shadowFiles sampleCollection sampleName 11 1 0)
      sampleCollection sampleName).toOption = some (freshDoc.savedAt 9) := by decide +kernel
  rcases h shadowFiles hreach sampleCollection sampleName 11 1 0 with hsame | hgone
  · rw [hsame, hbefore] at hafter
    revert hafter
    decide +kernel
  · rw [hgone] at hafter
    cases hafter

end ZephyrDB.Doc
