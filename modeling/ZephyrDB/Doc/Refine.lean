import ZephyrDB.Doc.Cabinet
import ZephyrDB.Doc.Crash

/-!
The store against its cabinet, over whole runs: where no call fails, a system
that shows a cabinet gives every answer as the cabinet gives it, and shows it
afterwards, whatever handles are used and across reboots.
-/

set_option autoImplicit false

namespace ZephyrDB.Doc

open Lib

variable {cfg : DocCfg}

section Setters
variable {name : CString} {value : Value} {s : DocSt}

theorem fieldSet_unadmitted (h : ¬ value.Admitted cfg) : (fieldSet cfg name value).run s = .error .ERR_INVAL s := by
  cases value with
  | int64 v => exact absurd trivial h
  | double bits => exact absurd trivial h
  | bool b => exact absurd trivial h
  | string str =>
    cases str with
    | none => rfl
    | some str =>
      simp only [fieldSet, fieldSetString]
      rw [if_pos (Nat.lt_of_not_le h)]
      rfl
  | bytes data =>
    simp only [fieldSet, fieldSetBytes]
    rw [if_pos (Nat.lt_of_not_le h)]
    rfl

theorem findOrCreate_invalid (blank : Value)
    (h : s.doc.valid = false ∨ name.val = [] ∨ cfg.maxFieldNameLen < name.val.length) :
    (findOrCreate cfg name blank).run s = .error .ERR_INVAL s := by
  unfold findOrCreate
  apply run_then (run_get s)
  dsimp only
  by_cases hvalid : s.doc.valid = false
  · rw [if_pos (by simp [hvalid])]
    rfl
  · rw [if_neg (by simpa using hvalid), if_pos (by simpa using h.resolve_left hvalid)]
    rfl

theorem findOrCreate_full (blank : Value) (hvalid : s.doc.valid = true)
    (hname : ¬ (name.val = [] ∨ cfg.maxFieldNameLen < name.val.length)) (hnew : name ∉ s.doc.fields.map Field.name)
    (hfull : s.doc.maxFields ≤ s.doc.fields.length) :
    (findOrCreate cfg name blank).run s = .error .ERR_NOMEM s := by
  unfold findOrCreate
  apply run_then (run_get s)
  dsimp only
  rw [if_neg (by simp [hvalid]), if_neg (by simpa using hname), findIdx?_name.mpr hnew]
  dsimp only
  rw [if_pos hfull]
  rfl

theorem fieldSet_closed (hvalid : s.doc.valid = false) : (fieldSet cfg name value).run s = .error .ERR_INVAL s := by
  by_cases hadm : value.Admitted cfg
  · exact findOrCreate_fails (fun blank => findOrCreate_invalid blank (.inl hvalid)) hadm
  · exact fieldSet_unadmitted hadm

theorem fieldSet_put (hc : s.env.Clean) (hvalid : s.doc.valid = true) :
    match s.doc.put cfg s.env.side name value with
    | .ok doc => ∃ e, (fieldSet cfg name value).run s = .ok () ⟨doc, e⟩ ∧ Ticks s.env e
    | .error status => (fieldSet cfg name value).run s = .error status s := by
  unfold Document.put
  by_cases hbad : ¬ value.Admitted cfg ∨ name.val = [] ∨ cfg.maxFieldNameLen < name.val.length
  · rw [if_pos hbad]
    dsimp only
    by_cases hadm : value.Admitted cfg
    · exact findOrCreate_fails (fun blank => findOrCreate_invalid blank (.inr (hbad.resolve_left (not_not.mpr hadm)))) hadm
    · exact fieldSet_unadmitted hadm
  rw [if_neg hbad]
  simp only [not_or, not_not] at hbad
  obtain ⟨hadm, hne, hlen⟩ := hbad
  by_cases hfull : valueOf s.doc.fields name = none ∧ s.doc.maxFields ≤ s.doc.fields.length
  · rw [if_pos hfull]
    dsimp only
    refine findOrCreate_fails (fun blank => ?_) hadm
    exact findOrCreate_full blank hvalid (by simp [hne, hlen]) (valueOf_eq_none.mp hfull.1) hfull.2
  · rw [if_neg hfull]
    dsimp only
    have hroom : name ∈ s.doc.fields.map Field.name ∨ s.doc.fields.length < s.doc.maxFields := by
      by_contra hno
      simp only [not_or, Nat.not_lt] at hno
      exact hfull ⟨valueOf_eq_none.mpr hno.1, hno.2⟩
    obtain ⟨_, t, hrun⟩ := fieldSet_run hc ⟨hvalid, ⟨hne, Nat.not_lt.mp hlen⟩, hroom⟩ hadm
    have hset := fieldSet_ok hrun
    obtain ⟨doc, e⟩ := t
    obtain rfl : doc = _ := hset.doc
    exact ⟨e, hrun, hset.env⟩

end Setters

theorem docCreate_fresh_run {e : DocSys} (hc : e.Clean) {collectionName documentId : CString}
    (hkeys : keysValid cfg collectionName documentId = true) :
    (docCreate cfg collectionName documentId).run e =
      .ok (.fresh cfg e.side collectionName documentId) e.next.next.next := by
  have hn : e.next.Clean := hc
  have hnn : e.next.next.Clean := hc
  unfold docCreate
  rw [if_neg (by simp [hkeys])]
  apply run_then (run_attempt_ok (run_kMalloc hc))
  apply run_then (run_attempt_ok (run_kMalloc hn))
  apply run_then rfl
  apply run_then rfl
  apply run_then rfl
  exact run_then (run_kMalloc hnn) rfl

theorem docCreate_invalid {e : DocSys} {collectionName documentId : CString}
    (hkeys : keysValid cfg collectionName documentId = false) :
    (docCreate cfg collectionName documentId).run e = .error .ERR_INVAL e := by
  unfold docCreate
  rw [if_pos (by simp [hkeys])]
  rfl

theorem fitPath_long {path : Path} (h : ¬ path.length < DOC_PATH_MAX) : fitPath path = .error .ENAMETOOLONG :=
  if_pos (Nat.not_lt.mp h)

theorem fitPath_short {path : Path} (h : path.length < DOC_PATH_MAX) : fitPath path = .ok path :=
  if_neg (Nat.not_le.mpr h)

section Save
variable {doc : Document} {path tmpPath : Path} {e : DocSys}

theorem run_path_ok_sys {built : Except Errno Path} (h : built = .ok path) (e : DocSys) :
    (toStatus (rethrow built) : EStateM Status DocSys Path).run e = .ok path e := by
  subst h
  rfl

theorem ensureDir_clean (hc : e.Clean) : ∃ e', ensureDir.run e = .ok () e' ∧ Leads e e.look e' := by
  obtain ⟨e', hcall, hl⟩ := call_ok hc
  exact ⟨e', run_then (run_attempt_ok hcall) rfl, hl⟩

theorem leads_same {e' e'' : DocSys} (h : Leads e e.look e') (k : Leads e' e'.look e'') : Leads e e.look e'' := by
  have := h.trans k
  rwa [h.look] at this

theorem ensureDirs_clean (hc : e.Clean) (collection : CString) :
    if (collectionPath cfg collection.val).length < DOC_PATH_MAX then
      ∃ e', (ensureDirs cfg collection).run e = .ok () e' ∧ Leads e e.look e'
    else ∃ e', (ensureDirs cfg collection).run e = .error .ENAMETOOLONG e' ∧ Leads e e.look e' := by
  have hle : (rootPath cfg).length ≤ (collectionPath cfg collection.val).length := by
    simp [collectionPath]
  obtain ⟨e₁, h₁, hl₁⟩ := ensureDir_clean hc
  obtain ⟨e₂, h₂, hl₂⟩ := ensureDir_clean (hl₁.clean hc)
  have hroot : (rootPath cfg).length < DOC_PATH_MAX → ∀ {r}, ((rethrow (buildCollectionPath cfg collection.val) >>= fun _ =>
      ensureDir : EStateM Errno DocSys Unit).run e₁ = r → (ensureDirs cfg collection).run e = r) := fun hr r h => by
    unfold ensureDirs
    rw [show buildRootPath cfg = .ok (rootPath cfg) from fitPath_short hr]
    exact run_then rfl (run_then h₁ h)
  by_cases hfit : (collectionPath cfg collection.val).length < DOC_PATH_MAX
  · rw [if_pos hfit]
    refine ⟨e₂, hroot (by omega) ?_, leads_same hl₁ hl₂⟩
    rw [show buildCollectionPath cfg collection.val = .ok _ from fitPath_short hfit]
    exact run_then rfl h₂
  rw [if_neg hfit]
  by_cases hr : (rootPath cfg).length < DOC_PATH_MAX
  · refine ⟨e₁, hroot hr ?_, hl₁⟩
    rw [show buildCollectionPath cfg collection.val = .error _ from fitPath_long hfit]
    exact run_fails rfl
  · refine ⟨e, ?_, Leads.refl e⟩
    unfold ensureDirs
    rw [show buildRootPath cfg = .error _ from fitPath_long hr]
    exact run_fails rfl

theorem writePieces_clean (pieces : List Bytes) (hc : e.Clean) {old : Bytes} (h : e.look path = some old) :
    ∃ e', (writePieces path old.length pieces).run e = .ok () e' ∧
      Leads e (Function.update e.look path (some (old ++ pieces.flatten))) e' := by
  induction pieces generalizing e old with
  | nil =>
    refine ⟨e, rfl, ?_⟩
    rw [List.flatten_nil, List.append_nil, ← h, Function.update_eq_self]
    exact Leads.refl e
  | cons piece pieces ih =>
    unfold writePieces
    by_cases hempty : piece.isEmpty = true
    · rw [if_pos hempty, List.isEmpty_iff.mp hempty]
      exact ih hc h
    · rw [if_neg hempty]
      obtain ⟨e₁, hwrite, hl₁⟩ := fsWrite_ok hc old.length piece h
      rw [writeAt_end] at hl₁
      have hnow : e₁.look path = some (old ++ piece) := by rw [hl₁.look, Function.update_self]
      obtain ⟨e', hrest, hl'⟩ := ih (hl₁.clean hc) hnow
      rw [List.length_append] at hrest
      refine ⟨e', run_then (run_adapt hwrite) ?_, ?_⟩
      · rw [if_neg (not_not.mpr rfl)]
        exact hrest
      · have := hl₁.trans hl'
        rwa [hl₁.look, Function.update_idem, List.append_assoc] at this

theorem stageFile_clean (pieces : List Bytes) (hc : e.Clean) (tmpPath : Path) :
    ∃ e', (stageFile tmpPath pieces).run e = .ok () e' ∧
      Leads e (Function.update e.look tmpPath (some pieces.flatten)) e' := by
  obtain ⟨e₁, hopen, hl₁⟩ := fsOpen_truncate hc tmpPath
  have hnow : e₁.look tmpPath = some [] := by rw [hl₁.look, Function.update_self]
  obtain ⟨e₂, hwrite, hl₂⟩ := writePieces_clean pieces (hl₁.clean hc) hnow
  have h₂ := hl₁.trans hl₂
  rw [hl₁.look, Function.update_idem, List.nil_append] at h₂
  obtain ⟨e₃, hclose, hl₃⟩ := call_ok (h₂.clean hc)
  refine ⟨e₃, ?_, ?_⟩
  · exact run_then (run_adapt hopen) (run_then (run_attempt_ok hwrite) (run_then (run_attempt_ok hclose) rfl))
  · have := h₂.trans hl₃
    rwa [h₂.look] at this

theorem replaceFile_clean {text : Bytes} (hc : e.Clean) (hne : tmpPath ≠ path) (hl : e.look tmpPath = some text) :
    ∃ e', (replaceFile cfg tmpPath path).run e = .ok () e' ∧
      Leads e (Function.update (Function.update e.look tmpPath none) path (some text)) e' := by
  unfold replaceFile
  by_cases hrefused : (!cfg.renameReplaces && (e.files.lookup path).isSome) = true
  · obtain ⟨e₁, hcall, hl₁⟩ := call_ok hc
    have hmove : (fsMove cfg.renameReplaces tmpPath path).run e = .error .EEXIST e₁ := by
      refine run_then (s := e) (a := e) (t := e) rfl ?_
      rw [if_pos hrefused]
      exact run_then hcall rfl
    obtain ⟨old, hold⟩ := Option.isSome_iff_exists.mp (Bool.and_eq_true_iff.mp hrefused).2
    have hold₁ : e₁.look path = some old := by
      rw [hl₁.look]
      exact hold
    obtain ⟨e₂, hunlink, hl₂⟩ := fsUnlink_existing (hl₁.clean hc) hold₁
    have h₂ := hl₁.trans hl₂
    rw [hl₁.look] at h₂
    obtain ⟨e₃, hretry, hl₃⟩ := fsMove_free (h₂.clean hc) cfg.renameReplaces
      (by rw [h₂.look, Function.update_of_ne hne, hl]) (by rw [h₂.look, Function.update_self])
    refine ⟨e₃, run_then (run_attempt_error hmove) (run_then (run_attempt_ok hunlink) hretry), ?_⟩
    have := h₂.trans hl₃
    rwa [h₂.look, Function.update_comm hne.symm, Function.update_idem] at this
  · obtain ⟨e₁, hrename, hl₁⟩ := @fsRename_existing _ e hc tmpPath path text hl
    have hmove : (fsMove cfg.renameReplaces tmpPath path).run e = .ok () e₁ := by
      refine run_then (s := e) (a := e) (t := e) rfl ?_
      rw [if_neg hrefused]
      exact hrename
    exact ⟨e₁, run_then (run_attempt_ok hmove) rfl, hl₁⟩

theorem saveLocked_clean (hc : e.Clean) (doc : Document) :
    if Fits cfg doc.key DOC_TMP_EXT then
      ∃ e', (saveLocked cfg doc).run e = .ok () e' ∧
        Leads e (Function.update (Function.update e.look (docPath cfg doc.collectionName doc.documentId DOC_TMP_EXT) none)
          (docPath cfg doc.collectionName doc.documentId DOC_FILE_EXT) (some (docBytes doc))) e'
    else ∃ e', (saveLocked cfg doc).run e = .error Status.ERR_IO e' ∧ Leads e e.look e' := by
  have hdirs := @ensureDirs_clean cfg e hc doc.collectionName
  have hlive : (docPath cfg doc.collectionName doc.documentId DOC_FILE_EXT).length ≤
      (docPath cfg doc.collectionName doc.documentId DOC_TMP_EXT).length := by
    simp [docPath_eq_append, DOC_FILE_EXT, DOC_TMP_EXT]
  have hcoll : (collectionPath cfg doc.collectionName.val).length ≤
      (docPath cfg doc.collectionName doc.documentId DOC_FILE_EXT).length := by
    simp [docPath]
  unfold saveLocked
  by_cases hfit : Fits cfg doc.key DOC_TMP_EXT
  · have htmp : buildDocPath cfg doc.collectionName doc.documentId DOC_TMP_EXT = .ok _ := fitPath_short hfit
    have hpath : buildDocPath cfg doc.collectionName doc.documentId DOC_FILE_EXT = .ok _ :=
      fitPath_short (Nat.lt_of_le_of_lt hlive hfit)
    rw [if_pos (Nat.lt_of_le_of_lt (hcoll.trans hlive) hfit)] at hdirs
    obtain ⟨e₁, hrun₁, hl₁⟩ := hdirs
    obtain ⟨e₂, hrun₂, hl₂⟩ := stageFile_clean (docHdr doc :: fieldsEmit doc) (hl₁.clean hc)
      (docPath cfg doc.collectionName doc.documentId DOC_TMP_EXT)
    have h₂ := hl₁.trans hl₂
    rw [hl₁.look] at h₂
    have hne := Paths.ne ⟨hpath, htmp⟩
    obtain ⟨e₃, hrun₃, hl₃⟩ := @replaceFile_clean cfg _ _ e₂ _ (h₂.clean hc) hne (by rw [h₂.look, Function.update_self])
    rw [if_pos hfit]
    refine ⟨e₃, run_then (run_adapt hrun₁) (run_then (run_path_ok_sys hpath e₁) (run_then (run_path_ok_sys htmp e₁) ?_)), ?_⟩
    · exact run_then hrun₂ (run_then (run_attempt_ok hrun₃) rfl)
    · have := h₂.trans hl₃
      rwa [h₂.look, Function.update_idem] at this
  rw [if_neg hfit]
  by_cases hc' : (collectionPath cfg doc.collectionName.val).length < DOC_PATH_MAX
  swap
  · rw [if_neg hc'] at hdirs
    obtain ⟨e₁, hrun₁, hl₁⟩ := hdirs
    exact ⟨e₁, run_fails (run_adapt_error hrun₁), hl₁⟩
  rw [if_pos hc'] at hdirs
  obtain ⟨e₁, hrun₁, hl₁⟩ := hdirs
  refine ⟨e₁, run_then (run_adapt hrun₁) ?_, hl₁⟩
  by_cases hf : (docPath cfg doc.collectionName doc.documentId DOC_FILE_EXT).length < DOC_PATH_MAX
  · rw [show buildDocPath cfg doc.collectionName doc.documentId DOC_FILE_EXT = .ok _ from fitPath_short hf,
      show buildDocPath cfg doc.collectionName doc.documentId DOC_TMP_EXT = .error _ from fitPath_long hfit]
    exact run_then rfl (run_fails rfl)
  · rw [show buildDocPath cfg doc.collectionName doc.documentId DOC_FILE_EXT = .error _ from fitPath_long hf]
    exact run_fails rfl

end Save

section Files
variable {e : DocSys} {collectionName documentId : CString}

theorem docDelete_clean (hc : e.Clean) (hkeys : keysValid cfg collectionName documentId = true)
    (hfit : Fits cfg (collectionName, documentId) DOC_FILE_EXT)
    (hstaged : fileAt cfg e.look collectionName documentId DOC_TMP_EXT = none) :
    match e.look (docPath cfg collectionName documentId DOC_FILE_EXT) with
    | none => ∃ e', (docDelete cfg collectionName documentId).run e = .error .ERR_NOT_FOUND e' ∧ Leads e e.look e'
    | some _ => ∃ e', (docDelete cfg collectionName documentId).run e = .ok () e' ∧
        Leads e (Function.update e.look (docPath cfg collectionName documentId DOC_FILE_EXT) none) e' := by
  have hpath : buildDocPath cfg collectionName documentId DOC_FILE_EXT = .ok _ := fitPath_short hfit
  -- what comes after the removal of the live file
  have hrest : ∀ {rc : Except Errno Unit} {e₁ : DocSys} {look : Path → Option Bytes}, Leads e look e₁ →
      fileAt cfg look collectionName documentId DOC_TMP_EXT = none → (attempt (fsUnlink (docPath cfg collectionName documentId
        DOC_FILE_EXT)) : EStateM Status DocSys (Except Errno Unit)).run e = .ok rc e₁ →
      ∃ e', (docDelete cfg collectionName documentId).run e = (toStatus (rethrow rc) : EStateM Status DocSys Unit).run e' ∧
        Leads e look e' := by
    intro rc e₁ look hl hnone hrun
    unfold docDelete
    rw [if_neg (by simp [hkeys]), hpath]
    cases htmp : buildDocPath cfg collectionName documentId DOC_TMP_EXT with
    | error err => exact ⟨e₁, run_then rfl (run_then hrun rfl), hl⟩
    | ok tmpPath =>
      rw [fileAt_eq htmp] at hnone
      obtain ⟨e₂, hunlink, hl₂⟩ := fsUnlink_missing (hl.clean hc) (hl.look.symm ▸ hnone)
      refine ⟨e₂, run_then rfl (run_then hrun (run_then (run_attempt_error hunlink) rfl)), ?_⟩
      have := hl.trans hl₂
      rwa [hl.look] at this
  cases hlook : e.look (docPath cfg collectionName documentId DOC_FILE_EXT) with
  | none =>
    obtain ⟨e₁, hunlink, hl₁⟩ := fsUnlink_missing hc hlook
    obtain ⟨e', hrun, hl⟩ := hrest hl₁ hstaged (run_attempt_error hunlink)
    exact ⟨e', hrun, hl⟩
  | some text =>
    obtain ⟨e₁, hunlink, hl₁⟩ := fsUnlink_existing hc hlook
    have hnone : fileAt cfg (Function.update e.look (docPath cfg collectionName documentId DOC_FILE_EXT) none)
        collectionName documentId DOC_TMP_EXT = none := by
      cases htmp : buildDocPath cfg collectionName documentId DOC_TMP_EXT with
      | error err => rw [fileAt, htmp]
      | ok tmpPath =>
        rw [fileAt_eq htmp] at hstaged
        rw [fileAt_eq htmp, Function.update_of_ne (live_ne_staged hpath htmp).symm, hstaged]
    obtain ⟨e', hrun, hl⟩ := hrest hl₁ hnone (run_attempt_ok hunlink)
    exact ⟨e', hrun, hl⟩

theorem docDelete_unfit (hkeys : keysValid cfg collectionName documentId = true)
    (hfit : ¬ Fits cfg (collectionName, documentId) DOC_FILE_EXT) :
    (docDelete cfg collectionName documentId).run e = .error Status.ERR_IO e := by
  unfold docDelete
  rw [if_neg (by simp [hkeys]),
    show buildDocPath cfg collectionName documentId DOC_FILE_EXT = .error _ from fitPath_long hfit]
  exact run_fails rfl

theorem docDelete_invalid (hkeys : keysValid cfg collectionName documentId = false) :
    (docDelete cfg collectionName documentId).run e = .error .ERR_INVAL e := by
  unfold docDelete
  rw [if_pos (by simp [hkeys])]
  rfl

theorem docQuery_ticks (hc : e.Clean) (overflow : Int64) (request : Request) :
    Ticks e (post (docQuery cfg overflow request) e) := by
  unfold docQuery
  cases hroot : buildRootPath cfg with
  | error err => exact Ticks.refl e
  | ok root =>
    obtain ⟨scan, e', hrun, hticks, -⟩ := @scanCollections_met cfg overflow request [] ⟨0, [], false⟩
      (entryNames (e.files.keys.filterMap (subdirName root)).dedup) e.next hc met_start
    dsimp only
    rw [post_then (run_attempt_ok (fsListDirs_ticks hc _))]
    dsimp only
    rw [post_then (run_attempt_ok hrun)]
    exact (ticks_next e).trans hticks

end Files

/-- The live files are those of the documents that are kept, and no staging file is there. -/
structure Filed (cfg : DocCfg) (docs : DocKey → Option Document) (e : DocSys) : Prop where
  clean : e.Clean
  live : ∀ key : DocKey, keysValid cfg key.1 key.2 = true →
    fileAt cfg e.look key.1 key.2 DOC_FILE_EXT = (docs key).map docBytes
  tidy : ∀ key doc, docs key = some doc → Tidy cfg doc
  named : ∀ key doc, docs key = some doc → doc.key = key
  unstaged : ∀ collectionName documentId, fileAt cfg e.look collectionName documentId DOC_TMP_EXT = none

section Filed
variable {docs : DocKey → Option Document} {e e' : DocSys}

theorem Filed.leads (h : Filed cfg docs e) (hl : Leads e e.look e') : Filed cfg docs e' := by
  refine ⟨hl.clean h.clean, fun key hkeys => ?_, h.tidy, h.named, fun c i => ?_⟩
  · rw [hl.look, h.live key hkeys]
  · rw [hl.look, h.unstaged c i]

theorem Filed.ticks (h : Filed cfg docs e) (hticks : Ticks e e') : Filed cfg docs e' := by
  refine ⟨hticks.clean h.clean, fun key hkeys => ?_, h.tidy, h.named, fun c i => ?_⟩
  · rw [hticks.look, h.live key hkeys]
  · rw [hticks.look, h.unstaged c i]

theorem Filed.keys (h : Filed cfg docs e) {key : DocKey} {doc : Document} (hdoc : docs key = some doc) :
    keysValid cfg key.1 key.2 = true := by
  rw [← h.named key doc hdoc]
  exact (h.tidy key doc hdoc).keys

theorem fits_of_fileAt {look : Path → Option Bytes} {key : DocKey} {ext : Bytes} (h : fileAt cfg look key.1 key.2 ext ≠ none) :
    Fits cfg key ext := by
  by_contra hno
  rw [fileAt, show buildDocPath cfg key.1 key.2 ext = .error _ from fitPath_long hno] at h
  exact h rfl

theorem fileAt_fits {look : Path → Option Bytes} {key : DocKey} {ext : Bytes} (h : Fits cfg key ext) :
    fileAt cfg look key.1 key.2 ext = look (docPath cfg key.1 key.2 ext) :=
  fileAt_eq (fitPath_short h)

theorem Filed.fits (h : Filed cfg docs e) {key : DocKey} {doc : Document} (hdoc : docs key = some doc) :
    Fits cfg key DOC_FILE_EXT := by
  apply @fits_of_fileAt cfg e.look key DOC_FILE_EXT
  rw [h.live key (h.keys hdoc), hdoc]
  simp

theorem Filed.update (h : Filed cfg docs e) {key : DocKey} (hkeys : keysValid cfg key.1 key.2 = true)
    (hfit : Fits cfg key DOC_FILE_EXT) {doc : Option Document} (htidy : ∀ d, doc = some d → Tidy cfg d ∧ d.key = key)
    (hlook : e'.look = Function.update e.look (docPath cfg key.1 key.2 DOC_FILE_EXT) (doc.map docBytes))
    (hclean : e'.Clean) : Filed cfg (Function.update docs key doc) e' := by
  have hpath : buildDocPath cfg key.1 key.2 DOC_FILE_EXT = .ok _ := fitPath_short hfit
  refine ⟨hclean, fun key' hkeys' => ?_, fun key' d hd => ?_, fun key' d hd => ?_, fun c i => ?_⟩
  · by_cases heq : key' = key
    · subst heq
      rw [Function.update_self, fileAt_fits hfit, hlook, Function.update_self]
    · rw [Function.update_of_ne heq, ← h.live key' hkeys']
      cases hp : buildDocPath cfg key'.1 key'.2 DOC_FILE_EXT with
      | error err => rw [fileAt, fileAt, hp]
      | ok path =>
        rw [fileAt_eq hp, fileAt_eq hp, hlook, Function.update_of_ne]
        intro hsame
        obtain ⟨hc, hi⟩ := keysValid_names hkeys'
        rw [buildDocPath_eq hp] at hsame
        obtain ⟨h₁, h₂, -⟩ := docPath_injective hc hi (.inl rfl) (.inl rfl) hsame
        exact heq (Prod.ext h₁ h₂)
  · by_cases heq : key' = key
    · subst heq
      rw [Function.update_self] at hd
      exact (htidy d hd).1
    · rw [Function.update_of_ne heq] at hd
      exact h.tidy key' d hd
  · by_cases heq : key' = key
    · subst heq
      rw [Function.update_self] at hd
      exact (htidy d hd).2
    · rw [Function.update_of_ne heq] at hd
      exact h.named key' d hd
  · cases htmp : buildDocPath cfg c i DOC_TMP_EXT with
    | error err => rw [fileAt, htmp]
    | ok tmpPath =>
      have hnone := h.unstaged c i
      rw [fileAt_eq htmp] at hnone
      rw [fileAt_eq htmp, hlook, Function.update_of_ne (live_ne_staged hpath htmp).symm, hnone]

theorem fits_live {key : DocKey} (h : Fits cfg key DOC_TMP_EXT) : Fits cfg key DOC_FILE_EXT := by
  refine Nat.lt_of_le_of_lt ?_ h
  simp [docPath_eq_append, DOC_FILE_EXT, DOC_TMP_EXT]

theorem Filed.save (h : Filed cfg docs e) {doc : Document} (ht : Tidy cfg doc) :
    if Fits cfg doc.key DOC_TMP_EXT then
      outcome (saveLocked cfg doc) e = .ok () ∧
        Filed cfg (Function.update docs doc.key (some doc)) (post (saveLocked cfg doc) e)
    else outcome (saveLocked cfg doc) e = .error Status.ERR_IO ∧ Filed cfg docs (post (saveLocked cfg doc) e) := by
  have hsave := @saveLocked_clean cfg e h.clean doc
  by_cases hfit : Fits cfg doc.key DOC_TMP_EXT
  · rw [if_pos hfit] at hsave ⊢
    obtain ⟨e', hrun, hl⟩ := hsave
    refine ⟨outcome_of_run hrun, ?_⟩
    rw [post_of_run hrun]
    have hnone := h.unstaged doc.key.1 doc.key.2
    rw [fileAt_fits hfit] at hnone
    refine @Filed.update cfg docs e e' h doc.key ht.keys (fits_live hfit) (some doc) (fun d hd => ?_) ?_ (hl.clean h.clean)
    · cases hd
      exact ⟨ht, rfl⟩
    · -- the staging file was not there before
      rw [hl.look, show Function.update e.look (docPath cfg doc.collectionName doc.documentId DOC_TMP_EXT) none = e.look from
        (congrArg (Function.update e.look _) hnone.symm).trans (Function.update_eq_self _ _)]
      rfl
  · rw [if_neg hfit] at hsave ⊢
    obtain ⟨e', hrun, hl⟩ := hsave
    refine ⟨outcome_of_error hrun, ?_⟩
    rw [post_of_error hrun]
    exact h.leads hl

theorem Filed.found (h : Filed cfg docs e) {A : Cabinet} (hA : A.docs = docs) {key : DocKey}
    (hkeys : keysValid cfg key.1 key.2 = true) :
    (found cfg e.look key.1 key.2).map (Snapshot.document cfg key.1 key.2) = A.find cfg key := by
  unfold Cabinet.find
  rw [if_neg (by simp [hkeys]), hA]
  by_cases hfit : Fits cfg key DOC_FILE_EXT
  swap
  · rw [if_pos hfit]
    unfold Doc.found
    rw [show buildDocPath cfg key.1 key.2 DOC_FILE_EXT = .error _ from fitPath_long hfit]
    rfl
  rw [if_neg (not_not.mpr hfit)]
  have hlive := h.live key hkeys
  have hpath : buildDocPath cfg key.1 key.2 DOC_FILE_EXT = .ok _ := fitPath_short hfit
  rw [fileAt_fits hfit] at hlive
  cases hdoc : docs key with
  | some doc =>
    rw [hdoc] at hlive
    have ht := h.tidy key doc hdoc
    rw [found_live hpath hlive, decode_docBytes ht]
    have hname := h.named key doc hdoc
    subst hname
    exact congrArg Except.ok ht.document
  | none =>
    rw [hdoc] at hlive
    have hfound : ∀ snap, Doc.found cfg e.look key.1 key.2 ≠ .ok snap := by
      intro snap hfound
      have hst := staged_of_found hfound (by rw [fileAt_fits hfit]; exact hlive)
      rw [h.unstaged] at hst
      cases hst
    unfold Doc.found at hfound ⊢
    rw [hpath] at hfound ⊢
    dsimp only at hfound ⊢
    rw [show e.look (docPath cfg key.1 key.2 DOC_FILE_EXT) = none from hlive] at hfound ⊢
    dsimp only at hfound ⊢
    cases htmp : buildDocPath cfg key.1 key.2 DOC_TMP_EXT with
    | error err => rfl
    | ok tmpPath =>
      dsimp only
      have hnone := h.unstaged key.1 key.2
      rw [fileAt_eq htmp] at hnone
      rw [hnone]
      rfl

theorem Filed.docOpen (h : Filed cfg docs e) {A : Cabinet} (hA : A.docs = docs) (key : DocKey) :
    outcome (docOpen cfg key.1 key.2) e = A.find cfg key ∧ Filed cfg docs (post (docOpen cfg key.1 key.2) e) := by
  rw [docOpen_outcome h.clean]
  cases hkeys : keysValid cfg key.1 key.2 with
  | false =>
    rw [if_neg (by simp)]
    refine ⟨?_, ?_⟩
    · unfold Cabinet.find
      rw [if_pos hkeys]
    · rw [post_of_error (docOpen_refused hkeys)]
      exact h
  | true =>
    rw [if_pos rfl]
    refine ⟨h.found hA hkeys, ?_⟩
    have hopen := docOpen_found h.clean hkeys
    cases hfound : Doc.found cfg e.look key.1 key.2 with
    | error status =>
      simp only [hfound] at hopen
      obtain ⟨e', hrun, hticks⟩ := hopen
      rw [post_of_error hrun]
      exact h.ticks hticks
    | ok snap =>
      simp only [hfound] at hopen
      obtain ⟨e', hrun, -, hticks⟩ := hopen
      rw [post_of_run hrun]
      apply h.ticks
      apply hticks
      intro hnone
      have hst := staged_of_found hfound hnone
      rw [h.unstaged] at hst
      cases hst

theorem Filed.docDelete (h : Filed cfg docs e) {A : Cabinet} (hA : A.docs = docs) (key : DocKey) :
    outcome (docDelete cfg key.1 key.2) e = (A.delete cfg key).1 ∧
      Filed cfg (A.delete cfg key).2.docs (post (docDelete cfg key.1 key.2) e) := by
  subst hA
  unfold Cabinet.delete Cabinet.find
  cases hkeys : keysValid cfg key.1 key.2 with
  | false =>
    rw [if_pos rfl]
    exact ⟨outcome_of_error (docDelete_invalid hkeys), post_of_error (docDelete_invalid hkeys) ▸ h⟩
  | true =>
    rw [if_neg (by simp)]
    by_cases hfit : Fits cfg key DOC_FILE_EXT
    swap
    · rw [if_pos hfit]
      have hrun := @docDelete_unfit cfg e key.1 key.2 hkeys hfit
      refine ⟨outcome_of_error hrun, ?_⟩
      rw [post_of_error hrun]
      exact h
    rw [if_neg (not_not.mpr hfit)]
    have hlive := h.live key hkeys
    rw [fileAt_fits hfit] at hlive
    have hdelete := docDelete_clean h.clean hkeys hfit (h.unstaged key.1 key.2)
    cases hdoc : A.docs key with
    | none =>
      rw [hlive, hdoc] at hdelete
      obtain ⟨e', hrun, hl⟩ := hdelete
      exact ⟨outcome_of_error hrun, post_of_error hrun ▸ h.leads hl⟩
    | some doc =>
      rw [hlive, hdoc] at hdelete
      obtain ⟨e', hrun, hl⟩ := hdelete
      refine ⟨outcome_of_run hrun, ?_⟩
      rw [post_of_run hrun]
      exact h.update hkeys hfit (fun d hd => by cases hd) hl.look (hl.clean h.clean)

theorem Filed.lists (h : Filed cfg docs e) {A : Cabinet} (hA : A.docs = docs) : A.Lists (storedDocs cfg e.files) := by
  refine ⟨storedDocs_nodup, fun doc => ?_⟩
  have hopen := (h.docOpen hA doc.key).1
  rw [docOpen_outcome h.clean, show e.look = e.files.look from rfl, ← opened_eq] at hopen
  rw [mem_storedDocs, show opened cfg e.files doc.collectionName doc.documentId = _ from hopen]
  unfold Cabinet.find
  constructor
  · rintro ⟨hfind, -⟩
    split at hfind
    · cases hfind
    · split at hfind
      · cases hfind
      · split at hfind
        · cases hfind
        · rename_i doc' hdoc
          cases hfind
          exact hdoc
  · intro hdoc
    rw [hA] at hdoc
    have hkeys := h.keys hdoc
    rw [if_neg (by simp [hkeys]), if_neg (not_not.mpr (h.fits hdoc)), hA, hdoc]
    refine ⟨rfl, ?_⟩
    have hlive := h.live doc.key hkeys
    rw [hdoc] at hlive
    rw [show fileAt cfg e.files.look doc.collectionName doc.documentId DOC_FILE_EXT = _ from hlive]
    simp

theorem Filed.docQuery (h : Filed cfg docs e) {A : Cabinet} (hA : A.docs = docs) (overflow : Int64) (request : Request) :
    A.Reports cfg overflow request (outcome (docQuery cfg overflow request) e) ∧
      Filed cfg docs (post (docQuery cfg overflow request) e) := by
  refine ⟨?_, h.ticks (docQuery_ticks h.clean overflow request)⟩
  unfold Cabinet.Reports
  rw [docQuery_clean h.clean]
  by_cases hroot : (rootPath cfg).length < DOC_PATH_MAX
  · rw [if_pos hroot, show buildRootPath cfg = .ok _ from fitPath_short hroot]
    exact ⟨_, h.lists hA, rfl⟩
  · rw [if_neg hroot, show buildRootPath cfg = .error _ from fitPath_long hroot]
    rfl

end Filed

def InHand (slot : Document) : Option Document → Prop
  | none => slot.valid = false ∧ slot.fields = []
  | some doc => slot = doc

structure Shows (cfg : DocCfg) (A : Cabinet) (d : Desk) : Prop where
  filed : Filed cfg A.docs d.env
  held : ∀ h, InHand (d.handles h) (A.hands h)
  tidy : ∀ h doc, A.hands h = some doc → Tidy cfg doc

section Shows
variable {A : Cabinet} {d : Desk}

theorem Shows.at (hs : Shows cfg A d) (now : UInt64) : Shows cfg A (d.at now) :=
  ⟨⟨hs.filed.clean, hs.filed.live, hs.filed.tidy, hs.filed.named, hs.filed.unstaged⟩, hs.held, hs.tidy⟩

theorem Shows.hold (hs : Shows cfg A d) (h : Nat) {slot : Document} {doc : Option Document} {e : DocSys}
    {docs : DocKey → Option Document} (hfiled : Filed cfg docs e) (hin : InHand slot doc)
    (htidy : ∀ d, doc = some d → Tidy cfg d) :
    Shows cfg ⟨docs, Function.update A.hands h doc⟩ ⟨Function.update d.handles h slot, e⟩ := by
  refine ⟨hfiled, fun h' => ?_, fun h' d' hd' => ?_⟩
  · by_cases heq : h' = h
    · subst heq
      simpa using hin
    · simpa [Function.update_of_ne heq] using hs.held h'
  · by_cases heq : h' = h
    · subst heq
      exact htidy d' (by simpa using hd')
    · exact hs.tidy h' d' (by simpa [Function.update_of_ne heq] using hd')

theorem Shows.rehold (hs : Shows cfg A d) (h : Nat) {e : DocSys} (hfiled : Filed cfg A.docs e) :
    Shows cfg A ⟨Function.update d.handles h (d.handles h), e⟩ := by
  rw [Function.update_eq_self]
  exact ⟨hfiled, hs.held, hs.tidy⟩

theorem run_onDoc {α : Type} {m : DocM α} {h : Nat} {a : α} {t : DocSt} (hm : m.run ⟨d.handles h, d.env⟩ = .ok a t) :
    (onDoc h m).run d = .ok a ⟨Function.update d.handles h t.doc, t.env⟩ := run_zoom hm

theorem run_onDoc_error {α : Type} {m : DocM α} {h : Nat} {status : Status} {t : DocSt}
    (hm : m.run ⟨d.handles h, d.env⟩ = .error status t) :
    (onDoc h m).run d = .error status ⟨Function.update d.handles h t.doc, t.env⟩ := run_zoom_error hm

theorem inHand_closed (slot : Document) : InHand (docClose slot) none := ⟨rfl, rfl⟩

theorem takeUp_shows (hs : Shows cfg A d) (h : Nat) {m : EStateM Status DocSys Document} {r : Except Status Document}
    (hout : outcome m d.env = r) (hfiled : Filed cfg A.docs (post m d.env)) (htidy : ∀ doc, r = .ok doc → Tidy cfg doc) :
    outcome (takeUp h m) d = r.map (fun _ => ()) ∧ Shows cfg (A.hold h r.toOption) (post (takeUp h m) d) := by
  have hclose : (onDoc h (updDoc docClose)).run d = .ok () ⟨Function.update d.handles h (docClose (d.handles h)), d.env⟩ :=
    run_onDoc (run_updDoc docClose _)
  cases r with
  | ok doc =>
    have hm : (onSystem m).run ⟨Function.update d.handles h (docClose (d.handles h)), d.env⟩ = .ok doc _ :=
      run_zoom (run_of_outcome hout)
    have hrun : (takeUp h m).run d = .ok () ⟨Function.update d.handles h doc, post m d.env⟩ := by
      apply run_then hclose
      apply run_then hm
      rw [run_onDoc (run_updDoc (fun _ => doc) _)]
      dsimp only
      rw [Function.update_idem]
    rw [outcome_of_run hrun, post_of_run hrun]
    exact ⟨rfl, hs.hold h hfiled rfl fun d hd => htidy d (congrArg Except.ok (Option.some.inj hd))⟩
  | error status =>
    have hm : (onSystem m).run ⟨Function.update d.handles h (docClose (d.handles h)), d.env⟩ = .error status _ :=
      run_zoom_error (run_of_outcome_error hout)
    have hrun : (takeUp h m).run d = .error status ⟨Function.update d.handles h (docClose (d.handles h)), post m d.env⟩ :=
      run_then hclose (run_fails hm)
    rw [outcome_of_error hrun, post_of_error hrun]
    exact ⟨rfl, hs.hold h hfiled (inHand_closed _) fun d hd => by cases hd⟩

theorem create_shows (hs : Shows cfg A d) (h : Nat) (key : DocKey) :
    outcome (takeUp h (docCreate cfg key.1 key.2)) d = (A.create cfg d.env.side h key).1 ∧
      Shows cfg (A.create cfg d.env.side h key).2 (post (takeUp h (docCreate cfg key.1 key.2)) d) := by
  unfold Cabinet.create
  cases hkeys : keysValid cfg key.1 key.2 with
  | true =>
    have hrun := docCreate_fresh_run hs.filed.clean hkeys
    rw [if_pos rfl]
    refine takeUp_shows hs h (outcome_of_run hrun) ?_ fun doc hdoc => ?_
    · rw [post_of_run hrun]
      exact hs.filed.ticks (((ticks_next _).trans (ticks_next _)).trans (ticks_next _))
    · cases hdoc
      exact (docCreate_ok hrun).1
  | false =>
    have hrun := @docCreate_invalid cfg d.env key.1 key.2 hkeys
    rw [if_neg (by simp)]
    refine takeUp_shows hs h (outcome_of_error hrun) ?_ fun doc hdoc => ?_
    · rw [post_of_error hrun]
      exact hs.filed
    · cases hdoc

theorem open_shows (hs : Shows cfg A d) (h : Nat) (key : DocKey) :
    outcome (takeUp h (docOpen cfg key.1 key.2)) d = (A.openDoc cfg h key).1 ∧
      Shows cfg (A.openDoc cfg h key).2 (post (takeUp h (docOpen cfg key.1 key.2)) d) := by
  obtain ⟨hout, hfiled⟩ := hs.filed.docOpen rfl key
  have htidy : ∀ doc, A.find cfg key = .ok doc → Tidy cfg doc := by
    intro doc hfind
    unfold Cabinet.find at hfind
    split at hfind
    · cases hfind
    · split at hfind
      · cases hfind
      · split at hfind
        · cases hfind
        · rename_i doc' hdoc
          cases hfind
          exact hs.filed.tidy key _ hdoc
  have h := takeUp_shows hs h hout hfiled htidy
  unfold Cabinet.openDoc
  cases hfind : A.find cfg key with
  | ok doc =>
    rw [hfind] at h
    exact h
  | error status =>
    rw [hfind] at h
    exact h

theorem set_shows (hs : Shows cfg A d) (h : Nat) (name : CString) (value : Value) :
    outcome (onDoc h (fieldSet cfg name value)) d = (A.set cfg d.env.side h name value).1 ∧
      Shows cfg (A.set cfg d.env.side h name value).2 (post (onDoc h (fieldSet cfg name value)) d) := by
  have hin := hs.held h
  unfold Cabinet.set
  cases hhand : A.hands h with
  | none =>
    rw [hhand] at hin
    have hrun := run_onDoc_error (@fieldSet_closed cfg name value ⟨d.handles h, d.env⟩ hin.1)
    rw [outcome_of_error hrun, post_of_error hrun]
    exact ⟨rfl, hs.rehold h hs.filed⟩
  | some doc =>
    rw [hhand] at hin
    obtain rfl : d.handles h = doc := hin
    have ht := hs.tidy h _ hhand
    have hput := @fieldSet_put cfg name value ⟨d.handles h, d.env⟩ hs.filed.clean ht.valid
    dsimp only at hput ⊢
    cases hdoc : (d.handles h).put cfg d.env.side name value with
    | ok doc =>
      rw [hdoc] at hput
      obtain ⟨e, hset, hticks⟩ := hput
      have hrun := run_onDoc hset
      rw [outcome_of_run hrun, post_of_run hrun]
      refine ⟨rfl, hs.hold h (hs.filed.ticks hticks) rfl fun d hd => ?_⟩
      cases hd
      exact (fieldSet_ok hset).tidy ht
    | error status =>
      rw [hdoc] at hput
      have hrun := run_onDoc_error hput
      rw [outcome_of_error hrun, post_of_error hrun]
      exact ⟨rfl, hs.rehold h hs.filed⟩

theorem get_shows (hs : Shows cfg A d) (h : Nat) (getter : Getter) (name : CString) :
    outcome (onDoc h (fieldRead getter name)) d = A.get h getter name ∧
      Shows cfg A (post (onDoc h (fieldRead getter name)) d) := by
  have hin := hs.held h
  have hget : (fieldRead getter name).run ⟨d.handles h, d.env⟩ =
      (rethrow (getter.get (d.handles h) name) : DocM Value).run ⟨d.handles h, d.env⟩ := rfl
  have hread : getter.get (d.handles h) name = A.get h getter name := by
    unfold Cabinet.get
    cases hhand : A.hands h with
    | none =>
      rw [hhand] at hin
      rw [getter.get_eq, hin.2]
      rfl
    | some doc =>
      rw [hhand] at hin
      rw [show d.handles h = doc from hin]
  rw [hread] at hget
  cases hvalue : A.get h getter name with
  | ok v =>
    rw [hvalue] at hget
    have hrun := run_onDoc hget
    rw [outcome_of_run hrun, post_of_run hrun]
    exact ⟨rfl, hs.rehold h hs.filed⟩
  | error status =>
    rw [hvalue] at hget
    have hrun := run_onDoc_error hget
    rw [outcome_of_error hrun, post_of_error hrun]
    exact ⟨rfl, hs.rehold h hs.filed⟩

theorem docSave_run {s : DocSt} (hvalid : s.doc.valid = true) :
    (docSave cfg).run s = (onEnv (saveLocked cfg (s.doc.savedAt s.env.side))).run ⟨s.doc.savedAt s.env.side, s.env⟩ := by
  unfold docSave
  apply run_then (run_get s)
  rw [if_neg (by simp [hvalid])]
  exact run_then rfl (run_then rfl rfl)

theorem save_shows (hs : Shows cfg A d) (h : Nat) :
    outcome (onDoc h (docSave cfg)) d = (A.save cfg d.env.side h).1 ∧
      Shows cfg (A.save cfg d.env.side h).2 (post (onDoc h (docSave cfg)) d) := by
  have hin := hs.held h
  unfold Cabinet.save
  cases hhand : A.hands h with
  | none =>
    rw [hhand] at hin
    have hrefused : (docSave cfg).run ⟨d.handles h, d.env⟩ = .error .ERR_INVAL ⟨d.handles h, d.env⟩ := by
      unfold docSave
      apply run_then (run_get _)
      rw [if_pos (by simp [hin.1])]
      rfl
    have hrun := run_onDoc_error hrefused
    rw [outcome_of_error hrun, post_of_error hrun]
    exact ⟨rfl, hs.rehold h hs.filed⟩
  | some doc =>
    rw [hhand] at hin
    obtain rfl : d.handles h = doc := hin
    have ht := hs.tidy h _ hhand
    have hsaved : Tidy cfg ((d.handles h).savedAt d.env.side) := ht.savedAt _
    have hsave := hs.filed.save hsaved
    have hlocked := @docSave_run cfg ⟨d.handles h, d.env⟩ ht.valid
    dsimp only at hlocked ⊢
    by_cases hfit : Fits cfg (d.handles h).key DOC_TMP_EXT
    · rw [if_pos hfit]
      rw [if_pos (show Fits cfg ((d.handles h).savedAt d.env.side).key DOC_TMP_EXT from hfit)] at hsave
      rw [run_onEnv (run_of_outcome hsave.1)] at hlocked
      have hrun := run_onDoc hlocked
      rw [outcome_of_run hrun, post_of_run hrun]
      exact ⟨rfl, hs.hold h hsave.2 rfl fun d hd => Option.some.inj hd ▸ hsaved⟩
    · rw [if_neg hfit]
      rw [if_neg (show ¬ Fits cfg ((d.handles h).savedAt d.env.side).key DOC_TMP_EXT from hfit)] at hsave
      have hfailed : (docSave cfg).run ⟨d.handles h, d.env⟩ = .error Status.ERR_IO
          ⟨(d.handles h).savedAt d.env.side, _⟩ := hlocked.trans (run_zoom_error (run_of_outcome_error hsave.1))
      have hrun := run_onDoc_error hfailed
      rw [outcome_of_error hrun, post_of_error hrun]
      exact ⟨rfl, hs.hold h hsave.2 rfl fun d hd => Option.some.inj hd ▸ hsaved⟩

end Shows

section Runs
variable {A : Cabinet} {d : Desk} {overflow : Int64}

theorem call_shows (hs : Shows cfg A d) (overflow : Int64) (call : Call) :
    A.Gives cfg overflow d.env.side call (outcome (call.run cfg overflow) d) ∧
      Shows cfg (A.step cfg d.env.side call).2 (post (call.run cfg overflow) d) := by
  have hdone : ∀ {m : DeskM Unit} {r : Except Status Unit × Cabinet}, outcome m d = r.1 ∧ Shows cfg r.2 (post m d) →
      outcome (m >>= fun _ => pure Answer.done) d = r.1.map (fun _ => .done) ∧
        Shows cfg r.2 (post (m >>= fun _ => pure Answer.done) d) := fun ⟨hout, hpost⟩ => by
    rw [outcome_map, post_map, hout]
    exact ⟨rfl, hpost⟩
  cases call with
  | create h collectionName documentId => exact hdone (create_shows hs h (collectionName, documentId))
  | set h name value => exact hdone (set_shows hs h name value)
  | get h getter name =>
    obtain ⟨hout, hpost⟩ := get_shows hs h getter name
    unfold Call.run
    rw [outcome_map, post_map, hout]
    exact ⟨rfl, hpost⟩
  | save h => exact hdone (save_shows hs h)
  | «open» h collectionName documentId => exact hdone (open_shows hs h (collectionName, documentId))
  | close h =>
    have hrun : (onDoc h (updDoc docClose)).run d = .ok () _ := run_onDoc (run_updDoc docClose _)
    apply @hdone (onDoc h (updDoc docClose)) (.ok (), A.hold h none)
    rw [outcome_of_run hrun, post_of_run hrun]
    exact ⟨rfl, hs.hold h hs.filed (inHand_closed _) fun d hd => by cases hd⟩
  | delete collectionName documentId =>
    obtain ⟨hout, hfiled⟩ := hs.filed.docDelete rfl (collectionName, documentId)
    apply @hdone (onSystem (docDelete cfg collectionName documentId)) (A.delete cfg (collectionName, documentId))
    unfold onSystem
    rw [outcome_zoom, post_zoom]
    have hhands : (A.delete cfg (collectionName, documentId)).2.hands = A.hands := by
      unfold Cabinet.delete
      split <;> rfl
    exact ⟨hout, hfiled, fun h => hhands ▸ hs.held h, fun h doc hdoc => hs.tidy h doc (hhands ▸ hdoc)⟩
  | query request =>
    obtain ⟨hreports, hfiled⟩ := hs.filed.docQuery rfl overflow request
    refine ⟨⟨_, hreports, ?_⟩, ?_⟩
    · show (Except.ok (Answer.report (outcome (onSystem (docQuery cfg overflow request)) d)) : Except Status Answer) = _
      unfold onSystem
      rw [outcome_zoom]
    · show Shows cfg A (post (onSystem (docQuery cfg overflow request)) d)
      unfold onSystem
      rw [post_zoom]
      exact ⟨hfiled, hs.held, hs.tidy⟩
  | reboot => exact ⟨rfl, hs.filed, fun _ => ⟨rfl, rfl⟩, fun h doc hdoc => by cases hdoc⟩

theorem callAnswers_shows (hs : Shows cfg A d) (overflow : Int64) (calls : List (UInt64 × Call)) :
    A.Explains cfg overflow calls (callAnswers cfg overflow d calls) := by
  induction calls generalizing A d with
  | nil => rfl
  | cons c calls ih =>
    obtain ⟨now, call⟩ := c
    obtain ⟨hgives, hs'⟩ := call_shows (hs.at now) overflow call
    exact ⟨_, _, rfl, hgives, ih hs'⟩

theorem Shows.empty {e : DocSys} (hc : e.Clean) (hempty : e.files = ∅) : Shows cfg .empty ⟨fun _ => zeroed, e⟩ := by
  have hnone : ∀ c i ext, fileAt cfg e.look c i ext = none := fun c i ext => by
    unfold fileAt Env.look
    rw [hempty]
    split <;> rfl
  refine ⟨⟨hc, fun key _ => hnone _ _ _, fun key doc hdoc => ?_, fun key doc hdoc => ?_, fun c i => hnone c i _⟩,
    fun _ => ⟨rfl, rfl⟩, fun h doc hdoc => ?_⟩
  · cases hdoc
  · cases hdoc
  · cases hdoc

end Runs

/-- On a system where no call fails, every run of creates, setters, getters, saves, opens, closes, deletes, queries
and reboots, on any handles and from no files on, is answered as the cabinet answers it. -/
theorem answers_of_cabinet {e : DocSys} (hc : e.Clean) (hempty : e.files = ∅) (overflow : Int64)
    (calls : List (UInt64 × Call)) :
    Cabinet.empty.Explains cfg overflow calls (callAnswers cfg overflow ⟨fun _ => zeroed, e⟩ calls) :=
  callAnswers_shows (.empty hc hempty) overflow calls

/-- A document is filled and saved through one handle, and opened through another after a reboot. -/
def filledAndOpened : List (UInt64 × Call) :=
  [(5, .create 0 sampleCollection sampleName), (6, .set 0 sampleName (.int64 7)), (7, .save 0), (1, .reboot),
    (2, .open 1 sampleCollection sampleName), (3, .get 1 .i64 sampleName)]

theorem filled_answered : Cabinet.empty.Explains sampleCfg 0 filledAndOpened
    (callAnswers sampleCfg 0 ⟨fun _ => zeroed, quiet ∅⟩ filledAndOpened) :=
  answers_of_cabinet (quiet_clean ∅) rfl 0 filledAndOpened

end ZephyrDB.Doc
