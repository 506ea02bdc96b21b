import Mathlib.Data.List.Dedup
import ZephyrDB.Doc.Query

/-!
What a query reports when no call fails: the documents that the directories
list, in their order, that open and that the query admits, up to the limit and
the capacity.
-/

set_option autoImplicit false

namespace ZephyrDB.Doc

open Lib

section Listing
variable {cfg : DocCfg} {F : Files}

def collections (cfg : DocCfg) (F : Files) : List CString :=
  entryNames (F.keys.filterMap (subdirName (rootPath cfg))).dedup

def documentIds (cfg : DocCfg) (F : Files) (collectionName : CString) : List CString :=
  match buildCollectionPath cfg collectionName.val with
  | .error _ => []
  | .ok path => (entryNames (F.keys.filterMap (entryName path))).filterMap (entryId cfg)

def docKeys (cfg : DocCfg) (F : Files) : List (CString × CString) :=
  (collections cfg F).flatMap fun collectionName =>
    (documentIds cfg F collectionName).map fun documentId => (collectionName, documentId)

/-- Those of them that open. -/
def storedDocs (cfg : DocCfg) (F : Files) : List Document :=
  (docKeys cfg F).filterMap fun key => (opened cfg F key.1 key.2).toOption

theorem opened_ok {collectionName documentId : CString} {doc : Document}
    (h : opened cfg F collectionName documentId = .ok doc) :
    ∃ snap, found cfg F.look collectionName documentId = .ok snap ∧
      doc = snap.document cfg collectionName documentId := by
  rw [opened_eq] at h
  split at h
  · cases hfound : found cfg F.look collectionName documentId with
    | ok snap =>
      rw [hfound] at h
      exact ⟨snap, rfl, (Except.ok.inj h).symm⟩
    | error status =>
      rw [hfound] at h
      cases h
  · cases h

theorem opened_keys {collectionName documentId : CString} {doc : Document}
    (h : opened cfg F collectionName documentId = .ok doc) : keysValid cfg collectionName documentId = true := by
  rw [opened_eq] at h
  split at h
  · assumption
  · cases h

theorem mem_entryNames {names : List Bytes} {name : CString} : name ∈ entryNames names ↔ name.val ∈ names := by
  unfold entryNames
  rw [List.mem_filterMap]
  constructor
  · rintro ⟨bs, hbs, h⟩
    split at h
    · cases h
      exact hbs
    · cases h
  · intro h
    exact ⟨name.val, h, by rw [dif_pos name.property]⟩

theorem entryNames_nodup {names : List Bytes} (h : names.Nodup) : (entryNames names).Nodup := by
  apply h.filterMap
  intro bs bs' name hb hb'
  split at hb
  · split at hb'
    · cases hb
      cases hb'
      rfl
    · cases hb'
  · cases hb

theorem entryId_eq_some {name documentId : CString} :
    entryId cfg name = some documentId ↔
      name.val = documentId.val ++ DOC_FILE_EXT ∧ documentId.val ≠ [] ∧ documentId.val.length ≤ cfg.maxKeyLen := by
  unfold entryId
  constructor
  · intro h
    split at h
    · cases h
    rename_i bs hstrip
    split at h
    · cases h
    rename_i hlen
    obtain ⟨hname, hne⟩ := stripExt_eq_some.mp hstrip
    have hnul : (0 : UInt8) ∉ bs := fun hm => name.property (hname ▸ List.mem_append_left _ hm)
    have hid : documentId = ⟨bs, hnul⟩ := by
      rw [← Option.some.inj h]
      exact CString.ofBytes_val ⟨bs, hnul⟩
    subst hid
    exact ⟨hname, hne, Nat.le_of_not_lt hlen⟩
  · rintro ⟨hname, hne, hlen⟩
    rw [stripExt_eq_some.mpr ⟨hname, hne⟩]
    dsimp only
    rw [if_neg (by omega), CString.ofBytes_val]

theorem mem_documentIds {collectionName documentId : CString} : documentId ∈ documentIds cfg F collectionName ↔
    (∃ path, buildCollectionPath cfg collectionName.val = .ok path) ∧
      F.look (docPath cfg collectionName documentId DOC_FILE_EXT) ≠ none ∧ documentId.val ≠ [] ∧
      (47 : UInt8) ∉ documentId.val ∧ documentId.val.length ≤ cfg.maxKeyLen := by
  unfold documentIds
  cases hpath : buildCollectionPath cfg collectionName.val with
  | error err => simp
  | ok path =>
    have hcoll : path = collectionPath cfg collectionName.val := by
      unfold buildCollectionPath fitPath at hpath
      split at hpath
      · cases hpath
      · exact (Except.ok.inj hpath).symm
    subst hcoll
    have hkey : ∀ {name : Bytes}, name ∈ F.keys.filterMap (entryName (collectionPath cfg collectionName.val)) ↔
        F.look (collectionPath cfg collectionName.val ++ 47 :: name) ≠ none ∧ name ≠ [] ∧ (47 : UInt8) ∉ name := by
      intro name
      rw [List.mem_filterMap]
      constructor
      · rintro ⟨p, hp, hname⟩
        obtain ⟨rfl, hne, hslash⟩ := entryName_eq_some.mp hname
        exact ⟨Option.isSome_iff_ne_none.mp (Files.mem_keys.mp hp), hne, hslash⟩
      · rintro ⟨hp, hne, hslash⟩
        exact ⟨_, Files.mem_keys.mpr (Option.isSome_iff_ne_none.mpr hp), entryName_eq_some.mpr ⟨rfl, hne, hslash⟩⟩
    dsimp only
    rw [List.mem_filterMap]
    constructor
    · rintro ⟨name, hname, hid⟩
      obtain ⟨hval, hne, hlen⟩ := entryId_eq_some.mp hid
      obtain ⟨hp, -, hslash⟩ := hkey.mp (mem_entryNames.mp hname)
      rw [hval] at hp hslash
      exact ⟨⟨_, rfl⟩, hp, hne, fun hm => hslash (List.mem_append_left _ hm), hlen⟩
    · rintro ⟨-, hp, hne, hslash, hlen⟩
      have hnul : (0 : UInt8) ∉ documentId.val ++ DOC_FILE_EXT := by
        rw [List.mem_append, not_or]
        exact ⟨documentId.property, by decide⟩
      refine ⟨⟨documentId.val ++ DOC_FILE_EXT, hnul⟩, mem_entryNames.mpr (hkey.mpr ⟨hp, ?_, ?_⟩),
        entryId_eq_some.mpr ⟨rfl, hne, hlen⟩⟩
      · exact fun hnil => hne (List.append_eq_nil_iff.mp hnil).1
      · rw [List.mem_append, not_or]
        exact ⟨hslash, by decide⟩

theorem documentIds_nodup (collectionName : CString) : (documentIds cfg F collectionName).Nodup := by
  unfold documentIds
  split
  · exact List.nodup_nil
  · refine (entryNames_nodup (F.keys_nodup.filterMap fun p p' name hp hp' => ?_)).filterMap
      fun name name' id hid hid' => ?_
    · rw [(entryName_eq_some.mp hp).1, (entryName_eq_some.mp hp').1]
    · exact Subtype.ext ((entryId_eq_some.mp hid).1.trans (entryId_eq_some.mp hid').1.symm)

theorem docKeys_nodup : (docKeys cfg F).Nodup := by
  unfold docKeys
  rw [List.nodup_flatMap]
  refine ⟨fun c _ => (documentIds_nodup c).map fun i i' h => (Prod.mk.inj h).2, ?_⟩
  refine (entryNames_nodup (List.nodup_dedup _)).imp fun hne => ?_
  intro key hkey hkey'
  obtain ⟨i, -, rfl⟩ := List.mem_map.mp hkey
  obtain ⟨i', -, heq⟩ := List.mem_map.mp hkey'
  exact hne (Prod.mk.inj heq).1.symm

theorem mem_collections {collectionName : CString} {rest : Bytes} (hname : nameValid collectionName = true)
    (h : F.look (collectionPath cfg collectionName.val ++ 47 :: rest) ≠ none) : collectionName ∈ collections cfg F := by
  have hne : collectionName.val ≠ [] := by
    intro hnil
    rw [nameValid, hnil] at hname
    cases hname
  unfold collections
  rw [mem_entryNames, List.mem_dedup, List.mem_filterMap]
  refine ⟨_, Files.mem_keys.mpr (Option.isSome_iff_ne_none.mpr h), ?_⟩
  have := @subdirName_inside (rootPath cfg) _ rest hne (slash_not_mem hname)
  rwa [show rootPath cfg ++ 47 :: (collectionName.val ++ 47 :: rest) =
    collectionPath cfg collectionName.val ++ 47 :: rest by simp [collectionPath]] at this

theorem buildDocPath_fits {collectionName documentId : CString} {ext : Bytes} {path : Path}
    (h : buildDocPath cfg collectionName documentId ext = .ok path) :
    (docPath cfg collectionName documentId ext).length < DOC_PATH_MAX := by
  unfold buildDocPath fitPath at h
  split at h
  · cases h
  · omega

theorem dirs_fit {collectionName documentId : CString} {ext : Bytes} {path : Path}
    (h : buildDocPath cfg collectionName documentId ext = .ok path) :
    buildRootPath cfg = .ok (rootPath cfg) ∧
      buildCollectionPath cfg collectionName.val = .ok (collectionPath cfg collectionName.val) := by
  have hfit := buildDocPath_fits h
  simp only [docPath, collectionPath, List.length_append, List.length_cons] at hfit
  constructor
  · rw [buildRootPath, fitPath, if_neg (by omega)]
  · rw [buildCollectionPath, fitPath, if_neg (by
      simp only [collectionPath, List.length_append, List.length_cons]
      omega)]

theorem mem_storedDocs {doc : Document} : doc ∈ storedDocs cfg F ↔
    opened cfg F doc.collectionName doc.documentId = .ok doc ∧
      fileAt cfg F.look doc.collectionName doc.documentId DOC_FILE_EXT ≠ none := by
  unfold storedDocs
  rw [List.mem_filterMap]
  constructor
  · rintro ⟨⟨c, i⟩, hkey, hopen⟩
    have hopen : opened cfg F c i = .ok doc := by
      cases ho : opened cfg F c i with
      | ok d =>
        rw [ho] at hopen
        exact congrArg Except.ok (Option.some.inj hopen)
      | error status =>
        rw [ho] at hopen
        cases hopen
    obtain ⟨snap, hfound, hdoc⟩ := opened_ok hopen
    subst hdoc
    refine ⟨hopen, ?_⟩
    obtain ⟨c', -, hmem⟩ := List.mem_flatMap.mp hkey
    obtain ⟨i', hi, heq⟩ := List.mem_map.mp hmem
    obtain ⟨rfl, rfl⟩ := Prod.mk.inj heq
    show fileAt cfg F.look c' i' DOC_FILE_EXT ≠ none
    cases hpath : buildDocPath cfg c' i' DOC_FILE_EXT with
    | error err =>
      rw [found, hpath] at hfound
      cases hfound
    | ok path =>
      rw [fileAt_eq hpath, buildDocPath_eq hpath]
      exact (mem_documentIds.mp hi).2.1
  · rintro ⟨hopen, hlive⟩
    refine ⟨(doc.collectionName, doc.documentId), ?_, by rw [hopen]; rfl⟩
    have hkeys := opened_keys hopen
    obtain ⟨hcoll, hid⟩ := keysValid_names hkeys
    cases hpath : buildDocPath cfg doc.collectionName doc.documentId DOC_FILE_EXT with
    | error err =>
      rw [fileAt, hpath] at hlive
      exact absurd rfl hlive
    | ok path =>
      rw [fileAt_eq hpath, buildDocPath_eq hpath] at hlive
      refine List.mem_flatMap.mpr ⟨doc.collectionName, mem_collections hcoll hlive, List.mem_map.mpr ⟨_, ?_, rfl⟩⟩
      refine mem_documentIds.mpr ⟨⟨_, (dirs_fit hpath).2⟩, hlive, ?_, slash_not_mem hid, ?_⟩
      · intro hnil
        rw [nameValid, hnil] at hid
        cases hid
      · simp only [keysValid, Bool.and_eq_true, decide_eq_true_eq] at hkeys
        exact hkeys.1.1.2

theorem storedDocs_nodup : (storedDocs cfg F).Nodup := by
  apply docKeys_nodup.filterMap
  intro key key' doc hdoc hdoc'
  have hkey : ∀ {key : CString × CString}, doc ∈ (opened cfg F key.1 key.2).toOption →
      key = (doc.collectionName, doc.documentId) := fun {key} h => by
    cases ho : opened cfg F key.1 key.2 with
    | ok d =>
      rw [ho] at h
      cases h
      obtain ⟨snap, -, rfl⟩ := opened_ok ho
      rfl
    | error status =>
      rw [ho] at h
      cases h
  rw [hkey hdoc, hkey hdoc']

end Listing

section Staged
variable {cfg : DocCfg} {look : Path → Option Bytes} {F : Files} {collectionName documentId : CString}

theorem staged_of_found {snap : Snapshot} (hfound : found cfg look collectionName documentId = .ok snap)
    (hnone : fileAt cfg look collectionName documentId DOC_FILE_EXT = none) :
    stored cfg (fileAt cfg look collectionName documentId DOC_TMP_EXT) = .ok snap := by
  cases hlive : buildDocPath cfg collectionName documentId DOC_FILE_EXT with
  | error err =>
    rw [found, hlive] at hfound
    cases hfound
  | ok path =>
    rw [fileAt_eq hlive] at hnone
    cases hstaged : buildDocPath cfg collectionName documentId DOC_TMP_EXT with
    | error err =>
      unfold found at hfound
      rw [hlive] at hfound
      dsimp only at hfound
      rw [hnone, hstaged] at hfound
      cases hfound
    | ok tmpPath =>
      rw [found_staged ⟨hlive, hstaged⟩ hnone] at hfound
      rw [fileAt_eq hstaged]
      cases hst : stored cfg (look tmpPath) with
      | ok snap' =>
        rw [hst] at hfound
        exact hfound
      | error status =>
        rw [hst] at hfound
        cases hfound

end Staged

/-- A document that a query admits: its time lies in the window, and every filter matches a field. -/
structure Query.Admits (overflow : Int64) (query : Query) (doc : Document) : Prop where
  fromMs : query.fromMs = 0 ∨ query.fromMs ≤ doc.updatedMs
  toMs : query.toMs = 0 ∨ doc.updatedMs ≤ query.toMs
  listed : query.filters = none → query.filterCount = 0
  filters : ∀ list, query.filters = some list → ∀ filter ∈ list, ∃ field ∈ doc.fields,
    fieldFilterMatch overflow field filter = true

theorem docMatchesQuery_iff {overflow : Int64} {doc : Document} {query : Query} :
    docMatchesQuery overflow doc query = true ↔ query.Admits overflow doc := by
  unfold docMatchesQuery
  constructor
  · intro h
    split at h
    · cases h
    rename_i hfrom
    split at h
    · cases h
    rename_i hto
    refine ⟨?_, ?_, fun hnone => ?_, fun list hlist filter hfilter => ?_⟩
    · simpa [Classical.or_iff_not_imp_left] using hfrom
    · simpa [Classical.or_iff_not_imp_left] using hto
    · rw [hnone] at h
      exact of_decide_eq_true h
    · rw [hlist] at h
      exact List.any_eq_true.mp (List.all_eq_true.mp h filter hfilter)
  · rintro ⟨hfrom, hto, hlisted, hfilters⟩
    rw [if_neg (by simpa [Classical.or_iff_not_imp_left] using hfrom),
      if_neg (by simpa [Classical.or_iff_not_imp_left] using hto)]
    cases hlist : query.filters with
    | none => exact decide_eq_true (hlisted hlist)
    | some list =>
      exact List.all_eq_true.mpr fun filter hfilter => List.any_eq_true.mpr (hfilters list hlist filter hfilter)

instance (overflow : Int64) (query : Query) (doc : Document) : Decidable (query.Admits overflow doc) :=
  decidable_of_iff _ docMatchesQuery_iff

/-- The entry that reports a document. -/
def Document.entry (doc : Document) : Metadata := doc.metadata doc.collectionName doc.documentId

/-- Whether entries are written at all. -/
def Request.reports (request : Request) : Bool := request.array && 0 < request.capacity

def Request.bound (request : Request) : Nat :=
  if request.reports then min request.capacity request.limit else request.limit

structure Met (request : Request) (docs : List Document) (scan : Scan) : Prop where
  matched : scan.matched = (docs.take request.bound).length
  metadata : scan.metadata = if request.reports then (docs.take request.bound).map Document.entry else []
  stop : scan.stop = (request.reports && request.capacity ≤ scan.matched)

section Scan
variable {cfg : DocCfg} {overflow : Int64} {request : Request} {docs : List Document} {scan : Scan}

theorem met_start : Met request [] ⟨0, [], false⟩ := by
  refine ⟨by simp, by simp, ?_⟩
  unfold Request.reports
  cases request.array
  · rfl
  · simp
    omega

theorem Met.goesOn (h : Met request docs scan) : scan.goesOn request = true ↔ docs.length < request.bound := by
  have hmatched := h.matched
  rw [List.length_take] at hmatched
  unfold Scan.goesOn
  rw [h.stop, hmatched]
  unfold Request.bound
  cases request.reports
  · simp
  · simp
    omega

theorem Met.past (h : Met request docs scan) (hstop : ¬ scan.goesOn request = true) (more : List Document) :
    Met request (docs ++ more) scan := by
  have hle : request.bound ≤ docs.length := Nat.le_of_not_lt fun hlt => hstop (h.goesOn.mpr hlt)
  have htake : (docs ++ more).take request.bound = docs.take request.bound := List.take_append_of_le_length hle
  exact ⟨by rw [htake, h.matched], by rw [htake, h.metadata], h.stop⟩

def broughtBy (overflow : Int64) (request : Request) (found : Except Status Document) : List Document :=
  found.toOption.toList.filter fun doc => request.query.Admits overflow doc

theorem Met.more (h : Met request docs scan) (hroom : docs.length < request.bound) (doc : Document) {metadata : List Metadata}
    (hmeta : metadata = if request.reports then scan.metadata ++ [doc.entry] else scan.metadata) :
    Met request (docs ++ [doc])
      ⟨scan.matched + 1, metadata, request.reports && request.capacity ≤ scan.matched + 1⟩ := by
  have htake : docs.take request.bound = docs := List.take_of_length_le (by omega)
  have htake' : (docs ++ [doc]).take request.bound = docs ++ [doc] :=
    List.take_of_length_le (by rw [List.length_append, List.length_singleton]; omega)
  have hmatched := h.matched
  have hentries := h.metadata
  rw [htake] at hmatched hentries
  refine ⟨by rw [htake', List.length_append, List.length_singleton, hmatched], ?_, rfl⟩
  rw [htake', hmeta, hentries, List.map_append]
  cases request.reports <;> rfl

theorem Met.written_length (h : Met request docs scan) (hr : request.reports = true) :
    scan.metadata.length = scan.matched := by
  rw [h.metadata, if_pos hr, h.matched, List.length_map]

theorem scanDoc_met {e : DocSys} (hc : e.Clean) (h : Met request docs scan) (hroom : scan.goesOn request = true)
    {collectionName documentId : CString}
    (hlive : e.look (docPath cfg collectionName documentId DOC_FILE_EXT) ≠ none) :
    ∃ scan' e', (scanDoc cfg overflow request collectionName documentId scan).run e = .ok scan' e' ∧ Ticks e e' ∧
      Met request (docs ++ broughtBy overflow request (opened cfg e.files collectionName documentId)) scan' := by
  have hroom := h.goesOn.mp hroom
  have hskip : ∀ {r : Except Status Document} {e' : DocSys}, Ticks e e' →
      (attempt (docOpen cfg collectionName documentId) : ScanM (Except Status Document)).run e = .ok r e' →
      broughtBy overflow request r = [] → opened cfg e.files collectionName documentId = r →
      ∃ scan' e', (scanDoc cfg overflow request collectionName documentId scan).run e = .ok scan' e' ∧ Ticks e e' ∧
        Met request (docs ++ broughtBy overflow request (opened cfg e.files collectionName documentId)) scan' := by
    intro r e' hticks hrun hnone hopened
    rw [hopened, hnone, List.append_nil]
    refine ⟨scan, e', run_then hrun ?_, hticks, h⟩
    cases r with
    | error status => rfl
    | ok doc =>
      have hno : ¬ docMatchesQuery overflow doc request.query = true := by
        intro hm
        have hadmits := docMatchesQuery_iff.mp hm
        simp [broughtBy, Except.toOption, hadmits] at hnone
      dsimp only
      rw [if_pos (by simp [hno])]
      rfl
  cases hkeys : keysValid cfg collectionName documentId with
  | false =>
    apply hskip (Ticks.refl e) (run_attempt_error (docOpen_refused hkeys)) rfl
    rw [opened_eq, if_neg (by simp [hkeys])]
  | true =>
    have hopen := docOpen_found hc hkeys
    have hopened := @opened_eq cfg e.files collectionName documentId
    rw [if_pos hkeys] at hopened
    cases hfound : found cfg e.look collectionName documentId with
    | error status =>
      simp only [hfound] at hopen
      obtain ⟨e', hrun, hticks⟩ := hopen
      apply hskip hticks (run_attempt_error hrun) rfl
      rw [hopened, show found cfg e.files.look collectionName documentId = _ from hfound]
      rfl
    | ok snap =>
      simp only [hfound] at hopen
      obtain ⟨e', hrun, -, hlive'⟩ := hopen
      have hticks : Ticks e e' := by
        apply hlive'
        cases hpath : buildDocPath cfg collectionName documentId DOC_FILE_EXT with
        | error err =>
          rw [found, hpath] at hfound
          cases hfound
        | ok path => rwa [fileAt_eq hpath, buildDocPath_eq hpath]
      obtain ⟨doc, hdoc⟩ : ∃ doc, doc = snap.document cfg collectionName documentId := ⟨_, rfl⟩
      have hopened : opened cfg e.files collectionName documentId = .ok doc := by
        rw [hopened, show found cfg e.files.look collectionName documentId = _ from hfound, hdoc]
        rfl
      rw [← hdoc] at hrun
      have hentry : doc.metadata collectionName documentId = doc.entry := by
        rw [hdoc]
        rfl
      by_cases hm : docMatchesQuery overflow doc request.query = true
      swap
      · refine hskip hticks (run_attempt_ok hrun) ?_ hopened
        have hno : ¬ request.query.Admits overflow doc := fun hadmits => hm (docMatchesQuery_iff.mpr hadmits)
        simp [broughtBy, Except.toOption, hno]
      · have hbrought : broughtBy overflow request (opened cfg e.files collectionName documentId) = [doc] := by
          rw [hopened]
          simp [broughtBy, Except.toOption, docMatchesQuery_iff.mp hm]
        rw [hbrought]
        have hclean := hticks.clean hc
        have hbody : ¬ (!docMatchesQuery overflow doc request.query) = true := by simp [hm]
        by_cases hr : request.reports = true
        · have hlen := h.written_length hr
          have hwrite : (request.array && scan.metadata.length < request.capacity) = true := by
            have hcap : docs.length < request.capacity := by
              unfold Request.bound at hroom
              rw [if_pos hr] at hroom
              omega
            have hmatched := h.matched
            rw [List.length_take] at hmatched
            simp only [Request.reports, Bool.and_eq_true, decide_eq_true_eq] at hr ⊢
            exact ⟨hr.1, by omega⟩
          refine ⟨_, e'.next.next, run_then (run_attempt_ok hrun) ?_,
            (hticks.trans (ticks_next _)).trans (ticks_next _), h.more hroom doc (if_pos hr).symm⟩
          dsimp only
          rw [if_neg hbody, if_pos hwrite]
          refine run_then (run_adapt (run_kMalloc hclean)) (run_then (run_adapt (run_kMalloc (e := e'.next) hclean)) ?_)
          rw [hentry, hr, Bool.true_and, List.length_append, List.length_singleton, hlen]
          rfl
        · have hcount : ¬ (request.array && scan.metadata.length < request.capacity) = true := by
            rw [h.metadata, if_neg hr]
            exact hr
          refine ⟨_, e', run_then (run_attempt_ok hrun) ?_, hticks, h.more hroom doc (if_neg hr).symm⟩
          dsimp only
          rw [if_neg hbody, if_neg hcount]
          have hstop : scan.stop = (request.reports && request.capacity ≤ scan.matched + 1) := by
            rw [h.stop]
            simp [hr]
          rw [← hstop]
          rfl

def broughtByAll (cfg : DocCfg) (overflow : Int64) (request : Request) (F : Files) (keys : List (CString × CString)) :
    List Document :=
  keys.flatMap fun key => broughtBy overflow request (opened cfg F key.1 key.2)

theorem scanDocs_met {collectionName : CString} {path : Path}
    (hpath : path = collectionPath cfg collectionName.val) (names : List CString) {e : DocSys} (hc : e.Clean)
    (hnames : ∀ name ∈ names, e.look (path ++ 47 :: name.val) ≠ none) (h : Met request docs scan) :
    ∃ scan' e', (scanDocs cfg overflow request collectionName names scan).run e = .ok scan' e' ∧ Ticks e e' ∧
      Met request (docs ++ broughtByAll cfg overflow request e.files
        ((names.filterMap (entryId cfg)).map fun documentId => (collectionName, documentId))) scan' := by
  induction names generalizing e docs scan with
  | nil => exact ⟨scan, e, rfl, Ticks.refl e, by simpa [broughtByAll] using h⟩
  | cons name names ih =>
    have htail := fun n hn => hnames n (List.mem_cons_of_mem _ hn)
    unfold scanDocs
    by_cases hroom : scan.goesOn request = true
    swap
    · rw [if_pos (by simpa using hroom)]
      exact ⟨scan, e, rfl, Ticks.refl e, h.past hroom _⟩
    rw [if_neg (by simpa using hroom)]
    cases hid : entryId cfg name with
    | none =>
      rw [List.filterMap_cons_none hid]
      exact ih hc htail h
    | some documentId =>
      have hlive : e.look (docPath cfg collectionName documentId DOC_FILE_EXT) ≠ none := by
        have := hnames name List.mem_cons_self
        rwa [(entryId_eq_some.mp hid).1, hpath] at this
      obtain ⟨scan₁, e₁, hrun₁, hticks₁, hmet₁⟩ := @scanDoc_met cfg overflow request docs scan e hc h hroom _ _ hlive
      obtain ⟨scan₂, e₂, hrun₂, hticks₂, hmet₂⟩ := ih (hticks₁.clean hc) (fun n hn => by
        rw [hticks₁.look]
        exact htail n hn) hmet₁
      refine ⟨scan₂, e₂, run_then hrun₁ hrun₂, hticks₁.trans hticks₂, ?_⟩
      rw [hticks₁.files, List.append_assoc] at hmet₂
      rw [List.filterMap_cons_some hid]
      exact hmet₂

theorem fsList_ticks {e : DocSys} (hc : e.Clean) (dir : Path) :
    (fsList dir).run e = .ok (e.files.keys.filterMap (entryName dir)) e.next := by
  show fsList dir e = _
  simp [fsList, Env.fault, hc e.tick]

theorem fsListDirs_ticks {e : DocSys} (hc : e.Clean) (dir : Path) :
    (fsListDirs dir).run e = .ok (e.files.keys.filterMap (subdirName dir)).dedup e.next := by
  show fsListDirs dir e = _
  simp [fsListDirs, Env.fault, hc e.tick]

theorem scanCollections_met (names : List CString) {e : DocSys} (hc : e.Clean) (h : Met request docs scan) :
    ∃ scan' e', (scanCollections cfg overflow request names scan).run e = .ok scan' e' ∧ Ticks e e' ∧
      Met request (docs ++ broughtByAll cfg overflow request e.files (names.flatMap fun collectionName =>
        (documentIds cfg e.files collectionName).map fun documentId => (collectionName, documentId))) scan' := by
  induction names generalizing e docs scan with
  | nil => exact ⟨scan, e, rfl, Ticks.refl e, by simpa [broughtByAll] using h⟩
  | cons collectionName names ih =>
    unfold scanCollections
    by_cases hroom : scan.goesOn request = true
    swap
    · rw [if_pos (by simpa using hroom)]
      exact ⟨scan, e, rfl, Ticks.refl e, h.past hroom _⟩
    rw [if_neg (by simpa using hroom), List.flatMap_cons]
    unfold broughtByAll
    rw [List.flatMap_append]
    cases hpath : buildCollectionPath cfg collectionName.val with
    | error err =>
      have hnone : documentIds cfg e.files collectionName = [] := by
        unfold documentIds
        rw [hpath]
      rw [hnone]
      exact ih hc h
    | ok path =>
      have hids : documentIds cfg e.files collectionName =
          (entryNames (e.files.keys.filterMap (entryName path))).filterMap (entryId cfg) := by
        unfold documentIds
        rw [hpath]
      have hnames : ∀ name ∈ entryNames (e.files.keys.filterMap (entryName path)),
          e.next.look (path ++ 47 :: name.val) ≠ none := by
        intro name hname
        obtain ⟨p, hp, hentry⟩ := List.mem_filterMap.mp (mem_entryNames.mp hname)
        obtain ⟨rfl, -, -⟩ := entryName_eq_some.mp hentry
        exact Option.isSome_iff_ne_none.mp (Files.mem_keys.mp hp)
      have hbuilt : path = collectionPath cfg collectionName.val := by
        unfold buildCollectionPath fitPath at hpath
        split at hpath
        · cases hpath
        · exact (Except.ok.inj hpath).symm
      obtain ⟨scan₁, e₁, hrun₁, hticks₁, hmet₁⟩ :=
        @scanDocs_met cfg overflow request docs scan collectionName path hbuilt _ e.next hc hnames h
      obtain ⟨scan₂, e₂, hrun₂, hticks₂, hmet₂⟩ := ih (hticks₁.clean hc) hmet₁
      refine ⟨scan₂, e₂, run_then (run_attempt_ok (fsList_ticks hc path)) (run_then hrun₁ hrun₂),
        ((ticks_next e).trans hticks₁).trans hticks₂, ?_⟩
      rw [hticks₁.files, List.append_assoc] at hmet₂
      rw [hids]
      exact hmet₂

theorem brought_stored {F : Files} : broughtByAll cfg overflow request F (docKeys cfg F) =
    (storedDocs cfg F).filter fun doc => request.query.Admits overflow doc := by
  unfold broughtByAll storedDocs
  induction docKeys cfg F with
  | nil => rfl
  | cons key keys ih =>
    rw [List.flatMap_cons, ih]
    unfold broughtBy
    cases ho : opened cfg F key.1 key.2 with
    | ok doc => rw [List.filterMap_cons_some (by rw [ho]; rfl), List.filter_cons]
                simp only [Except.toOption, Option.toList_some, List.filter_cons, List.filter_nil]
                split <;> rfl
    | error status => rw [List.filterMap_cons_none (by rw [ho]; rfl)]; rfl

/-- What `zdb_doc_query` reports of these documents. -/
def Request.answer (request : Request) (docs : List Document) : Nat × List Metadata :=
  ((docs.take request.bound).length, if request.reports then (docs.take request.bound).map Document.entry else [])

theorem docQuery_clean {e : DocSys} (hc : e.Clean) : outcome (docQuery cfg overflow request) e =
    match buildRootPath cfg with
    | .error err => .error (statusFromErrno err, request.capacity)
    | .ok _ => .ok (request.answer ((storedDocs cfg e.files).filter fun doc => request.query.Admits overflow doc)) := by
  unfold docQuery
  cases hroot : buildRootPath cfg with
  | error err => rfl
  | ok root =>
    have hbuilt : root = rootPath cfg := by
      unfold buildRootPath fitPath at hroot
      split at hroot
      · cases hroot
      · exact (Except.ok.inj hroot).symm
    subst hbuilt
    obtain ⟨scan, e', hrun, -, hmet⟩ := @scanCollections_met cfg overflow request [] ⟨0, [], false⟩
      (collections cfg e.files) e.next hc met_start
    rw [List.nil_append, Env.next_files] at hmet
    have hdocs := @brought_stored cfg overflow request e.files
    unfold docKeys at hdocs
    rw [hdocs] at hmet
    obtain ⟨docs, hdocs⟩ : ∃ docs, docs = (storedDocs cfg e.files).filter fun doc => request.query.Admits overflow doc :=
      ⟨_, rfl⟩
    rw [← hdocs] at hmet
    dsimp only
    rw [← hdocs]
    refine outcome_of_run (t := e') (run_then (run_attempt_ok (fsListDirs_ticks hc _)) (run_then (run_attempt_ok hrun) ?_))
    have hcount : (if !request.array || request.capacity = 0 then scan.matched else scan.metadata.length) =
        (docs.take request.bound).length := by
      split
      · exact hmet.matched
      · rename_i hwritten
        have hr : request.reports = true := by
          simp only [Bool.or_eq_true, Bool.not_eq_true', decide_eq_true_eq, not_or, Bool.not_eq_false] at hwritten
          simp only [Request.reports, Bool.and_eq_true, decide_eq_true_eq]
          exact ⟨hwritten.1, Nat.pos_of_ne_zero hwritten.2⟩
        rw [hmet.written_length hr, hmet.matched]
    dsimp only
    rw [hcount, hmet.metadata]
    rfl

end Scan

/-- The documents up to the limit of a query. -/
def Query.capped (query : Query) (docs : List Document) : List Document :=
  if query.limit = 0 then docs else docs.take query.limit.toNat

end ZephyrDB.Doc
