import ZephyrDB.Doc.QuerySpec

/-!
Opens and queries do not agree on what exists: an open takes up a complete
staged file where no live one stands, and a query goes by the live files.
-/

set_option autoImplicit false

namespace ZephyrDB.Doc

open Lib

theorem unfiltered_count (list : List Filter) (h : none = some list) : 0 = list.length := by
  cases h

def everything : Query := ⟨none, 0, unfiltered_count, 0, 0, 0⟩

/-- A query for every document reports this one, into an array that is large enough. -/
def Reported (cfg : DocCfg) (overflow : Int64) (F : Files) (collectionName documentId : CString) : Prop :=
  ∃ capacity answer, outcome (docQuery cfg overflow ⟨everything, true, capacity⟩) (quiet F) = .ok answer ∧
    ∃ metadata ∈ answer.2, metadata.collectionName = collectionName ∧ metadata.documentId = documentId

/-- A document that comes after `UINT32_MAX` others on the list. -/
def Cropped (cfg : DocCfg) (F : Files) (collectionName documentId : CString) : Prop :=
  ∃ doc ∈ (storedDocs cfg F).drop (2 ^ 32 - 1), doc.collectionName = collectionName ∧ doc.documentId = documentId

section Reported
variable {cfg : DocCfg} {overflow : Int64} {F : Files} {collectionName documentId : CString}

theorem admits_everything (doc : Document) : everything.Admits overflow doc :=
  ⟨.inl rfl, .inl rfl, fun _ => rfl, nofun⟩

theorem reported_of_list : Reported cfg overflow F collectionName documentId ↔
    ∃ doc ∈ (storedDocs cfg F).take (2 ^ 32 - 1),
      doc.collectionName = collectionName ∧ doc.documentId = documentId := by
  have hquery : ∀ {request : Request}, request.query = everything → ∀ {built}, buildRootPath cfg = built →
      outcome (docQuery cfg overflow request) (quiet F) =
        (built.mapError fun err => (statusFromErrno err, request.capacity)).map
          fun _ => request.answer (storedDocs cfg F) := fun {request} hq {built} hbuilt => by
    have hall : (storedDocs cfg F).filter (fun doc => request.query.Admits overflow doc) = storedDocs cfg F :=
      List.filter_eq_self.mpr fun doc _ => decide_eq_true (hq ▸ admits_everything doc)
    have hclean := @docQuery_clean cfg overflow request _ (quiet_clean F)
    rw [show (quiet F).files = F from rfl, hall, hbuilt] at hclean
    exact hclean.trans (by cases built <;> rfl)
  constructor
  · rintro ⟨capacity, answer, hanswer, metadata, hmem, hc, hi⟩
    cases hroot : buildRootPath cfg with
    | error err =>
      rw [hquery rfl hroot] at hanswer
      cases hanswer
    | ok root =>
      rw [hquery rfl hroot] at hanswer
      rw [← Except.ok.inj hanswer] at hmem
      unfold Request.answer at hmem
      dsimp only at hmem
      split at hmem
      · rename_i hr
        obtain ⟨doc, hdoc, rfl⟩ := List.mem_map.mp hmem
        refine ⟨doc, ?_, hc, hi⟩
        unfold Request.bound at hdoc
        rw [if_pos hr, ← List.take_take] at hdoc
        exact List.mem_of_mem_take hdoc
      · cases hmem
  · rintro ⟨doc, hdoc, hc, hi⟩
    obtain ⟨hopen, hlive⟩ := mem_storedDocs.mp (List.mem_of_mem_take hdoc)
    obtain ⟨root, hroot⟩ : ∃ root, buildRootPath cfg = .ok root := by
      cases hpath : buildDocPath cfg doc.collectionName doc.documentId DOC_FILE_EXT with
      | error err =>
        rw [fileAt, hpath] at hlive
        exact absurd rfl hlive
      | ok path => exact ⟨_, (dirs_fit hpath).1⟩
    obtain ⟨request, hrequest⟩ : ∃ request : Request, request = ⟨everything, true, (storedDocs cfg F).length + 1⟩ :=
      ⟨_, rfl⟩
    have hr : request.reports = true := by
      rw [hrequest]
      simp [Request.reports]
    refine ⟨(storedDocs cfg F).length + 1, request.answer (storedDocs cfg F), ?_, doc.entry, ?_, hc, hi⟩
    · rw [← hrequest]
      exact hquery (by rw [hrequest]) hroot
    · unfold Request.answer Request.bound
      rw [if_pos hr, if_pos hr]
      apply List.mem_map_of_mem
      rw [hrequest, ← List.take_take]
      dsimp only [Request.limit]
      rw [List.take_of_length_le (by rw [List.length_take]; omega)]
      exact hdoc

theorem opened_of_orphaned (hkeys : keysValid cfg collectionName documentId = true)
    (h : Orphaned cfg F collectionName documentId) : ∃ doc, opened cfg F collectionName documentId = .ok doc := by
  obtain ⟨hnone, snap, hst⟩ := h
  cases hstaged : buildDocPath cfg collectionName documentId DOC_TMP_EXT with
  | error err =>
    rw [fileAt, hstaged] at hst
    cases hst
  | ok tmpPath =>
    obtain ⟨path, hlive⟩ := live_of_staged hstaged
    rw [fileAt_eq hlive] at hnone
    rw [fileAt_eq hstaged] at hst
    rw [opened_eq, if_pos hkeys, found_staged ⟨hlive, hstaged⟩ hnone, hst]
    exact ⟨_, rfl⟩

theorem listed_of_opened {doc : Document} (hopen : opened cfg F collectionName documentId = .ok doc)
    (hlive : ¬ Orphaned cfg F collectionName documentId) :
    doc ∈ storedDocs cfg F ∧ doc.collectionName = collectionName ∧ doc.documentId = documentId := by
  obtain ⟨snap, hfound, rfl⟩ := opened_ok hopen
  refine ⟨mem_storedDocs.mpr ⟨hopen, fun hnone => hlive ⟨hnone, snap, ?_⟩⟩, rfl, rfl⟩
  exact staged_of_found hfound hnone

theorem stored_unique {doc doc' : Document} (h : doc ∈ storedDocs cfg F) (h' : doc' ∈ storedDocs cfg F)
    (hc : doc.collectionName = doc'.collectionName) (hi : doc.documentId = doc'.documentId) : doc = doc' := by
  have hopen := (mem_storedDocs.mp h).1
  rw [hc, hi, (mem_storedDocs.mp h').1] at hopen
  exact (Except.ok.inj hopen).symm

/-- A query for every document and an open agree on whether a document exists exactly where it is not the
case that only a complete staged file of it is there, nor that it comes after `UINT32_MAX` others. -/
theorem reported_iff_opened (F : Files) (collectionName documentId : CString) :
    (Reported cfg overflow F collectionName documentId ↔
        ∃ doc, opened cfg F collectionName documentId = .ok doc) ↔
      ¬ (keysValid cfg collectionName documentId = true ∧ Orphaned cfg F collectionName documentId) ∧
        ¬ Cropped cfg F collectionName documentId := by
  rw [reported_of_list]
  constructor
  · intro h
    refine ⟨fun ⟨hkeys, horphan⟩ => ?_, fun ⟨doc, hdrop, hc, hi⟩ => ?_⟩
    · obtain ⟨doc, hdoc, rfl, rfl⟩ := h.mpr (opened_of_orphaned hkeys horphan)
      exact (mem_storedDocs.mp (List.mem_of_mem_take hdoc)).2 horphan.1
    · have hmem := List.mem_of_mem_drop hdrop
      obtain ⟨doc', htake, hc', hi'⟩ := h.mpr ⟨doc, hc ▸ hi ▸ (mem_storedDocs.mp hmem).1⟩
      have hsame := stored_unique hmem (List.mem_of_mem_take htake) (hc.trans hc'.symm) (hi.trans hi'.symm)
      subst hsame
      exact List.disjoint_take_drop storedDocs_nodup (Nat.le_refl _) htake hdrop
  · rintro ⟨hstaged, hcropped⟩
    constructor
    · rintro ⟨doc, hdoc, rfl, rfl⟩
      exact ⟨doc, (mem_storedDocs.mp (List.mem_of_mem_take hdoc)).1⟩
    · rintro ⟨doc, hopen⟩
      obtain ⟨hmem, hc, hi⟩ := listed_of_opened hopen fun horphan => hstaged ⟨opened_keys hopen, horphan⟩
      rw [← List.take_append_drop (2 ^ 32 - 1) (storedDocs cfg F), List.mem_append] at hmem
      rcases hmem with htake | hdrop
      · exact ⟨doc, htake, hc, hi⟩
      · exact absurd ⟨doc, hdrop, hc, hi⟩ hcropped

end Reported

/-- The power went when the first save of a document was about to rename its staged file: the document
opens, and no query reports it. -/
theorem orphan_unreported : ¬ ∀ F, Reachable sampleCfg F → ∀ overflow collectionName documentId,
    (Reported sampleCfg overflow F collectionName documentId ↔
      ∃ doc, opened sampleCfg F collectionName documentId = .ok doc) := by
  intro h
  have hreach : Reachable sampleCfg orphanFiles := .save (s := ⟨freshDoc, cutShort ∅ 7 5 0⟩) .empty freshSt_built
  have hopened : (opened sampleCfg orphanFiles sampleCollection sampleName).toOption = some freshDoc := by
    decide +kernel
  have hlist : storedDocs sampleCfg orphanFiles = [] := by decide +kernel
  have hdoc : ∃ doc, opened sampleCfg orphanFiles sampleCollection sampleName = .ok doc := by
    cases ho : opened sampleCfg orphanFiles sampleCollection sampleName with
    | ok doc => exact ⟨doc, rfl⟩
    | error status =>
      rw [ho] at hopened
      cases hopened
  obtain ⟨doc, hmem, -⟩ := reported_of_list.mp ((h orphanFiles hreach 0 sampleCollection sampleName).mpr hdoc)
  rw [hlist] at hmem
  cases hmem

end ZephyrDB.Doc
