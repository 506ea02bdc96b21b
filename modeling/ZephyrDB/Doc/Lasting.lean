import ZephyrDB.Doc.Fields

/-!
What every document handle keeps, whatever calls below it fail: the names and
the bounds of its fields, and only a string whose setter failed halfway is not
as it was set.
-/

set_option autoImplicit false

namespace ZephyrDB.Doc

open Lib

variable {cfg : DocCfg}

/-- A string whose setter failed halfway is written as an empty one. -/
def Value.settled : Value → Value
  | .string none => .string (some ⟨[], name_empty⟩)
  | value => value

def Field.settled (field : Field) : Field := ⟨field.name, field.value.settled⟩

def Document.settled (doc : Document) : Document := { doc with fields := doc.fields.map Field.settled }

theorem type_settled (value : Value) : value.settled.type = value.type := by
  cases value with
  | string str => cases str <;> rfl
  | int64 v => rfl
  | double bits => rfl
  | bool b => rfl
  | bytes data => rfl

theorem pieces_settled (field : Field) : field.settled.pieces = field.pieces := by
  obtain ⟨name, value⟩ := field
  unfold Field.pieces fieldHdr Field.settled
  rw [type_settled]
  cases value with
  | string str => cases str <;> rfl
  | int64 v => rfl
  | double bits => rfl
  | bool b => rfl
  | bytes data => rfl

theorem docBytes_settled (doc : Document) : docBytes doc.settled = docBytes doc := by
  have hemit : fieldsEmit doc.settled = fieldsEmit doc := by
    unfold fieldsEmit Document.settled
    rw [List.flatMap_map]
    exact congrArg (List.flatMap · doc.fields) (funext pieces_settled)
  have hstart : docHdrStart doc.settled = docHdrStart doc := by
    unfold docHdrStart Document.settled
    rw [List.length_map]
  unfold docBytes docHdr docCrc
  rw [hemit, hstart]

theorem names_settled (fields : List Field) : (fields.map Field.settled).map Field.name = fields.map Field.name := by
  rw [List.map_map]
  rfl

theorem upsert_settled (name : CString) (value : Value) (fields : List Field) :
    (upsert name value fields).map Field.settled = upsert name value.settled (fields.map Field.settled) := by
  induction fields with
  | nil => rfl
  | cons field fields ih =>
    rw [upsert, List.map_cons, upsert]
    by_cases h : field.name = name
    · rw [if_pos h, if_pos (show field.settled.name = name from h)]
      rfl
    · rw [if_neg h, if_neg (show ¬ field.settled.name = name from h), List.map_cons, ih]

theorem admitted_settled {value : Value} (h : value.Admitted cfg) : value.settled.Admitted cfg := by
  cases value with
  | string str =>
    cases str with
    | none => exact absurd h id
    | some str => exact h
  | int64 v => exact h
  | double bits => exact h
  | bool b => exact h
  | bytes data => exact h

theorem blank_admitted (value : Value) : value.blank.settled.Admitted cfg := by
  cases value with
  | string str => exact Nat.zero_le cfg.maxStringLen
  | int64 v => trivial
  | double bits => trivial
  | bool b => trivial
  | bytes data => exact Nat.zero_le cfg.maxBytesLen

def Settles (cfg : DocCfg) (doc : Document) : Prop := Tidy cfg doc.settled

theorem Settles.valid {doc : Document} (h : Settles cfg doc) : doc.valid = true := by
  have ht : Tidy cfg doc.settled := h
  exact ht.valid

theorem Settles.upsert {doc : Document} (h : Settles cfg doc) {name : CString} {value : Value}
    (hable : Placeable cfg name doc) (hadm : value.settled.Admitted cfg) :
    Settles cfg { doc with fields := upsert name value doc.fields } := by
  have hset : HasSet cfg name value.settled ⟨doc.settled, quiet ∅⟩
      ⟨{ doc.settled with fields := Doc.upsert name value.settled doc.settled.fields, updatedMs := (quiet ∅).side },
        quiet ∅⟩ := by
    refine ⟨⟨hable.valid, hable.named, ?_⟩, hadm, Ticks.refl _, rfl⟩
    unfold Document.settled
    rw [names_settled, List.length_map]
    exact hable.room
  have ht := hset.tidy h
  refine ⟨ht.valid, ht.maxFields, ?_, ?_, ?_, ht.keys⟩
  · unfold Document.settled
    rw [upsert_settled]
    exact ht.count
  · unfold Document.settled
    rw [upsert_settled]
    exact ht.distinct
  · unfold Document.settled
    rw [upsert_settled]
    exact ht.admitted

theorem lasting_settles : Lasting cfg (Settles cfg) where
  place := by
    intro doc name value h hasks
    unfold Doc.place
    cases hold : valueOf doc.fields name with
    | none =>
      dsimp only
      rw [← upsert_new (valueOf_eq_none.mp hold)]
      exact h.upsert hasks.placeable (blank_admitted value)
    | some old =>
      dsimp only
      split
      · exact h
      · exact h.upsert hasks.placeable (blank_admitted value)
  put := fun h hasks => h.upsert hasks.placeable (admitted_settled hasks.admitted)
  reset := by
    intro doc h
    have ht : Tidy cfg doc.settled := h
    exact ⟨ht.valid, ht.maxFields, Nat.zero_le _, List.nodup_nil, (fun field hfield => by cases hfield), ht.keys⟩
  times := by
    intro doc createdMs updatedMs h
    have ht : Tidy cfg doc.settled := h
    exact ⟨ht.valid, ht.maxFields, ht.count, ht.distinct, ht.admitted, ht.keys⟩

theorem Handle.settles {doc : Document} (h : Handle cfg doc) : Settles cfg doc := by
  refine h.lasting lasting_settles fun {e e' c i created} hrun => ?_
  obtain ⟨ht, -, -, hfields, -⟩ := docCreate_ok hrun
  have hsame : created.settled = created := by
    unfold Document.settled
    rw [hfields, List.map_nil, ← hfields]
  unfold Settles
  rw [hsame]
  exact ht

end ZephyrDB.Doc
