import Mathlib.Data.List.Induction
import ZephyrDB.Doc.Save

/-!
The fields of a document as a map from names to typed values: what every call of
a setter can do, and what the getters read after any run of calls.
-/

set_option autoImplicit false

namespace ZephyrDB.Doc

open Lib

def fieldGet {α : Type} (doc : Document) (fieldName : CString) (read : Value → Option α) : Except Status α :=
  match doc.fields.find? fun field => field.name == fieldName with
  | none => .error .ERR_NOT_FOUND
  | some field =>
    match read field.value with
    | none => .error .ERR_INVAL
    | some value => .ok value

/-- `zdb_doc_field_get_i64`. -/
def fieldGetI64 (doc : Document) (fieldName : CString) : Except Status Int64 :=
  fieldGet doc fieldName fun
    | .int64 v => some v
    | _ => none

/-- `zdb_doc_field_get_f64`. -/
def fieldGetF64 (doc : Document) (fieldName : CString) : Except Status UInt64 :=
  fieldGet doc fieldName fun
    | .double bits => some bits
    | _ => none

/-- `zdb_doc_field_get_string`; what it hands over may be NULL. -/
def fieldGetString (doc : Document) (fieldName : CString) : Except Status (Option CString) :=
  fieldGet doc fieldName fun
    | .string str => some str
    | _ => none

/-- `zdb_doc_field_get_bool`. -/
def fieldGetBool (doc : Document) (fieldName : CString) : Except Status Bool :=
  fieldGet doc fieldName fun
    | .bool b => some b
    | _ => none

/-- `zdb_doc_field_get_bytes`. -/
def fieldGetBytes (doc : Document) (fieldName : CString) : Except Status Bytes :=
  fieldGet doc fieldName fun
    | .bytes data => some data
    | _ => none

/-- The getters. -/
inductive Getter where
  | i64 | f64 | string | bool | bytes
  deriving DecidableEq

namespace Getter

/-- The type that a getter is for. -/
def type : Getter → Nat
  | i64 => Value.INT64
  | f64 => Value.DOUBLE
  | string => Value.STRING
  | bool => Value.BOOL
  | bytes => Value.BYTES

/-- What a getter reports, as a value of its type. -/
def get : Getter → Document → CString → Except Status Value
  | i64, doc, fieldName => (fieldGetI64 doc fieldName).map .int64
  | f64, doc, fieldName => (fieldGetF64 doc fieldName).map .double
  | string, doc, fieldName => (fieldGetString doc fieldName).map .string
  | bool, doc, fieldName => (fieldGetBool doc fieldName).map .bool
  | bytes, doc, fieldName => (fieldGetBytes doc fieldName).map .bytes

end Getter

def valueOf (fields : List Field) (name : CString) : Option Value :=
  (fields.find? fun field => field.name == name).map Field.value

theorem fieldGet_eq {α : Type} (doc : Document) (name : CString) (read : Value → Option α) : fieldGet doc name read =
    match valueOf doc.fields name with
    | none => .error .ERR_NOT_FOUND
    | some value =>
      match read value with
      | none => .error .ERR_INVAL
      | some a => .ok a := by
  unfold fieldGet valueOf
  cases doc.fields.find? fun field => field.name == name <;> rfl

theorem Getter.get_eq (getter : Getter) (doc : Document) (name : CString) : getter.get doc name =
    match valueOf doc.fields name with
    | none => .error .ERR_NOT_FOUND
    | some value => if value.type = getter.type then .ok value else .error .ERR_INVAL := by
  cases getter <;>
    simp only [Getter.get, fieldGetI64, fieldGetF64, fieldGetString, fieldGetBool, fieldGetBytes, fieldGet_eq]
  all_goals
    cases valueOf doc.fields name with
    | none => rfl
    | some value => cases value <;> rfl

def place (name : CString) (blank : Value) (fields : List Field) : List Field :=
  match valueOf fields name with
  | none => fields ++ [⟨name, blank⟩]
  | some value => if value.type = blank.type then fields else upsert name blank fields

def Value.allocates : Value → Bool
  | .string str => str.isSome
  | .bytes data => !data.isEmpty
  | _ => false

def payloadTick (name : CString) (s : DocSt) : Nat :=
  if name ∈ s.doc.fields.map Field.name then s.env.tick else s.env.tick + 1

theorem valueOf_eq_none {fields : List Field} {name : CString} :
    valueOf fields name = none ↔ name ∉ fields.map Field.name := by
  unfold valueOf
  rw [Option.map_eq_none_iff, List.find?_eq_none]
  simp [Subtype.ext_iff]

theorem find_of_findIdx {fields : List Field} {name : CString} {i : Nat}
    (h : (fields.findIdx? fun field => field.name == name) = some i) :
    ∃ field, fields[i]? = some field ∧ valueOf fields name = some field.value := by
  obtain ⟨hlt, hname, hbefore⟩ := List.findIdx?_eq_some_iff_getElem.mp h
  refine ⟨fields[i], List.getElem?_eq_getElem hlt, ?_⟩
  have hfind : fields.find? (fun field => field.name == name) = some fields[i] := by
    rw [List.find?_eq_some_iff_getElem]
    exact ⟨hname, i, hlt, rfl, fun j hj => by simpa using hbefore j hj⟩
  rw [valueOf, hfind]
  rfl

theorem run_kMalloc_of {e : DocSys} (h : ¬ FailsAt e e.tick) : kMalloc.run e = .ok () e.next := by
  apply run_adapt
  show call e = _
  unfold call
  cases hf : e.fault with
  | fail err n => exact absurd ⟨err, n, hf⟩ h
  | none => rfl
  | short n => rfl

theorem run_kMalloc_fails {e : DocSys} (h : FailsAt e e.tick) : kMalloc.run e = .error .ERR_NOMEM e.next := by
  obtain ⟨err, n, hf⟩ := h
  refine run_adapt_error (r := err) ?_
  show call e = _
  have hf' : e.fault = .fail err n := hf
  simp [call, hf']

section Ends
variable {cfg : DocCfg} {name : CString} {blank value : Value} {s : DocSt}

theorem findOrCreate_refused (h : ¬ Placeable cfg name s.doc) :
    ∃ status, ∀ blank, (findOrCreate cfg name blank).run s = .error status s := by
  unfold findOrCreate
  by_cases hvalid : s.doc.valid = true
  · by_cases hname : name.val ≠ [] ∧ name.val.length ≤ cfg.maxFieldNameLen
    · have hroom : ¬ (name ∈ s.doc.fields.map Field.name ∨ s.doc.fields.length < s.doc.maxFields) :=
        fun hroom => h ⟨hvalid, hname, hroom⟩
      simp only [not_or, not_lt] at hroom
      refine ⟨.ERR_NOMEM, fun blank => run_then (run_get s) ?_⟩
      dsimp only
      rw [if_neg (by simpa using hvalid), if_neg (by simpa using hname), findIdx?_name.mpr hroom.1]
      dsimp only
      rw [if_pos hroom.2]
      rfl
    · refine ⟨.ERR_INVAL, fun blank => run_then (run_get s) ?_⟩
      dsimp only
      rw [if_neg (by simpa using hvalid), if_pos (by simpa [Classical.or_iff_not_imp_left] using hname)]
      rfl
  · refine ⟨.ERR_INVAL, fun blank => run_then (run_get s) ?_⟩
    dsimp only
    rw [if_pos (by simpa using hvalid)]
    rfl

theorem findOrCreate_found (h : Placeable cfg name s.doc) (hmem : name ∈ s.doc.fields.map Field.name) :
    ∃ i, (findOrCreate cfg name blank).run s =
      .ok i ⟨{ s.doc with fields := place name blank s.doc.fields }, s.env⟩ := by
  unfold findOrCreate
  cases hidx : s.doc.fields.findIdx? fun field => field.name == name with
  | none => exact absurd hmem (findIdx?_name.mp hidx)
  | some i =>
    obtain ⟨field, hget, hvalue⟩ := find_of_findIdx hidx
    refine ⟨i, run_then (run_get s) ?_⟩
    dsimp only
    rw [if_neg (by simpa using h.valid), if_neg (by simpa using h.named), hidx]
    dsimp only
    rw [hget, Option.any_some, place, hvalue]
    dsimp only
    by_cases htype : field.value.type = blank.type
    · rw [if_neg (by simpa using htype), if_pos htype]
      rfl
    · rw [if_pos (by simpa using htype), if_neg htype, ← modify_upsert hidx blank]
      rfl

theorem findOrCreate_new (h : Placeable cfg name s.doc) (hnew : name ∉ s.doc.fields.map Field.name) :
    (FailsAt s.env s.env.tick → (findOrCreate cfg name blank).run s = .error .ERR_NOMEM ⟨s.doc, s.env.next⟩) ∧
      (¬ FailsAt s.env s.env.tick → ∃ i, (findOrCreate cfg name blank).run s =
        .ok i ⟨{ s.doc with fields := place name blank s.doc.fields }, s.env.next⟩) := by
  have hroom := h.room.resolve_left hnew
  have hplace : place name blank s.doc.fields = s.doc.fields ++ [⟨name, blank⟩] := by
    rw [place, valueOf_eq_none.mpr hnew]
  unfold findOrCreate
  constructor
  · intro hfail
    apply run_then (run_get s)
    dsimp only
    rw [if_neg (by simpa using h.valid), if_neg (by simpa using h.named), findIdx?_name.mpr hnew]
    dsimp only
    rw [if_neg (by omega)]
    exact run_fails (run_zoom_error (run_kMalloc_fails hfail))
  · intro hok
    refine ⟨s.doc.fields.length, run_then (run_get s) ?_⟩
    dsimp only
    rw [if_neg (by simpa using h.valid), if_neg (by simpa using h.named), findIdx?_name.mpr hnew]
    dsimp only
    rw [if_neg (by omega), hplace]
    exact run_then (run_onEnv (run_kMalloc_of hok)) rfl

def Named (name : CString) (s : DocSt) : Prop := name ∉ s.doc.fields.map Field.name → ¬ FailsAt s.env s.env.tick

theorem findOrCreate_places (h : Placeable cfg name s.doc) (hnamed : Named name s) :
    ∃ i e, (findOrCreate cfg name blank).run s = .ok i ⟨{ s.doc with fields := place name blank s.doc.fields }, e⟩ ∧
      e.tick = payloadTick name s ∧ e.faults = s.env.faults := by
  unfold payloadTick
  by_cases hmem : name ∈ s.doc.fields.map Field.name
  · obtain ⟨i, hrun⟩ := @findOrCreate_found cfg name blank s h hmem
    rw [if_pos hmem]
    exact ⟨i, s.env, hrun, rfl, rfl⟩
  · obtain ⟨i, hrun⟩ := (@findOrCreate_new cfg name blank s h hmem).2 (hnamed hmem)
    rw [if_neg hmem]
    exact ⟨i, s.env.next, hrun, rfl, rfl⟩

/-- What a setter asks of its arguments and of the document. -/
structure Asks (cfg : DocCfg) (name : CString) (value : Value) (doc : Document) : Prop where
  placeable : Placeable cfg name doc
  admitted : value.Admitted cfg

theorem findOrCreate_fails {status : Status} {t : DocSt}
    (h : ∀ blank, (findOrCreate cfg name blank).run s = .error status t)
    (hadm : value.Admitted cfg) : (fieldSet cfg name value).run s = .error status t := by
  cases value with
  | int64 v => exact run_fails (h _)
  | double bits => exact run_fails (h _)
  | bool b => exact run_fails (h _)
  | string str =>
    cases str with
    | none => exact absurd hadm id
    | some str =>
      simp only [fieldSet, fieldSetString]
      rw [if_neg (Nat.not_lt.mpr hadm)]
      exact run_fails (h _)
  | bytes data =>
    simp only [fieldSet, fieldSetBytes]
    rw [if_neg (Nat.not_lt.mpr hadm)]
    exact run_fails (h _)

theorem fieldSet_refused (h : ¬ Asks cfg name value s.doc) : ∃ status, (fieldSet cfg name value).run s = .error status s := by
  by_cases hadm : value.Admitted cfg
  · have hplace : ¬ Placeable cfg name s.doc := fun hable => h ⟨hable, hadm⟩
    obtain ⟨status, hstatus⟩ := findOrCreate_refused hplace
    exact ⟨status, findOrCreate_fails hstatus hadm⟩
  · cases value with
    | int64 v => exact absurd trivial hadm
    | double bits => exact absurd trivial hadm
    | bool b => exact absurd trivial hadm
    | string str =>
      refine ⟨.ERR_INVAL, ?_⟩
      cases str with
      | none => rfl
      | some str =>
        simp only [fieldSet, fieldSetString]
        rw [if_pos (Nat.lt_of_not_le hadm)]
        rfl
    | bytes data =>
      refine ⟨.ERR_INVAL, ?_⟩
      simp only [fieldSet, fieldSetBytes]
      rw [if_pos (Nat.lt_of_not_le hadm)]
      rfl

theorem fieldSet_unnamed (h : Asks cfg name value s.doc) (hnamed : ¬ Named name s) :
    (fieldSet cfg name value).run s = .error .ERR_NOMEM ⟨s.doc, s.env.next⟩ := by
  unfold Named at hnamed
  simp only [Classical.not_imp, not_not] at hnamed
  exact findOrCreate_fails (fun blank => (findOrCreate_new h.placeable hnamed.1).1 hnamed.2) h.admitted

theorem fieldSet_halfway (h : Asks cfg name value s.doc) (hnamed : Named name s) (halloc : value.allocates = true)
    (hfail : FailsAt s.env (payloadTick name s)) : ∃ e, (fieldSet cfg name value).run s =
      .error .ERR_NOMEM ⟨{ s.doc with fields := place name value.blank s.doc.fields }, e⟩ := by
  have hmalloc : ∀ {e : DocSys} {doc : Document} {f : Unit → DocM Unit}, e.tick = payloadTick name s → e.faults = s.env.faults →
      (onEnv kMalloc >>= f).run ⟨doc, e⟩ = .error .ERR_NOMEM ⟨doc, e.next⟩ := fun htick hfaults => by
    apply run_fails
    apply run_zoom_error
    apply run_kMalloc_fails
    rw [htick]
    exact (failsAt_of_faults hfaults _).mpr hfail
  obtain ⟨i, e, hrun, htick, hfaults⟩ := @findOrCreate_places cfg name value.blank s h.placeable hnamed
  refine ⟨e.next, ?_⟩
  cases value with
  | int64 v => cases halloc
  | double bits => cases halloc
  | bool b => cases halloc
  | string str =>
    cases str with
    | none => cases halloc
    | some str =>
      simp only [fieldSet, fieldSetString]
      rw [if_neg (Nat.not_lt.mpr h.admitted)]
      exact run_then hrun (hmalloc htick hfaults)
  | bytes data =>
    have hne : ¬ data.isEmpty = true := by simpa [Value.allocates] using halloc
    simp only [fieldSet, fieldSetBytes]
    rw [if_neg (Nat.not_lt.mpr h.admitted)]
    apply run_then hrun
    unfold allocCopy
    rw [if_neg hne]
    exact hmalloc htick hfaults

theorem fieldSet_succeeds (h : Asks cfg name value s.doc) (hnamed : Named name s)
    (hpayload : value.allocates = true → ¬ FailsAt s.env (payloadTick name s)) : Succeeds (fieldSet cfg name value) s := by
  have hmalloc : ∀ {e : DocSys} {doc : Document}, value.allocates = true → e.tick = payloadTick name s → e.faults = s.env.faults →
      (onEnv kMalloc : DocM Unit).run ⟨doc, e⟩ = .ok () ⟨doc, e.next⟩ := fun halloc htick hfaults => by
    apply run_onEnv
    apply run_kMalloc_of
    rw [htick]
    exact mt (failsAt_of_faults hfaults _).mp (hpayload halloc)
  obtain ⟨i, e, hrun, htick, hfaults⟩ := @findOrCreate_places cfg name value.blank s h.placeable hnamed
  cases value with
  | int64 v => exact succeeds_then hrun (succeeds_of_run (run_putValue i _ _))
  | double bits => exact succeeds_then hrun (succeeds_of_run (run_putValue i _ _))
  | bool b => exact succeeds_then hrun (succeeds_of_run (run_putValue i _ _))
  | string str =>
    cases str with
    | none => exact absurd h.admitted id
    | some str =>
      simp only [fieldSet, fieldSetString]
      rw [if_neg (Nat.not_lt.mpr h.admitted)]
      exact succeeds_then hrun (succeeds_then (hmalloc rfl htick hfaults) (succeeds_of_run (run_putValue i _ _)))
  | bytes data =>
    simp only [fieldSet, fieldSetBytes]
    rw [if_neg (Nat.not_lt.mpr h.admitted)]
    apply succeeds_then hrun
    unfold allocCopy
    split
    · exact succeeds_of_run (run_putValue i _ _)
    · rename_i hne
      exact succeeds_then (hmalloc (by simpa [Value.allocates] using hne) htick hfaults) (succeeds_of_run (run_putValue i _ _))

end Ends

section Map
variable {fields : List Field}

theorem valueOf_cons (field : Field) (fields : List Field) (name : CString) :
    valueOf (field :: fields) name = if field.name = name then some field.value else valueOf fields name := by
  unfold valueOf
  by_cases h : field.name = name
  · rw [if_pos h, List.find?_cons_of_pos (by simpa using congrArg Subtype.val h)]
    rfl
  · rw [if_neg h, List.find?_cons_of_neg (by simpa [Subtype.ext_iff] using h)]

theorem valueOf_upsert (name : CString) (value : Value) (fields : List Field) (other : CString) :
    valueOf (upsert name value fields) other = if name = other then some value else valueOf fields other := by
  induction fields with
  | nil => rw [upsert, valueOf_cons]
  | cons field fields ih =>
    rw [upsert]
    split
    · rename_i hname
      rw [valueOf_cons, valueOf_cons, hname]
      split <;> rfl
    · rename_i hname
      rw [valueOf_cons, valueOf_cons, ih]
      split
      · rename_i hother
        rw [if_neg (fun heq => hname (hother.trans heq.symm))]
      · rfl

theorem place_names (name : CString) (blank : Value) (fields : List Field) : (place name blank fields).map Field.name =
    if name ∈ fields.map Field.name then fields.map Field.name else fields.map Field.name ++ [name] := by
  unfold place
  cases h : valueOf fields name with
  | none => rw [if_neg (valueOf_eq_none.mp h), List.map_append, List.map_cons, List.map_nil]
  | some value =>
    have hmem : name ∈ fields.map Field.name := by
      by_contra hnone
      rw [valueOf_eq_none.mpr hnone] at h
      cases h
    rw [if_pos hmem]
    dsimp only
    split
    · rfl
    · rw [upsert_names, if_pos hmem]

/-- The handles that the calls work on. -/
structure Orderly (doc : Document) : Prop where
  valid : doc.valid = true
  distinct : (doc.fields.map Field.name).Nodup
  count : doc.fields.length ≤ doc.maxFields

theorem Orderly.put {cfg : DocCfg} {doc : Document} (h : Orderly doc) {name : CString} (hable : Placeable cfg name doc)
    {fields : List Field} (hnames : fields.map Field.name =
      if name ∈ doc.fields.map Field.name then doc.fields.map Field.name else doc.fields.map Field.name ++ [name])
    (now : UInt64) : Orderly { doc with fields := fields, updatedMs := now } := by
  have hlen := congrArg List.length hnames
  rw [List.length_map] at hlen
  by_cases hmem : name ∈ doc.fields.map Field.name
  · rw [if_pos hmem] at hnames hlen
    refine ⟨h.valid, hnames ▸ h.distinct, ?_⟩
    rw [List.length_map] at hlen
    exact hlen ▸ h.count
  · rw [if_neg hmem] at hnames hlen
    have hroom := hable.room.resolve_left hmem
    refine ⟨h.valid, ?_, ?_⟩
    · show (fields.map Field.name).Nodup
      rw [hnames, List.nodup_append]
      refine ⟨h.distinct, List.nodup_singleton name, fun a ha b hb => ?_⟩
      rw [List.mem_singleton.mp hb]
      exact fun heq => hmem (heq ▸ ha)
    · show fields.length ≤ doc.maxFields
      rw [List.length_append, List.length_map, List.length_singleton] at hlen
      omega

end Map

section Handles
variable {cfg : DocCfg}

/-- What a setter makes of a document that asks for it, as far as it gets, and what resets and clocks do, keeps the
property. -/
structure Lasting (cfg : DocCfg) (P : Document → Prop) : Prop where
  place : ∀ {doc name value}, P doc → Asks cfg name value doc → P { doc with fields := place name value.blank doc.fields }
  put : ∀ {doc name value}, P doc → Asks cfg name value doc → P { doc with fields := upsert name value doc.fields }
  reset : ∀ {doc}, P doc → P { doc with fields := [] }
  times : ∀ {doc} (createdMs updatedMs : UInt64), P doc → P { doc with createdMs := createdMs, updatedMs := updatedMs }

theorem fieldSet_doc (cfg : DocCfg) (name : CString) (value : Value) (s : DocSt) :
    (post (fieldSet cfg name value) s).doc = s.doc ∨ Asks cfg name value s.doc ∧
      ((post (fieldSet cfg name value) s).doc = { s.doc with fields := place name value.blank s.doc.fields } ∨
        (post (fieldSet cfg name value) s).doc =
          { s.doc with fields := upsert name value s.doc.fields, updatedMs := s.env.side }) := by
  by_cases hasks : Asks cfg name value s.doc
  swap
  · obtain ⟨status, hrun⟩ := fieldSet_refused hasks
    exact .inl (by rw [post_of_error hrun])
  by_cases hnamed : Named name s
  swap
  · exact .inl (by rw [post_of_error (fieldSet_unnamed hasks hnamed)])
  by_cases hfail : value.allocates = true ∧ FailsAt s.env (payloadTick name s)
  · obtain ⟨e, hrun⟩ := fieldSet_halfway hasks hnamed hfail.1 hfail.2
    exact .inr ⟨hasks, .inl (by rw [post_of_error hrun])⟩
  · obtain ⟨_, t, hrun⟩ := fieldSet_succeeds hasks hnamed fun halloc hf => hfail ⟨halloc, hf⟩
    exact .inr ⟨hasks, .inr (by rw [post_of_run hrun, (fieldSet_ok hrun).doc])⟩

/-- A document handle: created or opened, and handed to any calls of setters and saves, on whatever systems and
however these went. -/
inductive Handle (cfg : DocCfg) : Document → Prop where
  | create {e e' : DocSys} {collectionName documentId : CString} {doc : Document}
      (run : (docCreate cfg collectionName documentId).run e = .ok doc e') : Handle cfg doc
  | opened {e e' : DocSys} {collectionName documentId : CString} {doc : Document}
      (run : (docOpen cfg collectionName documentId).run e = .ok doc e') : Handle cfg doc
  | set {s : DocSt} (handle : Handle cfg s.doc) (name : CString) (value : Value) :
      Handle cfg (post (fieldSet cfg name value) s).doc
  | save {s : DocSt} (handle : Handle cfg s.doc) : Handle cfg (post (docSave cfg) s).doc

section Lasting
variable {P : Document → Prop} (hP : Lasting cfg P)

def OfHandle (P : Document → Prop) (s : DocSt) : Prop := P s.doc

def OfReader (P : Document → Prop) (r : Reader) : Prop := P r.st.doc

theorem lasts_onEnv {ε α : Type} (m : EStateM ε DocSys α) : Always (Preserves (OfHandle P)) (onEnv m) :=
  always_zoom (Q := fun _ _ => True) (fun _ => trivial) fun _ _ _ h => h

theorem lasts_onHandle {α : Type} {m : DocM α} (hm : Always (Preserves (OfHandle P)) m) :
    Always (Preserves (OfReader P)) (onHandle m) := always_zoom hm fun _ _ h => h

theorem lasts_readExact (path : Path) (len : Nat) : Always (Preserves (OfReader P)) (readExact path len) := by
  refine always_bind (preserves_chains _) (always_get (preserves_chains _)) fun r => ?_
  apply always_bind (preserves_chains _) (lasts_onHandle (lasts_onEnv _))
  intro bs
  refine always_ite (always_throw (preserves_chains _) _) ?_
  exact always_bind (preserves_chains _) (always_modify fun _ h => h) fun _ => always_pure (preserves_chains _) _

include hP

theorem lasts_fieldSet (name : CString) (value : Value) :
    Always (Preserves (OfHandle P)) (fieldSet cfg name value) := fun s h => by
  unfold OfHandle at h ⊢
  rcases fieldSet_doc cfg name value s with hdoc | ⟨hasks, hdoc | hdoc⟩
  · rw [hdoc]
    exact h
  · rw [hdoc]
    exact hP.place h hasks
  · rw [hdoc]
    exact hP.times s.doc.createdMs s.env.side (hP.put h hasks)

theorem lasts_parseValue (path : Path) (name : CString) (type : Nat) :
    Always (Preserves (OfReader P)) (parseValue cfg path name type) := by
  have hset : ∀ (len : Nat) (value : Bytes → Value), Always (Preserves (OfReader P))
      (readExact path len >>= fun tmp => onHandle (fieldSet cfg name (value tmp))) := fun len value =>
    always_bind (preserves_chains _) (lasts_readExact path len) fun tmp => lasts_onHandle (lasts_fieldSet hP name (value tmp))
  unfold parseValue
  split
  · exact hset 8 fun tmp => .int64 (UInt64.ofNat (leNat tmp)).toInt64
  split
  · exact hset 8 fun tmp => .double (UInt64.ofNat (leNat tmp))
  split
  · exact hset 1 fun tmp => .bool (leNat tmp != 0)
  split
  · apply always_bind (preserves_chains _) (lasts_readExact path 4)
    intro tmp
    refine always_ite (always_throw (preserves_chains _) _) ?_
    exact always_bind (preserves_chains _) (lasts_onHandle (lasts_onEnv _)) fun _ =>
      hset _ fun str => .string (some (CString.ofBytes str))
  split
  · apply always_bind (preserves_chains _) (lasts_readExact path 4)
    intro tmp
    refine always_ite (always_throw (preserves_chains _) _) (always_ite ?_ ?_)
    · exact lasts_onHandle (lasts_fieldSet hP name (.bytes []))
    · apply always_bind (preserves_chains _) (lasts_onHandle (lasts_onEnv _))
      intro _
      exact hset _ Value.bytes
  · exact always_throw (preserves_chains _) _

theorem lasts_parseFields (path : Path) (n : Nat) : Always (Preserves (OfReader P)) (parseFields cfg path n) := by
  induction n with
  | zero => exact always_pure (preserves_chains _) _
  | succ n ih =>
    refine always_bind (preserves_chains _) ?_ fun _ => ih
    apply always_bind (preserves_chains _) (lasts_readExact path _)
    intro hdr
    refine always_ite (always_throw (preserves_chains _) _) ?_
    apply always_bind (preserves_chains _) (lasts_onHandle (lasts_onEnv _))
    intro _
    apply always_bind (preserves_chains _) (lasts_readExact path _)
    intro name
    exact lasts_parseValue hP path _ _

theorem lasts_parseContents (path : Path) : Always (Preserves (OfReader P)) (parseContents cfg path) := by
  apply always_bind (preserves_chains _) (lasts_readExact path _)
  intro hdr
  refine always_ite (always_throw (preserves_chains _) _) (always_ite (always_throw (preserves_chains _) _) ?_)
  refine always_bind (preserves_chains _) (always_modify fun _ h => h) fun _ => ?_
  refine always_bind (preserves_chains _) (always_get (preserves_chains _)) fun r => ?_
  refine always_ite (always_throw (preserves_chains _) _) ?_
  apply always_bind (preserves_chains _) (lasts_parseFields hP path _)
  intro _
  refine always_bind (preserves_chains _) (always_get (preserves_chains _)) fun r => ?_
  exact always_ite (always_throw (preserves_chains _) _) (always_pure (preserves_chains _) _)

theorem lasts_parseFile (path : Path) : Always (Preserves (OfHandle P)) (parseFile cfg path) := by
  have hread : Always (Preserves (OfHandle P)) (withReader (parseContents cfg path)) := fun s h => by
    have hpost : post (withReader (parseContents cfg path)) s = (post (parseContents cfg path) ⟨0, none, s⟩).st := by
      cases hr : (parseContents cfg path).run ⟨0, none, s⟩ with
      | ok a r => rw [post_of_run hr, post_of_run (run_withReader hr)]
      | error status r => rw [post_of_error hr, post_of_error (run_withReader_error hr)]
    rw [hpost]
    exact lasts_parseContents hP path ⟨0, none, s⟩ h
  apply always_bind (preserves_chains _) (lasts_onEnv _)
  intro _
  apply always_bind (preserves_chains _) (always_attempt hread)
  intro ret
  apply always_bind (preserves_chains _) (always_attempt (lasts_onEnv _))
  intro _
  refine always_bind (preserves_chains _) (always_rethrow (preserves_chains _) ret) fun times => ?_
  apply always_modify
  intro _ h
  exact hP.times times.1 times.2 h

theorem lasts_fieldsReset : Always (Preserves (OfHandle P)) fieldsReset := always_modify fun _ h => hP.reset h

theorem lasts_openCreated : Always (Preserves (OfHandle P)) (openCreated cfg) := by
  refine always_bind (preserves_chains _) (always_get (preserves_chains _)) fun s => ?_
  refine always_bind (preserves_chains _) (always_adaptExcept _ (always_rethrow (preserves_chains _) _)) fun path => ?_
  apply always_bind (preserves_chains _) (always_attempt (lasts_parseFile hP path))
  intro ret
  split
  · split
    · exact always_throw (preserves_chains _) _
    · apply always_bind (preserves_chains _) (lasts_fieldsReset hP)
      intro _
      apply always_bind (preserves_chains _) (always_attempt (lasts_parseFile hP _))
      intro tmpRet
      split
      · exact always_adaptExcept _ (lasts_onEnv _)
      · apply always_bind (preserves_chains _) (lasts_fieldsReset hP)
        intro _
        exact always_throw (preserves_chains _) _
  · exact always_rethrow (preserves_chains _) _

theorem lasts_docSave : Always (Preserves (OfHandle P)) (docSave cfg) := by
  refine always_bind (preserves_chains _) (always_get (preserves_chains _)) fun s => ?_
  refine always_ite (always_throw (preserves_chains _) _) ?_
  apply always_bind (preserves_chains _) (always_modify fun s h => hP.times s.doc.createdMs s.env.side h)
  intro _
  exact always_bind (preserves_chains _) (always_get (preserves_chains _)) fun s => lasts_onEnv _

theorem Handle.lasting (hcreate : ∀ {e e' : DocSys} {collectionName documentId : CString} {doc : Document},
    (docCreate cfg collectionName documentId).run e = .ok doc e' → P doc) {doc : Document} (h : Handle cfg doc) : P doc := by
  induction h with
  | create run => exact hcreate run
  | @opened e e' collectionName documentId doc run =>
    obtain ⟨created, e₁, hrun, hopen⟩ := of_run_bind run
    have hkept := lasts_openCreated hP ⟨created, e₁⟩ (hcreate hrun)
    change withHandle created (openCreated cfg) e₁ = _ at hopen
    unfold withHandle at hopen
    cases hrun' : (openCreated cfg).run ⟨created, e₁⟩ with
    | ok _ t =>
      rw [hrun'] at hopen
      cases hopen
      rw [post_of_run hrun'] at hkept
      exact hkept
    | error status t =>
      rw [hrun'] at hopen
      cases hopen
  | set _ name value ih => exact lasts_fieldSet hP name value _ ih
  | save _ ih => exact lasts_docSave hP _ ih

end Lasting

theorem orderly_lasting (cfg : DocCfg) : Lasting cfg Orderly where
  place h hasks := h.put hasks.placeable (place_names _ _ _) _
  put h hasks := h.put hasks.placeable (upsert_names _ _ _) _
  reset h := ⟨h.valid, List.nodup_nil, Nat.zero_le _⟩
  times _ _ h := ⟨h.valid, h.distinct, h.count⟩

theorem Tidy.orderly {doc : Document} (h : Tidy cfg doc) : Orderly doc := ⟨h.valid, h.distinct, h.count⟩

theorem Handle.orderly {doc : Document} (h : Handle cfg doc) : Orderly doc :=
  h.lasting (orderly_lasting cfg) fun run => (docCreate_ok run).1.orderly

end Handles

section Runs
variable {cfg : DocCfg} {s t : DocSt} {taken : List (CString × Value)}

/-- The settings that a list of fields amounts to. -/
def settings (fields : List Field) : List (CString × Value) := fields.map fun field => (field.name, field.value)

/-- A run of setters on one handle, with the settings that were taken; no string is NULL. -/
inductive Sets (cfg : DocCfg) (s : DocSt) : List (CString × Value) → DocSt → Prop where
  | start : Sets cfg s [] s
  | taken {taken : List (CString × Value)} {t u : DocSt} {name : CString} {value : Value} (run : Sets cfg s taken t)
      (given : value ≠ .string none) (ok : (fieldSet cfg name value).run t = .ok () u) : Sets cfg s (taken ++ [(name, value)]) u
  | refused {taken : List (CString × Value)} {t u : DocSt} {name : CString} {value : Value} {status : Status}
      (run : Sets cfg s taken t) (given : value ≠ .string none)
      (err : (fieldSet cfg name value).run t = .error status u) : Sets cfg s taken u

/-- The fields are those of a history of settings: in the order of the first setting of each name, each with the
value last set. -/
structure Follows (fields : List Field) (history : List (CString × Value)) : Prop where
  names : fields.map Field.name = (history.map Prod.fst).eraseDups
  values : ∀ name, valueOf fields name = history.reverse.lookup name

theorem lookup_last (history : List (CString × Value)) (name other : CString) (value : Value) :
    (history ++ [(name, value)]).reverse.lookup other = if name = other then some value else history.reverse.lookup other := by
  rw [List.reverse_append, List.reverse_singleton, List.singleton_append, List.lookup_cons]
  by_cases h : name = other
  · subst h
    simp
  · have hne : (other == name) = false := by simpa [Subtype.ext_iff] using fun heq => h (Subtype.ext heq.symm)
    rw [hne, if_neg h]

theorem Follows.upsert {fields : List Field} {history : List (CString × Value)} (h : Follows fields history)
    (name : CString) (value : Value) : Follows (upsert name value fields) (history ++ [(name, value)]) := by
  refine ⟨?_, fun other => ?_⟩
  · have hmem : name ∈ fields.map Field.name ↔ name ∈ history.map Prod.fst := by rw [h.names, List.mem_eraseDups]
    rw [upsert_names, List.map_append, List.eraseDups_append, ← h.names]
    by_cases hn : name ∈ fields.map Field.name
    · rw [if_pos hn]
      simp [List.removeAll, hmem.mp hn]
    · rw [if_neg hn]
      simp [List.removeAll, mt hmem.mpr hn, List.eraseDups_cons]
  · rw [valueOf_upsert, lookup_last, h.values]

theorem follows_settings {fields : List Field} (h : (fields.map Field.name).Nodup) : Follows fields (settings fields) := by
  induction fields using List.reverseRecOn with
  | nil => exact ⟨rfl, fun _ => rfl⟩
  | append_singleton fields field ih =>
    rw [List.map_append] at h
    have hnew : field.name ∉ fields.map Field.name := fun hm =>
      List.disjoint_of_nodup_append h hm (List.mem_singleton.mpr rfl)
    have hfollows := (ih (List.Nodup.of_append_left h)).upsert field.name field.value
    rw [upsert_new hnew] at hfollows
    have hsettings : settings (fields ++ [field]) = settings fields ++ [(field.name, field.value)] := by
      simp [settings]
    rw [hsettings]
    exact hfollows

structure Kept (s : DocSt) (taken : List (CString × Value)) (t : DocSt) : Prop where
  clean : t.env.Clean
  orderly : Orderly t.doc
  follows : Follows t.doc.fields (settings s.doc.fields ++ taken)
  maxFields : t.doc.maxFields = s.doc.maxFields

theorem fieldSet_asks {name : CString} {value : Value} (hc : t.env.Clean) :
    (∃ u, (fieldSet cfg name value).run t = .ok () u) ↔ Asks cfg name value t.doc := by
  constructor
  · rintro ⟨u, hrun⟩
    exact ⟨(fieldSet_ok hrun).placeable, (fieldSet_ok hrun).admitted⟩
  · intro hasks
    obtain ⟨_, u, hrun⟩ := fieldSet_run hc hasks.placeable hasks.admitted
    exact ⟨u, hrun⟩

theorem fieldSet_still {name : CString} {value : Value} {status : Status} {u : DocSt} (hc : t.env.Clean)
    (h : (fieldSet cfg name value).run t = .error status u) : u = t := by
  have hasks : ¬ Asks cfg name value t.doc := fun hasks => by
    obtain ⟨v, hrun⟩ := (fieldSet_asks hc).mpr hasks
    rw [h] at hrun
    cases hrun
  obtain ⟨status', hrun⟩ := fieldSet_refused hasks
  rw [h] at hrun
  cases hrun
  rfl

theorem Kept.step {name : CString} {value : Value} {u : DocSt} (h : Kept s taken t)
    (ok : (fieldSet cfg name value).run t = .ok () u) : Kept s (taken ++ [(name, value)]) u := by
  have hset := fieldSet_ok ok
  have horderly := lasts_fieldSet (orderly_lasting cfg) name value _ h.orderly
  rw [post_of_run ok] at horderly
  refine ⟨hset.env.clean h.clean, horderly, ?_, ?_⟩
  · rw [hset.doc, ← List.append_assoc]
    exact h.follows.upsert name value
  · rw [hset.doc]
    exact h.maxFields

theorem Sets.kept (run : Sets cfg s taken t) (horderly : Orderly s.doc) (hc : s.env.Clean) : Kept s taken t := by
  induction run with
  | start => exact ⟨hc, horderly, by rw [List.append_nil]; exact follows_settings horderly.distinct, rfl⟩
  | taken _ _ ok ih => exact ih.step ok
  | refused _ _ err ih =>
    rw [fieldSet_still ih.clean err]
    exact ih

/-- A document whose fields have been set so, as a map from names to typed values. -/
structure TypedMap (cfg : DocCfg) (history : List (CString × Value)) (t : DocSt) : Prop where
  /-- The names are distinct, no more than there may be, in the order of their first setting. -/
  distinct : (t.doc.fields.map Field.name).Nodup
  count : t.doc.fields.length ≤ t.doc.maxFields
  order : t.doc.fields.map Field.name = (history.map Prod.fst).eraseDups
  /-- The getter of the type last set reads the value last set, and the others are refused. -/
  reads : ∀ {name value}, history.reverse.lookup name = some value → ∀ getter : Getter,
    getter.get t.doc name = if getter.type = value.type then .ok value else .error .ERR_INVAL
  unset : ∀ {name}, history.reverse.lookup name = none → ∀ getter : Getter, getter.get t.doc name = .error .ERR_NOT_FOUND
  /-- Another call changes nothing under the other names. -/
  others : ∀ name value other, other ≠ name → ∀ getter : Getter,
    getter.get (post (fieldSet cfg name value) t).doc other = getter.get t.doc other
  refused : ∀ name value, value ≠ .string none →
    ((∃ status, outcome (fieldSet cfg name value) t = .error status) ↔
      (name.val = [] ∨ cfg.maxFieldNameLen < name.val.length) ∨ ¬ value.Admitted cfg ∨
        (t.doc.maxFields ≤ t.doc.fields.length ∧ name ∉ t.doc.fields.map Field.name))

theorem getter_of_valueOf {doc doc' : Document} {name : CString} (h : valueOf doc.fields name = valueOf doc'.fields name)
    (getter : Getter) : getter.get doc name = getter.get doc' name := by
  rw [getter.get_eq, getter.get_eq, h]

theorem Kept.others (h : Kept s taken t) (name : CString) (value : Value) {other : CString} (hne : other ≠ name) :
    valueOf (post (fieldSet cfg name value) t).doc.fields other = valueOf t.doc.fields other := by
  cases hrun : (fieldSet cfg name value).run t with
  | ok _ u =>
    rw [post_of_run hrun, (fieldSet_ok hrun).doc]
    exact (valueOf_upsert name value t.doc.fields other).trans (if_neg hne.symm)
  | error status u => rw [post_of_error hrun, fieldSet_still h.clean hrun]

theorem Kept.refused (h : Kept s taken t) (name : CString) (value : Value) :
    (∃ status, outcome (fieldSet cfg name value) t = .error status) ↔
      (name.val = [] ∨ cfg.maxFieldNameLen < name.val.length) ∨ ¬ value.Admitted cfg ∨
        (t.doc.maxFields ≤ t.doc.fields.length ∧ name ∉ t.doc.fields.map Field.name) := by
  have hasks : (∃ status, outcome (fieldSet cfg name value) t = .error status) ↔ ¬ Asks cfg name value t.doc := by
    rw [← fieldSet_asks h.clean]
    cases hrun : (fieldSet cfg name value).run t with
    | ok _ u => simp [outcome, hrun]
    | error status u => simp [outcome, hrun]
  rw [hasks]
  constructor
  · intro hno
    by_contra hall
    simp only [not_or, not_not, not_and] at hall
    obtain ⟨⟨hne, hlen⟩, hadm, hroom⟩ := hall
    refine hno ⟨⟨h.orderly.valid, ⟨hne, Nat.not_lt.mp hlen⟩, ?_⟩, hadm⟩
    by_cases hfull : t.doc.maxFields ≤ t.doc.fields.length
    · exact .inl (hroom hfull)
    · exact .inr (Nat.lt_of_not_le hfull)
  · rintro hbad ⟨⟨-, ⟨hne, hlen⟩, hroom⟩, hadm⟩
    rcases hbad with (hempty | hlong) | hvalue | ⟨hfull, hnew⟩
    · exact hne hempty
    · omega
    · exact hvalue hadm
    · rcases hroom with hmem | hlt
      · exact hnew hmem
      · omega

/-- However setters are called on a handle, and whatever is refused, the document is the typed map of what it held
and of what was taken. -/
theorem setters_typed_map (handle : Handle cfg s.doc) (hclean : s.env.Clean) (run : Sets cfg s taken t) :
    TypedMap cfg (settings s.doc.fields ++ taken) t := by
  have hkept := run.kept handle.orderly hclean
  refine ⟨hkept.orderly.distinct, hkept.orderly.count, hkept.follows.names, fun {name value} hlast getter => ?_,
    fun {name} hlast getter => ?_, fun name value other hne getter => ?_, fun name value _ => hkept.refused name value⟩
  · rw [getter.get_eq, hkept.follows.values, hlast]
    dsimp only
    by_cases htype : value.type = getter.type
    · rw [if_pos htype, if_pos htype.symm]
    · rw [if_neg htype, if_neg (Ne.symm htype)]
  · rw [getter.get_eq, hkept.follows.values, hlast]
  · exact getter_of_valueOf (hkept.others name value hne) getter

end Runs

/-- The sample document, as the map of its three settings: the second replaces the first. -/
theorem filled_typed_map : TypedMap sampleCfg (settings (freshSt 7).doc.fields ++
    ((([] ++ [(sampleName, Value.int64 (-5))]) ++ [(sampleName, .double 0x7FF8000000000001)]) ++
      [(⟨[115], by decide⟩, .string (some ⟨[], by decide⟩))])) filledSt := by
  have hcreated : Handle sampleCfg (freshSt 7).doc :=
    @Handle.create sampleCfg { quiet ∅ with side := 7 } _ sampleCollection sampleName _ rfl
  refine setters_typed_map (s := freshSt 7) hcreated (fun _ => rfl) ?_
  exact .taken (.taken (.taken .start nofun (run_of_outcome rfl)) nofun (run_of_outcome rfl)) nofun (run_of_outcome rfl)

section Failed
variable {cfg : DocCfg} {name : CString} {value : Value} {s : DocSt}

/-- The block for the payload fails once its field is new or of another type. -/
structure Halfway (cfg : DocCfg) (name : CString) (value : Value) (s : DocSt) : Prop where
  asks : Asks cfg name value s.doc
  named : Named name s
  allocates : value.allocates = true
  fails : FailsAt s.env (payloadTick name s)
  other : ∀ old, valueOf s.doc.fields name = some old → old.type ≠ value.type

theorem blank_type (value : Value) : value.blank.type = value.type := by cases value <;> rfl

theorem place_eq_iff {fields : List Field} : place name value.blank fields = fields ↔
    ∃ old, valueOf fields name = some old ∧ old.type = value.type := by
  unfold place
  cases hold : valueOf fields name with
  | none => simp
  | some old =>
    dsimp only
    rw [blank_type]
    by_cases htype : old.type = value.type
    · rw [if_pos htype]
      exact ⟨fun _ => ⟨old, rfl, htype⟩, fun _ => rfl⟩
    · rw [if_neg htype]
      constructor
      · intro heq
        -- the value under the name now has the setter's type
        have hnow := valueOf_upsert name value.blank fields name
        rw [heq, hold, if_pos rfl, Option.some.injEq] at hnow
        exact absurd (hnow ▸ blank_type value) htype
      · rintro ⟨old', hold', htype'⟩
        exact absurd (Option.some.inj hold' ▸ htype') htype

/-- A failed setter leaves the fields as they were, exactly unless it fails halfway. -/
theorem failed_setter_keeps_iff (cfg : DocCfg) (name : CString) (value : Value) (s : DocSt) :
    (∀ status t, (fieldSet cfg name value).run s = .error status t → t.doc.fields = s.doc.fields) ↔
      ¬ Halfway cfg name value s := by
  constructor
  · intro hkeeps ⟨hasks, hnamed, halloc, hfail, hother⟩
    obtain ⟨e, hrun⟩ := fieldSet_halfway hasks hnamed halloc hfail
    obtain ⟨old, hold, htype⟩ := place_eq_iff.mp (hkeeps _ _ hrun)
    exact hother old hold htype
  · intro hnot status t hrun
    by_cases hasks : Asks cfg name value s.doc
    · by_cases hnamed : Named name s
      · by_cases hfail : value.allocates = true ∧ FailsAt s.env (payloadTick name s)
        · obtain ⟨e, hrun'⟩ := fieldSet_halfway hasks hnamed hfail.1 hfail.2
          rw [hrun'] at hrun
          cases hrun
          apply place_eq_iff.mpr
          by_contra hno
          exact hnot ⟨hasks, hnamed, hfail.1, hfail.2, fun old hold htype => hno ⟨old, hold, htype⟩⟩
        · obtain ⟨_, u, hrun'⟩ := fieldSet_succeeds hasks hnamed fun halloc hf => hfail ⟨halloc, hf⟩
          rw [hrun'] at hrun
          cases hrun
      · rw [fieldSet_unnamed hasks hnamed] at hrun
        cases hrun
        rfl
    · obtain ⟨status', hrun'⟩ := fieldSet_refused hasks
      rw [hrun'] at hrun
      cases hrun
      rfl

end Failed

def retypedSt : DocSt :=
  let s := post (fieldSet sampleCfg sampleName (.int64 42)) (freshSt 7)
  { s with env := { s.env with faults := fun _ => .fail .ENOMEM 0 } }

theorem retyped_loses_value : ¬ ∀ (cfg : DocCfg) (s : DocSt), Handle cfg s.doc → ∀ (name : CString) (value : Value)
    (status : Status) (t : DocSt), (fieldSet cfg name value).run s = .error status t → t.doc.fields = s.doc.fields := by
  intro hclaim
  have hcreated : Handle sampleCfg (freshSt 7).doc :=
    @Handle.create sampleCfg { quiet ∅ with side := 7 } _ sampleCollection sampleName _ rfl
  have hrun : outcome (fieldSet sampleCfg sampleName (.string (some sampleName))) retypedSt = .error .ERR_NOMEM := rfl
  have hsame := hclaim sampleCfg retypedSt (.set hcreated sampleName (.int64 42)) sampleName (.string (some sampleName))
    _ _ (run_of_outcome_error hrun)
  exact absurd hsame (by decide +kernel)

end ZephyrDB.Doc
