import ZephyrDB.Core

/-!
Documents in memory: typed fields under distinct names, and the calls that
create a document and set its fields.

The side component of the file store is the uptime that `k_uptime_get` reports.
Taking a block from the heap is a call that may fail.
-/

set_option autoImplicit false

namespace ZephyrDB.Doc

open Lib

/-- The document options, with the mount point and whether its file system lets `fs_rename` replace an
existing file. -/
structure DocCfg where
  mountPoint : CString
  maxKeyLen : Nat
  maxFieldNameLen : Nat
  /-- The option's range ends at 128. -/
  maxFieldNameLen_le : maxFieldNameLen ≤ 128
  maxStringLen : Nat
  /-- The option's range ends at 65536. -/
  maxStringLen_le : maxStringLen ≤ 65536
  maxBytesLen : Nat
  /-- The option's range ends at 1048576. -/
  maxBytesLen_le : maxBytesLen ≤ 1048576
  maxFieldCount : Nat
  /-- The option's range ends at 256. -/
  maxFieldCount_le : maxFieldCount ≤ 256
  renameReplaces : Bool

abbrev DocSys := Env UInt64

/-- The field types that setters produce (`zdb_doc_field_type_t`), each with its payload. A double is
its bit pattern; a string without a payload is a NULL pointer. -/
inductive Value where
  | int64 (v : Int64)
  | double (bits : UInt64)
  | string (s : Option CString)
  | bool (b : Bool)
  | bytes (data : Bytes)
  deriving DecidableEq

namespace Value

def INT64 : Nat := 1
def DOUBLE : Nat := 2
def STRING : Nat := 3
def BOOL : Nat := 4
def BYTES : Nat := 5

def type : Value → Nat
  | .int64 _ => INT64
  | .double _ => DOUBLE
  | .string _ => STRING
  | .bool _ => BOOL
  | .bytes _ => BYTES

/-- A zeroed payload of the same type. -/
def blank : Value → Value
  | .int64 _ => .int64 0
  | .double _ => .double 0
  | .string _ => .string none
  | .bool _ => .bool false
  | .bytes _ => .bytes []

end Value

/-- `zdb_doc_field_t`. -/
structure Field where
  name : CString
  value : Value
  deriving DecidableEq

/-- `zdb_doc_t`; the list is the populated part of the field array. -/
structure Document where
  collectionName : CString
  documentId : CString
  fields : List Field
  maxFields : Nat
  createdMs : UInt64
  updatedMs : UInt64
  valid : Bool
  deriving DecidableEq

/-- A document handle at work. -/
structure DocSt where
  doc : Document
  env : DocSys

abbrev DocM (α : Type) := EStateM Status DocSt α

def onEnv {ε α : Type} (m : EStateM ε DocSys α) : EStateM ε DocSt α :=
  zoom DocSt.env (fun s e => { s with env := e }) m

def updDoc (f : Document → Document) : DocM Unit := modify fun s => { s with doc := f s.doc }

/-- `k_malloc`. -/
def kMalloc : EStateM Status DocSys Unit := orFail .ERR_NOMEM call

/-- `zdb_doc_name_valid`. -/
def nameValid (name : CString) : Bool :=
  !name.val.isEmpty && name.val != [46] && name.val != [46, 46] && !name.val.contains 47 && !name.val.contains 92

/-- The checks that `zdb_doc_create` and `zdb_doc_delete` make of a collection name and a document id. -/
def keysValid (cfg : DocCfg) (collectionName documentId : CString) : Bool :=
  collectionName.val.length ≤ cfg.maxKeyLen && documentId.val.length ≤ cfg.maxKeyLen &&
    nameValid collectionName && nameValid documentId

/-- `zdb_doc_create`. -/
def docCreate (cfg : DocCfg) (collectionName documentId : CString) : EStateM Status DocSys Document := do
  if !keysValid cfg collectionName documentId then throw .ERR_INVAL
  else
    let collectionDup ← attempt (ε := Status) kMalloc
    let documentDup ← attempt (ε := Status) kMalloc
    rethrow collectionDup
    rethrow documentDup
    let now := (← get).side
    kMalloc
    return {
      collectionName := collectionName
      documentId := documentId
      fields := []
      maxFields := cfg.maxFieldCount
      createdMs := now
      updatedMs := now
      valid := true }

/-- `zdb_doc_fields_reset`. -/
def fieldsReset : DocM Unit := updDoc fun doc => { doc with fields := [] }

/-- `zdb_doc_field_find_or_create`, for a value of the type of `blank`; reports the field's place. -/
def findOrCreate (cfg : DocCfg) (fieldName : CString) (blank : Value) : DocM Nat := do
  let doc := (← get).doc
  if !doc.valid then throw .ERR_INVAL
  else if fieldName.val.isEmpty || cfg.maxFieldNameLen < fieldName.val.length then throw .ERR_INVAL
  else
    match doc.fields.findIdx? fun field => field.name == fieldName with
    | some i =>
      if doc.fields[i]?.any fun field => field.value.type != blank.type then
        updDoc fun doc => { doc with fields := doc.fields.modify i fun field => { field with value := blank } }
        return i
      else return i
    | none =>
      if doc.maxFields ≤ doc.fields.length then throw .ERR_NOMEM
      else
        onEnv kMalloc
        updDoc fun doc => { doc with fields := doc.fields ++ [⟨fieldName, blank⟩] }
        return doc.fields.length

def putValue (i : Nat) (value : Value) : DocM Unit :=
  modify fun s =>
    { s with
      doc := { s.doc with
        fields := s.doc.fields.modify i fun field => { field with value := value }
        updatedMs := s.env.side } }

def fieldSetScalar (cfg : DocCfg) (fieldName : CString) (value : Value) : DocM Unit := do
  let i ← findOrCreate cfg fieldName value.blank
  putValue i value

/-- `zdb_doc_field_set_i64`. -/
def fieldSetI64 (cfg : DocCfg) (fieldName : CString) (value : Int64) : DocM Unit :=
  fieldSetScalar cfg fieldName (.int64 value)

/-- `zdb_doc_field_set_f64`. -/
def fieldSetF64 (cfg : DocCfg) (fieldName : CString) (value : UInt64) : DocM Unit :=
  fieldSetScalar cfg fieldName (.double value)

/-- `zdb_doc_field_set_bool`. -/
def fieldSetBool (cfg : DocCfg) (fieldName : CString) (value : Bool) : DocM Unit :=
  fieldSetScalar cfg fieldName (.bool value)

/-- `zdb_doc_field_set_string`. -/
def fieldSetString (cfg : DocCfg) (fieldName value : CString) : DocM Unit := do
  if cfg.maxStringLen < value.val.length then throw .ERR_INVAL
  else
    let i ← findOrCreate cfg fieldName (.string none)
    onEnv kMalloc
    putValue i (.string (some value))

/-- `zdb_alloc_copy`: no bytes need no block. -/
def allocCopy (value : Bytes) : DocM Unit := if value.isEmpty then return () else onEnv kMalloc

/-- `zdb_doc_field_set_bytes`. -/
def fieldSetBytes (cfg : DocCfg) (fieldName : CString) (value : Bytes) : DocM Unit := do
  if cfg.maxBytesLen < value.length then throw .ERR_INVAL
  else
    let i ← findOrCreate cfg fieldName (.bytes [])
    allocCopy value
    putValue i (.bytes value)

/-- The setter of a value's type; a NULL string is refused. -/
def fieldSet (cfg : DocCfg) (fieldName : CString) : Value → DocM Unit
  | .int64 v => fieldSetI64 cfg fieldName v
  | .double bits => fieldSetF64 cfg fieldName bits
  | .string none => throw .ERR_INVAL
  | .string (some s) => fieldSetString cfg fieldName s
  | .bool b => fieldSetBool cfg fieldName b
  | .bytes data => fieldSetBytes cfg fieldName data

def Value.Admitted (cfg : DocCfg) : Value → Prop
  | .string none => False
  | .string (some s) => s.val.length ≤ cfg.maxStringLen
  | .bytes data => data.length ≤ cfg.maxBytesLen
  | _ => True

def Field.Admitted (cfg : DocCfg) (field : Field) : Prop :=
  field.name.val ≠ [] ∧ field.name.val.length ≤ cfg.maxFieldNameLen ∧ field.value.Admitted cfg

structure Tidy (cfg : DocCfg) (doc : Document) : Prop where
  valid : doc.valid = true
  maxFields : doc.maxFields = cfg.maxFieldCount
  count : doc.fields.length ≤ doc.maxFields
  distinct : (doc.fields.map Field.name).Nodup
  admitted : ∀ field ∈ doc.fields, field.Admitted cfg
  keys : keysValid cfg doc.collectionName doc.documentId = true

def upsert (name : CString) (value : Value) : List Field → List Field
  | [] => [⟨name, value⟩]
  | field :: fields =>
    if field.name = name then ⟨name, value⟩ :: fields else field :: upsert name value fields

theorem upsert_names (name : CString) (value : Value) (fields : List Field) :
    (upsert name value fields).map Field.name =
      if name ∈ fields.map Field.name then fields.map Field.name else fields.map Field.name ++ [name] := by
  induction fields with
  | nil => rfl
  | cons field fields ih =>
    by_cases h : field.name = name
    · simp [upsert, h]
    · have h' : ¬ name = field.name := fun he => h he.symm
      by_cases hm : name ∈ fields.map Field.name
      · rw [if_pos hm] at ih
        rw [if_pos (by simp [hm])]
        simp [upsert, h, ih]
      · rw [if_neg hm] at ih
        rw [if_neg (by simpa [h'] using hm)]
        simp [upsert, h, ih]

theorem upsert_new {name : CString} {fields : List Field} (h : name ∉ fields.map Field.name) (value : Value) :
    upsert name value fields = fields ++ [⟨name, value⟩] := by
  induction fields with
  | nil => rfl
  | cons field fields ih =>
    have hne : ¬ field.name = name := fun he => h (by simp [he])
    rw [upsert, if_neg hne, ih fun hm => h (by simpa using Or.inr hm), List.cons_append]

theorem mem_upsert {name : CString} {value : Value} {fields : List Field} {field : Field}
    (h : field ∈ upsert name value fields) : field = ⟨name, value⟩ ∨ field ∈ fields := by
  induction fields with
  | nil => exact .inl (by simpa [upsert] using h)
  | cons head fields ih =>
    rw [upsert] at h
    split at h
    · rcases List.mem_cons.mp h with h | h
      · exact .inl h
      · exact .inr (List.mem_cons_of_mem _ h)
    · rcases List.mem_cons.mp h with h | h
      · exact .inr (h ▸ List.mem_cons_self)
      · exact (ih h).imp_right (List.mem_cons_of_mem _)

theorem modify_upsert {name : CString} {fields : List Field} {i : Nat}
    (h : fields.findIdx? (fun field => field.name == name) = some i) (value : Value) :
    fields.modify i (fun field => { field with value := value }) = upsert name value fields := by
  induction fields generalizing i with
  | nil => simp at h
  | cons field fields ih =>
    rw [List.findIdx?_cons] at h
    by_cases hn : field.name = name
    · simp only [hn, beq_self_eq_true, if_true, Option.some.injEq] at h
      subst h
      simp [upsert, hn]
    · simp only [beq_iff_eq, hn, if_false, Option.map_eq_some_iff] at h
      obtain ⟨j, hj, rfl⟩ := h
      simp [upsert, hn, ih hj]

theorem modify_last (fields : List Field) (field : Field) (f : Field → Field) :
    (fields ++ [field]).modify fields.length f = fields ++ [f field] := by
  induction fields with
  | nil => rfl
  | cons head fields ih => simp [ih]

theorem run_get (s : DocSt) : (get : DocM DocSt).run s = .ok s s := rfl

theorem run_updDoc (f : Document → Document) (s : DocSt) : (updDoc f).run s = .ok () ⟨f s.doc, s.env⟩ := rfl

theorem run_onEnv {ε α : Type} {m : EStateM ε DocSys α} {s : DocSt} {a : α} {e : DocSys}
    (h : m.run s.env = .ok a e) : (onEnv m).run s = .ok a ⟨s.doc, e⟩ := run_zoom h

theorem of_run_onEnv {ε α : Type} {m : EStateM ε DocSys α} {s t : DocSt} {a : α} (h : (onEnv m).run s = .ok a t) :
    ∃ e, m.run s.env = .ok a e ∧ t = ⟨s.doc, e⟩ := by
  unfold onEnv at h
  cases hm : m.run s.env with
  | error r e =>
    rw [run_zoom_error hm] at h
    cases h
  | ok b e =>
    rw [run_zoom hm] at h
    cases h
    exact ⟨e, rfl, rfl⟩

theorem of_run_kMalloc {e e' : DocSys} (h : kMalloc.run e = .ok () e') : e' = e.next := by
  have hc : (call : Io UInt64 Errno Unit).run e = .ok () e' := of_run_adapt h
  simp only [call, EStateM.run] at hc
  split at hc <;> cases hc
  rfl

theorem run_kMalloc {e : DocSys} (hc : e.Clean) : kMalloc.run e = .ok () e.next := by
  apply run_adapt
  show call e = _
  simp [call, Env.fault, hc e.tick]

structure Ticks (e e' : DocSys) : Prop where
  files : e'.files = e.files
  faults : e'.faults = e.faults
  side : e'.side = e.side

theorem Ticks.refl (e : DocSys) : Ticks e e := ⟨rfl, rfl, rfl⟩

theorem Ticks.trans {a b c : DocSys} (h : Ticks a b) (k : Ticks b c) : Ticks a c :=
  ⟨k.files.trans h.files, k.faults.trans h.faults, k.side.trans h.side⟩

theorem ticks_next (e : DocSys) : Ticks e e.next := ⟨rfl, rfl, rfl⟩

theorem Ticks.clean {e e' : DocSys} (h : Ticks e e') (hc : e.Clean) : e'.Clean := fun n => by
  rw [h.faults]
  exact hc n

section FindOrCreate
variable {cfg : DocCfg} {name : CString} {blank : Value} {s : DocSt}

structure Placeable (cfg : DocCfg) (name : CString) (doc : Document) : Prop where
  valid : doc.valid = true
  named : name.val ≠ [] ∧ name.val.length ≤ cfg.maxFieldNameLen
  room : name ∈ doc.fields.map Field.name ∨ doc.fields.length < doc.maxFields

/-- Whatever value is then put in the place that is reported, the fields are those with that value
under the name. -/
structure Placed (name : CString) (s : DocSt) (i : Nat) (t : DocSt) : Prop where
  env : Ticks s.env t.env
  rest : t.doc = { s.doc with fields := t.doc.fields }
  put : ∀ value, t.doc.fields.modify i (fun field => { field with value := value }) = upsert name value s.doc.fields

theorem findIdx?_name {fields : List Field} :
    (fields.findIdx? fun field => field.name == name) = none ↔ name ∉ fields.map Field.name := by
  simp [List.findIdx?_eq_none_iff, Subtype.ext_iff]

theorem placed_found {i : Nat} (h : (s.doc.fields.findIdx? fun field => field.name == name) = some i)
    (fields : List Field) (hf : fields = s.doc.fields ∨
      fields = s.doc.fields.modify i fun field => { field with value := blank }) :
    Placed name s i ⟨{ s.doc with fields := fields }, s.env⟩ := by
  refine ⟨Ticks.refl _, rfl, fun value => ?_⟩
  rcases hf with rfl | rfl
  · exact modify_upsert h value
  · rw [← modify_upsert h value, List.modify_modify_eq]
    rfl

theorem findOrCreate_ok {i : Nat} {t : DocSt} (h : (findOrCreate cfg name blank).run s = .ok i t) :
    Placeable cfg name s.doc ∧ Placed name s i t := by
  unfold findOrCreate at h
  obtain ⟨_, _, hget, h⟩ := of_run_bind h
  cases hget
  dsimp only at h
  split at h
  · cases h
  rename_i hvalid
  split at h
  · cases h
  rename_i hname
  have hvalid : s.doc.valid = true := by simpa using hvalid
  have hname : name.val ≠ [] ∧ name.val.length ≤ cfg.maxFieldNameLen := by simpa using hname
  split at h
  · rename_i j hj
    have hmem : name ∈ s.doc.fields.map Field.name := by
      by_contra hm
      rw [findIdx?_name.mpr hm] at hj
      cases hj
    refine ⟨⟨hvalid, hname, .inl hmem⟩, ?_⟩
    split at h
    · cases h
      exact @placed_found _ blank _ _ hj _ (.inr rfl)
    · cases h
      exact @placed_found _ blank _ _ hj _ (.inl rfl)
  · rename_i hnone
    split at h
    · cases h
    rename_i hroom
    obtain ⟨_, u, hu, h⟩ := of_run_bind h
    obtain ⟨e, he, rfl⟩ := of_run_onEnv hu
    cases of_run_kMalloc he
    cases h
    refine ⟨⟨hvalid, hname, .inr (by omega)⟩, ticks_next _, rfl, fun value => ?_⟩
    rw [upsert_new (findIdx?_name.mp hnone) value]
    exact modify_last _ _ _

theorem findOrCreate_run (hc : s.env.Clean) (h : Placeable cfg name s.doc) :
    Succeeds (findOrCreate cfg name blank) s := by
  have hvalid : ¬ (!s.doc.valid) = true := by simp [h.valid]
  have hname : ¬ (name.val.isEmpty || decide (cfg.maxFieldNameLen < name.val.length)) = true := by
    simpa using h.named
  apply succeeds_then (run_get s)
  dsimp only
  rw [if_neg hvalid, if_neg hname]
  cases hidx : s.doc.fields.findIdx? fun field => field.name == name with
  | some i =>
    dsimp only
    split
    · exact succeeds_then (run_updDoc _ s) (succeeds_pure i _)
    · exact succeeds_pure i s
  | none =>
    have hroom : ¬ s.doc.maxFields ≤ s.doc.fields.length := by
      have := h.room.resolve_left (findIdx?_name.mp hidx)
      omega
    dsimp only
    rw [if_neg hroom]
    exact succeeds_then (run_onEnv (run_kMalloc hc)) (succeeds_then (run_updDoc _ _) (succeeds_pure _ _))

end FindOrCreate

structure HasSet (cfg : DocCfg) (name : CString) (value : Value) (s t : DocSt) : Prop where
  placeable : Placeable cfg name s.doc
  admitted : value.Admitted cfg
  env : Ticks s.env t.env
  doc : t.doc = { s.doc with fields := upsert name value s.doc.fields, updatedMs := s.env.side }

section Setters
variable {cfg : DocCfg} {name : CString} {value : Value} {s t : DocSt}

theorem run_putValue (i : Nat) (value : Value) (s : DocSt) :
    (putValue i value).run s = .ok ()
      ⟨{ s.doc with
        fields := s.doc.fields.modify i fun field => { field with value := value }
        updatedMs := s.env.side }, s.env⟩ := rfl

theorem of_run_allocCopy {value : Bytes} (h : (allocCopy value).run s = .ok () t) :
    t.doc = s.doc ∧ Ticks s.env t.env := by
  unfold allocCopy at h
  split at h
  · cases h
    exact ⟨rfl, Ticks.refl _⟩
  · obtain ⟨e, he, rfl⟩ := of_run_onEnv h
    cases of_run_kMalloc he
    exact ⟨rfl, ticks_next _⟩

theorem run_allocCopy (hc : s.env.Clean) (value : Bytes) : Succeeds (allocCopy value) s := by
  unfold allocCopy
  split
  · exact succeeds_pure () s
  · exact succeeds_of_run (run_onEnv (run_kMalloc hc))

theorem hasSet_of_placed {blank : Value} {i : Nat} {u v : DocSt}
    (hfind : (findOrCreate cfg name blank).run s = .ok i u) (hadm : value.Admitted cfg)
    (hv : v.doc = u.doc ∧ Ticks u.env v.env) (hput : (putValue i value).run v = .ok () t) :
    HasSet cfg name value s t := by
  obtain ⟨hable, hplaced⟩ := findOrCreate_ok hfind
  rw [run_putValue] at hput
  cases hput
  have hticks := hplaced.env.trans hv.2
  refine ⟨hable, hadm, hticks, ?_⟩
  dsimp only
  rw [hv.1, hticks.side, hplaced.put value, hplaced.rest]

theorem fieldSet_ok (h : (fieldSet cfg name value).run s = .ok () t) : HasSet cfg name value s t := by
  have hscalar : ∀ {value : Value}, value.Admitted cfg → (fieldSetScalar cfg name value).run s = .ok () t →
      HasSet cfg name value s t := by
    intro value hadm h
    obtain ⟨i, u, hfind, hput⟩ := of_run_bind h
    exact hasSet_of_placed hfind hadm ⟨rfl, Ticks.refl _⟩ hput
  cases value with
  | int64 v => exact hscalar trivial h
  | double bits => exact hscalar trivial h
  | bool b => exact hscalar trivial h
  | string str =>
    cases str with
    | none => cases h
    | some str =>
      simp only [fieldSet, fieldSetString] at h
      split at h
      · cases h
      rename_i hlen
      obtain ⟨i, u, hfind, h⟩ := of_run_bind h
      obtain ⟨_, v, hv, hput⟩ := of_run_bind h
      obtain ⟨e, he, rfl⟩ := of_run_onEnv hv
      cases of_run_kMalloc he
      exact @hasSet_of_placed _ _ _ _ _ _ _ u ⟨u.doc, u.env.next⟩ hfind (Nat.le_of_not_lt hlen)
        ⟨rfl, ticks_next _⟩ hput
  | bytes data =>
    simp only [fieldSet, fieldSetBytes] at h
    split at h
    · cases h
    rename_i hlen
    obtain ⟨i, u, hfind, h⟩ := of_run_bind h
    obtain ⟨_, v, hv, hput⟩ := of_run_bind h
    exact hasSet_of_placed hfind (Nat.le_of_not_lt hlen) (of_run_allocCopy hv) hput

theorem fieldSet_run (hc : s.env.Clean) (hable : Placeable cfg name s.doc) (hadm : value.Admitted cfg) :
    Succeeds (fieldSet cfg name value) s := by
  have hplace : ∀ blank, Succeeds (findOrCreate cfg name blank) s := fun blank => findOrCreate_run hc hable
  have hclean : ∀ {blank i u}, (findOrCreate cfg name blank).run s = .ok i u → u.env.Clean := fun hu =>
    (findOrCreate_ok hu).2.env.clean hc
  have hscalar : ∀ value : Value, Succeeds (fieldSetScalar cfg name value) s := fun value =>
    succeeds_bind (hplace value.blank) fun i u _ => succeeds_of_run (run_putValue i value u)
  cases value with
  | int64 v => exact hscalar _
  | double bits => exact hscalar _
  | bool b => exact hscalar _
  | string str =>
    cases str with
    | none => exact absurd hadm id
    | some str =>
      simp only [fieldSet, fieldSetString]
      rw [if_neg (Nat.not_lt.mpr hadm)]
      apply succeeds_bind (hplace _)
      intro i u hu
      exact succeeds_then (run_onEnv (run_kMalloc (hclean hu))) (succeeds_of_run (run_putValue i _ _))
  | bytes data =>
    simp only [fieldSet, fieldSetBytes]
    rw [if_neg (Nat.not_lt.mpr hadm)]
    apply succeeds_bind (hplace _)
    intro i u hu
    exact succeeds_bind (run_allocCopy (hclean hu) data) fun _ v _ => succeeds_of_run (run_putValue i _ v)

theorem HasSet.tidy (h : HasSet cfg name value s t) (ht : Tidy cfg s.doc) : Tidy cfg t.doc := by
  rw [h.doc]
  refine ⟨ht.valid, ht.maxFields, ?_, ?_, ?_, ht.keys⟩
  · have hlen := congrArg List.length (upsert_names name value s.doc.fields)
    rw [List.length_map] at hlen
    dsimp only
    rw [hlen]
    split
    · simpa using ht.count
    · rename_i hm
      simpa using Nat.succ_le_of_lt (h.placeable.room.resolve_left hm)
  · dsimp only
    rw [upsert_names]
    split
    · exact ht.distinct
    · rename_i hm
      exact List.nodup_append.mpr ⟨ht.distinct, List.nodup_singleton _, by
        intro a ha b hb
        rw [List.mem_singleton.mp hb]
        exact fun he => hm (he ▸ ha)⟩
  · intro field hfield
    rcases mem_upsert hfield with rfl | hold
    · exact ⟨h.placeable.named.1, h.placeable.named.2, h.admitted⟩
    · exact ht.admitted field hold

end Setters

theorem ticks_attempt_kMalloc {e e' : DocSys} {r : Except Status Unit}
    (h : (attempt kMalloc : EStateM Status DocSys (Except Status Unit)).run e = .ok r e') : Ticks e e' := by
  have he : e' = post kMalloc e := by
    rw [run_attempt] at h
    cases h
    rfl
  rw [he, kMalloc, orFail, post_adaptExcept]
  unfold post call
  simp only [EStateM.run]
  split
  · rename_i heq
    split at heq <;> cases heq
    exact ticks_next e
  · rename_i heq
    split at heq <;> cases heq
    exact ticks_next e

theorem docCreate_ok {cfg : DocCfg} {collectionName documentId : CString} {e e' : DocSys} {doc : Document}
    (h : (docCreate cfg collectionName documentId).run e = .ok doc e') :
    Tidy cfg doc ∧ doc.collectionName = collectionName ∧ doc.documentId = documentId ∧ doc.fields = [] ∧
      Ticks e e' := by
  unfold docCreate at h
  split at h
  · cases h
  rename_i hkeys
  obtain ⟨r₁, e₁, h₁, h⟩ := of_run_bind h
  obtain ⟨r₂, e₂, h₂, h⟩ := of_run_bind h
  obtain ⟨_, e₃, h₃, h⟩ := of_run_bind h
  obtain ⟨_, e₄, h₄, h⟩ := of_run_bind h
  obtain ⟨_, e₅, h₅, h⟩ := of_run_bind h
  obtain ⟨_, e₆, h₆, h⟩ := of_run_bind h
  cases h₅
  obtain ⟨rfl, rfl⟩ := run_rethrow.mp h₃
  obtain ⟨rfl, rfl⟩ := run_rethrow.mp h₄
  cases of_run_kMalloc h₆
  have ht₁ : Ticks e e₁ := ticks_attempt_kMalloc h₁
  have ht₂ : Ticks e₁ e₂ := ticks_attempt_kMalloc h₂
  cases h
  refine ⟨⟨rfl, rfl, Nat.zero_le _, List.nodup_nil, by simp, by simpa using hkeys⟩, rfl, rfl, rfl, ?_⟩
  exact (ht₁.trans ht₂).trans (ticks_next _)

theorem docCreate_run {cfg : DocCfg} {collectionName documentId : CString} {e : DocSys} (hc : e.Clean)
    (hkeys : keysValid cfg collectionName documentId = true) :
    Succeeds (docCreate cfg collectionName documentId) e := by
  unfold docCreate
  rw [if_neg (by simp [hkeys])]
  have hn : e.next.Clean := hc
  have hnn : e.next.next.Clean := hc
  apply succeeds_then (run_attempt_ok (run_kMalloc hc))
  apply succeeds_then (run_attempt_ok (run_kMalloc hn))
  apply succeeds_then rfl
  apply succeeds_then rfl
  apply succeeds_then rfl
  exact succeeds_then (run_kMalloc hnn) (succeeds_pure _ _)

end ZephyrDB.Doc
