import ZephyrDB.Doc.Fields
import ZephyrDB.Doc.QuerySpec

/-!
What the document store is for: a cabinet that keeps one document under each
collection and id, and the documents that an application has in hand.
-/

set_option autoImplicit false

namespace ZephyrDB.Doc

open Lib

abbrev DocKey := CString × CString

def Document.key (doc : Document) : DocKey := (doc.collectionName, doc.documentId)

/-- The calls of an application that numbers its handles; a reboot may come between two calls. -/
inductive Call where
  | create (h : Nat) (collectionName documentId : CString)
  | set (h : Nat) (fieldName : CString) (value : Value)
  | get (h : Nat) (getter : Getter) (fieldName : CString)
  | save (h : Nat)
  | open (h : Nat) (collectionName documentId : CString)
  | close (h : Nat)
  | delete (collectionName documentId : CString)
  | query (request : Request)
  | reboot

/-- What a call that succeeds hands out; a query also reports a count when it fails. -/
inductive Answer where
  | done
  | value (v : Value)
  | report (r : Except (Status × Nat) (Nat × List Metadata))

/-- `zdb_doc_close`; the names are freed, and nothing reads them in a handle that is not valid. -/
def docClose (doc : Document) : Document := { doc with fields := [], valid := false }

/-- A handle of zeros. -/
def zeroed : Document := ⟨⟨[], name_empty⟩, ⟨[], name_empty⟩, [], 0, 0, 0, false⟩

/-- The handles of an application, and the system below them. -/
structure Desk where
  handles : Nat → Document
  env : DocSys

abbrev DeskM (α : Type) := EStateM Status Desk α

def onDoc {α : Type} (h : Nat) (m : DocM α) : DeskM α :=
  zoom (fun d => DocSt.mk (d.handles h) d.env) (fun d s => ⟨Function.update d.handles h s.doc, s.env⟩) m

def onSystem {ε α : Type} (m : EStateM ε DocSys α) : EStateM ε Desk α :=
  zoom Desk.env (fun d e => { d with env := e }) m

def takeUp (h : Nat) (m : EStateM Status DocSys Document) : DeskM Unit := do
  onDoc h (updDoc docClose)
  let doc ← onSystem m
  onDoc h (updDoc fun _ => doc)

def fieldRead (getter : Getter) (fieldName : CString) : DocM Value := do
  rethrow (getter.get (← get).doc fieldName)

def Call.run (cfg : DocCfg) (overflow : Int64) : Call → DeskM Answer
  | .create h collectionName documentId => do
    takeUp h (docCreate cfg collectionName documentId)
    return .done
  | .set h fieldName value => do
    onDoc h (fieldSet cfg fieldName value)
    return .done
  | .get h getter fieldName => do
    let v ← onDoc h (fieldRead getter fieldName)
    return .value v
  | .save h => do
    onDoc h (docSave cfg)
    return .done
  | .open h collectionName documentId => do
    takeUp h (docOpen cfg collectionName documentId)
    return .done
  | .close h => do
    onDoc h (updDoc docClose)
    return .done
  | .delete collectionName documentId => do
    onSystem (docDelete cfg collectionName documentId)
    return .done
  | .query request => do
    let r ← attempt (onSystem (docQuery cfg overflow request))
    return .report r
  | .reboot => do
    modify fun d => ⟨fun _ => zeroed, d.env⟩
    return .done

def Desk.at (d : Desk) (now : UInt64) : Desk := { d with env := { d.env with side := now } }

/-- The answers to calls, each made at the uptime that goes with it. -/
def callAnswers (cfg : DocCfg) (overflow : Int64) : Desk → List (UInt64 × Call) → List (Except Status Answer)
  | _, [] => []
  | d, (now, call) :: calls =>
    outcome (call.run cfg overflow) (d.at now) ::
      callAnswers cfg overflow (post (call.run cfg overflow) (d.at now)) calls

/-- The documents that are kept, each under its key, and those in hand. -/
structure Cabinet where
  docs : DocKey → Option Document
  hands : Nat → Option Document

instance (cfg : DocCfg) : (value : Value) → Decidable (value.Admitted cfg)
  | .int64 _ => .isTrue trivial
  | .double _ => .isTrue trivial
  | .string none => .isFalse id
  | .string (some s) => inferInstanceAs (Decidable (s.val.length ≤ cfg.maxStringLen))
  | .bool _ => .isTrue trivial
  | .bytes data => inferInstanceAs (Decidable (data.length ≤ cfg.maxBytesLen))

/-- A new document. -/
def Document.fresh (cfg : DocCfg) (now : UInt64) (collectionName documentId : CString) : Document :=
  ⟨collectionName, documentId, [], cfg.maxFieldCount, now, now, true⟩

def Document.put (cfg : DocCfg) (now : UInt64) (doc : Document) (name : CString) (value : Value) :
    Except Status Document :=
  if ¬ value.Admitted cfg ∨ name.val = [] ∨ cfg.maxFieldNameLen < name.val.length then .error .ERR_INVAL
  else if valueOf doc.fields name = none ∧ doc.maxFields ≤ doc.fields.length then .error .ERR_NOMEM
  else .ok { doc with fields := upsert name value doc.fields, updatedMs := now }

def Fits (cfg : DocCfg) (key : DocKey) (ext : Bytes) : Prop := (docPath cfg key.1 key.2 ext).length < DOC_PATH_MAX

instance (cfg : DocCfg) (key : DocKey) (ext : Bytes) : Decidable (Fits cfg key ext) :=
  inferInstanceAs (Decidable ((docPath cfg key.1 key.2 ext).length < DOC_PATH_MAX))

namespace Cabinet

def empty : Cabinet := ⟨fun _ => none, fun _ => none⟩

def hold (A : Cabinet) (h : Nat) (doc : Option Document) : Cabinet := { A with hands := Function.update A.hands h doc }

def file (A : Cabinet) (key : DocKey) (doc : Option Document) : Cabinet :=
  { A with docs := Function.update A.docs key doc }

def create (cfg : DocCfg) (A : Cabinet) (now : UInt64) (h : Nat) (key : DocKey) : Except Status Unit × Cabinet :=
  if keysValid cfg key.1 key.2 = true then (.ok (), A.hold h (some (.fresh cfg now key.1 key.2)))
  else (.error .ERR_INVAL, A.hold h none)

def set (cfg : DocCfg) (A : Cabinet) (now : UInt64) (h : Nat) (name : CString) (value : Value) :
    Except Status Unit × Cabinet :=
  match A.hands h with
  | none => (.error .ERR_INVAL, A)
  | some doc =>
    match doc.put cfg now name value with
    | .ok doc' => (.ok (), A.hold h (some doc'))
    | .error status => (.error status, A)

def get (A : Cabinet) (h : Nat) (getter : Getter) (name : CString) : Except Status Value :=
  match A.hands h with
  | none => .error .ERR_NOT_FOUND
  | some doc => getter.get doc name

/-- The document in hand, with the time of the save, takes the place of the one that is kept. -/
def save (cfg : DocCfg) (A : Cabinet) (now : UInt64) (h : Nat) : Except Status Unit × Cabinet :=
  match A.hands h with
  | none => (.error .ERR_INVAL, A)
  | some doc =>
    if Fits cfg doc.key DOC_TMP_EXT then
      (.ok (), (A.hold h (some (doc.savedAt now))).file doc.key (some (doc.savedAt now)))
    else (.error Status.ERR_IO, A.hold h (some (doc.savedAt now)))

def find (cfg : DocCfg) (A : Cabinet) (key : DocKey) : Except Status Document :=
  if keysValid cfg key.1 key.2 = false then .error .ERR_INVAL
  else if ¬ Fits cfg key DOC_FILE_EXT then .error Status.ERR_IO
  else
    match A.docs key with
    | none => .error .ERR_NOT_FOUND
    | some doc => .ok doc

def openDoc (cfg : DocCfg) (A : Cabinet) (h : Nat) (key : DocKey) : Except Status Unit × Cabinet :=
  match A.find cfg key with
  | .ok doc => (.ok (), A.hold h (some doc))
  | .error status => (.error status, A.hold h none)

def delete (cfg : DocCfg) (A : Cabinet) (key : DocKey) : Except Status Unit × Cabinet :=
  match A.find cfg key with
  | .ok _ => (.ok (), A.file key none)
  | .error status => (.error status, A)

/-- One call, at this uptime, but for what a query reports. -/
def step (cfg : DocCfg) (A : Cabinet) (now : UInt64) : Call → Except Status Answer × Cabinet
  | .create h collectionName documentId =>
    ((A.create cfg now h (collectionName, documentId)).1.map fun _ => .done,
      (A.create cfg now h (collectionName, documentId)).2)
  | .set h name value => ((A.set cfg now h name value).1.map fun _ => .done, (A.set cfg now h name value).2)
  | .get h getter name => ((A.get h getter name).map .value, A)
  | .save h => ((A.save cfg now h).1.map fun _ => .done, (A.save cfg now h).2)
  | .open h collectionName documentId =>
    ((A.openDoc cfg h (collectionName, documentId)).1.map fun _ => .done,
      (A.openDoc cfg h (collectionName, documentId)).2)
  | .close h => (.ok .done, A.hold h none)
  | .delete collectionName documentId =>
    ((A.delete cfg (collectionName, documentId)).1.map fun _ => .done, (A.delete cfg (collectionName, documentId)).2)
  | .query _ => (.ok .done, A)
  | .reboot => (.ok .done, ⟨A.docs, fun _ => none⟩)

/-- The documents that are kept, each once. -/
def Lists (A : Cabinet) (docs : List Document) : Prop :=
  docs.Nodup ∧ ∀ doc, doc ∈ docs ↔ A.docs doc.key = some doc

/-- A query reports of those documents that it admits, in an order of their own, up to its limit and the capacity. -/
def Reports (cfg : DocCfg) (overflow : Int64) (A : Cabinet) (request : Request)
    (r : Except (Status × Nat) (Nat × List Metadata)) : Prop :=
  if (rootPath cfg).length < DOC_PATH_MAX then
    ∃ docs, A.Lists docs ∧ r = .ok (request.answer (docs.filter fun doc => request.query.Admits overflow doc))
  else r = .error (Status.ERR_IO, request.capacity)

def Gives (cfg : DocCfg) (overflow : Int64) (A : Cabinet) (now : UInt64) : Call → Except Status Answer → Prop
  | .query request, answer => ∃ r, A.Reports cfg overflow request r ∧ answer = .ok (.report r)
  | call, answer => answer = (A.step cfg now call).1

/-- These answers to these calls are the cabinet's. -/
def Explains (cfg : DocCfg) (overflow : Int64) : Cabinet → List (UInt64 × Call) → List (Except Status Answer) → Prop
  | _, [], answers => answers = []
  | A, c :: calls, answers => ∃ answer rest, answers = answer :: rest ∧ A.Gives cfg overflow c.1 c.2 answer ∧
      Explains cfg overflow (A.step cfg c.1 c.2).2 calls rest

end Cabinet

end ZephyrDB.Doc
