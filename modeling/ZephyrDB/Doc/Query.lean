import ZephyrDB.Lib.Double
import ZephyrDB.Doc.Isolation

/-!
Queries over all collections: the directories are walked, every live file is
opened, and those documents that match are counted or reported.
-/

set_option autoImplicit false

namespace ZephyrDB.Doc

open Lib

/-- `zdb_doc_query_filter_t`; the numeric value is a double's bit pattern. -/
structure Filter where
  fieldName : Option CString
  type : Nat
  numericValue : UInt64
  stringValue : Option CString
  boolValue : Bool

/-- `zdb_doc_query_t`. -/
structure Query where
  filters : Option (List Filter)
  filterCount : Nat
  /-- An array of filters has as many entries as it is said to have. -/
  filterCount_eq : ∀ list, filters = some list → filterCount = list.length
  fromMs : UInt64
  toMs : UInt64
  limit : UInt32

/-- `zdb_doc_metadata_t`. -/
structure Metadata where
  documentId : CString
  collectionName : CString
  createdMs : UInt64
  updatedMs : UInt64
  fieldCount : UInt32
  deriving DecidableEq

/-- A whole double as an `int64_t`. The check before it lets `(double)INT64_MAX` pass, which is one more
than `INT64_MAX`: what that converts to is up to the platform, `overflow`. -/
def castInt64 (overflow : Int64) (n : Int) : Int64 :=
  if n = 2 ^ 63 then overflow else Int64.ofInt n

/-- `zdb_doc_field_filter_match`. -/
def fieldFilterMatch (overflow : Int64) (field : Field) (filter : Filter) : Bool :=
  if field.name.val.isEmpty then false
  else
    match filter.fieldName with
    | none => false
    | some fieldName =>
      if fieldName.val.isEmpty || field.name != fieldName then false
      else if field.value.type != filter.type then false
      else
        match field.value with
        | .int64 v =>
          match Double.ofBits filter.numericValue with
          | .finite q => if q < -2 ^ 63 || 2 ^ 63 < q then false else q.den == 1 && v == castInt64 overflow q.num
          | _ => false
        | .double bits => Double.equal (Double.ofBits bits) (Double.ofBits filter.numericValue)
        | .bool b => b == filter.boolValue
        | .string str => str.isSome && str == filter.stringValue
        -- an empty array has no data, and then nothing matches it
        | .bytes data => !data.isEmpty && filter.stringValue.any fun str => data == str.val

/-- `zdb_doc_matches_query`. -/
def docMatchesQuery (overflow : Int64) (doc : Document) (query : Query) : Bool :=
  if query.fromMs != 0 && doc.updatedMs < query.fromMs then false
  else if query.toMs != 0 && query.toMs < doc.updatedMs then false
  else
    match query.filters with
    | none => query.filterCount == 0
    | some filters => filters.all fun filter => doc.fields.any fun field => fieldFilterMatch overflow field filter

/-- Where a scan stands: `matched`, the entries written so far, and `stop_scan`. -/
structure Scan where
  matched : Nat
  metadata : List Metadata
  stop : Bool

/-- What a caller asks of `zdb_doc_query`: the query, whether there is an array, and its capacity. -/
structure Request where
  query : Query
  array : Bool
  capacity : Nat

def Request.limit (request : Request) : Nat :=
  if request.query.limit = 0 then 2 ^ 32 - 1 else request.query.limit.toNat

abbrev ScanM (α : Type) := EStateM (List Metadata) DocSys α

def Scan.goesOn (scan : Scan) (request : Request) : Bool := !scan.stop && scan.matched < request.limit

def entryId (cfg : DocCfg) (name : CString) : Option CString :=
  match stripExt name.val with
  | none => none
  | some documentId => if cfg.maxKeyLen < documentId.length then none else some (CString.ofBytes documentId)

def Document.metadata (doc : Document) (collectionName documentId : CString) : Metadata :=
  ⟨documentId, collectionName, doc.createdMs, doc.updatedMs, UInt32.ofNat doc.fields.length⟩

def scanDoc (cfg : DocCfg) (overflow : Int64) (request : Request) (collectionName documentId : CString)
    (scan : Scan) : ScanM Scan := do
  match ← attempt (docOpen cfg collectionName documentId) with
  | .error _ => return scan
  | .ok doc =>
    if !docMatchesQuery overflow doc request.query then return scan
    else if request.array && scan.metadata.length < request.capacity then
      orFail scan.metadata kMalloc
      orFail scan.metadata kMalloc
      let metadata := scan.metadata ++ [doc.metadata collectionName documentId]
      return ⟨scan.matched + 1, metadata, request.capacity ≤ metadata.length⟩
    else return { scan with matched := scan.matched + 1 }

def scanDocs (cfg : DocCfg) (overflow : Int64) (request : Request) (collectionName : CString) :
    List CString → Scan → ScanM Scan
  | [], scan => return scan
  | name :: names, scan => do
    if !scan.goesOn request then return scan
    else
      match entryId cfg name with
      | none => scanDocs cfg overflow request collectionName names scan
      | some documentId =>
        let scan ← scanDoc cfg overflow request collectionName documentId scan
        scanDocs cfg overflow request collectionName names scan

def entryNames (names : List Bytes) : List CString :=
  names.filterMap fun name => if h : (0 : UInt8) ∉ name then some ⟨name, h⟩ else none

def scanCollections (cfg : DocCfg) (overflow : Int64) (request : Request) : List CString → Scan → ScanM Scan
  | [], scan => return scan
  | collectionName :: names, scan => do
    if !scan.goesOn request then return scan
    else
      match buildCollectionPath cfg collectionName.val with
      | .error _ => scanCollections cfg overflow request names scan
      | .ok collectionPath =>
        match ← attempt (fsList collectionPath) with
        | .error _ => scanCollections cfg overflow request names scan
        | .ok entries =>
          let scan ← scanDocs cfg overflow request collectionName (entryNames entries) scan
          scanCollections cfg overflow request names scan

/-- `zdb_doc_query`: the count it reports and the entries it has written; a failure comes with the count
that is then reported. -/
def docQuery (cfg : DocCfg) (overflow : Int64) (request : Request) :
    EStateM (Status × Nat) DocSys (Nat × List Metadata) := do
  match buildRootPath cfg with
  | .error err => throw (statusFromErrno err, request.capacity)
  | .ok root =>
    match ← attempt (fsListDirs root) with
    | .error .ENOENT => return (0, [])
    | .error err => throw (statusFromErrno err, 0)
    | .ok names =>
      match ← attempt (scanCollections cfg overflow request (entryNames names) ⟨0, [], false⟩) with
      | .error metadata => return (metadata.length, metadata)
      | .ok scan =>
        return (if !request.array || request.capacity = 0 then scan.matched else scan.metadata.length, scan.metadata)

end ZephyrDB.Doc
