import ZephyrDB.Doc.Document

/-!
The document file format, and the calls that move documents between memory and
files: save, open and delete.

A save stages the whole file beside the live one and renames it into place; an
open that finds no live file takes up a complete staged one.
-/

set_option autoImplicit false

namespace ZephyrDB.Doc

open Lib

def DOC_PATH_MAX : Nat := 160
def DOC_DIRNAME : Bytes := [122, 100, 98, 95, 100, 111, 99, 115]
def DOC_FILE_EXT : Bytes := [46, 122, 100, 111, 99]
def DOC_TMP_EXT : Bytes := [46, 122, 100, 111, 99, 46, 116, 109, 112]
def DOC_MAGIC : Nat := 0x5A444F43
def DOC_VERSION_V1 : Nat := 1
def DOC_VERSION : Nat := 2

/-- `sizeof(struct zdb_doc_hdr_v1)`. -/
def DOC_HDR_SIZE : Nat := 28

/-- `offsetof(struct zdb_doc_hdr_v1, crc_le)`. -/
def DOC_HDR_CRC : Nat := 24

/-- `sizeof(struct zdb_doc_field_hdr_v1)`. -/
def DOC_FIELD_HDR_SIZE : Nat := 8

/-- A path that `snprintf` has room for. -/
def fitPath (path : Path) : Except Errno Path :=
  if DOC_PATH_MAX ≤ path.length then .error .ENAMETOOLONG else .ok path

def rootPath (cfg : DocCfg) : Path := cfg.mountPoint.val ++ 47 :: DOC_DIRNAME

def collectionPath (cfg : DocCfg) (collection : Bytes) : Path := rootPath cfg ++ 47 :: collection

/-- The path of a document's file: the live one, or the staging one. -/
def docPath (cfg : DocCfg) (collection documentId : CString) (ext : Bytes) : Path :=
  collectionPath cfg collection.val ++ 47 :: (documentId.val ++ ext)

/-- `zdb_doc_build_root_path`. -/
def buildRootPath (cfg : DocCfg) : Except Errno Path := fitPath (rootPath cfg)

/-- `zdb_doc_build_collection_path`; a collection from a directory entry is never empty, nor is one from
a document. -/
def buildCollectionPath (cfg : DocCfg) (collection : Bytes) : Except Errno Path :=
  fitPath (collectionPath cfg collection)

/-- `zdb_doc_build_doc_path`. -/
def buildDocPath (cfg : DocCfg) (collection documentId : CString) (ext : Bytes) : Except Errno Path :=
  fitPath (docPath cfg collection documentId ext)

/-- `fs_mkdir`, where a directory that exists will do. -/
def ensureDir : EStateM Errno DocSys Unit := do
  match ← attempt call with
  | .error .EEXIST => return ()
  | r => rethrow r

/-- `zdb_doc_ensure_dirs`. -/
def ensureDirs (cfg : DocCfg) (collection : CString) : EStateM Errno DocSys Unit := do
  let _ ← rethrow (buildRootPath cfg)
  ensureDir
  let _ ← rethrow (buildCollectionPath cfg collection.val)
  ensureDir

/-- Where a reader stands, the digest it keeps if it does, and the handle it fills. -/
structure Reader where
  pos : Nat
  crc : Option UInt32
  st : DocSt

abbrev ReadM (α : Type) := EStateM Status Reader α

def onHandle {α : Type} (m : DocM α) : ReadM α := zoom Reader.st (fun r st => { r with st := st }) m

/-- `zdb_fs_read_exact`. -/
def readExact (path : Path) (len : Nat) : ReadM Bytes := do
  let bs ← onHandle (onEnv (toStatus (fsRead path (← get).pos len)))
  if bs.length ≠ len then throw .ERR_CORRUPT
  else
    modify fun r => { r with pos := r.pos + len, crc := r.crc.map fun crc => crc32Update crc bs }
    return bs

def parseValue (cfg : DocCfg) (path : Path) (name : CString) (type : Nat) : ReadM Unit := do
  if type = Value.INT64 then
    let tmp ← readExact path 8
    onHandle (fieldSetI64 cfg name (UInt64.ofNat (leNat tmp)).toInt64)
  else if type = Value.DOUBLE then
    let tmp ← readExact path 8
    onHandle (fieldSetF64 cfg name (UInt64.ofNat (leNat tmp)))
  else if type = Value.BOOL then
    let tmp ← readExact path 1
    onHandle (fieldSetBool cfg name (leNat tmp != 0))
  else if type = Value.STRING then
    let strLen := leNat (← readExact path 4)
    if cfg.maxStringLen < strLen then throw .ERR_CORRUPT
    else
      onHandle (onEnv kMalloc)
      let str ← readExact path strLen
      onHandle (fieldSetString cfg name (CString.ofBytes str))
  else if type = Value.BYTES then
    let bytesLen := leNat (← readExact path 4)
    if cfg.maxBytesLen < bytesLen then throw .ERR_CORRUPT
    else if bytesLen = 0 then onHandle (fieldSetBytes cfg name [])
    else
      onHandle (onEnv kMalloc)
      let buf ← readExact path bytesLen
      onHandle (fieldSetBytes cfg name buf)
  else throw .ERR_UNSUPPORTED

def parseField (cfg : DocCfg) (path : Path) : ReadM Unit := do
  let hdr ← readExact path DOC_FIELD_HDR_SIZE
  let nameLen := leNat (slice hdr 0 2)
  let type := leNat (slice hdr 4 1)
  if nameLen = 0 || cfg.maxFieldNameLen < nameLen then throw .ERR_CORRUPT
  else
    onHandle (onEnv kMalloc)
    let name ← readExact path nameLen
    parseValue cfg path (CString.ofBytes name) type

def parseFields (cfg : DocCfg) (path : Path) : Nat → ReadM Unit
  | 0 => return ()
  | n + 1 => do
    parseField cfg path
    parseFields cfg path n

/-- What lies between opening and closing in `zdb_doc_parse_file`; reports the stored timestamps. -/
def parseContents (cfg : DocCfg) (path : Path) : ReadM (UInt64 × UInt64) := do
  let hdr ← readExact path DOC_HDR_SIZE
  let version := leNat (slice hdr 4 2)
  let count := leNat (slice hdr 6 2)
  let stored := UInt32.ofNat (leNat (slice hdr 24 4))
  if leNat (slice hdr 0 4) ≠ DOC_MAGIC || (version != DOC_VERSION && version != DOC_VERSION_V1) then
    throw .ERR_CORRUPT
  else if version = DOC_VERSION_V1 && stored != crc32 (hdr.take DOC_HDR_CRC) then throw .ERR_CORRUPT
  else
    -- version 1 checks the header alone; version 2 folds every field byte in as well
    modify fun r => { r with crc := if version = DOC_VERSION_V1 then none else some (crc32 (hdr.take DOC_HDR_CRC)) }
    if (← get).st.doc.maxFields < count then throw .ERR_NOMEM
    else
      parseFields cfg path count
      if (← get).crc.any (stored != ·) then throw .ERR_CORRUPT
      else return (UInt64.ofNat (leNat (slice hdr 8 8)), UInt64.ofNat (leNat (slice hdr 16 8)))

def withReader {α : Type} (m : ReadM α) : DocM α := fun s =>
  match m.run ⟨0, none, s⟩ with
  | .ok a r => .ok a r.st
  | .error status r => .error status r.st

theorem run_withReader {α : Type} {m : ReadM α} {s : DocSt} {a : α} {r : Reader} (h : m.run ⟨0, none, s⟩ = .ok a r) :
    (withReader m).run s = .ok a r.st := by
  show withReader m s = _
  unfold withReader
  rw [h]

theorem run_withReader_error {α : Type} {m : ReadM α} {s : DocSt} {status : Status} {r : Reader}
    (h : m.run ⟨0, none, s⟩ = .error status r) : (withReader m).run s = .error status r.st := by
  show withReader m s = _
  unfold withReader
  rw [h]

/-- `zdb_doc_parse_file`. -/
def parseFile (cfg : DocCfg) (path : Path) : DocM Unit := do
  onEnv (toStatus (fsOpen path false false))
  let ret ← attempt (withReader (parseContents cfg path))
  let _ ← attempt (onEnv call)
  let (createdMs, updatedMs) ← rethrow ret
  updDoc fun doc => { doc with createdMs := createdMs, updatedMs := updatedMs }

/-- What `zdb_doc_open_impl` does with the handle it has created; a handle whose open failed is closed. -/
def openCreated (cfg : DocCfg) : DocM Unit := do
  let doc := (← get).doc
  let path ← toStatus (rethrow (buildDocPath cfg doc.collectionName doc.documentId DOC_FILE_EXT))
  match ← attempt (parseFile cfg path) with
  | .error .ERR_NOT_FOUND =>
    match buildDocPath cfg doc.collectionName doc.documentId DOC_TMP_EXT with
    | .error _ => throw .ERR_NOT_FOUND
    | .ok tmpPath =>
      fieldsReset
      match ← attempt (parseFile cfg tmpPath) with
      | .ok () => orFail Status.ERR_IO (onEnv (fsMove cfg.renameReplaces tmpPath path))
      | .error _ =>
        fieldsReset
        throw .ERR_NOT_FOUND
  | r => rethrow r

def withHandle (doc : Document) (m : DocM Unit) : EStateM Status DocSys Document := fun e =>
  match m.run ⟨doc, e⟩ with
  | .ok () s => .ok s.doc s.env
  | .error status s => .error status s.env

/-- `zdb_doc_open`, and `zdb_doc_open_impl`. -/
def docOpen (cfg : DocCfg) (collectionName documentId : CString) : EStateM Status DocSys Document := do
  let doc ← docCreate cfg collectionName documentId
  withHandle doc (openCreated cfg)

/-- The value of a field as `zdb_doc_fields_emit` hands it to a sink. -/
def Value.pieces : Value → List Bytes
  | .int64 v => [leBytes 8 v.toUInt64.toNat]
  | .double bits => [leBytes 8 bits.toNat]
  | .bool b => [[if b then 1 else 0]]
  | .string s =>
    let str := s.elim [] (·.val)
    [leBytes 4 str.length, str]
  | .bytes data => [leBytes 4 data.length, data]

/-- `struct zdb_doc_field_hdr_v1`. -/
def fieldHdr (field : Field) : Bytes :=
  leBytes 2 field.name.val.length ++ leBytes 2 0 ++ leBytes 1 field.value.type ++ [0, 0, 0]

/-- One turn of the loop in `zdb_doc_fields_emit`. -/
def Field.pieces (field : Field) : List Bytes := fieldHdr field :: field.name.val :: field.value.pieces

/-- `zdb_doc_fields_emit`, as the pieces it hands to its sink. -/
def fieldsEmit (doc : Document) : List Bytes := doc.fields.flatMap Field.pieces

/-- `struct zdb_doc_hdr_v1` up to its digest. -/
def docHdrStart (doc : Document) : Bytes :=
  leBytes 4 DOC_MAGIC ++ leBytes 2 DOC_VERSION ++ leBytes 2 doc.fields.length ++
    leBytes 8 doc.createdMs.toNat ++ leBytes 8 doc.updatedMs.toNat

/-- The first pass: the pieces folded into a digest, `zdb_doc_sink_crc`. -/
def docCrc (doc : Document) : UInt32 := (fieldsEmit doc).foldl crc32Update (crc32 (docHdrStart doc))

def docHdr (doc : Document) : Bytes := docHdrStart doc ++ leBytes 4 (docCrc doc).toNat

/-- The second pass: the pieces written one after another, `zdb_doc_sink_file`; no bytes need no call. -/
def writePieces (path : Path) (pos : Nat) : List Bytes → EStateM Status DocSys Unit
  | [] => return ()
  | piece :: pieces => do
    if piece.isEmpty then writePieces path pos pieces
    else
      let wr ← toStatus (fsWrite path pos piece)
      if wr ≠ piece.length then throw Status.ERR_IO
      else writePieces path (pos + wr) pieces

/-- `fs_rename`, and the second try after a refusal. -/
def replaceFile (cfg : DocCfg) (tmpPath path : Path) : EStateM Errno DocSys Unit := do
  match ← attempt (fsMove cfg.renameReplaces tmpPath path) with
  | .error .EEXIST =>
    let _ ← attempt (fsUnlink path)
    fsMove cfg.renameReplaces tmpPath path
  | r => rethrow r

def stageFile (tmpPath : Path) (pieces : List Bytes) : EStateM Status DocSys Unit := do
  toStatus (fsOpen tmpPath true true)
  match ← attempt (writePieces tmpPath 0 pieces) with
  | .error ret =>
    let _ ← attempt call
    let _ ← attempt (fsUnlink tmpPath)
    throw ret
  | .ok () =>
    match ← attempt call with
    | .error rc =>
      let _ ← attempt (fsUnlink tmpPath)
      throw (statusFromErrno rc)
    | .ok () => return ()

def commitFile (cfg : DocCfg) (tmpPath path : Path) : EStateM Status DocSys Unit := do
  match ← attempt (replaceFile cfg tmpPath path) with
  | .error rc =>
    let _ ← attempt (fsUnlink tmpPath)
    throw (statusFromErrno rc)
  | .ok () => return ()

/-- What `zdb_doc_save` does under the lock. -/
def saveLocked (cfg : DocCfg) (doc : Document) : EStateM Status DocSys Unit := do
  toStatus (ensureDirs cfg doc.collectionName)
  let path ← toStatus (rethrow (buildDocPath cfg doc.collectionName doc.documentId DOC_FILE_EXT))
  let tmpPath ← toStatus (rethrow (buildDocPath cfg doc.collectionName doc.documentId DOC_TMP_EXT))
  stageFile tmpPath (docHdr doc :: fieldsEmit doc)
  commitFile cfg tmpPath path

/-- `zdb_doc_save`. -/
def docSave (cfg : DocCfg) : DocM Unit := do
  if !(← get).doc.valid then throw .ERR_INVAL
  else
    modify fun s => { s with doc := { s.doc with updatedMs := s.env.side } }
    onEnv (saveLocked cfg (← get).doc)

/-- `zdb_doc_delete`. -/
def docDelete (cfg : DocCfg) (collectionName documentId : CString) : EStateM Status DocSys Unit := do
  if !keysValid cfg collectionName documentId then throw .ERR_INVAL
  else
    let path ← toStatus (rethrow (buildDocPath cfg collectionName documentId DOC_FILE_EXT))
    let rc ← attempt (fsUnlink path)
    match buildDocPath cfg collectionName documentId DOC_TMP_EXT with
    | .ok tmpPath =>
      let _ ← attempt (fsUnlink tmpPath)
      toStatus (rethrow rc)
    | .error _ => toStatus (rethrow rc)

end ZephyrDB.Doc
