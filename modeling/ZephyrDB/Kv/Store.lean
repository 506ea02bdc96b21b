import ZephyrDB.Lib.IdStore
import ZephyrDB.Kv.Record

/-!
The key-value store over an id store: the key index in RAM and in its reserved
record, and the calls that set, get, delete, iterate and reset.

Every call runs under the instance lock, which is taken without a timeout. The
backend handle and the IO slab are the ones `zdb_init` was given, so they are
not NULL; events are left to the callers.
-/

set_option autoImplicit false

namespace ZephyrDB.Kv

open Lib

/-- `struct zdb_kv_index_entry`. -/
structure IndexEntry where
  namespaceName : CString
  key : CString
  id : UInt32
  deriving DecidableEq

/-- What the calls work on: the key index (`none` is no `zdb_kv_ctx`), the free blocks of the IO slab,
whether the heap has room for a context, and the backend. -/
structure KvSt where
  ctx : Option (List IndexEntry)
  ioFree : Nat
  heapRoom : Bool
  flash : IdStore

abbrev KvM (ε α : Type) := EStateM ε KvSt α

def onFlash {ε α : Type} (m : EStateM ε IdStore α) : KvM ε α :=
  zoom KvSt.flash (fun s f => { s with flash := f }) m

def indexBytes (entries : List IndexEntry) : Bytes :=
  INDEX_TAG :: INDEX_VERSION :: (leBytes 2 entries.length ++ entries.flatMap fun e => leBytes 4 e.id.toNat)

/-- `zdb_kv_index_store`: a failure is not reported. -/
def indexStore (cfg : KvCfg) : KvM Status Unit := do
  match (← get).ctx with
  | none => return ()
  | some entries =>
    let _ ← attempt (onFlash (IdStore.write (indexRecId cfg) (indexBytes entries)))

def entryOf (cfg : KvCfg) (id : UInt32) (rd : Nat) (record : Bytes) : Option IndexEntry :=
  if rd < REC_HDR_SIZE then none
  else if record.getD 0 0 ≠ REC_TAG ∨ nsLen record = 0 ∨ keyLen record = 0 ∨ cfg.maxKeyLen < nsLen record ∨
      cfg.maxKeyLen < keyLen record ∨ rd < headLen record then none
  else
    some ⟨CString.ofBytes (slice record REC_HDR_SIZE (nsLen record)),
      CString.ofBytes (slice record (REC_HDR_SIZE + nsLen record) (keyLen record)), id⟩

/-- The loop of `zdb_kv_index_load`: adds the entries whose record is there, and reports whether one was
dropped. -/
def loadEntries (cfg : KvCfg) : List UInt32 → KvM Status Bool
  | [] => return false
  | id :: ids => do
    match ← attempt (onFlash (IdStore.read id cfg.blockSize)) with
    | .error _ =>
      let _ ← loadEntries cfg ids
      return true
    | .ok (rd, record) =>
      match entryOf cfg id rd record with
      | none =>
        let _ ← loadEntries cfg ids
        return true
      | some entry =>
        modify fun s => { s with ctx := s.ctx.map (· ++ [entry]) }
        loadEntries cfg ids

/-- The ids an index record lists, and `none` where it is not one; `rd` is its full length. -/
def indexIds (cfg : KvCfg) (rd : Nat) (raw : Bytes) : Option (List UInt32) :=
  if rd < INDEX_HDR_SIZE then none
  else if raw.getD 0 0 ≠ INDEX_TAG ∨ raw.getD 1 0 ≠ INDEX_VERSION then none
  else
    let count := min (leNat (slice raw 2 2)) cfg.indexMax
    if rd < INDEX_HDR_SIZE + 4 * count then none
    else some ((List.range count).map fun i => UInt32.ofNat (leNat (slice raw (INDEX_HDR_SIZE + i * 4) 4)))

/-- `zdb_kv_index_load`: without a free block the stored index counts as empty. -/
def indexLoad (cfg : KvCfg) : KvM Status Unit := do
  match ← attempt (onFlash (IdStore.read (indexRecId cfg) (indexMaxBytes cfg))) with
  | .error _ => return ()
  | .ok (rd, raw) =>
    match indexIds cfg rd raw with
    | none => return ()
    | some ids =>
      if (← get).ioFree ≠ 0 then
        modify fun s => { s with ioFree := s.ioFree - 1 }
        let pruned ← loadEntries cfg ids
        modify fun s => { s with ioFree := s.ioFree + 1 }
        if pruned then indexStore cfg

/-- The parts that `ZDB_KV_PERSIST_INDEX` compiles in. -/
def loadPersisted (cfg : KvCfg) : KvM Status Unit := if cfg.persistIndex then indexLoad cfg else return ()

def storePersisted (cfg : KvCfg) : KvM Status Unit := if cfg.persistIndex then indexStore cfg else return ()

/-- `zdb_kv_ctx_get_or_alloc`: whether there is a context afterwards. -/
def ctxGetOrAlloc (cfg : KvCfg) : KvM Status Bool := do
  let s ← get
  match s.ctx with
  | some _ => return true
  | none =>
    if s.heapRoom then
      set { s with ctx := some [] }
      loadPersisted cfg
      return true
    else return false

/-- `zdb_kv_ctx_find_entry`. -/
def findEntry (entries : List IndexEntry) (ns key : CString) : Option Nat :=
  entries.findIdx? fun e => e.namespaceName == ns && e.key == key

/-- `zdb_kv_ctx_track_set`: false where the key is stored but the index is full. -/
def trackSet (cfg : KvCfg) (ns key : CString) (id : UInt32) : KvM Status Bool := do
  if !(← ctxGetOrAlloc cfg) then return true
  else
    let s ← get
    let entries := s.ctx.getD []
    match findEntry entries ns key with
    | some i =>
      set { s with ctx := some (entries.modify i fun e => { e with id := id }) }
      return true
    | none =>
      if cfg.indexMax ≤ entries.length then return false
      else
        set { s with ctx := some (entries ++ [IndexEntry.mk ns key id]) }
        storePersisted cfg
        return true

/-- `zdb_kv_ctx_track_delete`: an index that is not loaded is left alone. -/
def trackDelete (cfg : KvCfg) (ns key : CString) : KvM Status Unit := do
  let s ← get
  match s.ctx with
  | none => return ()
  | some entries =>
    match findEntry entries ns key with
    | none => return ()
    | some i =>
      set { s with ctx := some (entries.eraseIdx i) }
      storePersisted cfg

/-- `zdb_kv_open`: a handle is a namespace. -/
def kvOpen {σ : Type} (cfg : KvCfg) (ns : CString) : EStateM Status σ Unit :=
  if keyValid cfg ns then pure () else throw .ERR_INVAL

def withBlock {α : Type} (m : KvM Status α) : KvM Status α := do
  if (← get).ioFree = 0 then throw .ERR_NOMEM
  else
    modify fun s => { s with ioFree := s.ioFree - 1 }
    let r ← attempt m
    modify fun s => { s with ioFree := s.ioFree + 1 }
    rethrow r

def probe (ns key : CString) : Except Errno (Nat × Bytes) → Option RecCheck
  | .error _ => none
  | .ok (_, record) => some (recordCheck record ns key)

/-- Whether a write that reports `n` has stored the record: a backend reports zero where the bytes are
stored already. -/
def landed (total : Nat) (check : Option RecCheck) (n : Nat) : Bool :=
  n == total || (n == 0 && match check with
    | some (.MATCH _) => true
    | _ => false)

def writeStatus (total : Nat) (check : Option RecCheck) : Except Errno Nat → Status
  | .error err => statusFromErrno err
  | .ok n => if landed total check n then .OK else Status.ERR_IO

def finishSet (cfg : KvCfg) (ns key : CString) : Status → KvM Status Unit
  | .OK => return ()
  | status => do
    trackDelete cfg ns key
    throw status

/-- The locked part of `zdb_kv_set`. -/
def setLocked (cfg : KvCfg) (ns key : CString) (value : Bytes) : KvM Status Unit := do
  let id := recordId cfg ns key
  let rd ← attempt (onFlash (IdStore.read id cfg.blockSize))
  let check := probe ns key rd
  if check = some .MISMATCH then throw .ERR_COLLISION
  else
    let _ ← trackSet cfg ns key id
    let record := recordBuild ns key value
    let wr ← attempt (onFlash (IdStore.write id record))
    finishSet cfg ns key (writeStatus record.length check wr)

/-- `zdb_kv_set`. -/
def kvSet (cfg : KvCfg) (ns key : CString) (value : Option Bytes) : KvM Status Unit := do
  match value with
  | none => throw .ERR_INVAL
  | some value =>
    if !keyValid cfg key then throw .ERR_INVAL
    else if cfg.blockSize < (recordBuild ns key value).length then throw .ERR_NOMEM
    else withBlock (setLocked cfg ns key value)

/-- `zdb_kv_get` with room for `capacity` bytes: what it copies and the length it reports. -/
def kvGet (cfg : KvCfg) (ns key : CString) (capacity : Nat) : KvM Status (Bytes × Nat) := do
  if !keyValid cfg key then throw .ERR_INVAL
  else
    let (rd, record) ← withBlock (toStatus (onFlash (IdStore.read (recordId cfg ns key) cfg.blockSize)))
    match recordCheck record ns key with
    | .MATCH off =>
      return (slice record off (min (min (rd - off) capacity) (record.length - off)), rd - off)
    | _ => throw .ERR_NOT_FOUND

/-- The locked part of `zdb_kv_delete`: only a slot that holds this key. -/
def deleteLocked (cfg : KvCfg) (ns key : CString) : KvM Status Unit := do
  let id := recordId cfg ns key
  let (_, record) ← toStatus (onFlash (IdStore.read id cfg.blockSize))
  match recordCheck record ns key with
  | .MATCH _ =>
    toStatus (onFlash (IdStore.delete id))
    trackDelete cfg ns key
  | _ => throw .ERR_NOT_FOUND

/-- `zdb_kv_delete`. -/
def kvDelete (cfg : KvCfg) (ns key : CString) : KvM Status Unit := do
  if !keyValid cfg key then throw .ERR_INVAL
  else withBlock (deleteLocked cfg ns key)

/-- `zdb_kv_iter_open`. -/
def kvIterOpen (cfg : KvCfg) : KvM Status Unit := do
  if !(← ctxGetOrAlloc cfg) then throw .ERR_NOMEM

/-- The first entry of a namespace at or after a position. -/
def nextKeyInNs (entries : List IndexEntry) (ns : CString) (fromPos : Nat) : Option Nat :=
  ((entries.drop fromPos).findIdx? fun e => e.namespaceName == ns).map (fromPos + ·)

/-- What `zdb_kv_iter_next` hands out: the key, the bytes copied of its value and the value's length. -/
abbrev Item := CString × Bytes × Nat

/-- The loop of `zdb_kv_iter_next`, with the position it leaves the iterator at. A stale entry is skipped,
so it goes round at most once for each entry. -/
def iterScan (cfg : KvCfg) (ns : CString) (keyCapacity valueCapacity : Nat) :
    Nat → Nat → KvM Status (Nat × Except Status Item)
  | 0, pos => return (pos, .error .ERR_NOT_FOUND)
  | fuel + 1, pos => do
    match (← get).ctx with
    | none => return (pos, .error .ERR_NOT_FOUND)
    | some entries =>
      match nextKeyInNs entries ns pos with
      | none => return (max pos entries.length, .error .ERR_NOT_FOUND)
      | some i =>
        match entries[i]? with
        | none => return (pos, .error .ERR_NOT_FOUND)
        | some entry =>
          if entry.key.val.isEmpty then return (i + 1, .error .ERR_NOT_FOUND)
          else if keyCapacity < entry.key.val.length + 1 then return (i + 1, .error .ERR_NOMEM)
          else
            match ← attempt (kvGet cfg ns entry.key valueCapacity) with
            | .ok (copied, len) => return (i + 1, .ok (entry.key, copied, len))
            | .error .ERR_NOT_FOUND => iterScan cfg ns keyCapacity valueCapacity fuel (i + 1)
            | .error status => return (i + 1, .error status)

/-- `zdb_kv_iter_next`. -/
def kvIterNext (cfg : KvCfg) (ns : CString) (keyCapacity valueCapacity pos : Nat) :
    KvM Status (Nat × Except Status Item) := do
  if keyCapacity = 0 then return (pos, .error .ERR_INVAL)
  else iterScan cfg ns keyCapacity valueCapacity (((← get).ctx.getD []).length + 1) pos

def kvIterWalk (cfg : KvCfg) (ns : CString) (keyCapacity valueCapacity : Nat) :
    Nat → Nat → KvM Status (List Item × Status)
  | 0, _ => return ([], .OK)
  | calls + 1, pos => do
    match ← kvIterNext cfg ns keyCapacity valueCapacity pos with
    | (_, .error status) => return ([], status)
    | (pos, .ok item) =>
      let (items, status) ← kvIterWalk cfg ns keyCapacity valueCapacity calls pos
      return (item :: items, status)

/-- Open an iterator on a namespace and walk it to its end. -/
def kvIterate (cfg : KvCfg) (ns : CString) (keyCapacity valueCapacity : Nat) :
    KvM Status (List Item × Status) := do
  kvIterOpen cfg
  kvIterWalk cfg ns keyCapacity valueCapacity (((← get).ctx.getD []).length + 1) 0

def firstError : Status → Except Status Unit → Status
  | .OK, .error status => status
  | status, _ => status

def applyDefault (cfg : KvCfg) (ns key : CString) (value : Option Bytes) : KvM Status Unit := do
  kvOpen cfg ns
  match ← attempt (kvGet cfg ns key 0) with
  | .ok _ => return ()
  | .error .ERR_NOT_FOUND => kvSet cfg ns key value
  | .error status => throw status

/-- The loop of `zdb_kv_defaults_apply_ns`. -/
def applyDefaults (cfg : KvCfg) (filter : Option CString) : List Default → Status → KvM Status Status
  | [], first => return first
  | d :: ds, first => do
    match d.namespaceName, d.key with
    | some ns, some key =>
      if filter.all (ns == ·) then
        let r ← attempt (applyDefault cfg ns key d.value)
        applyDefaults cfg filter ds (firstError first r)
      else applyDefaults cfg filter ds first
    | _, _ => applyDefaults cfg filter ds (firstError first (.error .ERR_INVAL))

/-- `zdb_kv_defaults_apply_ns`. -/
def kvDefaultsApplyNs (cfg : KvCfg) (filter : Option CString) : KvM Status Unit := do
  let first ← applyDefaults cfg filter cfg.defaults .OK
  if first = .OK then return () else throw first

/-- The loop of `zdb_kv_reset_namespace`: each round removes an entry or steps over one. -/
def resetKeys (cfg : KvCfg) (ns : CString) : Nat → Nat → Status → KvM Status Status
  | 0, _, first => return first
  | fuel + 1, pos, first => do
    let entries := (← get).ctx.getD []
    match (nextKeyInNs entries ns pos).bind fun i => entries[i]?.map fun e => (i, e.key) with
    | none => return first
    | some (i, key) =>
      match ← attempt (kvDelete cfg ns key) with
      | .ok _ => resetKeys cfg ns fuel pos first
      | .error .ERR_NOT_FOUND =>
        trackDelete cfg ns key
        resetKeys cfg ns fuel pos first
      | .error status => resetKeys cfg ns fuel (i + 1) (firstError first (.error status))

/-- `zdb_kv_reset_namespace`. -/
def kvResetNamespace (cfg : KvCfg) (ns : CString) : KvM Status Unit := do
  if !(← ctxGetOrAlloc cfg) then throw .ERR_NOMEM
  else
    let first ← resetKeys cfg ns (((← get).ctx.getD []).length + 1) 0 .OK
    let r ← attempt (kvDefaultsApplyNs cfg (some ns))
    match firstError first r with
    | .OK => return ()
    | status => throw status

end ZephyrDB.Kv
