import ZephyrDB.Ts.Segment

/-!
The instance: a table of stream slots, the handles an application holds, and
the calls that open, append to, flush and close streams.

Every call runs under the instance lock, which is taken without a timeout, so
the calls and the flush handler run one after another.
-/

set_option autoImplicit false

namespace ZephyrDB.Ts

open Lib

/-- `struct zdb_ts_core_ctx`. -/
structure TsCoreCtx where
  streams : List StreamCtx
  flushPending : Bool
  tsDirReady : Bool

/-- An application: its `zdb_t` (`cfgSet` is `db->cfg != NULL`), the `zdb_ts_t` objects it holds by
number (`none` is a closed one), and the file system. -/
structure App where
  cfgSet : Bool
  tsCtx : Option TsCoreCtx
  handles : Nat → Option Bytes
  env : Sys

abbrev AppM (ε α : Type) := EStateM ε App α

def App.slotAt (a : App) (i : Nat) : StreamCtx :=
  match a.tsCtx with
  | some ctx => ctx.streams.getD i StreamCtx.zero
  | none => StreamCtx.zero

def App.setSlot (a : App) (i : Nat) (slot : StreamCtx) : App :=
  { a with tsCtx := a.tsCtx.map fun ctx => { ctx with streams := ctx.streams.set i slot } }

def App.setPending (a : App) (pending : Bool) : App :=
  { a with tsCtx := a.tsCtx.map fun ctx => { ctx with flushPending := pending } }

def App.bind (a : App) (h : Nat) (name : Option Bytes) : App :=
  { a with handles := Function.update a.handles h name }

def App.pending (a : App) : Bool := (a.tsCtx.map TsCoreCtx.flushPending).getD false

def onEnv {ε α : Type} (m : EStateM ε Sys α) : AppM ε α := zoom App.env (fun a e => { a with env := e }) m

def onSlot {ε α : Type} (i : Nat) (m : SlotM ε α) : AppM ε α :=
  zoom (fun a => ⟨a.slotAt i, a.env⟩) (fun a s => { a.setSlot i s.slot with env := s.env }) m

/-- `zdb_ts_slot_find`. -/
def App.slotFind (a : App) (name : Bytes) : Option Nat :=
  a.tsCtx.bind fun ctx => ctx.streams.findIdx? fun slot => slot.inUse && slot.name == name

/-- `zdb_ts_ctx_get_or_alloc`; callers report `onNull` where it yields no context. -/
def tsCtxGetOrAlloc (cfg : Cfg) (onNull : Status) : AppM Status Unit := do
  let a ← get
  if !a.cfgSet then throw onNull
  match a.tsCtx with
  | some _ => return ()
  | none =>
    onEnv (orFail onNull call)
    modify fun a =>
      { a with tsCtx := some ⟨List.replicate cfg.maxStreams StreamCtx.zero, false, false⟩ }

/-- `zdb_ts_ensure_stream_dir`. -/
def ensureStreamDir (cfg : Cfg) : AppM Errno Unit := do
  let a ← get
  if !(a.tsCtx.map TsCoreCtx.tsDirReady).getD false then
    if PATH_MAX ≤ (tsDir cfg).length then throw .ENAMETOOLONG
    match ← onEnv (attempt call) with
    | .error .EEXIST => pure ()
    | .error err => throw err
    | .ok _ => pure ()
    modify fun a => { a with tsCtx := a.tsCtx.map fun ctx => { ctx with tsDirReady := true } }

/-- `zdb_ts_ensure_stream_header`. -/
def ensureStreamHeader (cfg : Cfg) (name : Bytes) : Zdb Unit := do
  let path ← rethrow ((buildPath cfg name).mapError statusFromErrno)
  let _ ← ensureHeaderEx cfg name path 0

/-- A claimed slot with its ingest block. -/
def StreamCtx.fresh (cfg : Cfg) (name : Bytes) : StreamCtx :=
  { StreamCtx.zero with
    name := name
    ingestCapacity := cfg.ingestCapacity
    ingestBuf := some (List.replicate cfg.ingestSlabBlockSize 0)
    openCount := 1
    inUse := true }

/-- `zdb_ts_slot_claim`, with the status `zdb_ts_open` reports when it yields no slot. -/
def slotClaim (cfg : Cfg) (name : Bytes) : AppM Status Unit := do
  let a ← get
  match a.slotFind name with
  | some i =>
    let slot := a.slotAt i
    set (a.setSlot i { slot with openCount := if slot.openCount < 255 then slot.openCount + 1 else slot.openCount })
  | none =>
    match a.tsCtx.bind fun ctx => ctx.streams.findIdx? fun slot => !slot.inUse with
    | none => throw .ERR_BUSY
    | some i =>
      set (a.setSlot i { StreamCtx.zero with name := name, ingestCapacity := cfg.ingestCapacity })
      onEnv (orFail .ERR_BUSY call)
      modify fun a => a.setSlot i (StreamCtx.fresh cfg name)

/-- `zdb_ts_slot_release`. -/
def slotRelease (i : Nat) : AppM Status Unit :=
  modify fun a =>
    let slot := a.slotAt i
    if slot.openCount > 1 then a.setSlot i { slot with openCount := slot.openCount - 1 }
    else a.setSlot i StreamCtx.zero

/-- The format in which a file of this layout is decoded. -/
def FileLayout.version (layout : FileLayout) : Nat :=
  if layout.recSize = recSizeV2 then STREAM_VERSION_V2 else STREAM_VERSION

/-- The loop of `zdb_ts_recover_stream`: how far whole records reach from `goodEnd`, and where the
file position stands after the read that ended the walk. -/
def recoverWalk (layout : FileLayout) (path : Path) : Nat → Nat → Zdb (Nat × Nat)
  | 0, goodEnd => return (goodEnd, goodEnd)
  | fuel + 1, goodEnd => do
    let raw ← toStatus (fsRead path goodEnd layout.recSize)
    if raw.length ≠ layout.recSize then return (goodEnd, goodEnd + raw.length)
    else
      match ← attempt (recordDecodeAs layout.version 0 raw) with
      | .ok _ => recoverWalk layout path fuel (goodEnd + layout.recSize)
      | .error _ => return (goodEnd, goodEnd + raw.length)

def probeLayout (path : Path) : Zdb FileLayout := do
  match ← attempt (fsStat path) with
  | .error _ => return FileLayout.v1
  | .ok _ =>
    match ← attempt (cursorLearnLayout path) with
    | .error _ => return FileLayout.v1
    | .ok layout => return layout

/-- `zdb_ts_recover_stream` once it has the path of the newest file; reports the bytes cut off. -/
def recoverFile (streamName : Bytes) (path : Path) : Zdb Nat := do
  let layout ← probeLayout path
  toStatus (fsOpen path true false)
  let hdr ← toStatus (fsRead path 0 hdrSizeV1)
  if hdr.length = 0 then
    toStatus call
    let wr ← toStatus (fsWrite path 0 (streamHeaderEncode streamName))
    if wr ≠ hdrSizeV1 then throw Status.ERR_IO
    return 0
  else
    if hdr.length ≠ hdrSizeV1 then throw .ERR_CORRUPT
    if layout.hdrSize = hdrSizeV1 then streamHeaderDecode hdr streamName
    toStatus call
    let fuel := ((← get).contents path).length + 1
    let (goodEnd, endPos) ← recoverWalk layout path fuel layout.hdrSize
    toStatus call
    if goodEnd < endPos then
      toStatus (fsTruncate path goodEnd)
      statRecoverTruncated (endPos - goodEnd)
    return endPos - goodEnd

/-- The path `zdb_ts_recover_stream` works on. -/
def recoverPath (cfg : Cfg) (name : Bytes) : AppM Status Path := do
  if cfg.segmented then
    tsCtxGetOrAlloc cfg .ERR_INVAL
    match (← get).slotFind name with
    | none => throw .ERR_INVAL
    | some i => toStatus (onSlot i (activePath cfg))
  else
    if !(← get).cfgSet then throw .ERR_INVAL
    rethrow ((buildPath cfg name).mapError statusFromErrno)

/-- `zdb_ts_recover_stream`. -/
def recoverStream (cfg : Cfg) (name : Bytes) : AppM Status Nat := do
  onEnv statRecoverRun
  let body : AppM Status Nat := do
    let path ← recoverPath cfg name
    onEnv (recoverFile name path)
  match ← attempt body with
  | .ok truncated => return truncated
  | .error status =>
    onEnv statRecoverFailure
    onEnv healthCheck
    throw status

/-- The recovery pass of `zdb_ts_open`. -/
def openRecover (cfg : Cfg) (name : Bytes) : AppM Status Unit := do
  match ← attempt (recoverStream cfg name) with
  | .error status =>
    onEnv statRecoverFailure
    throw status
  | .ok truncated =>
    if 0 < cfg.maxRecoveryTruncateBytes ∧ cfg.maxRecoveryTruncateBytes < truncated then
      onEnv statRecoverFailure
      throw .ERR_CORRUPT

/-- `zdb_ts_open`: the handle is bound before the recovery pass, which may still fail. -/
def tsOpen (cfg : Cfg) (h : Nat) (name : Bytes) : AppM Status Unit := do
  if !streamNameValid cfg name then throw .ERR_INVAL
  if !(← get).cfgSet then throw .ERR_INVAL
  tsCtxGetOrAlloc cfg .ERR_NOMEM
  toStatus (ensureStreamDir cfg)
  if !cfg.segmented then onEnv (ensureStreamHeader cfg name)
  slotClaim cfg name
  modify fun a => a.bind h (some name)
  if cfg.autoRecoverOnOpen then openRecover cfg name

/-- The first half of `zdb_ts_close`: the last handle's buffer is written out. -/
def closeFlush (cfg : Cfg) (name : Bytes) : AppM Status Unit := do
  let a ← get
  match a.slotFind name with
  | none => return ()
  | some i => if (a.slotAt i).openCount ≤ 1 then toStatus (onSlot i (flushBufferLocked cfg))

/-- `zdb_ts_close`: the slot is released whether or not the flush went through. -/
def tsClose (cfg : Cfg) (h : Nat) : AppM Status Unit := do
  match (← get).handles h with
  | none => return ()
  | some name =>
    let status ← attempt (closeFlush cfg name)
    match (← get).slotFind name with
    | none => pure ()
    | some i => slotRelease i
    modify fun a => a.bind h none
    rethrow status

/-- `zdb_ts_flush_async`. -/
def tsFlushAsync (cfg : Cfg) (h : Nat) : AppM Status Unit := do
  let a ← get
  if (a.handles h).isNone || !a.cfgSet then throw .ERR_INVAL
  tsCtxGetOrAlloc cfg .ERR_NOMEM
  if (← get).pending then throw .ERR_BUSY
  modify fun a => a.setPending true
  match ← onEnv (attempt call) with
  | .ok _ => return ()
  | .error err =>
    modify fun a => a.setPending false
    throw (statusFromErrno err)

/-- The part of an append that follows the unlock: drain early once no further record would fit. A
flush already in flight is not an append failure. -/
def appendFlush (cfg : Cfg) (h i recSize : Nat) : AppM Status Unit := do
  let slot := (← get).slotAt i
  if slot.ingestCapacity < slot.ingestUsed + recSize then
    match ← attempt (tsFlushAsync cfg h) with
    | .ok _ => return ()
    | .error .ERR_BUSY => return ()
    | .error status => throw status

/-- `zdb_ts_append_i64`. -/
def tsAppendI64 (cfg : Cfg) (h : Nat) (sample : Sample) : AppM Status Unit := do
  match (← get).handles h with
  | none => throw .ERR_INVAL
  | some name =>
    tsCtxGetOrAlloc cfg .ERR_INVAL
    match (← get).slotFind name with
    | none => throw .ERR_INVAL
    | some i =>
      let recSize ← onSlot i (appendRecord cfg sample)
      appendFlush cfg h i recSize

/-- The loop of `zdb_ts_append_batch_i64`. -/
def appendRecords (cfg : Cfg) : List Sample → SlotM Status Unit
  | [] => return ()
  | sample :: samples => do
    let _ ← appendRecord cfg sample
    appendRecords cfg samples

/-- `zdb_ts_append_batch_i64`: the outcome of the flush it queues is dropped. -/
def tsAppendBatchI64 (cfg : Cfg) (h : Nat) (samples : List Sample) : AppM Status Unit := do
  match (← get).handles h with
  | none => throw .ERR_INVAL
  | some name =>
    if samples.isEmpty then throw .ERR_INVAL
    tsCtxGetOrAlloc cfg .ERR_INVAL
    match (← get).slotFind name with
    | none => throw .ERR_INVAL
    | some i =>
      onSlot i (appendRecords cfg samples)
      let slot := (← get).slotAt i
      if slot.ingestCapacity < slot.ingestUsed + slotRecSize cfg slot then
        let _ ← attempt (ε := Status) (tsFlushAsync cfg h)

/-- One round of `zdb_ts_flush_all_locked`: a stream that fails keeps its buffer. -/
def flushSlot (cfg : Cfg) (i : Nat) : AppM Status Unit := do
  let slot := (← get).slotAt i
  if slot.inUse && slot.ingestUsed != 0 then
    let _ ← attempt (ε := Errno) (onSlot i (flushBufferLocked cfg))

def flushSlots (cfg : Cfg) : List Nat → AppM Status Unit
  | [] => return ()
  | i :: rest => do
    flushSlot cfg i
    flushSlots cfg rest

/-- `zdb_ts_flush_all_locked`. -/
def flushAllLocked (cfg : Cfg) : AppM Status Unit := do
  let a ← get
  flushSlots cfg (List.range ((a.tsCtx.map (·.streams.length)).getD 0))

/-- `zdb_ts_flush_work_handler`, when the work queue gets to it. -/
def flushWorkHandler (cfg : Cfg) : AppM Status Unit := do
  if (← get).pending then
    flushAllLocked cfg
    modify fun a => a.setPending false

/-- `zdb_ts_flush_sync` without a timeout: it waits for the handler it queued, or found queued. -/
def tsFlushSync (cfg : Cfg) (h : Nat) : AppM Status Unit := do
  if ((← get).handles h).isNone then throw .ERR_INVAL
  tsCtxGetOrAlloc cfg .ERR_INTERNAL
  match ← attempt (tsFlushAsync cfg h) with
  | .ok _ => flushWorkHandler cfg
  | .error .ERR_BUSY => flushWorkHandler cfg
  | .error status => throw status

/-- `zdb_deinit`: the queued handler is cancelled, every slot's block returned, the context freed. -/
def deinit : AppM Status Unit := modify fun a => { a with cfgSet := false, tsCtx := none }

/-- `zdb_init` with slabs in place and no defaults to seed. -/
def init : AppM Status Unit :=
  modify fun a => { a with cfgSet := true, tsCtx := none, env := { a.env with side := ⟨TsStats.zero, .OK⟩ } }

end ZephyrDB.Ts
