import ZephyrDB.Lib.Noted
import ZephyrDB.Kv.Refine

/-!
What listeners of the key-value store are told: of every set and delete that
got past its checks, with its status, and of every key that was stored but not
indexed.

The time of an event is left out. Listeners and zbus get the same events, one
after the other, when the instance lock has been released.
-/

set_option autoImplicit false

namespace ZephyrDB.Kv.Eventing

open Lib

/-- `zdb_event_type_t`. -/
inductive KvEventType where
  | KV_SET
  | KV_DELETE
  | KV_INDEX_FULL
  deriving DecidableEq

/-- `zdb_kv_event_t`. -/
structure KvEvent where
  type : KvEventType
  namespaceName : CString
  key : CString
  valueLen : Nat
  status : Status
  deriving DecidableEq

abbrev FeedM (α : Type) := EStateM Status (Noted KvSt (List KvEvent)) α

/-- `zdb_event_copy_name`: as much of the name as the field of an event holds. -/
def eventCopyName (cfg : KvCfg) (src : CString) : CString := CString.ofBytes (src.val.take cfg.maxKeyLen)

/-- `zdb_emit_kv_event`. -/
def emitKvEvent (cfg : KvCfg) (type : KvEventType) (ns key : CString) (valueLen : Nat) (status : Status) :
    FeedM Unit :=
  note fun events => events ++ [⟨type, eventCopyName cfg ns, eventCopyName cfg key, valueLen, status⟩]

/-- The locked part of `zdb_kv_set`, with `indexed` for the event that may follow. -/
def setLocked (cfg : KvCfg) (ns key : CString) (value : Bytes) : KvM Status Bool := do
  let id := recordId cfg ns key
  let rd ← attempt (onFlash (IdStore.read id cfg.blockSize))
  let check := probe ns key rd
  if check = some .MISMATCH then throw .ERR_COLLISION
  else
    let indexed ← trackSet cfg ns key id
    let record := recordBuild ns key value
    let wr ← attempt (onFlash (IdStore.write id record))
    finishSet cfg ns key (writeStatus record.length check wr)
    return indexed

/-- The end of `zdb_kv_set`, when the lock has been released. -/
def announceSet (cfg : KvCfg) (ns key : CString) (valueLen : Nat) (r : Except Status Bool) : FeedM Unit := do
  emitKvEvent cfg .KV_SET ns key valueLen (statusOf r)
  match r with
  | .ok indexed => if !indexed then emitKvEvent cfg .KV_INDEX_FULL ns key valueLen .OK
  | .error status => throw status

/-- `zdb_kv_set`. -/
def kvSet (cfg : KvCfg) (ns key : CString) (value : Option Bytes) : FeedM Unit := do
  match value with
  | none => throw .ERR_INVAL
  | some value =>
    if !keyValid cfg key then throw .ERR_INVAL
    else if cfg.blockSize < (recordBuild ns key value).length then throw .ERR_NOMEM
    -- without a block of the slab nothing is announced
    else if (← get).st.ioFree = 0 then throw .ERR_NOMEM
    else
      let r ← silent (attempt (withBlock (setLocked cfg ns key value)))
      announceSet cfg ns key value.length r

/-- `zdb_kv_delete`: here a missing block is announced too. -/
def kvDelete (cfg : KvCfg) (ns key : CString) : FeedM Unit := do
  if !keyValid cfg key then throw .ERR_INVAL
  else
    let r ← silent (attempt (withBlock (deleteLocked cfg ns key)))
    emitKvEvent cfg .KV_DELETE ns key 0 (statusOf r)
    rethrow r

def applyDefault (cfg : KvCfg) (ns key : CString) (value : Option Bytes) : FeedM Unit := do
  kvOpen cfg ns
  match ← silent (attempt (kvGet cfg ns key 0)) with
  | .ok _ => return ()
  | .error .ERR_NOT_FOUND => kvSet cfg ns key value
  | .error status => throw status

/-- The loop of `zdb_kv_defaults_apply_ns`. -/
def applyDefaults (cfg : KvCfg) (filter : Option CString) : List Default → Status → FeedM Status
  | [], first => return first
  | d :: ds, first => do
    match d.namespaceName, d.key with
    | some ns, some key =>
      if filter.all (ns == ·) then
        let r ← attempt (applyDefault cfg ns key d.value)
        applyDefaults cfg filter ds (firstError first r)
      else applyDefaults cfg filter ds first
    | _, _ => applyDefaults cfg filter ds (firstError first (.error .ERR_INVAL))

/-- `zdb_kv_defaults_apply_ns`. -/
def kvDefaultsApplyNs (cfg : KvCfg) (filter : Option CString) : FeedM Unit := do
  let first ← applyDefaults cfg filter cfg.defaults .OK
  if first = .OK then return () else throw first

/-- The loop of `zdb_kv_reset_namespace`. -/
def resetKeys (cfg : KvCfg) (ns : CString) : Nat → Nat → Status → FeedM Status
  | 0, _, first => return first
  | fuel + 1, pos, first => do
    let entries := (← get).st.ctx.getD []
    match (nextKeyInNs entries ns pos).bind fun i => entries[i]?.map fun e => (i, e.key) with
    | none => return first
    | some (i, key) =>
      match ← attempt (kvDelete cfg ns key) with
      | .ok _ => resetKeys cfg ns fuel pos first
      | .error .ERR_NOT_FOUND =>
        silent (trackDelete cfg ns key)
        resetKeys cfg ns fuel pos first
      | .error status => resetKeys cfg ns fuel (i + 1) (firstError first (.error status))

/-- `zdb_kv_reset_namespace`. -/
def kvResetNamespace (cfg : KvCfg) (ns : CString) : FeedM Unit := do
  if !(← silent (ctxGetOrAlloc cfg)) then throw .ERR_NOMEM
  else
    let first ← resetKeys cfg ns (((← get).st.ctx.getD []).length + 1) 0 .OK
    let r ← attempt (kvDefaultsApplyNs cfg (some ns))
    match firstError first r with
    | .OK => return ()
    | status => throw status

/-- The calls of an application, heard by its listeners. -/
def callRun (cfg : KvCfg) : Call → FeedM Answer
  | .set ns key value => do
    kvOpen cfg ns
    kvSet cfg ns key value
    return .done
  | .delete ns key => do
    kvOpen cfg ns
    kvDelete cfg ns key
    return .done
  | .reset ns => do
    kvOpen cfg ns
    kvResetNamespace cfg ns
    return .done
  | .defaults filter => do
    kvDefaultsApplyNs cfg filter
    return .done
  | call => silent (call.run cfg)

/-- The store and the events after calls, each of which finds so many free blocks and heap for the index. -/
def feedRun (cfg : KvCfg) (s : Noted KvSt (List KvEvent)) (calls : List (Nat × Call)) : Noted KvSt (List KvEvent) :=
  calls.foldl (fun s c => post (callRun cfg c.2) { s with st := s.st.given c.1 true }) s

variable {cfg : KvCfg}

theorem setLocked_same (ns key : CString) (value : Bytes) :
    (setLocked cfg ns key value >>= fun _ => pure ()) = Kv.setLocked cfg ns key value := by
  unfold setLocked Kv.setLocked
  rw [bind_assoc]
  apply congrArg _
  apply funext
  intro rd
  dsimp only
  split
  · rfl
  · rw [bind_assoc]
    apply congrArg _
    apply funext
    intro indexed
    rw [bind_assoc]
    apply congrArg _
    apply funext
    intro wr
    rw [bind_assoc]
    exact bind_pure _

def setEvents (cfg : KvCfg) (ns key : CString) (valueLen : Nat) (r : Except Status Bool) : List KvEvent :=
  let event (type : KvEventType) (status : Status) : KvEvent :=
    ⟨type, eventCopyName cfg ns, eventCopyName cfg key, valueLen, status⟩
  match r with
  | .ok true => [event .KV_SET .OK]
  | .ok false => [event .KV_SET .OK, event .KV_INDEX_FULL .OK]
  | .error status => [event .KV_SET status]

theorem run_announceSet (ns key : CString) (valueLen : Nat) (r : Except Status Bool) (s : Noted KvSt (List KvEvent)) :
    (announceSet cfg ns key valueLen r).run s =
      (rethrow (r.map fun _ => ())).run { s with notes := s.notes ++ setEvents cfg ns key valueLen r } := by
  cases r with
  | ok indexed =>
    cases indexed with
    | true => rfl
    | false =>
      let heard (events : List KvEvent) : EStateM.Result Status (Noted KvSt (List KvEvent)) Unit := .ok () ⟨s.st, events⟩
      exact congrArg heard (List.append_assoc _ _ _)
  | error status => rfl

section Run
variable {s : Noted KvSt (List KvEvent)} {ns key : CString} (hkey : keyValid cfg key = true)
include hkey

section Set
variable {value : Bytes} (hfits : (recordBuild ns key value).length ≤ cfg.blockSize)
include hfits

theorem kvSet_plain : Kv.kvSet cfg ns key (some value) = withBlock (Kv.setLocked cfg ns key value) := by
  unfold Kv.kvSet
  dsimp only
  rw [if_neg (by simp [hkey]), if_neg (Nat.not_lt.mpr hfits)]

theorem kvSet_announced (hio : s.st.ioFree ≠ 0) :
    outcome (kvSet cfg ns key (some value)) s = (outcome (withBlock (setLocked cfg ns key value)) s.st).map (fun _ => ()) ∧
      post (kvSet cfg ns key (some value)) s = ⟨post (withBlock (setLocked cfg ns key value)) s.st,
        s.notes ++ setEvents cfg ns key value.length (outcome (withBlock (setLocked cfg ns key value)) s.st)⟩ := by
  have hrun : (kvSet cfg ns key (some value)).run s =
      (announceSet cfg ns key value.length (outcome (withBlock (setLocked cfg ns key value)) s.st)).run
        { s with st := post (withBlock (setLocked cfg ns key value)) s.st } := by
    unfold kvSet
    dsimp only
    rw [if_neg (by simp [hkey]), if_neg (Nat.not_lt.mpr hfits)]
    show (if s.st.ioFree = 0 then throw .ERR_NOMEM else _ : FeedM Unit).run s = _
    rw [if_neg hio]
    exact run_then (run_silent_attempt _ s) rfl
  rw [run_announceSet] at hrun
  exact passed_on hrun

end Set

theorem kvDelete_announced :
    outcome (kvDelete cfg ns key) s = outcome (Kv.kvDelete cfg ns key) s.st ∧
      post (kvDelete cfg ns key) s =
        ⟨post (Kv.kvDelete cfg ns key) s.st, s.notes ++ [⟨.KV_DELETE, eventCopyName cfg ns, eventCopyName cfg key, 0,
          statusOf (outcome (Kv.kvDelete cfg ns key) s.st)⟩]⟩ := by
  have hsame : Kv.kvDelete cfg ns key = withBlock (deleteLocked cfg ns key) := by
    unfold Kv.kvDelete
    rw [if_neg (by simp [hkey])]
  apply passed_on
  unfold kvDelete
  rw [if_neg (by simp [hkey]), hsame]
  exact run_then (run_silent_attempt _ s) rfl

end Run

theorem withBlock_same (ns key : CString) (value : Bytes) (s : KvSt) :
    outcome (withBlock (Kv.setLocked cfg ns key value)) s =
        (outcome (withBlock (setLocked cfg ns key value)) s).map (fun _ => ()) ∧
      post (withBlock (Kv.setLocked cfg ns key value)) s = post (withBlock (setLocked cfg ns key value)) s := by
  by_cases hio : s.ioFree = 0
  · rw [outcome_of_error (withBlock_none hio), post_of_error (withBlock_none hio),
      outcome_of_error (withBlock_none hio), post_of_error (withBlock_none hio)]
    exact ⟨rfl, rfl⟩
  · rw [outcome_withBlock hio, post_withBlock hio, outcome_withBlock hio, post_withBlock hio, ← setLocked_same,
      outcome_map, post_map]
    exact ⟨rfl, rfl⟩

theorem carries_kvSet (ns key : CString) (value : Option Bytes) :
    Carries Noted.st (kvSet cfg ns key value) (Kv.kvSet cfg ns key value) := by
  intro s
  cases value with
  | none => exact ⟨rfl, rfl⟩
  | some value =>
    by_cases hkey : keyValid cfg key = true
    swap
    · unfold kvSet Kv.kvSet
      dsimp only
      rw [if_pos (by simpa using hkey), if_pos (by simpa using hkey)]
      exact ⟨rfl, rfl⟩
    by_cases hfits : cfg.blockSize < (recordBuild ns key value).length
    · unfold kvSet Kv.kvSet
      dsimp only
      rw [if_neg (by simp [hkey]), if_pos hfits, if_neg (by simp [hkey]), if_pos hfits]
      exact ⟨rfl, rfl⟩
    obtain ⟨ho, hp⟩ := @withBlock_same cfg ns key value s.st
    rw [kvSet_plain hkey (Nat.not_lt.mp hfits)]
    by_cases hio : s.st.ioFree = 0
    · have hrun : (kvSet cfg ns key (some value)).run s = .error .ERR_NOMEM s := by
        unfold kvSet
        dsimp only
        rw [if_neg (by simp [hkey]), if_neg hfits]
        show (if s.st.ioFree = 0 then throw .ERR_NOMEM else _ : FeedM Unit).run s = _
        rw [if_pos hio]
        rfl
      rw [outcome_of_error hrun, post_of_error hrun, outcome_of_error (withBlock_none hio),
        post_of_error (withBlock_none hio)]
      exact ⟨rfl, rfl⟩
    · obtain ⟨hout, hpost⟩ := kvSet_announced hkey (Nat.not_lt.mp hfits) hio
      rw [ho, hp, hout, hpost]
      exact ⟨rfl, rfl⟩

theorem carries_kvDelete (ns key : CString) : Carries Noted.st (kvDelete cfg ns key) (Kv.kvDelete cfg ns key) := by
  intro s
  by_cases hkey : keyValid cfg key = true
  swap
  · unfold kvDelete Kv.kvDelete
    rw [if_pos (by simpa using hkey), if_pos (by simpa using hkey)]
    exact ⟨rfl, rfl⟩
  obtain ⟨hout, hpost⟩ := @kvDelete_announced cfg s ns key hkey
  rw [hout, hpost]
  exact ⟨rfl, rfl⟩

theorem carries_kvOpen (ns : CString) : Carries Noted.st (kvOpen cfg ns : FeedM Unit) (kvOpen cfg ns) := by
  unfold kvOpen
  exact carries_ite (carries_pure _) (carries_throw _)

theorem carries_applyDefault (ns key : CString) (value : Option Bytes) :
    Carries Noted.st (applyDefault cfg ns key value) (Kv.applyDefault cfg ns key value) := by
  apply carries_bind (carries_kvOpen ns)
  intro _
  apply carries_bind (carries_silent _)
  intro got
  cases got with
  | ok r => exact carries_pure _
  | error status =>
    by_cases h : status = .ERR_NOT_FOUND
    · subst h
      exact carries_kvSet ns key value
    · cases status <;> first | exact absurd rfl h | exact carries_throw _

theorem carries_applyDefaults (filter : Option CString) (ds : List Default) (first : Status) :
    Carries Noted.st (applyDefaults cfg filter ds first) (Kv.applyDefaults cfg filter ds first) := by
  induction ds generalizing first with
  | nil => exact carries_pure _
  | cons d ds ih =>
    unfold applyDefaults Kv.applyDefaults
    cases d.namespaceName with
    | none => exact ih _
    | some ns =>
      cases d.key with
      | none => exact ih _
      | some key =>
        refine carries_ite ?_ (ih first)
        apply carries_bind (carries_attempt (carries_applyDefault ns key d.value))
        intro r
        exact ih (firstError first r)

theorem carries_kvDefaultsApplyNs (filter : Option CString) :
    Carries Noted.st (kvDefaultsApplyNs cfg filter) (Kv.kvDefaultsApplyNs cfg filter) :=
  carries_bind (carries_applyDefaults filter cfg.defaults .OK) fun _ => carries_ite (carries_pure _) (carries_throw _)

theorem carries_resetKeys (ns : CString) (fuel pos : Nat) (first : Status) :
    Carries Noted.st (resetKeys cfg ns fuel pos first) (Kv.resetKeys cfg ns fuel pos first) := by
  induction fuel generalizing pos first with
  | zero => exact carries_pure _
  | succ fuel ih =>
    apply carries_get_bind
    intro s
    dsimp only
    cases (nextKeyInNs (s.st.ctx.getD []) ns pos).bind fun i => (s.st.ctx.getD [])[i]?.map fun e => (i, e.key) with
    | none => exact carries_pure _
    | some next =>
      apply carries_bind (carries_attempt (carries_kvDelete ns next.2))
      intro r
      cases r with
      | ok _ => exact ih pos first
      | error status =>
        by_cases h : status = .ERR_NOT_FOUND
        · subst h
          apply carries_bind (carries_silent _)
          intro _
          exact ih pos first
        · cases status <;> first | exact absurd rfl h | exact ih (next.1 + 1) _

theorem carries_kvResetNamespace (ns : CString) :
    Carries Noted.st (kvResetNamespace cfg ns) (Kv.kvResetNamespace cfg ns) := by
  apply carries_bind (carries_silent _)
  intro loaded
  apply carries_ite (carries_throw _)
  apply carries_get_bind
  intro s
  apply carries_bind (carries_resetKeys ns _ 0 .OK)
  intro first
  apply carries_bind (carries_attempt (carries_kvDefaultsApplyNs (some ns)))
  intro r
  cases firstError first r <;> first | exact carries_pure _ | exact carries_throw _

theorem carries_callRun (call : Call) : Carries Noted.st (callRun cfg call) (call.run cfg) := by
  cases call with
  | set ns key value =>
    apply carries_bind (carries_kvOpen ns)
    intro _
    apply carries_bind (carries_kvSet ns key value)
    intro _
    exact carries_pure _
  | get ns key capacity => exact carries_silent _
  | delete ns key =>
    apply carries_bind (carries_kvOpen ns)
    intro _
    apply carries_bind (carries_kvDelete ns key)
    intro _
    exact carries_pure _
  | iterate ns keyCapacity valueCapacity => exact carries_silent _
  | reset ns =>
    apply carries_bind (carries_kvOpen ns)
    intro _
    apply carries_bind (carries_kvResetNamespace ns)
    intro _
    exact carries_pure _
  | defaults filter => exact carries_bind (carries_kvDefaultsApplyNs filter) fun _ => carries_pure _
  | reboot => exact carries_silent _

theorem feedRun_st (s : Noted KvSt (List KvEvent)) (calls : List (Nat × Call)) :
    (feedRun cfg s calls).st = Kv.callRun cfg s.st calls := by
  induction calls generalizing s with
  | nil => rfl
  | cons c calls ih =>
    have hstep : (post (callRun cfg c.2) { s with st := s.st.given c.1 true }).st = post (c.2.run cfg) (s.st.given c.1 true) :=
      ((carries_callRun c.2) { s with st := s.st.given c.1 true }).2.symm
    have hrest := ih (post (callRun cfg c.2) { s with st := s.st.given c.1 true })
    rw [hstep] at hrest
    exact hrest

end ZephyrDB.Kv.Eventing
