import ZephyrDB.Ts.Run
import ZephyrDB.Lib.Transition

/-!
Threads that append and flush, the work queue and the semaphore `flush_done`.

One step is one section of code under the instance lock, one semaphore call, or
one look at the flag outside the lock. The handler holds the lock from its
drain to its end, so the locked sections of the threads wait for it.
-/

set_option autoImplicit false

namespace ZephyrDB.Ts

open Lib

/-- `k_timeout_t`. -/
inductive Timeout where
  | forever
  | noWait
  | after
  deriving DecidableEq

/-- The call that a flush is requested in. -/
inductive Flusher where
  | sync (timeout : Timeout)
  | async
  | append
  | batch
  deriving DecidableEq

/-- Where a thread stands; `idle` remembers what its last call returned. -/
inductive Pc where
  | idle (status : Status)
  /-- in `zdb_ts_flush_sync`, before it takes a stale token -/
  | draining (h : Nat) (timeout : Timeout)
  /-- before `zdb_ts_flush_async` -/
  | requesting (h : Nat) (flusher : Flusher)
  /-- the submission failed; the lock is released and the flag still set -/
  | retracting (err : Errno) (flusher : Flusher)
  /-- after a batch, before it looks for room in the buffer -/
  | sizing (h i : Nat)
  /-- before `flush_pending` is read for the first time -/
  | checking (timeout : Timeout)
  /-- before `k_sem_take` -/
  | taking (timeout : Timeout)
  /-- in `k_sem_take`, in the wait queue of `flush_done` -/
  | blocked (timeout : Timeout)
  /-- the token is taken; before `flush_pending` is read again -/
  | rechecking
  deriving DecidableEq

/-- Where the work queue's thread stands in `zdb_ts_flush_work_handler`. -/
inductive Handler where
  | off | called | drained | cleared | given
  deriving DecidableEq

/-- `token` is the count of `flush_done`, whose limit is one; `queued` says the work item waits in its
queue. -/
structure Machine (ι : Type) where
  app : App
  token : Bool
  waiters : List ι
  queued : Bool
  handler : Handler
  pc : ι → Pc

/-- The call a thread makes. -/
inductive Call where
  | sync (h : Nat) (timeout : Timeout)
  | async (h : Nat)
  | append (h : Nat) (sample : Sample)
  | batch (h : Nat) (samples : List Sample)

inductive Event (ι : Type) where
  /-- a thread that is outside every call makes one -/
  | call (t : ι) (c : Call)
  /-- a thread takes its next step -/
  | move (t : ι)
  /-- a blocked thread's timeout expires -/
  | expire (t : ι)
  /-- the work queue starts the handler -/
  | begin
  | flush
  | clear
  /-- `k_sem_give`, with the waiter it wakes -/
  | give (woken : Option ι)
  | finish

/-- `zdb_ts_flush_async` up to its unlock, with the outcome of the submission. -/
def requestFlush (cfg : Cfg) (h : Nat) : AppM Status (Except Errno Unit) := do
  let a ← get
  if (a.handles h).isNone || !a.cfgSet then throw .ERR_INVAL
  tsCtxGetOrAlloc cfg .ERR_NOMEM
  if (← get).pending then throw .ERR_BUSY
  modify fun a => a.setPending true
  onEnv (attempt call)

/-- `zdb_ts_append_i64` up to its unlock: whether no further record would fit. -/
def appendLocked (cfg : Cfg) (h : Nat) (sample : Sample) : AppM Status Bool := do
  match (← get).handles h with
  | none => throw .ERR_INVAL
  | some name =>
    tsCtxGetOrAlloc cfg .ERR_INVAL
    match (← get).slotFind name with
    | none => throw .ERR_INVAL
    | some i =>
      let recSize ← onSlot i (appendRecord cfg sample)
      let slot := (← get).slotAt i
      return slot.ingestCapacity < slot.ingestUsed + recSize

/-- `zdb_ts_append_batch_i64` up to its unlock: the slot it worked on. -/
def batchLocked (cfg : Cfg) (h : Nat) (samples : List Sample) : AppM Status Nat := do
  match (← get).handles h with
  | none => throw .ERR_INVAL
  | some name =>
    if samples.isEmpty then throw .ERR_INVAL
    tsCtxGetOrAlloc cfg .ERR_INVAL
    match (← get).slotFind name with
    | none => throw .ERR_INVAL
    | some i =>
      onSlot i (appendRecords cfg samples)
      return i

def batchFull (cfg : Cfg) (a : App) (i : Nat) : Bool :=
  let slot := a.slotAt i
  slot.ingestCapacity < slot.ingestUsed + slotRecSize cfg slot

/-- Where a thread goes on once `zdb_ts_flush_async` has returned. -/
def Flusher.resume (status : Status) : Flusher → Pc
  | .sync timeout => if status = .OK ∨ status = .ERR_BUSY then .checking timeout else .idle status
  | .async => .idle status
  | .append => .idle (if status = .ERR_BUSY then .OK else status)
  | .batch => .idle .OK

/-- What a wait that ends without a token reports: `k_sem_take` fails with `EBUSY` where it does not
wait, and with `EAGAIN` where it waited in vain. -/
def Timeout.expired : Timeout → Status
  | .noWait => statusFromErrno .EBUSY
  | _ => .ERR_TIMEOUT

section Machine
variable {ι : Type} [DecidableEq ι]

def Machine.locked (m : Machine ι) : Bool :=
  m.handler = .drained || m.handler = .cleared || m.handler = .given

def Machine.goto (m : Machine ι) (t : ι) (pc : Pc) : Machine ι := { m with pc := Function.update m.pc t pc }

/-- The locked section of `zdb_ts_flush_async`. -/
def Machine.request (cfg : Cfg) (m : Machine ι) (t : ι) (h : Nat) (flusher : Flusher) : Machine ι :=
  let m' := { m with app := post (requestFlush cfg h) m.app }
  match outcome (requestFlush cfg h) m.app with
  | .error status => m'.goto t (flusher.resume status)
  | .ok (.ok _) => { m' with queued := true }.goto t (flusher.resume .OK)
  | .ok (.error err) => m'.goto t (.retracting err flusher)

/-- `k_sem_take`. -/
def Machine.take (m : Machine ι) (t : ι) (timeout : Timeout) : Machine ι :=
  if m.token then { m with token := false }.goto t .rechecking
  else if timeout = .noWait then m.goto t (.idle timeout.expired)
  else { m with waiters := m.waiters ++ [t] }.goto t (.blocked timeout)

def Machine.move (cfg : Cfg) (m : Machine ι) (t : ι) : Option (Machine ι) :=
  match m.pc t with
  | .draining h timeout => some ({ m with token := false }.goto t (.requesting h (.sync timeout)))
  | .requesting h flusher => if m.locked then none else some (m.request cfg t h flusher)
  | .retracting err flusher =>
    some ({ m with app := m.app.setPending false }.goto t (flusher.resume (statusFromErrno err)))
  | .sizing h i => some (m.goto t (if batchFull cfg m.app i then .requesting h .batch else .idle .OK))
  | .checking timeout => some (m.goto t (if m.app.pending then .taking timeout else .idle .OK))
  | .taking timeout => some (m.take t timeout)
  | .rechecking => some (m.goto t (.idle (if m.app.pending then .ERR_BUSY else .OK)))
  | .idle _ => none
  | .blocked _ => none

/-- The first step of a call. -/
def Machine.start (cfg : Cfg) (m : Machine ι) (t : ι) : Call → Option (Machine ι)
  | .sync h timeout =>
    if (m.app.handles h).isNone then some (m.goto t (.idle .ERR_INVAL))
    else
      let m' := { m with app := post (tsCtxGetOrAlloc cfg .ERR_INTERNAL) m.app }
      match outcome (tsCtxGetOrAlloc cfg .ERR_INTERNAL) m.app with
      | .error status => some (m'.goto t (.idle status))
      | .ok _ => some (m'.goto t (.draining h timeout))
  | .async h => some (m.goto t (.requesting h .async))
  | .append h sample =>
    if m.locked then none
    else
      let m' := { m with app := post (appendLocked cfg h sample) m.app }
      match outcome (appendLocked cfg h sample) m.app with
      | .error status => some (m'.goto t (.idle status))
      | .ok full => some (m'.goto t (if full then .requesting h .append else .idle .OK))
  | .batch h samples =>
    if m.locked then none
    else
      let m' := { m with app := post (batchLocked cfg h samples) m.app }
      match outcome (batchLocked cfg h samples) m.app with
      | .error status => some (m'.goto t (.idle status))
      | .ok i => some (m'.goto t (.sizing h i))

/-- `k_sem_give`: a waiter gets the token, or it is kept. -/
def Machine.give (m : Machine ι) : Option ι → Option (Machine ι)
  | none => if m.waiters = [] then some { m with token := true } else none
  | some t =>
    match m.pc t with
    | .blocked _ =>
      if t ∈ m.waiters then some ({ m with waiters := m.waiters.erase t }.goto t .rechecking) else none
    | _ => none

def Machine.step (cfg : Cfg) (m : Machine ι) : Event ι → Option (Machine ι)
  | .call t c =>
    match m.pc t with
    | .idle _ => m.start cfg t c
    | _ => none
  | .move t => m.move cfg t
  | .expire t =>
    match m.pc t with
    | .blocked timeout =>
      if timeout = .forever then none
      else some ({ m with waiters := m.waiters.erase t }.goto t (.idle timeout.expired))
    | _ => none
  | .begin => if m.queued && m.handler = .off then some { m with queued := false, handler := .called } else none
  | .flush =>
    if m.handler = .called then some { m with app := post (flushAllLocked cfg) m.app, handler := .drained }
    else none
  | .clear =>
    if m.handler = .drained then some { m with app := m.app.setPending false, handler := .cleared } else none
  | .give woken =>
    if m.handler = .cleared then (m.give woken).map fun m' => { m' with handler := .given } else none
  | .finish => if m.handler = .given then some { m with handler := .off } else none

/-- The steps as a relation, for runs. -/
def Machine.Goes (cfg : Cfg) (m : Machine ι) (e : Event ι) (m' : Machine ι) : Prop := m.step cfg e = some m'

def Machine.plays (cfg : Cfg) (ok : Machine ι → Event ι → Bool) : Machine ι → List (Event ι) → Option (Machine ι)
  | m, [] => some m
  | m, e :: es => if ok m e then (m.step cfg e).bind fun m' => m'.plays cfg ok es else none

theorem Machine.steps_of_plays {cfg : Cfg} {ok : Machine ι → Event ι → Bool} {m m' : Machine ι}
    {es : List (Event ι)} (h : m.plays cfg ok es = some m') :
    Steps (Guarded (fun m e => ok m e = true) (Machine.Goes cfg)) m es m' := by
  induction es generalizing m with
  | nil =>
    obtain rfl := Option.some.inj h
    exact .nil _
  | cons e es ih =>
    simp only [Machine.plays] at h
    split at h
    · rename_i hok
      obtain ⟨m₁, h₁, h₂⟩ := Option.bind_eq_some_iff.mp h
      exact .cons ⟨hok, h₁⟩ (ih h₂)
    · cases h

theorem Machine.exists_of_plays {cfg : Cfg} {ok : Machine ι → Event ι → Bool} {m : Machine ι}
    {es : List (Event ι)} {β : Type} {f : Machine ι → β} {x : β} (h : (m.plays cfg ok es).map f = some x) :
    ∃ m', Steps (Guarded (fun m e => ok m e = true) (Machine.Goes cfg)) m es m' ∧ f m' = x := by
  obtain ⟨m', hm, hx⟩ := Option.map_eq_some_iff.mp h
  exact ⟨m', Machine.steps_of_plays hm, hx⟩

/-- No thread is in a call and no flush is outstanding. -/
def Machine.quiet (ι : Type) (a : App) (token : Bool) : Machine ι where
  app := a
  token := token
  waiters := []
  queued := false
  handler := .off
  pc := fun _ => .idle .OK

end Machine

/-- `zdb_ts_flush_async` is its locked section and, after a failed submission, the flag taken back. -/
theorem tsFlushAsync_eq (cfg : Cfg) (h : Nat) :
    tsFlushAsync cfg h = (do
      match ← requestFlush cfg h with
      | .ok _ => return ()
      | .error err =>
        modify fun a => a.setPending false
        throw (statusFromErrno err)) := by
  unfold tsFlushAsync requestFlush
  simp only [bind_assoc]
  apply congrArg _
  apply funext
  intro a
  split
  · rfl
  · simp only [bind_assoc]
    apply congrArg _
    apply funext
    intro _
    apply congrArg _
    apply funext
    intro a'
    split
    · rfl
    · exact (bind_assoc _ _ _).symm

def earlyFlush (cfg : Cfg) (h : Nat) (full : Bool) : AppM Status Unit := do
  if full then
    match ← attempt (tsFlushAsync cfg h) with
    | .ok _ => return ()
    | .error .ERR_BUSY => return ()
    | .error status => throw status

/-- `zdb_ts_append_i64` is its locked section and the flush it may start. -/
theorem tsAppendI64_eq (cfg : Cfg) (h : Nat) (sample : Sample) :
    tsAppendI64 cfg h sample = (do
      let full ← appendLocked cfg h sample
      earlyFlush cfg h full) := by
  unfold tsAppendI64 appendLocked
  simp only [bind_assoc]
  apply congrArg _
  apply funext
  intro a
  cases a.handles h with
  | none => rfl
  | some name =>
    simp only [bind_assoc]
    apply congrArg _
    apply funext
    intro _
    apply congrArg _
    apply funext
    intro a'
    cases a'.slotFind name with
    | none => rfl
    | some i =>
      dsimp only
      rw [bind_assoc]
      apply congrArg _
      apply funext
      intro recSize
      rw [bind_assoc]
      refine congrArg _ (funext fun a'' => ?_)
      rw [pure_bind]
      by_cases hfull : (a''.slotAt i).ingestCapacity < (a''.slotAt i).ingestUsed + recSize
      · rw [decide_eq_true hfull]
        exact if_pos hfull
      · rw [decide_eq_false hfull]
        exact if_neg hfull

/-- `zdb_ts_append_batch_i64` is its locked section and a flush whose outcome it drops. -/
theorem tsAppendBatchI64_eq (cfg : Cfg) (h : Nat) (samples : List Sample) :
    tsAppendBatchI64 cfg h samples = (do
      let i ← batchLocked cfg h samples
      if batchFull cfg (← get) i then
        let _ ← attempt (ε := Status) (tsFlushAsync cfg h)) := by
  unfold tsAppendBatchI64 batchLocked
  simp only [bind_assoc]
  apply congrArg _
  apply funext
  intro a
  cases a.handles h with
  | none => rfl
  | some name =>
    dsimp only
    split
    · rfl
    · simp only [bind_assoc]
      apply congrArg _
      apply funext
      intro _
      apply congrArg _
      apply funext
      intro a'
      cases a'.slotFind name with
      | none => rfl
      | some i =>
        simp only [bind_assoc, batchFull, pure_bind, decide_eq_true_eq]

section Alone
variable {ι : Type} [DecidableEq ι] {cfg : Cfg} {m : Machine ι} {t : ι}

/-- Steps that no other thread comes between lead thread `t` to `pc`, with the application at `a`. -/
def Machine.Leads (cfg : Cfg) (m : Machine ι) (t : ι) (pc : Pc) (a : App) : Prop :=
  ∃ n m', Steps (Machine.Goes cfg) m (List.replicate n (.move t)) m' ∧ m'.pc t = pc ∧ m'.app = a

theorem Machine.leads_here {pc : Pc} {a : App} (hpc : m.pc t = pc) (ha : m.app = a) : m.Leads cfg t pc a :=
  ⟨0, m, .nil m, hpc, ha⟩

theorem Machine.leads_move {m' : Machine ι} {pc : Pc} {a : App} (h : m.step cfg (.move t) = some m')
    (hl : m'.Leads cfg t pc a) : m.Leads cfg t pc a := by
  obtain ⟨n, m'', hsteps, hpc, ha⟩ := hl
  exact ⟨n + 1, m'', .cons h hsteps, hpc, ha⟩

@[simp] theorem Machine.goto_pc (m : Machine ι) (t : ι) (pc : Pc) : (m.goto t pc).pc t = pc := by
  simp [Machine.goto]

@[simp] theorem Machine.goto_app (m : Machine ι) (t : ι) (pc : Pc) : (m.goto t pc).app = m.app := rfl

/-- A request for a flush, made alone, is `zdb_ts_flush_async`. -/
theorem Machine.request_alone {h : Nat} {flusher : Flusher} (hpc : m.pc t = .requesting h flusher)
    (hfree : m.locked = false) :
    m.Leads cfg t (flusher.resume (statusOf (outcome (tsFlushAsync cfg h) m.app)))
      (post (tsFlushAsync cfg h) m.app) := by
  have hstep : m.step cfg (.move t) = some (m.request cfg t h flusher) := by
    simp [Machine.step, Machine.move, hpc, hfree]
  apply Machine.leads_move hstep
  rw [tsFlushAsync_eq]
  cases hout : outcome (requestFlush cfg h) m.app with
  | error status =>
    have hrun := run_of_outcome_error hout
    rw [outcome_of_error (run_fails hrun), post_of_error (run_fails hrun)]
    apply Machine.leads_here
    · simp [Machine.request, hout, statusOf]
    · simp [Machine.request, hout]
  | ok sent =>
    rw [outcome_bind_ok hout, post_bind_ok hout]
    cases sent with
    | ok u =>
      apply Machine.leads_here
      · simp only [Machine.request, hout, Machine.goto_pc]
        rfl
      · simp only [Machine.request, hout, Machine.goto_app]
        rfl
    | error err =>
      -- the flag is taken back in a step of its own, after the unlock
      have hback : (m.request cfg t h flusher).step cfg (.move t) = some
          ({ (m.request cfg t h flusher) with app := (m.request cfg t h flusher).app.setPending false }.goto t
            (flusher.resume (statusFromErrno err))) := by
        simp [Machine.step, Machine.move, Machine.request, hout]
      apply Machine.leads_move hback
      apply Machine.leads_here
      · rw [Machine.goto_pc]
        rfl
      · simp only [Machine.request, hout, Machine.goto_app]
        rfl

/-- Call `c`, made alone by an idle thread, returns and leaves what the program does. -/
def Machine.Runs (cfg : Cfg) (m : Machine ι) (t : ι) (c : Call) (program : AppM Status Unit) : Prop :=
  ∃ m', m.step cfg (.call t c) = some m' ∧
    m'.Leads cfg t (.idle (statusOf (outcome program m.app))) (post program m.app)

variable {s : Status}

theorem Machine.async_alone (h : Nat) (hidle : m.pc t = .idle s) (hfree : m.locked = false) :
    m.Runs cfg t (.async h) (tsFlushAsync cfg h) := by
  refine ⟨m.goto t (.requesting h .async), by simp [Machine.step, Machine.start, hidle], ?_⟩
  exact Machine.request_alone (Machine.goto_pc m t _) hfree

theorem resume_append (cfg : Cfg) (h : Nat) (a : App) :
    Flusher.append.resume (statusOf (outcome (tsFlushAsync cfg h) a)) =
        .idle (statusOf (outcome (earlyFlush cfg h true) a)) ∧
      post (earlyFlush cfg h true) a = post (tsFlushAsync cfg h) a := by
  unfold earlyFlush
  simp only [if_true]
  rw [outcome_bind_ok (a := outcome (tsFlushAsync cfg h) a) rfl,
    post_bind_ok (a := outcome (tsFlushAsync cfg h) a) rfl]
  have hpost : post (attempt (tsFlushAsync cfg h) : AppM Status _) a = post (tsFlushAsync cfg h) a := rfl
  rw [hpost]
  cases outcome (tsFlushAsync cfg h) a with
  | ok u => exact ⟨rfl, rfl⟩
  | error status => cases status <;> exact ⟨rfl, rfl⟩

theorem Machine.append_alone (h : Nat) (sample : Sample) (hidle : m.pc t = .idle s) (hfree : m.locked = false) :
    m.Runs cfg t (.append h sample) (tsAppendI64 cfg h sample) := by
  unfold Machine.Runs
  rw [tsAppendI64_eq]
  cases hout : outcome (appendLocked cfg h sample) m.app with
  | error status =>
    have hrun := run_of_outcome_error hout
    rw [outcome_of_error (run_fails hrun), post_of_error (run_fails hrun)]
    refine ⟨_, by simp only [Machine.step, Machine.start, hidle, hfree, hout]; rfl, ?_⟩
    exact Machine.leads_here (Machine.goto_pc _ _ _) rfl
  | ok full =>
    rw [outcome_bind_ok hout, post_bind_ok hout]
    refine ⟨_, by simp only [Machine.step, Machine.start, hidle, hfree, hout]; rfl, ?_⟩
    cases full with
    | false => exact Machine.leads_here (Machine.goto_pc _ _ _) rfl
    | true =>
      obtain ⟨hpc, happ⟩ := resume_append cfg h (post (appendLocked cfg h sample) m.app)
      rw [← hpc, happ]
      exact Machine.request_alone (Machine.goto_pc _ _ _) hfree

theorem Machine.batch_alone (h : Nat) (samples : List Sample) (hidle : m.pc t = .idle s)
    (hfree : m.locked = false) :
    m.Runs cfg t (.batch h samples) (tsAppendBatchI64 cfg h samples) := by
  unfold Machine.Runs
  rw [tsAppendBatchI64_eq]
  cases hout : outcome (batchLocked cfg h samples) m.app with
  | error status =>
    have hrun := run_of_outcome_error hout
    rw [outcome_of_error (run_fails hrun), post_of_error (run_fails hrun)]
    refine ⟨_, by simp only [Machine.step, Machine.start, hidle, hfree, hout]; rfl, ?_⟩
    exact Machine.leads_here (Machine.goto_pc _ _ _) rfl
  | ok i =>
    rw [outcome_bind_ok hout, post_bind_ok hout, outcome_get_bind, post_get_bind]
    refine ⟨_, by simp only [Machine.step, Machine.start, hidle, hfree, hout]; rfl, ?_⟩
    -- the buffer is sized outside the lock, in a step of its own
    apply Machine.leads_move (by simp only [Machine.step, Machine.move, Machine.goto_pc]; rfl)
    simp only [Machine.goto_app]
    by_cases hfull : batchFull cfg (post (batchLocked cfg h samples) m.app) i = true
    · simp only [hfull, if_true]
      exact Machine.request_alone (Machine.goto_pc _ _ _) hfree
    · simp only [hfull]
      exact Machine.leads_here (Machine.goto_pc _ _ _) rfl

end Alone

end ZephyrDB.Ts
