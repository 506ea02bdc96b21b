import ZephyrDB.Kv.Run

/-!
What the key-value store is for: a table of values and, up to the bound of the
index, the keys an iteration lists, in the order in which they were first set.
Two keys of one id exclude each other.
-/

set_option autoImplicit false

namespace ZephyrDB.Kv

open Lib

/-- The calls of an application: an iteration is walked to its end, and a reboot may come between two calls. -/
inductive Call where
  | set (ns key : CString) (value : Option Bytes)
  | get (ns key : CString) (capacity : Nat)
  | delete (ns key : CString)
  | iterate (ns : CString) (keyCapacity valueCapacity : Nat)
  | reset (ns : CString)
  | defaults (filter : Option CString)
  | reboot

/-- What a call that succeeds hands out. -/
inductive Answer where
  | done
  | value (copied : Bytes) (len : Nat)
  | items (items : List Item) (last : Status)
  deriving DecidableEq

/-- The values of the keys, and the keys that an iteration lists. -/
structure Table where
  values : NsKey → Option Bytes
  listed : List NsKey

namespace Table

def empty : Table := ⟨fun _ => none, []⟩

def Taken (cfg : KvCfg) (T : Table) (k : NsKey) : Prop :=
  ∃ k', k' ≠ k ∧ recordId cfg k'.1 k'.2 = recordId cfg k.1 k.2 ∧ T.values k' ≠ none

def put (cfg : KvCfg) (T : Table) (k : NsKey) (value : Bytes) : Table where
  values := Function.update T.values k (some value)
  listed := if k ∈ T.listed ∨ cfg.indexMax ≤ T.listed.length then T.listed else T.listed ++ [k]

def erase (T : Table) (k : NsKey) : Table :=
  ⟨Function.update T.values k none, T.listed.filter fun k' => decide (k' ≠ k)⟩

/-- Without the keys of a namespace that are listed. -/
def clear (T : Table) (ns : CString) : Table where
  values k := if k ∈ T.listed ∧ k.1 = ns then none else T.values k
  listed := T.listed.filter fun k => decide (k.1 ≠ ns)

@[simp] theorem put_values (cfg : KvCfg) (T : Table) (k : NsKey) (value : Bytes) (k' : NsKey) :
    (T.put cfg k value).values k' = if k' = k then some value else T.values k' := Function.update_apply _ _ _ _

@[simp] theorem erase_values (T : Table) (k k' : NsKey) : (T.erase k).values k' = if k' = k then none else T.values k' :=
  Function.update_apply _ _ _ _

@[simp] theorem erase_listed (T : Table) (k : NsKey) : (T.erase k).listed = T.listed.filter fun k' => decide (k' ≠ k) := rfl

open Classical in
noncomputable def set (cfg : KvCfg) (T : Table) (k : NsKey) : Option Bytes → Except Status Unit × Table
  | none => (.error .ERR_INVAL, T)
  | some value =>
    if keyValid cfg k.2 = false then (.error .ERR_INVAL, T)
    else if cfg.blockSize < REC_HDR_SIZE + k.1.val.length + k.2.val.length + value.length then (.error .ERR_NOMEM, T)
    else if T.Taken cfg k then (.error .ERR_COLLISION, T)
    else (.ok (), T.put cfg k value)

def get (cfg : KvCfg) (T : Table) (k : NsKey) (capacity : Nat) : Except Status (Bytes × Nat) :=
  if keyValid cfg k.2 = false then .error .ERR_INVAL
  else
    match T.values k with
    | none => .error .ERR_NOT_FOUND
    | some value => .ok (value.take capacity, value.length)

def delete (cfg : KvCfg) (T : Table) (k : NsKey) : Except Status Unit × Table :=
  if keyValid cfg k.2 = false then (.error .ERR_INVAL, T)
  else if T.values k = none then (.error .ERR_NOT_FOUND, T)
  else (.ok (), T.erase k)

/-- The items of these keys, up to one that the key buffer is too short for. -/
def items (T : Table) (keyCapacity valueCapacity : Nat) : List NsKey → List Item × Status
  | [] => ([], .ERR_NOT_FOUND)
  | k :: ks =>
    if keyCapacity < k.2.val.length + 1 then ([], .ERR_NOMEM)
    else
      let value := (T.values k).getD []
      let rest := T.items keyCapacity valueCapacity ks
      ((k.2, value.take valueCapacity, value.length) :: rest.1, rest.2)

/-- An iteration stops at its first error, which is the end where there is none before. -/
def iterate (T : Table) (ns : CString) (keyCapacity valueCapacity : Nat) : List Item × Status :=
  if keyCapacity = 0 then ([], .ERR_INVAL)
  else T.items keyCapacity valueCapacity (T.listed.filter fun k => k.1 == ns)

noncomputable def seed (cfg : KvCfg) (filter : Option CString) (T : Table) (d : Default) : Except Status Unit × Table :=
  match d.namespaceName, d.key with
  | some ns, some key =>
    if filter.all (ns == ·) = true then
      if keyValid cfg ns = false then (.error .ERR_INVAL, T)
      else
        match T.get cfg (ns, key) 0 with
        | .ok _ => (.ok (), T)
        | .error .ERR_NOT_FOUND => T.set cfg (ns, key) d.value
        | .error status => (.error status, T)
    else (.ok (), T)
  | _, _ => (.error .ERR_INVAL, T)

noncomputable def seedAll (cfg : KvCfg) (filter : Option CString) : List Default → Status → Table → Status × Table
  | [], first, T => (first, T)
  | d :: ds, first, T => seedAll cfg filter ds (firstError first (T.seed cfg filter d).1) (T.seed cfg filter d).2

noncomputable def applyDefaults (cfg : KvCfg) (filter : Option CString) (T : Table) : Except Status Unit × Table :=
  (if (seedAll cfg filter cfg.defaults .OK T).1 = .OK then .ok () else .error (seedAll cfg filter cfg.defaults .OK T).1,
    (seedAll cfg filter cfg.defaults .OK T).2)

/-- A call through a handle, which there is for a valid namespace only. -/
def opened {α : Type} (cfg : KvCfg) (T : Table) (ns : CString) (f : α → Answer) (r : Except Status α × Table) :
    Except Status Answer × Table :=
  if keyValid cfg ns = true then (r.1.map f, r.2) else (.error .ERR_INVAL, T)

/-- One call. -/
noncomputable def step (cfg : KvCfg) (T : Table) : Call → Except Status Answer × Table
  | .set ns key value => opened cfg T ns (fun _ => .done) (T.set cfg (ns, key) value)
  | .get ns key capacity => opened cfg T ns (fun r => .value r.1 r.2) (T.get cfg (ns, key) capacity, T)
  | .delete ns key => opened cfg T ns (fun _ => .done) (T.delete cfg (ns, key))
  | .iterate ns keyCapacity valueCapacity =>
    opened cfg T ns (fun r => .items r.1 r.2) (.ok (T.iterate ns keyCapacity valueCapacity), T)
  | .reset ns => opened cfg T ns (fun _ => .done) ((T.clear ns).applyDefaults cfg (some ns))
  | .defaults filter => ((T.applyDefaults cfg filter).1.map fun _ => .done, (T.applyDefaults cfg filter).2)
  | .reboot => (.ok .done, T)

noncomputable def answers (cfg : KvCfg) : Table → List Call → List (Except Status Answer)
  | _, [] => []
  | T, call :: calls => (T.step cfg call).1 :: answers cfg (T.step cfg call).2 calls

noncomputable def run (cfg : KvCfg) (T : Table) (calls : List Call) : Table :=
  calls.foldl (fun T call => (T.step cfg call).2) T

end Table

/-- The keys that a call may take from the table. -/
def Call.Removes : Call → NsKey → Prop
  | .delete ns key, k => k = (ns, key)
  | .reset ns, k => k.1 = ns
  | _, _ => False

instance : (call : Call) → DecidablePred call.Removes
  | .set _ _ _ => fun _ => .isFalse id
  | .get _ _ _ => fun _ => .isFalse id
  | .delete ns key => fun k => inferInstanceAs (Decidable (k = (ns, key)))
  | .iterate _ _ _ => fun _ => .isFalse id
  | .reset ns => fun k => inferInstanceAs (Decidable (k.1 = ns))
  | .defaults _ => fun _ => .isFalse id
  | .reboot => fun _ => .isFalse id

namespace Table
variable (cfg : KvCfg)

theorem listed_set (T : Table) (k : NsKey) (value : Option Bytes) : T.listed <+: (T.set cfg k value).2.listed := by
  unfold set
  split
  · exact List.prefix_refl _
  · split_ifs
    · exact List.prefix_refl _
    · exact List.prefix_refl _
    · exact List.prefix_refl _
    · unfold put
      dsimp only
      split
      · exact List.prefix_refl _
      · exact List.prefix_append _ _

theorem listed_seed (filter : Option CString) (T : Table) (d : Default) : T.listed <+: (T.seed cfg filter d).2.listed := by
  unfold seed
  split
  · split
    · split
      · exact List.prefix_refl _
      · split
        · exact List.prefix_refl _
        · exact listed_set cfg T _ _
        · exact List.prefix_refl _
    · exact List.prefix_refl _
  · exact List.prefix_refl _

theorem listed_seedAll (filter : Option CString) (ds : List Default) (first : Status) (T : Table) :
    T.listed <+: (seedAll cfg filter ds first T).2.listed := by
  induction ds generalizing first T with
  | nil => exact List.prefix_refl _
  | cons d ds ih => exact (listed_seed cfg filter T d).trans (ih _ _)

theorem listed_opened {α : Type} (T : Table) (ns : CString) (f : α → Answer) (r : Except Status α × Table) :
    (opened cfg T ns f r).2 = r.2 ∨ (opened cfg T ns f r).2 = T := by
  unfold opened
  split
  · exact .inl rfl
  · exact .inr rfl

theorem listed_step (T : Table) (call : Call) :
    (T.listed.filter fun k => decide (¬ call.Removes k)).Sublist (T.step cfg call).2.listed := by
  have hall : (T.listed.filter fun k => decide (¬ call.Removes k)).Sublist T.listed := List.filter_sublist
  cases call with
  | set ns key value =>
    rcases listed_opened cfg T ns (fun _ => .done) (T.set cfg (ns, key) value) with h | h
    · rw [step, h]
      exact hall.trans (listed_set cfg T _ _).sublist
    · rw [step, h]
      exact hall
  | get ns key capacity =>
    rcases listed_opened cfg T ns (fun r => .value r.1 r.2) (T.get cfg (ns, key) capacity, T) with h | h
    all_goals
      rw [step, h]
      exact hall
  | delete ns key =>
    rcases listed_opened cfg T ns (fun _ => .done) (T.delete cfg (ns, key)) with h | h
    · rw [step, h]
      unfold delete
      split_ifs
      · exact hall
      · exact hall
      · exact List.Sublist.refl _
    · rw [step, h]
      exact hall
  | iterate ns keyCapacity valueCapacity =>
    rcases listed_opened cfg T ns (fun r => .items r.1 r.2) (.ok (T.iterate ns keyCapacity valueCapacity), T) with h | h
    all_goals
      rw [step, h]
      exact hall
  | reset ns =>
    rcases listed_opened cfg T ns (fun _ => .done) ((T.clear ns).applyDefaults cfg (some ns)) with h | h
    · rw [step, h]
      exact (listed_seedAll cfg (some ns) cfg.defaults .OK (T.clear ns)).sublist
    · rw [step, h]
      exact hall
  | defaults filter => exact hall.trans (listed_seedAll cfg filter cfg.defaults .OK T).sublist
  | reboot => exact hall

theorem listed_run (T : Table) (calls : List Call) :
    (T.listed.filter fun k => decide (∀ call ∈ calls, ¬ call.Removes k)).Sublist (T.run cfg calls).listed := by
  induction calls generalizing T with
  | nil => simp [run]
  | cons call calls ih =>
    have hstep := (listed_step cfg T call).filter fun k => decide (∀ call ∈ calls, ¬ call.Removes k)
    rw [List.filter_filter] at hstep
    have hboth : (T.listed.filter fun k => decide (∀ c ∈ call :: calls, ¬ c.Removes k)) =
        T.listed.filter fun k => decide (∀ c ∈ calls, ¬ c.Removes k) && decide (¬ call.Removes k) :=
      List.filter_congr fun k _ => Bool.eq_iff_iff.mpr (by simp [and_comm])
    rw [hboth]
    exact hstep.trans (ih (T.step cfg call).2)

end Table

end ZephyrDB.Kv
