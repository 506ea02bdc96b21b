import Mathlib.Data.List.TakeWhile
import ZephyrDB.Lib.FileSystem
import ZephyrDB.Lib.Crc32

/-!
Status codes, C strings, the diagnostic counters of an instance, and the system
every operation runs on: a file store whose side component is those counters.
-/

set_option autoImplicit false

namespace ZephyrDB

open Lib

/-- `zdb_status_t`. -/
inductive Status where
  | OK | ERR_INVAL | ERR_NOMEM | ERR_NOT_FOUND | ERR_IO | ERR_BUSY | ERR_TIMEOUT
  | ERR_UNSUPPORTED | ERR_CORRUPT | ERR_INTERNAL | ERR_COLLISION
  deriving DecidableEq, Repr

/-- `zdb_status_from_errno`, on the codes that report a failure. -/
def statusFromErrno : Errno → Status
  | .EINVAL => .ERR_INVAL
  | .ENOMEM => .ERR_NOMEM
  | .ENOENT => .ERR_NOT_FOUND
  | .EBUSY => .ERR_BUSY
  | .ETIMEDOUT => .ERR_TIMEOUT
  | .ENOTSUP => .ERR_UNSUPPORTED
  | _ => Status.ERR_IO

theorem statusFromErrno_ne_ok (err : Errno) : statusFromErrno err ≠ .OK := by
  cases err <;> decide

/-- A C string: no byte of it is the terminator. -/
abbrev CString := { bs : Bytes // (0 : UInt8) ∉ bs }

/-- The C string that starts a buffer. -/
def CString.ofBytes (bs : Bytes) : CString :=
  ⟨bs.takeWhile (· != 0), fun h => by simpa using List.mem_takeWhile_imp h⟩

theorem CString.ofBytes_val (s : CString) : CString.ofBytes s.val = s := by
  apply Subtype.ext
  apply List.takeWhile_eq_self_iff.mpr
  intro b hb
  have hne : b ≠ 0 := fun h => s.property (h ▸ hb)
  simpa using hne

/-- The status a finished program reports. -/
def statusOf {α : Type} : Except Status α → Status
  | .ok _ => .OK
  | .error status => status

/-- `zdb_ts_stats_t`. -/
structure TsStats where
  recoverRuns : UInt32
  recoverFailures : UInt32
  recoverTruncatedBytes : UInt64
  crcFailures : UInt32
  corruptRecords : UInt32
  unsupportedVersions : UInt32
  deriving DecidableEq, Repr

def TsStats.zero : TsStats := ⟨0, 0, 0, 0, 0, 0⟩

/-- `zdb_health_t`, in the order the code compares it by. -/
inductive Health where
  | OK | DEGRADED | READONLY | FAULT
  deriving DecidableEq, Repr

structure Diag where
  stats : TsStats
  health : Health

abbrev Sys := Env Diag

/-- A program on the system that fails with an `errno`. -/
abbrev Rc (α : Type) := EStateM Errno Sys α

abbrev Zdb (α : Type) := EStateM Status Sys α

def updStats {ε : Type} (f : TsStats → TsStats) : EStateM ε Sys Unit :=
  modify fun e => { e with side := { e.side with stats := f e.side.stats } }

def statCrcFailure {ε : Type} : EStateM ε Sys Unit :=
  updStats fun s => { s with crcFailures := s.crcFailures + 1 }

def statCorruptRecord {ε : Type} : EStateM ε Sys Unit :=
  updStats fun s => { s with corruptRecords := s.corruptRecords + 1 }

def statUnsupportedVersion {ε : Type} : EStateM ε Sys Unit :=
  updStats fun s => { s with unsupportedVersions := s.unsupportedVersions + 1 }

def statRecoverRun {ε : Type} : EStateM ε Sys Unit :=
  updStats fun s => { s with recoverRuns := s.recoverRuns + 1 }

def statRecoverFailure {ε : Type} : EStateM ε Sys Unit :=
  updStats fun s => { s with recoverFailures := s.recoverFailures + 1 }

def statRecoverTruncated {ε : Type} (n : Nat) : EStateM ε Sys Unit :=
  updStats fun s => { s with recoverTruncatedBytes := s.recoverTruncatedBytes + UInt64.ofNat n }

/-- `zdb_health_check`: a healthy instance becomes degraded. -/
def healthCheck {ε : Type} : EStateM ε Sys Unit :=
  modify fun e =>
    match e.side.health with
    | .OK => { e with side := { e.side with health := .DEGRADED } }
    | _ => e

/-- Run a program that reports an `errno` where a status is reported. -/
def toStatus {σ α : Type} (m : EStateM Errno σ α) : EStateM Status σ α :=
  EStateM.adaptExcept statusFromErrno m

def orFail {ε ε' σ α : Type} (r : ε') (m : EStateM ε σ α) : EStateM ε' σ α :=
  EStateM.adaptExcept (fun _ => r) m

end ZephyrDB
