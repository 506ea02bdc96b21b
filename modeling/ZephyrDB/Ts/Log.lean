import ZephyrDB.Lib.SegLog
import ZephyrDB.Ts.Segment

/-!
What a stream is for: a log of samples in segments, each segment in a record
format of its own. The operations here say what draining the buffer and
appending a sample do to the log; nothing in them mentions a byte or a file.
-/

set_option autoImplicit false

namespace ZephyrDB.Ts

open Lib

inductive Format where
  | v1
  | v2 (baseTsMs : UInt64)
  deriving DecidableEq

namespace Format

def version : Format → Nat
  | v1 => STREAM_VERSION
  | v2 _ => STREAM_VERSION_V2

def baseTs : Format → UInt64
  | v1 => 0
  | v2 baseTsMs => baseTsMs

def recSize (f : Format) : Nat := recSizeFor f.version

def hdrSize (f : Format) : Nat := hdrSizeFor f.version

def header (name : Bytes) : Format → Bytes
  | v1 => streamHeaderEncode name
  | v2 baseTsMs => streamHeaderV2Encode name baseTsMs

def encode? (f : Format) (sample : Sample) : Option Bytes := recordEncodeAs f.version f.baseTs sample

def fits (f : Format) (sample : Sample) : Prop := (f.encode? sample).isSome

instance (f : Format) (sample : Sample) : Decidable (f.fits sample) :=
  inferInstanceAs (Decidable ((f.encode? sample).isSome = true))

def encode (f : Format) (sample : Sample) : Bytes := (f.encode? sample).getD []

/-- The records of a run of samples. -/
def records (f : Format) (samples : List Sample) : Bytes := samples.flatMap f.encode

def layout (f : Format) : FileLayout := ⟨f.hdrSize, f.recSize, f.baseTs⟩

theorem recSize_pos (f : Format) : 0 < f.recSize := recSizeFor_pos _

theorem header_length (name : Bytes) (f : Format) : (f.header name).length = f.hdrSize := by
  cases f with
  | v1 => exact streamHeaderEncode_length name
  | v2 baseTsMs => exact streamHeaderV2Encode_length name baseTsMs

theorem encode?_eq {f : Format} {sample : Sample} (h : f.fits sample) :
    f.encode? sample = some (f.encode sample) := by
  unfold fits at h
  unfold encode
  obtain ⟨raw, hraw⟩ := Option.isSome_iff_exists.mp h
  rw [hraw, Option.getD_some]

theorem encode_length {f : Format} {sample : Sample} (h : f.fits sample) :
    (f.encode sample).length = f.recSize :=
  recordEncodeAs_length (encode?_eq h)

theorem run_decode {f : Format} {sample : Sample} (h : f.fits sample) (e : Sys) :
    (recordDecodeAs f.version f.baseTs (f.encode sample)).run e = .ok sample e :=
  run_recordDecodeAs_encode (encode?_eq h) e

theorem fits_v1 (sample : Sample) : v1.fits sample := by
  simp [fits, encode?, recordEncodeAs, version, STREAM_VERSION, STREAM_VERSION_V2]

theorem fits_v2_self (sample : Sample) : (v2 sample.tsMs).fits sample := by
  simp [fits, encode?, recordEncodeAs, version, baseTs]

theorem version_eq_iff {f g : Format} : f.version = g.version ↔ f.recSize = g.recSize := by
  cases f <;> cases g <;>
    simp [version, recSize, recSizeFor, recSizeV1, recSizeV2, STREAM_VERSION, STREAM_VERSION_V2]

theorem records_length {f : Format} {samples : List Sample} (h : ∀ s ∈ samples, f.fits s) :
    (f.records samples).length = samples.length * f.recSize := by
  induction samples with
  | nil => simp [records]
  | cons s samples ih =>
    have hs := encode_length (h s (by simp))
    have ht := ih fun x hx => h x (by simp [hx])
    simp only [records, List.flatMap_cons, List.length_append, List.length_cons, Nat.add_mul,
      Nat.one_mul] at ht ⊢
    omega

@[simp] theorem records_nil (f : Format) : f.records [] = [] := rfl

@[simp] theorem records_append (f : Format) (xs ys : List Sample) :
    f.records (xs ++ ys) = f.records xs ++ f.records ys := by
  simp [records]

@[simp] theorem records_singleton (f : Format) (x : Sample) : f.records [x] = f.encode x := by
  simp [records]

end Format

abbrev Log := SegLog Format.fits

def buildFormat (cfg : Cfg) (baseTsMs : UInt64) : Format := if cfg.delta then .v2 baseTsMs else .v1

theorem buildFormat_fits (cfg : Cfg) (sample : Sample) : (buildFormat cfg sample.tsMs).fits sample := by
  unfold buildFormat
  split
  · exact Format.fits_v2_self sample
  · exact Format.fits_v1 sample

theorem buildFormat_single {cfg : Cfg} (hs : cfg.segmented = false) (baseTsMs : UInt64) :
    buildFormat cfg baseTsMs = .v1 := by
  have hd : cfg.delta = false := by
    by_contra hd
    have := cfg.segmented_of_delta (by simpa using hd)
    rw [hs] at this
    cases this
  simp [buildFormat, hd]

theorem buildFormat_version (cfg : Cfg) (a b : UInt64) :
    (buildFormat cfg a).version = (buildFormat cfg b).version := by
  unfold buildFormat
  split <;> rfl

namespace Log

variable (cfg : Cfg)

def recSize (L : Log) : Nat := L.cur.format.recSize

def nextLo (L : Log) : Nat :=
  if cfg.rollover then max L.lo (L.past.length + 2 - cfg.maxSegments) else L.lo

theorem nextLo_le (L : Log) : nextLo cfg L ≤ L.past.length := by
  have h := L.lo_le
  have h2 := cfg.two_le_maxSegments
  unfold nextLo
  split <;> omega

def startSeg (L : Log) (baseTsMs : UInt64) : Log :=
  L.start (buildFormat cfg baseTsMs) (nextLo cfg L) (nextLo_le cfg L)

theorem fits_startSeg (L : Log) (sample : Sample) :
    (startSeg cfg L sample.tsMs).cur.format.fits sample :=
  buildFormat_fits cfg sample

def full (L : Log) : Prop := cfg.segmented = true ∧ cfg.segmentBytes ≤ L.cur.items.length * L.recSize

instance (L : Log) : Decidable (full cfg L) :=
  inferInstanceAs (Decidable (cfg.segmented = true ∧ cfg.segmentBytes ≤ L.cur.items.length * L.recSize))

def drain (L : Log) : Log :=
  if L.buf = [] then L
  else if full cfg L.write then startSeg cfg L.write L.cur.format.baseTs else L.write

def Steady (L : Log) (sample : Sample) : Prop :=
  cfg.ingestCapacity < (L.buf.length + 1) * L.recSize → (drain cfg L).cur.format.fits sample →
    (drain cfg L).recSize = L.recSize

instance (L : Log) (sample : Sample) : Decidable (Steady cfg L sample) :=
  inferInstanceAs (Decidable (cfg.ingestCapacity < (L.buf.length + 1) * L.recSize →
    (drain cfg L).cur.format.fits sample → (drain cfg L).recSize = L.recSize))

def noRoom (L : Log) : Prop := cfg.ingestCapacity < (L.buf.length + 1) * L.recSize

instance (L : Log) : Decidable (noRoom cfg L) :=
  inferInstanceAs (Decidable (cfg.ingestCapacity < (L.buf.length + 1) * L.recSize))

def room (L : Log) : Log := if noRoom cfg L then drain cfg L else L

def rebase (L : Log) (sample : Sample) : Log :=
  (startSeg cfg (drain cfg L) sample.tsMs).push sample (fits_startSeg cfg (drain cfg L) sample)

def encoded (L : Log) (sample : Sample) : Log :=
  if h : L.cur.format.fits sample then L.push sample h else rebase cfg L sample

def append (L : Log) (sample : Sample) : Log := encoded cfg (room cfg L) sample

/-- `Steady` along a run of samples. -/
def SteadyAll : Log → List Sample → Prop
  | _, [] => True
  | L, sample :: samples => Steady cfg L sample ∧ SteadyAll (append cfg L sample) samples

def BuildFits (n : Nat) : Prop := (buildFormat cfg 0).recSize ≤ n

theorem buildFormat_recSize (a b : UInt64) : (buildFormat cfg a).recSize = (buildFormat cfg b).recSize :=
  Format.version_eq_iff.mp (buildFormat_version cfg a b)

@[simp] theorem startSeg_buf (L : Log) (b : UInt64) : (startSeg cfg L b).buf = [] := rfl
@[simp] theorem startSeg_past (L : Log) (b : UInt64) : (startSeg cfg L b).past = L.past ++ [L.cur] := rfl
@[simp] theorem startSeg_format (L : Log) (b : UInt64) :
    (startSeg cfg L b).cur.format = buildFormat cfg b := rfl
@[simp] theorem startSeg_items (L : Log) (b : UInt64) : (startSeg cfg L b).cur.items = [] := rfl
@[simp] theorem startSeg_lo (L : Log) (b : UInt64) : (startSeg cfg L b).lo = nextLo cfg L := rfl

@[simp] theorem drain_buf (L : Log) : (drain cfg L).buf = [] := by
  unfold drain
  split
  · assumption
  · split <;> rfl

theorem drain_of_nil {L : Log} (h : L.buf = []) : drain cfg L = L := by
  simp [drain, h]

@[simp] theorem all_drain (L : Log) : (drain cfg L).all = L.all := by
  unfold drain startSeg
  split
  · rfl
  · split
    · rw [SegLog.all_start _ _ _ _ rfl, SegLog.all_write]
    · exact L.all_write

@[simp] theorem all_room (L : Log) : (room cfg L).all = L.all := by
  unfold room
  split
  · exact all_drain cfg L
  · rfl

theorem all_rebase (L : Log) (sample : Sample) : (rebase cfg L sample).all = L.all ++ [sample] := by
  rw [rebase, SegLog.all_push, startSeg, SegLog.all_start _ _ _ _ (drain_buf cfg L), all_drain]

theorem all_encoded (L : Log) (sample : Sample) : (encoded cfg L sample).all = L.all ++ [sample] := by
  unfold encoded
  split
  · exact L.all_push sample _
  · exact all_rebase cfg L sample

@[simp] theorem all_append (L : Log) (sample : Sample) : (append cfg L sample).all = L.all ++ [sample] := by
  rw [append, all_encoded, all_room]

theorem drain_recSize (L : Log) :
    (drain cfg L).recSize = L.recSize ∨ (drain cfg L).recSize = (buildFormat cfg 0).recSize := by
  unfold drain
  split
  · exact .inl rfl
  · split
    · exact .inr (buildFormat_recSize cfg _ _)
    · exact .inl rfl

theorem encoded_recSize (L : Log) (sample : Sample) :
    (encoded cfg L sample).recSize = L.recSize ∨
      (encoded cfg L sample).recSize = (buildFormat cfg 0).recSize := by
  unfold encoded
  split
  · exact .inl rfl
  · exact .inr (buildFormat_recSize cfg _ _)

theorem append_recSize (L : Log) (sample : Sample) :
    (append cfg L sample).recSize = L.recSize ∨
      (append cfg L sample).recSize = (buildFormat cfg 0).recSize := by
  have hroom : (room cfg L).recSize = L.recSize ∨ (room cfg L).recSize = (buildFormat cfg 0).recSize := by
    unfold room
    split
    · exact drain_recSize cfg L
    · exact .inl rfl
  rcases encoded_recSize cfg (room cfg L) sample with h | h
  · exact hroom.imp h.trans h.trans
  · exact .inr h

end Log

end ZephyrDB.Ts
