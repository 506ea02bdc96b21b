import ZephyrDB.Ts.Codec
import ZephyrDB.Ts.Contract

/-!
A stored file with one bit the other way, while its stream is in use: what the
walks over the stream tell of it, and what they do not.
-/

set_option autoImplicit false

namespace ZephyrDB.Ts

open Lib

section Fields
variable {raw : Bytes} {i : Nat} (bit : Fin 8)

end Fields

/-- What a walk makes of a record with a bit of byte `o` flipped: a version 1 record of another version is stepped
over. -/
def flippedItem (f : Format) (o : Nat) : RecItem :=
  if f = .v1 ∧ (o = 4 ∨ o = 5) then none else some (.error .ERR_CORRUPT)

/-- The base of a version 2 header with a bit of byte `i` flipped. -/
def flippedBase (base : UInt64) (i : Nat) (bit : Fin 8) : UInt64 :=
  if 12 ≤ i ∧ i < 20 then base ^^^ UInt64.ofNat (2 ^ (8 * (i - 12) + bit.val)) else base

def retimed (base base' : UInt64) (x : Sample) : Sample := ⟨base' + (x.tsMs - base), x.value⟩

/-- What a walk makes of a segment's file with a bit of byte `i` flipped. -/
def flippedItems (g : Seg Format.fits) (i : Nat) (bit : Fin 8) : List RecItem :=
  if i < g.format.hdrSize then
    match g.format with
    | .v1 => (segRecords g).map foundItem
    | .v2 base => g.items.map fun x => foundItem (g.format.encode x, retimed base (flippedBase base i bit) x)
  else
    ((segRecords g).map foundItem).set ((i - g.format.hdrSize) / g.format.recSize)
      (flippedItem g.format ((i - g.format.hdrSize) % g.format.recSize))

/-- A version 2 header that no longer says so. -/
def Reversioned (g : Seg Format.fits) (i : Nat) : Prop := g.format ≠ .v1 ∧ (i = 4 ∨ i = 5)

/-- The instance over storage with one bit of a file flipped. -/
def App.flip (a : App) (path : Path) (i : Nat) (bit : Fin 8) : App :=
  { a with env := a.env.modify path fun bs => flipBit bs i bit }

/-- Every walk on the handle makes the reports of these items. -/
def Walks (cfg : Cfg) (a : App) (h : Nat) (items : List RecItem) : Prop :=
  ∀ window predicate descending n, (step cfg a (.cursor h window predicate descending n)).1 =
    ⟨.OK, .walk (callsOver .ERR_NOT_FOUND (reports (admits window predicate) (along descending items)) n)⟩

namespace Log

end Log

/-- The slot of the stream, in a segmented build, knows its segments. -/
def Knows (cfg : Cfg) (a : App) (name : Bytes) : Prop :=
  cfg.segmented = true → ∀ i, a.slotFind name = some i → (a.slotAt i).segsScanned = true

section Stream
variable {cfg : Cfg} {N U : Bytes → Prop} {a : App} {A : Store} {h : Nat} {name : Bytes} {L : Log}

theorem World.knows (hW : World cfg N Unknown a A) (name : Bytes) : Knows cfg a name := fun hs i hi =>
  (hW.informed hs i (slotFind_some hi).1).resolve_right id

theorem SlotRep.learned {i : Nat} (hrep : SlotRep cfg name L ⟨a.slotAt i, a.env⟩) (hi : a.slotFind name = some i)
    (hk : Knows cfg a name) : (cfg.segmented = true → Learned L (a.slotAt i)) ∧ SegFiles cfg name L a.env.look := by
  cases hrep.known with
  | learned hl hf => exact ⟨hl, hf⟩
  | unlearned hs hu =>
    have hnot : (a.slotAt i).segsScanned = false := hu.scanned
    rw [hk hs i hi] at hnot
    cases hnot

theorem shows_there (hW : World cfg N U a A) (ho : OpenFor cfg a h name) (hk : Knows cfg a name)
    (hf : SegFiles cfg name (A.logs name) a.env.look) : Shows cfg a name (A.logs name) where
  files := hf
  bound := by
    cases hfind : a.slotFind name with
    | some i => exact (hW.rep_find hfind).bound
    | none => exact (hW.stored name (hW.bound h name ho.1) hfind).2.2
  slot i hi := by
    have hrep := hW.rep_find hi
    exact ⟨hrep.clean, hrep.named, hrep.bound, hrep.buffered, (hrep.learned hi hk).1, hf⟩
  shut hi := (hW.stored name (hW.bound h name ho.1) hi).2.1

variable {k i : Nat} (bit : Fin 8)

variable (hshows : Shows cfg a name L) (hlo : L.lo ≤ k) (hhi : k ≤ L.past.length)
include hshows hlo hhi

end Stream

section Use
variable {cfg : Cfg} {N U : Bytes → Prop} {a : App} {A : Store} {h : Nat} {name : Bytes} {k i : Nat}

theorem headerValid_v1 (name rest : Bytes) : headerValid name (Format.v1.header name ++ rest) = true := by
  have hhdr : (Format.v1.header name).length = hdrSizeV1 := Format.v1.header_length name
  unfold headerValid
  rw [layoutOf_header]
  dsimp only
  rw [show Format.v1.layout.hdrSize = hdrSizeV1 from rfl, List.take_left' hhdr, List.length_append, hhdr]
  have hfields : headerFields name Format.v1.layout (Format.v1.header name) = true := by
    have hout := (outcome_streamHeaderDecode (Format.v1.header name) name (Sys.blank fun _ => false)).mp (by
      have hrun := run_streamHeaderDecode_encode name [] (Sys.blank fun _ => false)
      rw [List.append_nil] at hrun
      exact outcome_of_run hrun)
    exact hout
  rw [hfields, Bool.and_true, decide_eq_true_eq]
  exact Nat.le_add_right _ _

theorem Shows.shown {L : Log} (hshows : Shows cfg a name L) (ho : OpenFor cfg a h name) :
    Shown cfg a h name L.lo L.past.length where
  handle := ho.1
  slot hs := by
    obtain ⟨j, hj⟩ := Option.isSome_iff_exists.mp (ho.2.2 hs)
    have hl := (hshows.slot j hj).learned hs
    exact ⟨j, hj, hl.scanned, hl.oldestSeg, hl.curSeg⟩
  header hs := by
    obtain ⟨hpast, hformat⟩ := hshows.files.single hs
    have hcur := hshows.files.cur
    have hle := L.lo_le
    rw [hpast, List.length_nil] at hcur hle ⊢
    refine ⟨Nat.le_zero.mp hle, rfl, ?_⟩
    rw [Env.contents_eq, hcur, Option.getD_some, segBytes, hformat]
    exact headerValid_v1 name _

end Use

/-- Bytes of a header that a segmented build does not look at. -/
def Unread (g : Seg Format.fits) (i : Nat) : Prop :=
  i < g.format.hdrSize ∧ (g.format = .v1 ∨ ¬ (i = 4 ∨ i = 5) ∧ ¬ (12 ≤ i ∧ i < 20))

theorem Unread.kept {g : Seg Format.fits} {i : Nat} (h : Unread g i) (bit : Fin 8) :
    ¬ Reversioned g i ∧ flippedItems g i bit = (segRecords g).map foundItem := by
  obtain ⟨hin, hout⟩ := h
  refine ⟨fun hr => hout.elim hr.1 fun hc => hc.1 hr.2, ?_⟩
  unfold flippedItems
  rw [if_pos hin, segRecords, List.map_map]
  cases hf : g.format with
  | v1 => rfl
  | v2 base =>
    have hbase : flippedBase base i bit = base :=
      if_neg (hout.resolve_left fun h => by rw [hf] at h; cases h).2
    apply List.map_congr_left
    intro x _
    have hback : base + (x.tsMs - base) = x.tsMs := by rw [UInt64.add_comm, UInt64.sub_add_cancel]
    rw [hbase, retimed, hback]
    rfl

section Told
variable {cfg : Cfg} {N : Bytes → Prop} {e : Sys} {ops : List Op} {hd k i : Nat} {name : Bytes}

end Told

end ZephyrDB.Ts
