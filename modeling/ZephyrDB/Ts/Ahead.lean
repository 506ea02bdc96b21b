import ZephyrDB.Lib.Feed
import ZephyrDB.Ts.Ingest

/-!
What a cursor has ahead of it, as a function of the cursor and of the state it
reads: the records of the open file from its position on, those of the segments
it has yet to open, and those of the buffer. The bytes may be anything.
-/

set_option autoImplicit false

namespace ZephyrDB.Ts

open Lib

abbrev RecItem := Item Status (Bytes × Sample)

/-- What decoding a record reports; the counters it moves are left out. -/
def decoded (version : Nat) (baseTsMs : UInt64) (raw : Bytes) : Except Status Sample :=
  if version = STREAM_VERSION_V2 then
    if crcOk raw 12 then .ok ⟨baseTsMs + UInt64.ofNat (field raw 0 4), (UInt64.ofNat (field raw 4 8)).toInt64⟩
    else .error .ERR_CORRUPT
  else if field raw 0 4 ≠ REC_MAGIC then .error .ERR_CORRUPT
  else if field raw 4 2 ≠ REC_VERSION then .error .ERR_UNSUPPORTED
  else if crcOk raw 24 then .ok ⟨UInt64.ofNat (field raw 8 8), (UInt64.ofNat (field raw 16 8)).toInt64⟩
  else .error .ERR_CORRUPT

def recordItem (version : Nat) (baseTsMs : UInt64) (raw : Bytes) : RecItem :=
  match decoded version baseTsMs raw with
  | .ok sample => some (.ok (raw, sample))
  | .error .ERR_UNSUPPORTED => none
  | .error rc => some (.error rc)

def fileItem (layout : FileLayout) (raw : Bytes) : RecItem :=
  if raw.length = layout.recSize then recordItem layout.version layout.baseTsMs raw else some (.error .ERR_CORRUPT)

def fileItems (layout : FileLayout) (bs : Bytes) : List RecItem := (chunks layout.recSize bs).map (fileItem layout)

/-- The layout that a file's contents announce. -/
def layoutOf (bs : Bytes) : Except Status FileLayout :=
  let raw := slice bs 0 hdrSizeV2
  if raw.length < hdrSizeV1 then .ok FileLayout.v1
  else if field raw 4 2 ≠ STREAM_VERSION_V2 then .ok FileLayout.v1
  else if raw.length < hdrSizeV2 then .error .ERR_CORRUPT
  else .ok ⟨hdrSizeV2, recSizeV2, UInt64.ofNat (field raw 12 8)⟩

def segmentItems (bs : Bytes) (descending : Bool) : List RecItem :=
  match layoutOf bs with
  | .error _ => []
  | .ok layout =>
    if descending then (fileItems layout ((bs.take (layout.lastWhole bs.length)).drop layout.hdrSize)).reverse
    else fileItems layout (bs.drop layout.hdrSize)

namespace CursorCtx

def here (c : CursorCtx) (e : Sys) : List RecItem :=
  match c.file with
  | none => []
  | some f =>
    if c.descending then
      (fileItems c.layout (((e.visible f.path f.size).take c.fileOffset).drop c.layout.hdrSize)).reverse
    else fileItems c.layout ((e.visible f.path f.size).drop f.pos)

def segsAhead (c : CursorCtx) : List Nat :=
  if c.descending then (List.range' c.segLo (c.curSeg - c.segLo)).reverse
  else List.range' (c.curSeg + 1) (c.segHi - c.curSeg)

def segItems (cfg : Cfg) (c : CursorCtx) (e : Sys) (k : Nat) : List RecItem :=
  segmentItems (e.contents (segFile cfg c.streamName k)) c.descending

def filesAhead (cfg : Cfg) (c : CursorCtx) (e : Sys) : List RecItem :=
  if c.fileDone || c.file.isNone then [] else c.here e ++ c.segsAhead.flatMap (c.segItems cfg e)

end CursorCtx

/-- What a slot's buffer holds behind the first `ramOffset` bytes in the order of the walk. -/
def bufItems (cfg : Cfg) (slot : StreamCtx) (descending : Bool) (ramOffset : Nat) : List RecItem :=
  match slot.ingestBuf with
  | none => []
  | some buf =>
    let recSize := slotRecSize cfg slot
    (List.range ((slot.ingestUsed - ramOffset) / recSize)).map fun j =>
      recordItem (slotVersion cfg slot) (slotBaseTs cfg slot)
        (slice buf (if descending then slot.ingestUsed - ramOffset - (j + 1) * recSize else ramOffset + j * recSize)
          recSize)

def bufAhead (cfg : Cfg) (c : CursorCtx) (a : App) : List RecItem :=
  match a.slotFind c.streamName with
  | none => []
  | some i => bufItems cfg (a.slotAt i) c.descending c.ramOffset

/-- All that a cursor has ahead of it. -/
def ahead (cfg : Cfg) (s : CurSt) : List RecItem :=
  if s.cur.descending then bufAhead cfg s.cur s.app ++ s.cur.filesAhead cfg s.app.env
  else s.cur.filesAhead cfg s.app.env ++ bufAhead cfg s.cur s.app

theorem outcome_recordDecodeAs (version : Nat) (baseTsMs : UInt64) (raw : Bytes) (e : Sys) :
    outcome (recordDecodeAs version baseTsMs raw) e = decoded version baseTsMs raw := by
  unfold decoded recordDecodeAs
  split
  · cases crcOk raw 12 <;> rfl
  · unfold recordDecode
    by_cases hm : field raw 0 4 ≠ REC_MAGIC
    · rw [if_pos hm, if_pos hm]
      rfl
    · rw [if_neg hm, if_neg hm]
      by_cases hr : field raw 4 2 ≠ REC_VERSION
      · rw [if_pos hr, if_pos hr]
        rfl
      · rw [if_neg hr, if_neg hr]
        cases crcOk raw 24 <;> rfl

theorem run_decode (version : Nat) (baseTsMs : UInt64) (raw : Bytes) (e : Sys) :
    ∃ e', (attempt (recordDecodeAs version baseTsMs raw) : Zdb (Except Status Sample)).run e =
      .ok (decoded version baseTsMs raw) e' ∧ Leads e e.look e' := by
  refine ⟨post (recordDecodeAs version baseTsMs raw) e, ?_, leads_of_within (keeps_recordDecodeAs version baseTsMs raw e)⟩
  rw [← outcome_recordDecodeAs version baseTsMs raw e]
  rfl

theorem decoded_error {version : Nat} {baseTsMs : UInt64} {raw : Bytes} {rc : Status}
    (h : decoded version baseTsMs raw = .error rc) : rc = .ERR_CORRUPT ∨ rc = .ERR_UNSUPPORTED := by
  unfold decoded at h
  repeat' split at h
  all_goals cases h
  · exact .inl rfl
  · exact .inl rfl
  · exact .inr rfl
  · exact .inl rfl

theorem outcome_cursorLearnLayout {path : Path} {bs : Bytes} {e : Sys} (hc : e.Clean) (h : e.look path = some bs) :
    outcome (cursorLearnLayout path) e = layoutOf bs := by
  obtain ⟨e₁, h₁, l₁⟩ := fsOpen_existing hc false h
  obtain ⟨e₂, h₂, l₂⟩ := fsRead_ok (l₁.clean hc) path 0 hdrSizeV2
  rw [l₁.look, h, Option.getD_some] at h₂
  unfold cursorLearnLayout
  rw [outcome_then (run_toStatus h₁), outcome_then (run_attempt_ok h₂)]
  unfold layoutOf
  generalize slice bs 0 hdrSizeV2 = raw
  dsimp only
  by_cases hshort : raw.length < hdrSizeV1
  · rw [if_pos hshort, if_pos hshort]
    rfl
  · rw [if_neg hshort, if_neg hshort]
    by_cases hv : field raw 4 2 ≠ STREAM_VERSION_V2
    · rw [if_pos hv, if_pos hv]
      rfl
    · rw [if_neg hv, if_neg hv]
      by_cases hcut : raw.length < hdrSizeV2
      · rw [if_pos hcut, if_pos hcut]
        rfl
      · rw [if_neg hcut, if_neg hcut]
        rfl

theorem run_cursorLearnLayout {path : Path} {bs : Bytes} {layout : FileLayout} {e : Sys} (hc : e.Clean)
    (h : e.look path = some bs) (hl : layoutOf bs = .ok layout) :
    ∃ e', (cursorLearnLayout path).run e = .ok layout e' ∧ Leads e e.look e' :=
  ⟨post (cursorLearnLayout path) e, run_of_outcome ((outcome_cursorLearnLayout hc h).trans hl),
    leads_of_within (keeps_cursorLearnLayout path e)⟩

theorem layoutOf_recSize {bs : Bytes} {layout : FileLayout} (h : layoutOf bs = .ok layout) : 0 < layout.recSize := by
  unfold layoutOf at h
  dsimp only at h
  split at h
  · cases h
    decide
  · split at h
    · cases h
      decide
    · split at h
      · cases h
      · cases h
        exact show 0 < recSizeV2 by decide

theorem segmentItems_ascending {bs : Bytes} {layout : FileLayout} (hl : layoutOf bs = .ok layout) :
    segmentItems bs false = fileItems layout (bs.drop layout.hdrSize) := by
  simp [segmentItems, hl]

structure SameQuery (c c' : CursorCtx) : Prop where
  name : c'.streamName = c.streamName
  window : c'.window = c.window
  predicate : c'.predicate = c.predicate
  descending : c'.descending = c.descending
  ramOffset : c'.ramOffset = c.ramOffset
  fileDone : c'.fileDone = c.fileDone
  segLo : c'.segLo = c.segLo
  segHi : c'.segHi = c.segHi

theorem SameQuery.refl (c : CursorCtx) : SameQuery c c := ⟨rfl, rfl, rfl, rfl, rfl, rfl, rfl, rfl⟩

theorem SameQuery.trans {a b c : CursorCtx} (h : SameQuery a b) (k : SameQuery b c) : SameQuery a c :=
  ⟨k.name.trans h.name, k.window.trans h.window, k.predicate.trans h.predicate,
    k.descending.trans h.descending, k.ramOffset.trans h.ramOffset, k.fileDone.trans h.fileDone,
    k.segLo.trans h.segLo, k.segHi.trans h.segHi⟩

/-- A cursor program that only read. -/
structure Reads (cfg : Cfg) (s s' : CurSt) : Prop where
  alike : Alike cfg s.app s'.app
  query : SameQuery s.cur s'.cur

theorem Reads.refl (cfg : Cfg) (s : CurSt) : Reads cfg s s := ⟨Alike.refl cfg s.app, SameQuery.refl s.cur⟩

theorem Reads.trans {cfg : Cfg} {a b c : CurSt} (h : Reads cfg a b) (k : Reads cfg b c) : Reads cfg a c :=
  ⟨h.alike.trans k.alike, h.query.trans k.query⟩

theorem run_updCur {ε : Type} (f : CursorCtx → CursorCtx) (s : CurSt) :
    (updCur (ε := ε) f).run s = .ok () ⟨f s.cur, s.app⟩ := rfl

theorem run_getCur {ε : Type} (s : CurSt) : (get : CurM ε CurSt).run s = .ok s s := rfl

theorem run_onApp {ε α : Type} {m : AppM ε α} {s : CurSt} {x : α} {a : App} (h : m.run s.app = .ok x a) :
    (onApp m).run s = .ok x ⟨s.cur, a⟩ :=
  run_zoom h

theorem run_onCurEnv {ε α : Type} {m : EStateM ε Sys α} {s : CurSt} {x : α} {e : Sys}
    (h : m.run s.app.env = .ok x e) : (onCurEnv m).run s = .ok x ⟨s.cur, { s.app with env := e }⟩ :=
  run_onApp (run_onEnv h)

theorem run_seekTo {s : CurSt} (hc : s.app.env.Clean) (off : Nat)
    (h : ¬ (2 ^ 31 ≤ off ∧ s.cur.fileSize < s.cur.layout.hdrSize)) :
    ∃ e, (seekTo off).run s = .ok ()
        ⟨{ s.cur with file := s.cur.file.map fun f => { f with pos := off } }, { s.app with env := e }⟩ ∧
      Leads s.app.env s.app.env.look e := by
  obtain ⟨e, h₁, l₁⟩ := call_ok hc
  refine ⟨e, ?_, l₁⟩
  unfold seekTo
  dsimp only
  apply run_then (run_getCur s)
  apply run_then (run_getCur s)
  rw [if_neg h]
  exact run_then (run_onCurEnv h₁) (run_updCur _ _)

theorem reads_env {cfg : Cfg} (s : CurSt) {c : CursorCtx} (hq : SameQuery s.cur c) {e : Sys}
    (l : Leads s.app.env s.app.env.look e) : Reads cfg s ⟨c, { s.app with env := e }⟩ :=
  ⟨alike_env s.app l, hq⟩

end ZephyrDB.Ts
