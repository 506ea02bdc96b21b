import ZephyrDB.Doc.Format

/-!
What a file holds, and what an open reports.

Reading depends on the bytes of the file alone: two readers of the same bytes go
side by side, and a reader of a file that has been cut short either goes beside
a reader of the whole file or fails.
-/

set_option autoImplicit false

namespace ZephyrDB.Doc

open Lib

structure Moved (s t : DocSt) : Prop where
  env : Ticks s.env t.env
  doc : t.doc = { s.doc with fields := t.doc.fields, updatedMs := t.doc.updatedMs }

theorem Moved.refl (s : DocSt) : Moved s s := ⟨Ticks.refl _, rfl⟩

theorem Moved.trans {s t u : DocSt} (h : Moved s t) (k : Moved t u) : Moved s u :=
  ⟨h.env.trans k.env, by rw [k.doc, h.doc]⟩

def Told (status : Status) : Prop := status ≠ .ERR_NOT_FOUND

instance (status : Status) : Decidable (Told status) := inferInstanceAs (Decidable (status ≠ .ERR_NOT_FOUND))

structure Pair where
  path : Path
  path' : Path
  text : Bytes
  rest : Bytes
  start : DocSt
  start' : DocSt
  clean : start.env.Clean
  clean' : start'.env.Clean
  holds : start.env.contents path = text
  holds' : start'.env.contents path' = text ++ rest
  valid : start'.doc.valid = start.doc.valid
  maxFields : start'.doc.maxFields = start.doc.maxFields

namespace Pair
variable (w : Pair)

def Torn : Prop := w.rest ≠ []

structure Level (s s' : DocSt) : Prop where
  left : Moved w.start s
  right : Moved w.start' s'
  fields : s'.doc.fields = s.doc.fields

structure Beside (r r' : Reader) : Prop where
  pos : r'.pos = r.pos
  crc : r'.crc = r.crc
  inside : r.pos ≤ w.text.length
  st : w.Level r.st r'.st

variable {w}

theorem Level.valid {s s' : DocSt} (h : w.Level s s') : s'.doc.valid = s.doc.valid := by
  rw [h.left.doc, h.right.doc]
  exact w.valid

theorem Level.maxFields {s s' : DocSt} (h : w.Level s s') : s'.doc.maxFields = s.doc.maxFields := by
  rw [h.left.doc, h.right.doc]
  exact w.maxFields

theorem Level.set {s s' : DocSt} (h : w.Level s s') (fields : List Field) (now now' : UInt64) :
    w.Level ⟨{ s.doc with fields := fields, updatedMs := now }, s.env⟩
      ⟨{ s'.doc with fields := fields, updatedMs := now' }, s'.env⟩ :=
  ⟨h.left.trans ⟨Ticks.refl _, rfl⟩, h.right.trans ⟨Ticks.refl _, rfl⟩, rfl⟩

theorem Level.next {s s' : DocSt} (h : w.Level s s') : w.Level ⟨s.doc, s.env.next⟩ ⟨s'.doc, s'.env.next⟩ :=
  ⟨h.left.trans ⟨ticks_next _, rfl⟩, h.right.trans ⟨ticks_next _, rfl⟩, h.fields⟩

variable {torn : Prop}

theorem mirrors_kMalloc {s s' : DocSt} (h : w.Level s s') :
    Mirrors torn w.Level Told (onEnv kMalloc : DocM Unit) s (onEnv kMalloc) s' :=
  mirrors_of_run (run_onEnv (run_kMalloc (h.left.env.clean w.clean)))
    (run_onEnv (run_kMalloc (h.right.env.clean w.clean'))) h.next

section Setters
variable {cfg : DocCfg} {name : CString}

theorem mirrors_findOrCreate {s s' : DocSt} (h : w.Level s s') (blank : Value) :
    Mirrors torn w.Level Told (findOrCreate cfg name blank) s (findOrCreate cfg name blank) s' := by
  unfold findOrCreate
  apply mirrors_get_bind
  dsimp only
  rw [h.valid, h.maxFields, h.fields]
  split
  · exact mirrors_throw (by decide) h
  split
  · exact mirrors_throw (by decide) h
  split
  · split
    · refine mirrors_bind (mirrors_modify ?_) fun _ _ _ hu => mirrors_pure _ hu
      dsimp only
      rw [h.fields]
      exact h.set _ _ _
    · exact mirrors_pure _ h
  · split
    · exact mirrors_throw (by decide) h
    · apply mirrors_bind (mirrors_kMalloc h)
      intro _ u v hu
      refine mirrors_bind (mirrors_modify ?_) fun _ _ _ hu => mirrors_pure _ hu
      dsimp only
      rw [hu.fields]
      exact hu.set _ _ _

theorem mirrors_putValue {s s' : DocSt} (h : w.Level s s') (i : Nat) (value : Value) :
    Mirrors torn w.Level Told (putValue i value) s (putValue i value) s' := by
  apply mirrors_modify
  rw [h.fields]
  exact h.set _ _ _

theorem mirrors_fieldSet {s s' : DocSt} (h : w.Level s s') (value : Value) :
    Mirrors torn w.Level Told (fieldSet cfg name value) s (fieldSet cfg name value) s' := by
  have hscalar : ∀ value : Value,
      Mirrors torn w.Level Told (fieldSetScalar cfg name value) s (fieldSetScalar cfg name value) s' :=
    fun value => mirrors_bind (mirrors_findOrCreate h _) fun i _ _ hu => mirrors_putValue hu i value
  cases value with
  | int64 v => exact hscalar _
  | double bits => exact hscalar _
  | bool b => exact hscalar _
  | string str =>
    cases str with
    | none => exact mirrors_throw (by decide) h
    | some str =>
      simp only [fieldSet, fieldSetString]
      split
      · exact mirrors_throw (by decide) h
      · apply mirrors_bind (mirrors_findOrCreate h _)
        intro i _ _ hu
        exact mirrors_bind (mirrors_kMalloc hu) fun _ _ _ hv => mirrors_putValue hv i _
  | bytes data =>
    simp only [fieldSet, fieldSetBytes]
    split
    · exact mirrors_throw (by decide) h
    · apply mirrors_bind (mirrors_findOrCreate h _)
      intro i u v hu
      refine mirrors_bind ?_ fun _ _ _ hv => mirrors_putValue hv i _
      unfold allocCopy
      split
      · exact mirrors_pure _ hu
      · exact mirrors_kMalloc hu

end Setters

section Reading
variable {cfg : DocCfg}

theorem mirrors_onHandle {α : Type} {m m' : DocM α} {r r' : Reader} (h : w.Beside r r')
    (hm : Mirrors torn w.Level Told m r.st m' r'.st) :
    Mirrors torn w.Beside Told (onHandle m) r (onHandle m') r' := by
  unfold Mirrors onHandle
  simp only [outcome_zoom, post_zoom]
  exact hm.imp_left fun ⟨ho, he, hp⟩ => ⟨ho, he, h.pos, h.crc, h.inside, hp⟩

/-- A read that stays inside the shorter file sees the same bytes in both; another one is short in the
shorter file. -/
theorem mirrors_readExact {r r' : Reader} (h : w.Beside r r') (len : Nat) :
    Mirrors w.Torn w.Beside Told (readExact w.path len) r (readExact w.path' len) r' := by
  have hc := h.st.left.env.clean w.clean
  have hc' := h.st.right.env.clean w.clean'
  have htext : r.st.env.contents w.path = w.text := (h.st.left.env.contents _).trans w.holds
  have htext' : r'.st.env.contents w.path' = w.text ++ w.rest := (h.st.right.env.contents _).trans w.holds'
  have hread : (onHandle (onEnv (toStatus (fsRead w.path r.pos len)))).run r =
      .ok (slice w.text r.pos len) { r with st := ⟨r.st.doc, r.st.env.next⟩ } := by
    rw [← htext]
    exact run_onHandle (run_onEnv (run_adapt (fsRead_clean hc _ _ _)))
  have hread' : (onHandle (onEnv (toStatus (fsRead w.path' r.pos len)))).run r' =
      .ok (slice (w.text ++ w.rest) r.pos len) { r' with st := ⟨r'.st.doc, r'.st.env.next⟩ } := by
    rw [← htext']
    exact run_onHandle (run_onEnv (run_adapt (fsRead_clean hc' _ _ _)))
  apply mirrors_get_bind
  rw [h.pos]
  by_cases hin : r.pos + len ≤ w.text.length ∨ w.rest = []
  · have hsame : slice (w.text ++ w.rest) r.pos len = slice w.text r.pos len := by
      rcases hin with hin | hnil
      · exact slice_append_left _ _ _ _ hin
      · rw [hnil, List.append_nil]
    rw [hsame] at hread'
    apply mirrors_then hread hread'
    split
    · exact mirrors_throw (by decide) ⟨h.pos, h.crc, h.inside, h.st.next⟩
    · rename_i hlen
      have hinside : r.pos + len ≤ w.text.length := by
        have := h.inside
        rw [slice_length] at hlen
        omega
      refine mirrors_bind (mirrors_modify ?_) fun _ _ _ hu => mirrors_pure _ hu
      exact ⟨congrArg (· + len) h.pos, by dsimp only; rw [h.crc], hinside, h.st.next⟩
  · refine .inr ⟨fun hnil => hin (.inr hnil), .ERR_CORRUPT, ?_⟩
    have hshort : (slice w.text r.pos len).length ≠ len := by
      have := h.inside
      rw [slice_length]
      omega
    rw [outcome_bind_ok (outcome_of_run hread), if_pos hshort]
    rfl

theorem mirrors_handle_kMalloc {r r' : Reader} (h : w.Beside r r') :
    Mirrors torn w.Beside Told (onHandle (onEnv kMalloc)) r (onHandle (onEnv kMalloc)) r' :=
  mirrors_onHandle h (mirrors_kMalloc h.st)

theorem mirrors_handle_fieldSet {r r' : Reader} (h : w.Beside r r') (name : CString) (value : Value) :
    Mirrors torn w.Beside Told (onHandle (fieldSet cfg name value)) r (onHandle (fieldSet cfg name value)) r' :=
  mirrors_onHandle h (mirrors_fieldSet h.st value)

theorem mirrors_parseValue {r r' : Reader} (h : w.Beside r r') (name : CString) (type : Nat) :
    Mirrors w.Torn w.Beside Told (parseValue cfg w.path name type) r (parseValue cfg w.path' name type) r' := by
  unfold parseValue
  split
  · exact mirrors_bind (mirrors_readExact h 8) fun tmp _ _ hu =>
      mirrors_handle_fieldSet hu name (.int64 (UInt64.ofNat (leNat tmp)).toInt64)
  split
  · exact mirrors_bind (mirrors_readExact h 8) fun tmp _ _ hu =>
      mirrors_handle_fieldSet hu name (.double (UInt64.ofNat (leNat tmp)))
  split
  · exact mirrors_bind (mirrors_readExact h 1) fun tmp _ _ hu =>
      mirrors_handle_fieldSet hu name (.bool (leNat tmp != 0))
  split
  · apply mirrors_bind (mirrors_readExact h 4)
    intro tmp _ _ hu
    dsimp only
    split
    · exact mirrors_throw (by decide) hu
    · apply mirrors_bind (mirrors_handle_kMalloc hu)
      intro _ _ _ hv
      exact mirrors_bind (mirrors_readExact hv _) fun str _ _ hx =>
        mirrors_handle_fieldSet hx name (.string (some (CString.ofBytes str)))
  split
  · apply mirrors_bind (mirrors_readExact h 4)
    intro tmp _ _ hu
    dsimp only
    split
    · exact mirrors_throw (by decide) hu
    split
    · exact mirrors_handle_fieldSet hu name (.bytes [])
    · apply mirrors_bind (mirrors_handle_kMalloc hu)
      intro _ _ _ hv
      exact mirrors_bind (mirrors_readExact hv _) fun buf _ _ hx => mirrors_handle_fieldSet hx name (.bytes buf)
  · exact mirrors_throw (by decide) h

theorem mirrors_parseField {r r' : Reader} (h : w.Beside r r') :
    Mirrors w.Torn w.Beside Told (parseField cfg w.path) r (parseField cfg w.path') r' := by
  apply mirrors_bind (mirrors_readExact h _)
  intro hdr _ _ hu
  dsimp only
  split
  · exact mirrors_throw (by decide) hu
  · apply mirrors_bind (mirrors_handle_kMalloc hu)
    intro _ _ _ hv
    exact mirrors_bind (mirrors_readExact hv _) fun name _ _ hx => mirrors_parseValue hx _ _

theorem mirrors_parseFields {r r' : Reader} (h : w.Beside r r') (n : Nat) :
    Mirrors w.Torn w.Beside Told (parseFields cfg w.path n) r (parseFields cfg w.path' n) r' := by
  induction n generalizing r r' with
  | zero => exact mirrors_pure _ h
  | succ n ih => exact mirrors_bind (mirrors_parseField h) fun _ _ _ hu => ih hu

theorem mirrors_parseContents {r r' : Reader} (h : w.Beside r r') :
    Mirrors w.Torn w.Beside Told (parseContents cfg w.path) r (parseContents cfg w.path') r' := by
  apply mirrors_bind (mirrors_readExact h _)
  intro hdr u v hu
  dsimp only
  split
  · exact mirrors_throw (by decide) hu
  split
  · exact mirrors_throw (by decide) hu
  apply mirrors_bind (mirrors_modify ⟨hu.pos, rfl, hu.inside, hu.st⟩)
  intro _ u v hv
  apply mirrors_get_bind
  rw [hv.st.maxFields]
  split
  · exact mirrors_throw (by decide) hv
  apply mirrors_bind (mirrors_parseFields hv _)
  intro _ _ _ hx
  apply mirrors_get_bind
  rw [hx.crc]
  split
  · exact mirrors_throw (by decide) hx
  · exact mirrors_pure _ hx

end Reading

end Pair

/-- What a document file stores of a document. -/
structure Snapshot where
  fields : List Field
  createdMs : UInt64
  updatedMs : UInt64
  deriving DecidableEq

def Document.snapshot (doc : Document) : Snapshot := ⟨doc.fields, doc.createdMs, doc.updatedMs⟩

/-- A system that holds these files, where every call succeeds. -/
def quiet (F : Files) : DocSys := ⟨F, fun _ => .none, 0, false, [], 0⟩

theorem quiet_clean (F : Files) : (quiet F).Clean := fun _ => rfl

def anyHandle (cfg : DocCfg) (e : DocSys) : DocSt := ⟨⟨⟨[], by simp⟩, ⟨[], by simp⟩, [], cfg.maxFieldCount, 0, 0, true⟩, e⟩

def decode (cfg : DocCfg) (text : Bytes) : Except Status Snapshot :=
  match (parseContents cfg []).run ⟨0, none, anyHandle cfg (quiet (AList.insert [] text ∅))⟩ with
  | .ok (createdMs, updatedMs) r => .ok ⟨r.st.doc.fields, createdMs, updatedMs⟩
  | .error status _ => .error status

theorem contents_holding (text : Bytes) : (quiet (AList.insert [] text ∅)).contents [] = text := by
  simp only [Env.contents, quiet, AList.lookup_insert, Option.getD_some]

structure Ready (cfg : DocCfg) (st : DocSt) : Prop where
  clean : st.env.Clean
  fields : st.doc.fields = []
  maxFields : st.doc.maxFields = cfg.maxFieldCount
  valid : st.doc.valid = true

section Decode
variable {cfg : DocCfg} {path : Path} {st : DocSt} {text : Bytes}

theorem parseContents_decode (h : Ready cfg st) (hfile : st.env.contents path = text) :
    match decode cfg text with
    | .ok snap => ∃ r, (parseContents cfg path).run ⟨0, none, st⟩ = .ok (snap.createdMs, snap.updatedMs) r ∧
        Moved st r.st ∧ r.st.doc.fields = snap.fields
    | .error status => Told status ∧ ∃ r, (parseContents cfg path).run ⟨0, none, st⟩ = .error status r ∧
        Moved st r.st := by
  let w : Pair := {
    path := [], path' := path, text := text, rest := []
    start := anyHandle cfg (quiet (AList.insert [] text ∅)), start' := st
    clean := quiet_clean _, clean' := h.clean
    holds := contents_holding text, holds' := by rw [hfile, List.append_nil]
    valid := h.valid, maxFields := h.maxFields }
  have hbeside : w.Beside ⟨0, none, w.start⟩ ⟨0, none, w.start'⟩ :=
    ⟨rfl, rfl, Nat.zero_le _, Moved.refl _, Moved.refl _, h.fields⟩
  rcases @Pair.mirrors_parseContents w cfg _ _ hbeside with ⟨ho, he, hp⟩ | ⟨ht, -⟩
  · unfold decode
    cases hrun : (parseContents cfg []).run ⟨0, none, anyHandle cfg (quiet (AList.insert [] text ∅))⟩ with
    | ok times r =>
      rw [outcome_of_run hrun] at ho
      rw [post_of_run hrun] at hp
      exact ⟨_, run_of_outcome ho.symm, hp.st.right, hp.st.fields⟩
    | error status r =>
      have hfail : outcome (parseContents cfg w.path) ⟨0, none, w.start⟩ = .error status := by
        unfold outcome
        rw [hrun]
      rw [hfail] at ho
      exact ⟨he status hfail, _, run_of_outcome_error ho.symm, hp.st.right⟩
  · exact absurd rfl ht

theorem decode_docBytes {doc : Document} (ht : Tidy cfg doc) : decode cfg (docBytes doc) = .ok doc.snapshot := by
  have hx : Extends cfg (anyHandle cfg (quiet (AList.insert [] (docBytes doc) ∅))).doc doc.fields :=
    ht.extends rfl rfl rfl
  obtain ⟨r, now, hrun, -, -, hdoc⟩ :=
    parseContents_whole ht (quiet_clean _) (contents_holding (docBytes doc)) hx rfl rfl
  unfold decode
  rw [hrun]
  show Except.ok (Snapshot.mk r.st.doc.fields _ _) = _
  rw [hdoc]
  rfl

end Decode

/-- What reading a path comes to. -/
def stored (cfg : DocCfg) (file : Option Bytes) : Except Status Snapshot :=
  match file with
  | some text => decode cfg text
  | none => .error .ERR_NOT_FOUND

/-- What an open finds: the live file, or else a complete staged one. -/
def found (cfg : DocCfg) (look : Path → Option Bytes) (collectionName documentId : CString) : Except Status Snapshot :=
  match buildDocPath cfg collectionName documentId DOC_FILE_EXT with
  | .error err => .error (statusFromErrno err)
  | .ok path =>
    match look path with
    | some text => decode cfg text
    | none =>
      match buildDocPath cfg collectionName documentId DOC_TMP_EXT with
      | .error _ => .error .ERR_NOT_FOUND
      | .ok tmpPath => (stored cfg (look tmpPath)).mapError fun _ => .ERR_NOT_FOUND

def Snapshot.document (cfg : DocCfg) (collectionName documentId : CString) (snap : Snapshot) : Document :=
  ⟨collectionName, documentId, snap.fields, cfg.maxFieldCount, snap.createdMs, snap.updatedMs, true⟩

section Open
variable {cfg : DocCfg} {path : Path} {st : DocSt}

theorem fsOpen_clean {e : DocSys} (hc : e.Clean) (path : Path) :
    (fsOpen path false false).run e = if e.look path = none then .error .ENOENT e.next else .ok () e.next := by
  have hcall : (call (κ := UInt64)).run e = .ok () e.next := by
    show call e = _
    simp [call, Env.fault, hc e.tick]
  have hl : e.files.lookup path = e.look path := rfl
  cases h : e.look path <;> simp [fsOpen, hcall, hl, h]

theorem run_close {e : DocSys} (doc : Document) (hc : e.Clean) :
    (attempt (onEnv call) : DocM (Except Errno Unit)).run ⟨doc, e⟩ = .ok (.ok ()) ⟨doc, e.next⟩ := by
  apply run_attempt_ok
  apply run_onEnv
  show call e = _
  simp [call, Env.fault, hc e.tick]

theorem parseFile_stored (h : Ready cfg st) :
    match stored cfg (st.env.look path) with
    | .ok snap => ∃ t, (parseFile cfg path).run st = .ok () t ∧ Ticks st.env t.env ∧ t.doc =
        { st.doc with fields := snap.fields, createdMs := snap.createdMs, updatedMs := snap.updatedMs }
    | .error status => ∃ t, (parseFile cfg path).run st = .error status t ∧ Moved st t := by
  cases hlook : st.env.look path with
  | none =>
    refine ⟨⟨st.doc, st.env.next⟩, ?_, ticks_next _, rfl⟩
    have hopen : (fsOpen path false false).run st.env = .error .ENOENT st.env.next := by
      rw [fsOpen_clean h.clean, if_pos hlook]
    exact run_fails (run_zoom_error (run_adapt_error (f := statusFromErrno) hopen))
  | some text =>
    have hopen : (onEnv (toStatus (fsOpen path false false))).run st = .ok () ⟨st.doc, st.env.next⟩ := by
      apply run_onEnv
      apply run_adapt
      rw [fsOpen_clean h.clean, if_neg (by simp [hlook])]
    have hready : Ready cfg ⟨st.doc, st.env.next⟩ := ⟨h.clean, h.fields, h.maxFields, h.valid⟩
    have hfile : st.env.next.contents path = text := by rw [Env.next_contents, Env.contents_eq, hlook]; rfl
    have hread := parseContents_decode hready hfile
    unfold stored
    dsimp only
    cases hdec : decode cfg text with
    | ok snap =>
      rw [hdec] at hread
      obtain ⟨r, hrun, hmoved, hfields⟩ := hread
      have hrun' : (withReader (parseContents cfg path)).run ⟨st.doc, st.env.next⟩ =
          .ok (snap.createdMs, snap.updatedMs) r.st := run_withReader hrun
      refine ⟨⟨{ r.st.doc with createdMs := snap.createdMs, updatedMs := snap.updatedMs }, r.st.env.next⟩, ?_,
        ((ticks_next _).trans hmoved.env).trans (ticks_next _), ?_⟩
      · apply run_then hopen
        apply run_then (run_attempt_ok hrun')
        apply run_then (run_close _ (hmoved.env.clean h.clean))
        rfl
      · rw [hmoved.doc, hfields]
    | error status =>
      rw [hdec] at hread
      obtain ⟨-, r, hrun, hmoved⟩ := hread
      have hrun' : (withReader (parseContents cfg path)).run ⟨st.doc, st.env.next⟩ = .error status r.st :=
        run_withReader_error hrun
      refine ⟨⟨r.st.doc, r.st.env.next⟩, ?_, ((ticks_next _).trans hmoved.env).trans (ticks_next _), hmoved.doc⟩
      exact run_then hopen (run_then (run_attempt_error hrun') (run_then (run_close _ (hmoved.env.clean h.clean)) rfl))

theorem Ticks.look {e e' : DocSys} (h : Ticks e e') : e'.look = e.look := by
  unfold Env.look
  rw [h.files]

theorem fsMove_free {e : DocSys} (hc : e.Clean) (replaces : Bool) {old new : Path} {text : Bytes}
    (hold : e.look old = some text) (hnew : e.look new = none) :
    ∃ e', (fsMove replaces old new).run e = .ok () e' ∧
      Leads e (Function.update (Function.update e.look old none) new (some text)) e' := by
  obtain ⟨e', hrun, hleads⟩ := @fsRename_existing _ e hc old new text hold
  refine ⟨e', ?_, hleads⟩
  have hfree : ¬ (!replaces && (e.files.lookup new).isSome) = true := by
    rw [Env.lookup_eq, hnew]
    simp
  refine run_then (s := e) (a := e) (t := e) rfl ?_
  rw [if_neg hfree]
  exact hrun

/-- The file of a document with this suffix. -/
def fileAt (cfg : DocCfg) (look : Path → Option Bytes) (collectionName documentId : CString) (ext : Bytes) :
    Option Bytes :=
  match buildDocPath cfg collectionName documentId ext with
  | .ok path => look path
  | .error _ => none

theorem run_get_handle (s : DocSt) : (get : DocM DocSt).run s = .ok s s := rfl

theorem run_path {err : Errno} {built : Except Errno Path} (h : built = .error err) (s : DocSt) :
    (toStatus (rethrow built) : DocM Path).run s = .error (statusFromErrno err) s := by
  subst h
  rfl

theorem run_path_ok {built : Except Errno Path} {path : Path} (h : built = .ok path) (s : DocSt) :
    (toStatus (rethrow built) : DocM Path).run s = .ok path s := by
  subst h
  rfl

def openStaged (cfg : DocCfg) (path : Path) (built : Except Errno Path) : DocM Unit :=
  match built with
  | .error _ => throw .ERR_NOT_FOUND
  | .ok tmpPath => do
    fieldsReset
    match ← attempt (parseFile cfg tmpPath) with
    | .ok () => orFail Status.ERR_IO (onEnv (fsMove cfg.renameReplaces tmpPath path))
    | .error _ =>
      fieldsReset
      throw .ERR_NOT_FOUND

theorem openCreated_found (h : Ready cfg st) :
    match found cfg st.env.look st.doc.collectionName st.doc.documentId with
    | .ok snap => ∃ t, (openCreated cfg).run st = .ok () t ∧
        t.doc = { st.doc with fields := snap.fields, createdMs := snap.createdMs, updatedMs := snap.updatedMs } ∧
        t.env.Clean ∧
        (fileAt cfg st.env.look st.doc.collectionName st.doc.documentId DOC_FILE_EXT ≠ none → Ticks st.env t.env)
    | .error status => ∃ t, (openCreated cfg).run st = .error status t ∧ Ticks st.env t.env := by
  unfold found fileAt
  cases hpath : buildDocPath cfg st.doc.collectionName st.doc.documentId DOC_FILE_EXT with
  | error err => exact ⟨st, run_then (run_get_handle st) (run_fails (run_path hpath st)), Ticks.refl _⟩
  | ok path =>
    have hlive := @parseFile_stored cfg path st h
    dsimp only
    cases hlook : st.env.look path with
    | some text =>
      rw [hlook] at hlive
      simp only [stored] at hlive ⊢
      cases hdec : decode cfg text with
      | ok snap =>
        simp only [hdec] at hlive
        obtain ⟨t, hrun, hticks, hdoc⟩ := hlive
        refine ⟨t, ?_, hdoc, hticks.clean h.clean, fun _ => hticks⟩
        apply run_then (run_get_handle st)
        apply run_then (run_path_ok hpath st)
        exact run_then (run_attempt_ok hrun) rfl
      | error status =>
        simp only [hdec] at hlive
        obtain ⟨t, hrun, hmoved⟩ := hlive
        refine ⟨t, ?_, hmoved.env⟩
        apply run_then (run_get_handle st)
        apply run_then (run_path_ok hpath st)
        apply run_then (run_attempt_error hrun)
        have htold : status ≠ .ERR_NOT_FOUND := by
          have hfile : st.env.contents path = text := by rw [Env.contents_eq, hlook]; rfl
          have := parseContents_decode h hfile
          rw [hdec] at this
          exact this.1
        cases status <;> first | rfl | exact absurd rfl htold
    | none =>
      rw [hlook] at hlive
      obtain ⟨t, hrun, hmoved⟩ := hlive
      have hstart : ∀ {r}, (openStaged cfg path
          (buildDocPath cfg st.doc.collectionName st.doc.documentId DOC_TMP_EXT)).run t = r →
          (openCreated cfg).run st = r := fun hr =>
        run_then (run_get_handle st) (run_then (run_path_ok hpath st) (run_then (run_attempt_error hrun) hr))
      cases htmp : buildDocPath cfg st.doc.collectionName st.doc.documentId DOC_TMP_EXT with
      | error err =>
        simp only [htmp] at hstart
        exact ⟨t, hstart rfl, hmoved.env⟩
      | ok tmpPath =>
        simp only [htmp] at hstart
        have hready : Ready cfg ⟨{ t.doc with fields := [] }, t.env⟩ := by
          refine ⟨hmoved.env.clean h.clean, rfl, ?_, ?_⟩
          · show t.doc.maxFields = _
            rw [hmoved.doc, h.maxFields]
          · show t.doc.valid = _
            rw [hmoved.doc, h.valid]
        have hstaged := @parseFile_stored cfg tmpPath _ hready
        dsimp only at hstaged ⊢
        rw [hmoved.env.look] at hstaged
        cases hst : stored cfg (st.env.look tmpPath) with
        | error status =>
          simp only [hst] at hstaged
          obtain ⟨u, hrun', hmoved'⟩ := hstaged
          refine ⟨⟨{ u.doc with fields := [] }, u.env⟩, hstart ?_, hmoved.env.trans hmoved'.env⟩
          exact run_then (run_updDoc _ t) (run_then (run_attempt_error hrun') (run_then (run_updDoc _ u) rfl))
        | ok snap =>
          simp only [hst] at hstaged
          obtain ⟨u, hrun', hticks, hdoc⟩ := hstaged
          have hu : Ticks st.env u.env := hmoved.env.trans hticks
          obtain ⟨text, htext⟩ : ∃ text, st.env.look tmpPath = some text := by
            cases hl : st.env.look tmpPath with
            | some text => exact ⟨text, rfl⟩
            | none => rw [hl] at hst; cases hst
          obtain ⟨e', hmove, hleads⟩ := fsMove_free (hu.clean h.clean) cfg.renameReplaces
            (by rw [hu.look, htext]) (by rw [hu.look, hlook])
          refine ⟨⟨u.doc, e'⟩, hstart ?_, ?_, hleads.clean (hu.clean h.clean), fun hne => absurd rfl hne⟩
          · apply run_then (run_updDoc _ t)
            apply run_then (run_attempt_ok hrun')
            exact run_adapt (run_onEnv hmove)
          · rw [hdoc, hmoved.doc]

theorem docCreate_fresh {e e' : DocSys} {doc : Document} {collectionName documentId : CString} (hc : e.Clean)
    (h : (docCreate cfg collectionName documentId).run e = .ok doc e') : Ready cfg ⟨doc, e'⟩ := by
  obtain ⟨htidy, -, -, hfields, hticks⟩ := docCreate_ok h
  exact ⟨hticks.clean hc, hfields, htidy.maxFields, htidy.valid⟩

theorem run_withHandle {doc : Document} {m : DocM Unit} {e : DocSys} {t : DocSt} (h : m.run ⟨doc, e⟩ = .ok () t) :
    (withHandle doc m).run e = .ok t.doc t.env := by
  show withHandle doc m e = _
  unfold withHandle
  rw [h]

theorem run_withHandle_error {doc : Document} {m : DocM Unit} {e : DocSys} {t : DocSt} {status : Status}
    (h : m.run ⟨doc, e⟩ = .error status t) : (withHandle doc m).run e = .error status t.env := by
  show withHandle doc m e = _
  unfold withHandle
  rw [h]

/-- `zdb_doc_open` when no call fails. -/
theorem docOpen_found {e : DocSys} (hc : e.Clean) {collectionName documentId : CString}
    (hkeys : keysValid cfg collectionName documentId = true) :
    match found cfg e.look collectionName documentId with
    | .ok snap => ∃ e', (docOpen cfg collectionName documentId).run e =
          .ok (snap.document cfg collectionName documentId) e' ∧ e'.Clean ∧
        (fileAt cfg e.look collectionName documentId DOC_FILE_EXT ≠ none → Ticks e e')
    | .error status => ∃ e', (docOpen cfg collectionName documentId).run e = .error status e' ∧ Ticks e e' := by
  obtain ⟨doc, e₁, hcreate⟩ := docCreate_run hc hkeys
  obtain ⟨htidy, rfl, rfl, hfields, hticks⟩ := docCreate_ok hcreate
  have hopen := openCreated_found (docCreate_fresh hc hcreate)
  dsimp only at hopen
  rw [hticks.look] at hopen
  cases hfound : found cfg e.look doc.collectionName doc.documentId with
  | ok snap =>
    simp only [hfound] at hopen
    obtain ⟨t, hrun, hdoc, hclean, hlive⟩ := hopen
    refine ⟨t.env, run_then hcreate ?_, hclean, fun hne => hticks.trans (hlive hne)⟩
    rw [run_withHandle hrun, hdoc]
    obtain ⟨c, i, fields, maxFields, createdMs, updatedMs, valid⟩ := doc
    cases htidy.valid
    cases htidy.maxFields
    rfl
  | error status =>
    simp only [hfound] at hopen
    obtain ⟨t, hrun, hticks'⟩ := hopen
    exact ⟨t.env, run_then hcreate (run_withHandle_error hrun), hticks.trans hticks'⟩

theorem docOpen_refused {e : DocSys} {collectionName documentId : CString}
    (hkeys : keysValid cfg collectionName documentId = false) :
    (docOpen cfg collectionName documentId).run e = .error .ERR_INVAL e := by
  apply run_fails
  unfold docCreate
  rw [if_pos (by simp [hkeys])]
  rfl

/-- What `zdb_doc_open` returns on a system that holds these files, when no call fails. -/
def opened (cfg : DocCfg) (F : Files) (collectionName documentId : CString) : Except Status Document :=
  outcome (docOpen cfg collectionName documentId) (quiet F)

theorem docOpen_outcome {e : DocSys} (hc : e.Clean) (collectionName documentId : CString) :
    outcome (docOpen cfg collectionName documentId) e =
      if keysValid cfg collectionName documentId then
        (found cfg e.look collectionName documentId).map (Snapshot.document cfg collectionName documentId)
      else .error .ERR_INVAL := by
  split
  · rename_i hkeys
    have h := docOpen_found hc hkeys
    cases hfound : found cfg e.look collectionName documentId with
    | ok snap =>
      simp only [hfound] at h
      obtain ⟨e', hrun, -⟩ := h
      exact outcome_of_run hrun
    | error status =>
      simp only [hfound] at h
      obtain ⟨e', hrun, -⟩ := h
      unfold outcome
      rw [hrun]
      rfl
  · rename_i hkeys
    unfold outcome
    rw [docOpen_refused (by simpa using hkeys)]

theorem opened_eq (F : Files) (collectionName documentId : CString) :
    opened cfg F collectionName documentId =
      if keysValid cfg collectionName documentId then
        (found cfg F.look collectionName documentId).map (Snapshot.document cfg collectionName documentId)
      else .error .ERR_INVAL :=
  docOpen_outcome (quiet_clean F) collectionName documentId

end Open

end ZephyrDB.Doc
