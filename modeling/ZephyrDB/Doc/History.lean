import ZephyrDB.Lib.Echo
import ZephyrDB.Doc.Lasting
import ZephyrDB.Doc.QuerySpec

/-!
Histories of the store, with any calls failing and the power going anywhere:
what an open hands out is a document that was saved, and no file of a document
is ever found damaged.

A read that succeeds has seen the file as it is, whatever else failed.
-/

set_option autoImplicit false

namespace ZephyrDB.Doc

open Lib

variable {cfg : DocCfg}

/-- The same system, where no call fails. -/
def calm (e : DocSys) : DocSys := { e with faults := fun _ => .none }

def DocSt.calm (s : DocSt) : DocSt := ⟨s.doc, Doc.calm s.env⟩

def Reader.calm (r : Reader) : Reader := ⟨r.pos, r.crc, r.st.calm⟩

theorem calm_clean (e : DocSys) : (calm e).Clean := fun _ => rfl

theorem of_run_call {e e' : DocSys} (h : (call (κ := UInt64)).run e = .ok () e') : e' = e.next := by
  change call e = _ at h
  unfold call at h
  split at h
  · cases h
  · cases h
    rfl

theorem run_call_calm (e : DocSys) : (call (κ := UInt64)).run (calm e) = .ok () (calm e.next) := rfl

theorem echoes_call (e : DocSys) : Echoes calm (call (κ := UInt64)) call e := by
  intro a e' h
  cases a
  rw [of_run_call h]
  exact run_call_calm e

theorem echoes_onEnv {ε α : Type} {m : EStateM ε DocSys α} {s : DocSt} (h : Echoes calm m m s.env) :
    Echoes DocSt.calm (onEnv m) (onEnv m) s := echoes_zoom rfl (fun _ => rfl) h

theorem echoes_kMalloc (s : DocSt) : Echoes DocSt.calm (onEnv kMalloc : DocM Unit) (onEnv kMalloc) s :=
  echoes_onEnv (echoes_adaptExcept (echoes_call s.env))

theorem echoes_findOrCreate (name : CString) (blank : Value) (s : DocSt) :
    Echoes DocSt.calm (findOrCreate cfg name blank) (findOrCreate cfg name blank) s := by
  unfold findOrCreate
  apply echoes_get_bind
  dsimp only [DocSt.calm]
  split
  · exact echoes_throw _ _
  split
  · exact echoes_throw _ _
  split
  · split
    · exact echoes_bind (echoes_modify rfl) fun _ _ _ => echoes_pure _
    · exact echoes_pure _
  · split
    · exact echoes_throw _ _
    · apply echoes_bind (echoes_kMalloc s)
      intro _ t _
      exact echoes_bind (echoes_modify rfl) fun _ _ _ => echoes_pure _

theorem echoes_putValue (i : Nat) (value : Value) (s : DocSt) :
    Echoes DocSt.calm (putValue i value) (putValue i value) s := echoes_modify rfl

theorem echoes_fieldSet (name : CString) (value : Value) (s : DocSt) :
    Echoes DocSt.calm (fieldSet cfg name value) (fieldSet cfg name value) s := by
  have hscalar : ∀ value : Value, Echoes DocSt.calm (fieldSetScalar cfg name value) (fieldSetScalar cfg name value) s :=
    fun value => echoes_bind (echoes_findOrCreate name _ s) fun i t _ => echoes_putValue i value t
  cases value with
  | int64 v => exact hscalar _
  | double bits => exact hscalar _
  | bool b => exact hscalar _
  | string str =>
    cases str with
    | none => exact echoes_throw _ _
    | some str =>
      simp only [fieldSet, fieldSetString]
      split
      · exact echoes_throw _ _
      · apply echoes_bind (echoes_findOrCreate name _ s)
        intro i t _
        exact echoes_bind (echoes_kMalloc t) fun _ u _ => echoes_putValue i _ u
  | bytes data =>
    simp only [fieldSet, fieldSetBytes]
    split
    · exact echoes_throw _ _
    · apply echoes_bind (echoes_findOrCreate name _ s)
      intro i t _
      refine echoes_bind ?_ fun _ u _ => echoes_putValue i _ u
      unfold allocCopy
      split
      · exact echoes_pure _
      · exact echoes_kMalloc t

theorem echoes_onHandle {α : Type} {m : DocM α} {r : Reader} (h : Echoes DocSt.calm m m r.st) :
    Echoes Reader.calm (onHandle m) (onHandle m) r := echoes_zoom rfl (fun _ => rfl) h

theorem fsRead_full {e e' : DocSys} {path : Path} {pos len : Nat} {bs : Bytes}
    (h : (fsRead path pos len).run e = .ok bs e') (hlen : bs.length = len) :
    bs = slice (e.contents path) pos len ∧ e' = e.next := by
  change fsRead path pos len e = _ at h
  unfold fsRead at h
  split at h
  · cases h
    exact ⟨rfl, rfl⟩
  · rename_i n _
    cases h
    refine ⟨?_, rfl⟩
    rw [slice_length] at hlen
    unfold slice
    rcases Nat.le_total len n with hn | hn
    · rw [Nat.min_eq_right hn]
    · rw [Nat.min_eq_left hn] at hlen ⊢
      have : len = n ∨ len ≤ (e.contents path).length - pos ∧ n = len := by omega
      rcases this with rfl | ⟨-, rfl⟩ <;> rfl
  · cases h

theorem echoes_readExact (path : Path) (len : Nat) (r : Reader) :
    Echoes Reader.calm (readExact path len) (readExact path len) r := by
  intro bs r' hrun
  unfold readExact at hrun
  obtain ⟨_, _, hget, hrun⟩ := of_run_bind hrun
  cases hget
  obtain ⟨got, r₁, hread, hrun⟩ := of_run_bind hrun
  split at hrun
  · cases hrun
  rename_i hlen
  have hlen : got.length = len := not_not.mp hlen
  obtain ⟨_, r₂, hmod, hrun⟩ := of_run_bind hrun
  cases hmod
  cases hrun
  obtain ⟨s, hs, rfl⟩ := of_run_zoom hread
  obtain ⟨e, he, rfl⟩ := of_run_onEnv hs
  obtain ⟨rfl, rfl⟩ := fsRead_full (of_run_adapt he) hlen
  have hsame : (slice (r.calm.st.env.contents path) r.calm.pos len).length = len := hlen
  rw [readExact_clean (calm_clean r.st.env) len, if_pos hsame, Reader.past, hsame]
  rfl

theorem echoes_parseValue (path : Path) (name : CString) (type : Nat) (r : Reader) :
    Echoes Reader.calm (parseValue cfg path name type) (parseValue cfg path name type) r := by
  have hset : ∀ (r : Reader) (len : Nat) (value : Bytes → Value), Echoes Reader.calm
      (readExact path len >>= fun tmp => onHandle (fieldSet cfg name (value tmp)))
      (readExact path len >>= fun tmp => onHandle (fieldSet cfg name (value tmp))) r := fun r len value =>
    echoes_bind (echoes_readExact path len r) fun tmp t _ => echoes_onHandle (echoes_fieldSet name (value tmp) t.st)
  unfold parseValue
  split
  · exact hset r 8 fun tmp => .int64 (UInt64.ofNat (leNat tmp)).toInt64
  split
  · exact hset r 8 fun tmp => .double (UInt64.ofNat (leNat tmp))
  split
  · exact hset r 1 fun tmp => .bool (leNat tmp != 0)
  split
  · apply echoes_bind (echoes_readExact path 4 r)
    intro tmp t _
    dsimp only
    split
    · exact echoes_throw _ _
    · exact echoes_bind (echoes_onHandle (echoes_kMalloc t.st)) fun _ u _ =>
        hset u _ fun str => .string (some (CString.ofBytes str))
  split
  · apply echoes_bind (echoes_readExact path 4 r)
    intro tmp t _
    dsimp only
    split
    · exact echoes_throw _ _
    split
    · exact echoes_onHandle (echoes_fieldSet name (.bytes []) t.st)
    · exact echoes_bind (echoes_onHandle (echoes_kMalloc t.st)) fun _ u _ => hset u _ Value.bytes
  · exact echoes_throw _ _

theorem echoes_parseFields (path : Path) (n : Nat) (r : Reader) :
    Echoes Reader.calm (parseFields cfg path n) (parseFields cfg path n) r := by
  induction n generalizing r with
  | zero => exact echoes_pure _
  | succ n ih =>
    refine echoes_bind ?_ fun _ t _ => ih t
    apply echoes_bind (echoes_readExact path _ r)
    intro hdr t _
    dsimp only
    split
    · exact echoes_throw _ _
    · apply echoes_bind (echoes_onHandle (echoes_kMalloc t.st))
      intro _ u _
      exact echoes_bind (echoes_readExact path _ u) fun name v _ => echoes_parseValue path _ _ v

theorem echoes_parseContents (path : Path) (r : Reader) :
    Echoes Reader.calm (parseContents cfg path) (parseContents cfg path) r := by
  apply echoes_bind (echoes_readExact path _ r)
  intro hdr t _
  dsimp only
  split
  · exact echoes_throw _ _
  split
  · exact echoes_throw _ _
  refine echoes_bind (echoes_modify rfl) fun _ u _ => echoes_get_bind ?_
  dsimp only [Reader.calm, DocSt.calm]
  split
  · exact echoes_throw _ _
  apply echoes_bind (echoes_parseFields path _ u)
  intro _ v _
  apply echoes_get_bind
  dsimp only [Reader.calm]
  split
  · exact echoes_throw _ _
  · exact echoes_pure _

theorem echoes_fsOpen (path : Path) (e : DocSys) : Echoes calm (fsOpen (κ := UInt64) path false false) (fsOpen path false false) e := by
  unfold fsOpen
  apply echoes_bind (echoes_call e)
  intro _ e' _
  apply echoes_get_bind
  dsimp only [calm]
  split
  · exact echoes_pure _
  · exact echoes_throw _ _

theorem echoes_withReader {α : Type} {m : ReadM α} {s : DocSt} (h : Echoes Reader.calm m m ⟨0, none, s⟩) :
    Echoes DocSt.calm (withReader m) (withReader m) s := by
  intro a t hrun
  cases hr : m.run ⟨0, none, s⟩ with
  | ok a' r =>
    rw [run_withReader hr] at hrun
    cases hrun
    exact run_withReader (h a r hr)
  | error status r =>
    rw [run_withReader_error hr] at hrun
    cases hrun

theorem echoes_parseFile (path : Path) (s : DocSt) :
    Echoes DocSt.calm (parseFile cfg path) (parseFile cfg path) s := by
  apply echoes_bind (echoes_onEnv (echoes_adaptExcept (echoes_fsOpen path s.env)))
  intro _ t _
  refine echoes_attempt (echoes_withReader (echoes_parseContents path _)) (fun times u _ => ?_) fun status t b u hrun => ?_
  · -- whether the file could be closed makes no difference
    have hpost : ∀ e : DocSys, post (call (κ := UInt64)) e = e.next := fun e => by
      unfold post call
      simp only [EStateM.run]
      split
      · rename_i heq
        split at heq <;> cases heq
        rfl
      · rename_i heq
        split at heq <;> cases heq
        rfl
    refine echoes_ignore ?_ ?_
    · unfold onEnv
      rw [post_zoom, post_zoom, hpost, hpost]
      rfl
    · exact echoes_bind (echoes_rethrow fun _ h => h) fun times v _ => echoes_modify rfl
  · obtain ⟨_, _, -, hrun⟩ := of_run_bind hrun
    obtain ⟨_, _, hret, -⟩ := of_run_bind hrun
    cases (run_rethrow.mp hret).1

theorem parseFile_ok {path : Path} {s t : DocSt} (h : (parseFile cfg path).run s = .ok () t) (hfields : s.doc.fields = [])
    (hmax : s.doc.maxFields = cfg.maxFieldCount) (hvalid : s.doc.valid = true) :
    ∃ snap, stored cfg (s.env.look path) = .ok snap ∧
      t.doc = { s.doc with fields := snap.fields, createdMs := snap.createdMs, updatedMs := snap.updatedMs } := by
  have hcalm := echoes_parseFile path s () t h
  have hstored := @parseFile_stored cfg path s.calm ⟨calm_clean _, hfields, hmax, hvalid⟩
  rw [show s.calm.env.look path = s.env.look path from rfl] at hstored
  cases hfile : stored cfg (s.env.look path) with
  | ok snap =>
    rw [hfile] at hstored
    obtain ⟨t', hrun, -, hdoc⟩ := hstored
    rw [hcalm] at hrun
    cases hrun
    exact ⟨snap, rfl, hdoc⟩
  | error status =>
    rw [hfile] at hstored
    obtain ⟨t', hrun, -⟩ := hstored
    rw [hcalm] at hrun
    cases hrun

section Opens
variable {collectionName documentId : CString}

structure Started (cfg : DocCfg) (collectionName documentId : CString) (doc : Document) : Prop where
  collection_eq : doc.collectionName = collectionName
  document_eq : doc.documentId = documentId
  maxFields : doc.maxFields = cfg.maxFieldCount
  valid : doc.valid = true

theorem lasting_started : Lasting cfg (Started cfg collectionName documentId) where
  place := fun h _ => ⟨h.collection_eq, h.document_eq, h.maxFields, h.valid⟩
  put := fun h _ => ⟨h.collection_eq, h.document_eq, h.maxFields, h.valid⟩
  reset := fun h => ⟨h.collection_eq, h.document_eq, h.maxFields, h.valid⟩
  times := fun _ _ h => ⟨h.collection_eq, h.document_eq, h.maxFields, h.valid⟩

theorem Started.document {doc : Document} (h : Started cfg collectionName documentId doc) (snap : Snapshot) :
    { doc with fields := snap.fields, createdMs := snap.createdMs, updatedMs := snap.updatedMs } =
      snap.document cfg collectionName documentId := by
  obtain ⟨c, i, fields, maxFields, createdMs, updatedMs, valid⟩ := doc
  cases h.collection_eq
  cases h.document_eq
  cases h.maxFields
  cases h.valid
  rfl

theorem parseFile_look (path : Path) (s : DocSt) : (post (parseFile cfg path) s).env.look = s.env.look := by
  have h : Within (fun _ => False) s.env (post (parseFile cfg path) s).env := keeps_parseFile path s
  exact (leads_of_within h).look

theorem parseFile_yields {path : Path} {s : DocSt} (hs : Started cfg collectionName documentId s.doc) (hfields : s.doc.fields = []) :
    Yields (parseFile cfg path) s
      (fun _ t => t.env.look = s.env.look ∧ ∃ snap, stored cfg (s.env.look path) = .ok snap ∧
        t.doc = snap.document cfg collectionName documentId)
      fun _ t => t.env.look = s.env.look ∧ Started cfg collectionName documentId t.doc := by
  have hlook := @parseFile_look cfg path s
  have hlasts : Started cfg collectionName documentId (post (parseFile cfg path) s).doc :=
    lasts_parseFile lasting_started path s hs
  cases hrun : (parseFile cfg path).run s with
  | ok _ t =>
    rw [post_of_run hrun] at hlook
    obtain ⟨snap, hstored, hdoc⟩ := parseFile_ok hrun hfields hs.maxFields hs.valid
    exact yields_of_run hrun ⟨hlook, snap, hstored, hdoc.trans (hs.document snap)⟩
  | error status t =>
    rw [post_of_error hrun] at hlook hlasts
    exact yields_of_error hrun ⟨hlook, hlasts⟩

def TakesUp (cfg : DocCfg) (collectionName documentId : CString) (look look' : Path → Option Bytes) : Prop :=
  look' = look ∨ ∃ path tmpPath text snap, Paths cfg collectionName documentId path tmpPath ∧ look tmpPath = some text ∧
    decode cfg text = .ok snap ∧ look' = Function.update (Function.update look tmpPath none) path (some text)

def ReadFrom (cfg : DocCfg) (look : Path → Option Bytes) (doc : Document) : Prop :=
  ∃ ext snap, IsExt ext ∧ stored cfg (fileAt cfg look doc.collectionName doc.documentId ext) = .ok snap ∧
    doc = snap.document cfg doc.collectionName doc.documentId

theorem readFrom_stored {look : Path → Option Bytes} {ext : Bytes} {path : Path} {snap : Snapshot} {doc : Document}
    (hext : IsExt ext) (hpath : buildDocPath cfg collectionName documentId ext = .ok path)
    (hstored : stored cfg (look path) = .ok snap) (hdoc : doc = snap.document cfg collectionName documentId) :
    ReadFrom cfg look doc ∧ doc.collectionName = collectionName ∧ doc.documentId = documentId := by
  subst hdoc
  refine ⟨⟨ext, snap, hext, ?_, rfl⟩, rfl, rfl⟩
  change stored cfg (fileAt cfg look collectionName documentId ext) = .ok snap
  rw [fileAt_eq hpath]
  exact hstored

theorem takesUp_fsMove {path tmpPath : Path} {snap : Snapshot} {e : DocSys} (hpaths : Paths cfg collectionName documentId path tmpPath)
    (hstored : stored cfg (e.look tmpPath) = .ok snap) :
    TakesUp cfg collectionName documentId e.look (post (fsMove cfg.renameReplaces tmpPath path) e).look := by
  let Q (e' : DocSys) : Prop := TakesUp cfg collectionName documentId e.look e'.look
  refine Yields.post (Q := Q) ?_
  refine (fsMove_yields e cfg.renameReplaces tmpPath path).imp (fun _ e' h => ?_) fun _ e' h => .inl h.2.look
  obtain ⟨-, text, htext, hs⟩ := h
  rw [htext] at hstored
  exact .inr ⟨path, tmpPath, text, snap, hpaths, htext, hstored, hs.look⟩

theorem openCreated_yields {s : DocSt} (hs : Started cfg collectionName documentId s.doc) (hfields : s.doc.fields = []) :
    Yields (openCreated cfg) s
      (fun _ t => (ReadFrom cfg s.env.look t.doc ∧ t.doc.collectionName = collectionName ∧ t.doc.documentId = documentId) ∧
        TakesUp cfg collectionName documentId s.env.look t.env.look)
      fun _ t => TakesUp cfg collectionName documentId s.env.look t.env.look := by
  apply yields_get_bind
  dsimp only
  rw [hs.collection_eq, hs.document_eq]
  cases hpath : buildDocPath cfg collectionName documentId DOC_FILE_EXT with
  | error err => exact yields_fails (run_path rfl s) (.inl rfl)
  | ok path =>
    apply yields_then (run_path_ok rfl s)
    apply yields_bind (yields_attempt (parseFile_yields hs hfields))
    intro ret t ht
    cases ret with
    | ok _ =>
      obtain ⟨hlook, snap, hstored, hdoc⟩ := ht
      exact yields_pure ⟨readFrom_stored (.inl rfl) hpath hstored hdoc, .inl hlook⟩
    | error status =>
      obtain ⟨hlook, ht⟩ := ht
      by_cases hmiss : status = .ERR_NOT_FOUND
      swap
      · cases status <;> first | exact absurd rfl hmiss | exact yields_throw (.inl hlook)
      subst hmiss
      dsimp only
      cases htmp : buildDocPath cfg collectionName documentId DOC_TMP_EXT with
      | error err => exact yields_throw (.inl hlook)
      | ok tmpPath =>
        apply yields_then (run_updDoc _ t)
        have hreset : Started cfg collectionName documentId { t.doc with fields := [] } := lasting_started.reset ht
        apply yields_bind (yields_attempt (@parseFile_yields cfg collectionName documentId tmpPath _ hreset rfl))
        intro ret u hu
        cases ret with
        | error status =>
          apply yields_then (run_updDoc _ u)
          apply yields_throw
          exact .inl (hu.1.trans hlook)
        | ok _ =>
          obtain ⟨hlook', snap, hstored, hdoc⟩ := hu
          have hsame : u.env.look = s.env.look := hlook'.trans hlook
          have hread := readFrom_stored (.inr rfl) htmp (show stored cfg (s.env.look tmpPath) = .ok snap by
            rw [← hlook]; exact hstored) hdoc
          have hmove := @takesUp_fsMove cfg collectionName documentId path tmpPath snap u.env ⟨hpath, htmp⟩ (by
            rw [hlook']; exact hstored)
          rw [hsame] at hmove
          apply yields_adaptExcept _
          apply yields_zoom
          have hboth : Yields (fsMove cfg.renameReplaces tmpPath path) u.env
              (fun _ e => TakesUp cfg collectionName documentId s.env.look e.look)
              fun _ e => TakesUp cfg collectionName documentId s.env.look e.look := by
            unfold Yields
            unfold post at hmove
            split <;> simp_all
          exact hboth.imp (fun _ _ h => ⟨hread, h⟩) fun _ _ h => h

theorem docOpen_yields (collectionName documentId : CString) (e : DocSys) :
    Yields (docOpen cfg collectionName documentId) e
      (fun doc e' => (ReadFrom cfg e.look doc ∧ doc.collectionName = collectionName ∧ doc.documentId = documentId) ∧
        keysValid cfg collectionName documentId = true ∧ TakesUp cfg collectionName documentId e.look e'.look)
      fun _ e' => e'.look = e.look ∨
        keysValid cfg collectionName documentId = true ∧ TakesUp cfg collectionName documentId e.look e'.look := by
  have hlook : (post (docCreate cfg collectionName documentId) e).look = e.look := by
    have h : Within (fun _ => False) e (post (docCreate cfg collectionName documentId) e) :=
      keeps_docCreate collectionName documentId e
    exact (leads_of_within h).look
  unfold docOpen
  cases hcreate : (docCreate cfg collectionName documentId).run e with
  | error status e' =>
    rw [post_of_error hcreate] at hlook
    exact yields_fails hcreate (.inl hlook)
  | ok doc e' =>
    rw [post_of_run hcreate] at hlook
    obtain ⟨ht, hc, hi, hfields, -⟩ := docCreate_ok hcreate
    have hkeys : keysValid cfg collectionName documentId = true := by
      rw [← hc, ← hi]
      exact ht.keys
    apply yields_then hcreate
    have hopen := @openCreated_yields cfg collectionName documentId ⟨doc, e'⟩ ⟨hc, hi, ht.maxFields, ht.valid⟩ hfields
    dsimp only at hopen
    rw [hlook] at hopen
    cases hrun : (openCreated cfg).run ⟨doc, e'⟩ with
    | ok _ t =>
      obtain ⟨hread, htakes⟩ := hopen.run_ok hrun
      exact yields_of_run (run_withHandle hrun) ⟨hread, hkeys, htakes⟩
    | error status t =>
      exact yields_of_error (run_withHandle_error hrun) (.inr ⟨hkeys, hopen.run_error hrun⟩)

end Opens

/-- The documents that saves have been called for, the last one first, and the files they and deletes, opens and queries
have left, with any calls failing and any handles in use. -/
inductive History (cfg : DocCfg) : List Document → Files → Prop where
  | empty : History cfg [] ∅
  | save {docs : List Document} {s : DocSt} (past : History cfg docs s.env.files) (handle : Handle cfg s.doc) :
      History cfg (s.doc.savedAt s.env.side :: docs) (post (docSave cfg) s).env.files
  | delete {docs : List Document} {e : DocSys} (past : History cfg docs e.files) (collectionName documentId : CString) :
      History cfg docs (post (docDelete cfg collectionName documentId) e).files
  | opens {docs : List Document} {e : DocSys} (past : History cfg docs e.files) (collectionName documentId : CString) :
      History cfg docs (post (docOpen cfg collectionName documentId) e).files
  | query {docs : List Document} {e : DocSys} (past : History cfg docs e.files) (overflow : Int64) (request : Request) :
      History cfg docs (post (docQuery cfg overflow request) e).files

/-- The saved documents of this collection and id. -/
def SavedAs (docs : List Document) (collectionName documentId : CString) (saved : Document) : Prop :=
  saved ∈ docs ∧ saved.collectionName = collectionName ∧ saved.documentId = documentId

def Whole (docs : List Document) (collectionName documentId : CString) (file : Option Bytes) : Prop :=
  ∀ text, file = some text → ∃ saved, SavedAs docs collectionName documentId saved ∧ text = docBytes saved

def Begun (docs : List Document) (collectionName documentId : CString) (file : Option Bytes) : Prop :=
  ∀ text, file = some text → ∃ saved, SavedAs docs collectionName documentId saved ∧ text <+: docBytes saved

structure Traced (cfg : DocCfg) (docs : List Document) (look : Path → Option Bytes) : Prop where
  live : ∀ {collectionName documentId path},
    buildDocPath cfg collectionName documentId DOC_FILE_EXT = .ok path → Whole docs collectionName documentId (look path)
  staged : ∀ {collectionName documentId path},
    buildDocPath cfg collectionName documentId DOC_TMP_EXT = .ok path → Begun docs collectionName documentId (look path)
  settles : ∀ {saved}, saved ∈ docs → Settles cfg saved

section Traced
variable {docs : List Document} {look : Path → Option Bytes} {collectionName documentId : CString}

theorem SavedAs.of_cons {doc saved : Document} (h : SavedAs docs collectionName documentId saved) :
    SavedAs (doc :: docs) collectionName documentId saved := ⟨List.mem_cons_of_mem doc h.1, h.2⟩

theorem whole_none : Whole docs collectionName documentId none := fun _ h => by cases h

theorem begun_none : Begun docs collectionName documentId none := fun _ h => by cases h

theorem Whole.begun {file : Option Bytes} (h : Whole docs collectionName documentId file) :
    Begun docs collectionName documentId file := fun text htext => by
  obtain ⟨saved, hs, rfl⟩ := h text htext
  exact ⟨saved, hs, List.prefix_rfl⟩

theorem Begun.whole {text : Bytes} {snap : Snapshot} (hsettles : ∀ {saved}, saved ∈ docs → Settles cfg saved)
    (h : Begun docs collectionName documentId (some text)) (hdec : decode cfg text = .ok snap) :
    Whole docs collectionName documentId (some text) := fun text' htext => by
  cases htext
  obtain ⟨saved, hs, hprefix⟩ := h text rfl
  refine ⟨saved, hs, ?_⟩
  by_contra hne
  rw [← docBytes_settled saved] at hprefix hne
  rw [decode_cut (hsettles hs.1) hprefix hne] at hdec
  cases hdec

theorem Traced.remembered (h : Traced cfg docs look) {doc : Document} (hdoc : Settles cfg doc) :
    Traced cfg (doc :: docs) look where
  live := fun hpath text htext => by
    obtain ⟨saved, hs, hsaved⟩ := h.live hpath text htext
    exact ⟨saved, hs.of_cons, hsaved⟩
  staged := fun hpath text htext => by
    obtain ⟨saved, hs, hsaved⟩ := h.staged hpath text htext
    exact ⟨saved, hs.of_cons, hsaved⟩
  settles := fun hmem => by
    rcases List.mem_cons.mp hmem with rfl | hmem
    · exact hdoc
    · exact h.settles hmem

theorem Traced.putLive (h : Traced cfg docs look) (hkeys : keysValid cfg collectionName documentId = true) {path : Path}
    (hpath : buildDocPath cfg collectionName documentId DOC_FILE_EXT = .ok path) {file : Option Bytes}
    (hfile : Whole docs collectionName documentId file) : Traced cfg docs (Function.update look path file) where
  live := by
    intro c i p hp
    by_cases heq : p = path
    · obtain ⟨hc, hi⟩ := keysValid_names hkeys
      subst heq
      obtain ⟨rfl, rfl, -⟩ := docPath_injective hc hi (.inl rfl) (.inl rfl)
        ((buildDocPath_eq hpath).symm.trans (buildDocPath_eq hp))
      rw [Function.update_self]
      exact hfile
    · rw [Function.update_of_ne heq]
      exact h.live hp
  staged := by
    intro c i p hp
    rw [Function.update_of_ne (live_ne_staged hpath hp).symm]
    exact h.staged hp
  settles := h.settles

theorem Traced.putStaged (h : Traced cfg docs look) (hkeys : keysValid cfg collectionName documentId = true) {path : Path}
    (hpath : buildDocPath cfg collectionName documentId DOC_TMP_EXT = .ok path) {file : Option Bytes}
    (hfile : Begun docs collectionName documentId file) : Traced cfg docs (Function.update look path file) where
  live := by
    intro c i p hp
    rw [Function.update_of_ne (live_ne_staged hp hpath)]
    exact h.live hp
  staged := by
    intro c i p hp
    by_cases heq : p = path
    · obtain ⟨hc, hi⟩ := keysValid_names hkeys
      subst heq
      obtain ⟨rfl, rfl, -⟩ := docPath_injective hc hi (.inr rfl) (.inr rfl)
        ((buildDocPath_eq hpath).symm.trans (buildDocPath_eq hp))
      rw [Function.update_self]
      exact hfile
    · rw [Function.update_of_ne heq]
      exact h.staged hp
  settles := h.settles

theorem traced_empty : Traced cfg [] (∅ : Files).look where
  live := fun _ text htext => by simp [Files.look] at htext
  staged := fun _ text htext => by simp [Files.look] at htext
  settles := fun hmem => by cases hmem

theorem Traced.save {s : DocSt} (h : Traced cfg docs s.env.look) (hs : Settles cfg s.doc) :
    Traced cfg (s.doc.savedAt s.env.side :: docs) (post (docSave cfg) s).env.look := by
  obtain ⟨new, hnew⟩ : ∃ new, new = s.doc.savedAt s.env.side := ⟨_, rfl⟩
  have hsaved : Settles cfg new := by
    rw [hnew]
    exact lasting_settles.times s.doc.createdMs s.env.side hs
  have hkeys : keysValid cfg new.collectionName new.documentId = true := by
    have ht : Tidy cfg new.settled := hsaved
    exact ht.keys
  have hfirst : SavedAs (new :: docs) new.collectionName new.documentId new := ⟨List.mem_cons_self, rfl, rfl⟩
  have hthen := h.remembered hsaved
  rw [docSave_post s hs.valid, ← hnew]
  have hlocked : Yields (saveLocked cfg new) s.env (fun _ e' => Traced cfg (new :: docs) e'.look)
      fun _ e' => Traced cfg (new :: docs) e'.look := by
    refine (saveLocked_yields cfg new s.env).imp ?_ ?_
    · rintro _ e' ⟨path, tmpPath, hpaths, hl⟩
      rw [hl.look]
      refine (hthen.putStaged hkeys hpaths.staged begun_none).putLive hkeys hpaths.live fun text htext => ?_
      cases htext
      exact ⟨new, hfirst, rfl⟩
    · rintro _ e' (⟨hl, -⟩ | ⟨path, tmpPath, hpaths, live, left, hun⟩)
      · rw [hl.look]
        exact hthen
      · rw [hun.leads.look]
        refine (hthen.putLive hkeys hpaths.live ?_).putStaged hkeys hpaths.staged fun part hpart =>
          ⟨new, hfirst, hun.part part hpart⟩
        rcases hun.fate with rfl | rfl
        · exact hthen.live hpaths.live
        · exact whole_none
  exact hlocked.post

theorem Traced.delete {e : DocSys} (h : Traced cfg docs e.look) (collectionName documentId : CString) :
    Traced cfg docs (post (docDelete cfg collectionName documentId) e).look := by
  by_cases hkeys : keysValid cfg collectionName documentId = true
  swap
  · have hsame : (post (docDelete cfg collectionName documentId) e).look = e.look := by
      unfold docDelete
      rw [if_pos (by simpa using hkeys)]
      rfl
    rwa [hsame]
  have hlive : ∀ {path live}, buildDocPath cfg collectionName documentId DOC_FILE_EXT = .ok path →
      Drops e e.tick (e.look path) live → Traced cfg docs (Function.update e.look path live) := fun hpath hd => by
    apply h.putLive hkeys hpath
    rcases hd.either with rfl | rfl
    · exact h.live hpath
    · exact whole_none
  rcases docDelete_cases collectionName documentId e with
    ⟨path, tmpPath, live, left, hpaths, hl, hd, hd'⟩ | ⟨path, live, err, hpath, -, hl, hd⟩ | ⟨-, hl⟩
  · rw [hl]
    refine (hlive hpaths.live hd).putStaged hkeys hpaths.staged ?_
    rcases hd'.either with rfl | rfl
    · exact h.staged hpaths.staged
    · exact begun_none
  · rw [hl]
    exact hlive hpath hd
  · rwa [hl]

theorem Traced.takesUp {look' : Path → Option Bytes} (h : Traced cfg docs look)
    (hkeys : keysValid cfg collectionName documentId = true) (htakes : TakesUp cfg collectionName documentId look look') :
    Traced cfg docs look' := by
  rcases htakes with rfl | ⟨path, tmpPath, text, snap, hpaths, htext, hdec, rfl⟩
  · exact h
  · refine (h.putStaged hkeys hpaths.staged begun_none).putLive hkeys hpaths.live ?_
    have hbegun := h.staged hpaths.staged
    rw [htext] at hbegun
    exact hbegun.whole h.settles hdec

theorem Traced.readFrom {doc : Document} (h : Traced cfg docs look) (hread : ReadFrom cfg look doc) :
    ∃ saved ∈ docs, doc = saved.settled := by
  obtain ⟨ext, snap, hext, hstored, hdoc⟩ := hread
  cases hfile : fileAt cfg look doc.collectionName doc.documentId ext with
  | none =>
    rw [hfile] at hstored
    cases hstored
  | some text =>
    rw [hfile] at hstored
    have hdec : decode cfg text = .ok snap := hstored
    have hwhole : Whole docs doc.collectionName doc.documentId (some text) := by
      cases hpath : buildDocPath cfg doc.collectionName doc.documentId ext with
      | error err =>
        unfold fileAt at hfile
        rw [hpath] at hfile
        cases hfile
      | ok path =>
        rw [fileAt_eq hpath] at hfile
        rcases hext with rfl | rfl
        · rw [← hfile]
          exact h.live hpath
        · have hbegun := h.staged hpath
          rw [hfile] at hbegun
          exact hbegun.whole h.settles hdec
    obtain ⟨saved, ⟨hmem, hc, hi⟩, rfl⟩ := hwhole text rfl
    have ht : Tidy cfg saved.settled := h.settles hmem
    rw [← docBytes_settled, decode_docBytes ht] at hdec
    cases hdec
    refine ⟨saved, hmem, hdoc.trans ?_⟩
    rw [← hc, ← hi]
    exact ht.document

theorem Traced.opens {e : DocSys} (h : Traced cfg docs e.look) (collectionName documentId : CString) :
    Yields (docOpen cfg collectionName documentId) e
      (fun doc e' => (∃ saved, SavedAs docs collectionName documentId saved ∧ doc = saved.settled) ∧ Traced cfg docs e'.look)
      fun _ e' => Traced cfg docs e'.look := by
  refine (docOpen_yields collectionName documentId e).imp ?_ ?_
  · rintro doc e' ⟨⟨hread, rfl, rfl⟩, hkeys, htakes⟩
    obtain ⟨saved, hmem, hdoc⟩ := h.readFrom hread
    refine ⟨⟨saved, ⟨hmem, ?_, ?_⟩, hdoc⟩, h.takesUp hkeys htakes⟩ <;> · rw [hdoc]; rfl
  · rintro _ e' (hsame | ⟨hkeys, htakes⟩)
    · rwa [hsame]
    · exact h.takesUp hkeys htakes

/-- Rows of saved documents, as they are read back. -/
def RowsOf (docs : List Document) (rows : List Metadata) : Prop := ∀ row ∈ rows, ∃ saved ∈ docs, row = saved.settled.entry

theorem yields_looks {ε α : Type} {m : EStateM ε DocSys α} {e : DocSys} (h : Keeps (Within fun _ => False) m e) :
    Yields m e (fun _ e' => e'.look = e.look) fun _ e' => e'.look = e.look := by
  have hlook : (post m e).look = e.look := (leads_of_within h).look
  cases hrun : m.run e with
  | ok a e' =>
    rw [post_of_run hrun] at hlook
    exact yields_of_run hrun hlook
  | error r e' =>
    rw [post_of_error hrun] at hlook
    exact yields_of_error hrun hlook

variable {overflow : Int64} {request : Request}

theorem scanDoc_traced {e : DocSys} (h : Traced cfg docs e.look) (scan : Scan) (hrows : RowsOf docs scan.metadata)
    (collectionName documentId : CString) : Yields (scanDoc cfg overflow request collectionName documentId scan) e
      (fun scan' e' => Traced cfg docs e'.look ∧ RowsOf docs scan'.metadata)
      fun rows e' => Traced cfg docs e'.look ∧ RowsOf docs rows := by
  apply yields_bind (yields_attempt (h.opens collectionName documentId))
  intro ret e₁ hret
  cases ret with
  | error status => exact yields_pure ⟨hret, hrows⟩
  | ok doc =>
    obtain ⟨⟨saved, ⟨hmem, rfl, rfl⟩, rfl⟩, h₁⟩ := hret
    dsimp only
    split
    · exact yields_pure ⟨h₁, hrows⟩
    split
    swap
    · exact yields_pure ⟨h₁, hrows⟩
    have hmalloc : ∀ {e' : DocSys}, Traced cfg docs e'.look →
        Yields (orFail scan.metadata kMalloc : ScanM Unit) e' (fun _ e'' => Traced cfg docs e''.look)
          fun rows e'' => Traced cfg docs e''.look ∧ RowsOf docs rows := fun {e'} h' => by
      refine yields_adaptExcept _ (yields_adaptExcept _ ((yields_looks (keeps_call e')).imp ?_ ?_))
      · intro _ e'' hl
        rwa [hl]
      · intro _ e'' hl
        exact ⟨by rwa [hl], hrows⟩
    apply yields_bind (hmalloc h₁)
    intro _ e₂ h₂
    apply yields_bind (hmalloc h₂)
    intro _ e₃ h₃
    refine yields_pure ⟨h₃, fun row hrow => ?_⟩
    rcases List.mem_append.mp hrow with hrow | hrow
    · exact hrows row hrow
    · exact ⟨saved, hmem, List.mem_singleton.mp hrow⟩

theorem scanDocs_traced (collectionName : CString) (names : List CString) {e : DocSys} (h : Traced cfg docs e.look)
    (scan : Scan) (hrows : RowsOf docs scan.metadata) : Yields (scanDocs cfg overflow request collectionName names scan) e
      (fun scan' e' => Traced cfg docs e'.look ∧ RowsOf docs scan'.metadata)
      fun rows e' => Traced cfg docs e'.look ∧ RowsOf docs rows := by
  induction names generalizing e scan with
  | nil => exact yields_pure ⟨h, hrows⟩
  | cons name names ih =>
    unfold scanDocs
    split
    · exact yields_pure ⟨h, hrows⟩
    split
    · exact ih h scan hrows
    · apply yields_bind (scanDoc_traced h scan hrows collectionName _)
      intro scan' e' h'
      exact ih h'.1 scan' h'.2

theorem scanCollections_traced (names : List CString) {e : DocSys} (h : Traced cfg docs e.look)
    (scan : Scan) (hrows : RowsOf docs scan.metadata) : Yields (scanCollections cfg overflow request names scan) e
      (fun scan' e' => Traced cfg docs e'.look ∧ RowsOf docs scan'.metadata)
      fun rows e' => Traced cfg docs e'.look ∧ RowsOf docs rows := by
  induction names generalizing e scan with
  | nil => exact yields_pure ⟨h, hrows⟩
  | cons name names ih =>
    unfold scanCollections
    split
    · exact yields_pure ⟨h, hrows⟩
    split
    · exact ih h scan hrows
    · apply yields_bind (yields_attempt (yields_looks (keeps_fsList _ e)))
      intro ret e₁ hret
      cases ret with
      | error err =>
        have hlook : e₁.look = e.look := hret
        exact ih (by rwa [hlook]) scan hrows
      | ok entries =>
        have hlook : e₁.look = e.look := hret
        have h₁ : Traced cfg docs e₁.look := by rwa [hlook]
        apply yields_bind (scanDocs_traced name (entryNames entries) h₁ scan hrows)
        intro scan' e' h'
        exact ih h'.1 scan' h'.2

theorem docQuery_traced {e : DocSys} (h : Traced cfg docs e.look) : Yields (docQuery cfg overflow request) e
      (fun answer e' => Traced cfg docs e'.look ∧ RowsOf docs answer.2) fun _ e' => Traced cfg docs e'.look := by
  unfold docQuery
  split
  · exact yields_throw h
  · rename_i root _
    have hdirs : Keeps (Within fun _ => False) (fsListDirs root) e := by
      unfold Keeps post EStateM.run fsListDirs
      cases e.fault <;> exact within_next e
    apply yields_bind (yields_attempt (yields_looks hdirs))
    intro ret e₁ hret
    have h₁ : Traced cfg docs e₁.look := by
      cases ret with
      | ok names => rwa [show e₁.look = e.look from hret]
      | error err => rwa [show e₁.look = e.look from hret]
    have hnone : RowsOf docs [] := fun _ hrow => by cases hrow
    split
    · exact yields_pure ⟨h₁, hnone⟩
    · exact yields_throw h₁
    · apply yields_bind (yields_attempt (scanCollections_traced _ h₁ _ hnone))
      intro ret e₂ hret
      cases ret with
      | error rows => exact yields_pure hret
      | ok scan => exact yields_pure hret

end Traced

theorem History.traced {docs : List Document} {F : Files} (h : History cfg docs F) : Traced cfg docs F.look := by
  induction h with
  | empty => exact traced_empty
  | save _ handle ih => exact Traced.save ih handle.settles
  | delete _ collectionName documentId ih => exact Traced.delete ih collectionName documentId
  | @opens docs e _ collectionName documentId ih =>
    have hopen := (Traced.opens (e := e) ih collectionName documentId).imp (fun _ _ h => h.2) fun _ _ h => h
    exact hopen.post
  | @query docs e _ overflow request ih =>
    have hquery := (@docQuery_traced cfg docs overflow request e ih).imp (fun _ _ h => h.1) fun _ _ h => h
    exact hquery.post

theorem Traced.sound {docs : List Document} {look : Path → Option Bytes} (h : Traced cfg docs look) : Sound cfg look := by
  intro collectionName documentId text hfile
  cases hpath : buildDocPath cfg collectionName documentId DOC_FILE_EXT with
  | error err =>
    unfold fileAt at hfile
    rw [hpath] at hfile
    cases hfile
  | ok path =>
    rw [fileAt_eq hpath] at hfile
    obtain ⟨saved, hs, rfl⟩ := h.live hpath text hfile
    have ht : Tidy cfg saved.settled := h.settles hs.1
    refine ⟨saved.settled.snapshot, ?_⟩
    rw [← docBytes_settled]
    exact decode_docBytes ht

/-- Whatever failed in the past of the store, and whatever fails now, what is opened is a document that a save has been
called for, under its own names and as it was then; a query reports no others; and nothing there is damaged. -/
theorem opens_what_was_saved {docs : List Document} {e : DocSys} (h : History cfg docs e.files) :
    (∀ {collectionName documentId doc e'}, (docOpen cfg collectionName documentId).run e = .ok doc e' →
      ∃ saved, SavedAs docs collectionName documentId saved ∧ doc = saved.settled) ∧
    (∀ {overflow request matched rows e'}, (docQuery cfg overflow request).run e = .ok (matched, rows) e' →
      RowsOf docs rows) ∧
    ∀ collectionName documentId, opened cfg e.files collectionName documentId ≠ .error .ERR_CORRUPT := by
  have ht := h.traced
  refine ⟨fun {collectionName documentId doc e'} hrun => ?_, fun {overflow request matched rows e'} hrun => ?_,
    fun collectionName documentId => opened_whole (F := e.files) ht.sound⟩
  · exact ((Traced.opens (e := e) ht collectionName documentId).run_ok hrun).1
  · exact ((docQuery_traced (e := e) ht).run_ok hrun).2

/-- A first save, a second one that is cut short before it renames, and a delete that is cut short between its two
removals. -/
def raisedFiles : Files := cutDelete sampleCfg shadowFiles sampleCollection sampleName 11 1 0

theorem freshDoc_handle : Handle sampleCfg freshDoc :=
  @Handle.create sampleCfg { quiet ∅ with side := 7 } _ sampleCollection sampleName _ rfl

theorem raised_history : History sampleCfg [freshDoc.savedAt 9, freshDoc.savedAt 7] raisedFiles :=
  .delete (e := cutShort shadowFiles 11 1 0)
    (.save (s := ⟨freshDoc, cutShort savedFiles 9 5 0⟩) (.save (s := freshSt 7) .empty freshDoc_handle) freshDoc_handle)
    sampleCollection sampleName

/-- The second version is opened then: the save of it failed, but it was called for. -/
theorem raised_was_saved : ∃ saved,
    SavedAs [freshDoc.savedAt 9, freshDoc.savedAt 7] sampleCollection sampleName saved ∧ freshDoc.savedAt 9 = saved.settled := by
  have hopened : (opened sampleCfg raisedFiles sampleCollection sampleName).toOption = some (freshDoc.savedAt 9) := by
    decide +kernel
  cases hrun : (docOpen sampleCfg sampleCollection sampleName).run (quiet raisedFiles) with
  | ok doc e' =>
    unfold opened outcome at hopened
    rw [hrun] at hopened
    cases hopened
    exact (opens_what_was_saved (e := quiet raisedFiles) raised_history).1 hrun
  | error status e' =>
    unfold opened outcome at hopened
    rw [hrun] at hopened
    cases hopened

end ZephyrDB.Doc
