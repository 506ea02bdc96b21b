import ZephyrDB.Doc.Crash

/-!
Documents do not touch one another: the two paths of a document are its own,
whatever its names contain, and no call on one document changes what an open of
another returns.
-/

set_option autoImplicit false

namespace ZephyrDB.Doc

open Lib

/-- The id whose live file has this name: the name without the suffix, as `zdb_doc_query` takes it. -/
def stripExt (name : Bytes) : Option Bytes :=
  if name.length ≤ DOC_FILE_EXT.length || name.drop (name.length - DOC_FILE_EXT.length) != DOC_FILE_EXT then none
  else some (name.take (name.length - DOC_FILE_EXT.length))

theorem stripExt_eq_some {name documentId : Bytes} :
    stripExt name = some documentId ↔ name = documentId ++ DOC_FILE_EXT ∧ documentId ≠ [] := by
  unfold stripExt
  constructor
  · intro h
    split at h
    · cases h
    · rename_i hn
      simp only [Bool.or_eq_true, decide_eq_true_eq, bne_iff_ne, ne_eq, not_or, not_le, not_not] at hn
      cases h
      refine ⟨?_, ?_⟩
      · conv_lhs => rw [← List.take_append_drop (name.length - DOC_FILE_EXT.length) name, hn.2]
      · intro hnil
        have := congrArg List.length hnil
        rw [List.length_take, List.length_nil] at this
        omega
  · rintro ⟨rfl, hne⟩
    have hpos := List.length_pos_iff.mpr hne
    have hlen : (documentId ++ DOC_FILE_EXT).length - DOC_FILE_EXT.length = documentId.length := by simp
    rw [hlen, List.drop_left, List.take_left, if_neg]
    simp only [List.length_append, Bool.or_eq_true, decide_eq_true_eq, bne_self_eq_false, Bool.false_eq_true,
      or_false, not_le]
    omega

section Paths
variable {cfg : DocCfg} {collectionName documentId collectionName' documentId' : CString} {ext ext' : Bytes}

theorem slash_not_mem {name : CString} (h : nameValid name = true) : (47 : UInt8) ∉ name.val := by
  simp only [nameValid, Bool.and_eq_true, Bool.not_eq_true'] at h
  intro hm
  have hc : name.val.contains 47 = true := List.contains_iff_mem.mpr hm
  rw [h.1.2] at hc
  cases hc

theorem keysValid_names (h : keysValid cfg collectionName documentId = true) :
    nameValid collectionName = true ∧ nameValid documentId = true := by
  simp only [keysValid, Bool.and_eq_true] at h
  exact ⟨h.1.2, h.2⟩

def IsExt (ext : Bytes) : Prop := ext = DOC_FILE_EXT ∨ ext = DOC_TMP_EXT

theorem slash_not_mem_ext (h : IsExt ext) : (47 : UInt8) ∉ ext := by
  rcases h with rfl | rfl <;> decide

theorem docPath_injective (hc : nameValid collectionName = true) (hi : nameValid documentId = true)
    (hext : IsExt ext) (hext' : IsExt ext')
    (h : docPath cfg collectionName documentId ext = docPath cfg collectionName' documentId' ext') :
    collectionName = collectionName' ∧ documentId = documentId' ∧ ext = ext' := by
  unfold docPath collectionPath at h
  rw [List.append_assoc, List.append_assoc] at h
  have htail := (List.cons.inj (List.append_cancel_left h)).2
  have hrest : (47 : UInt8) ∉ documentId.val ++ ext := by
    rw [List.mem_append, not_or]
    exact ⟨slash_not_mem hi, slash_not_mem_ext hext⟩
  obtain ⟨hcoll, -, hfile⟩ := (List.append_cons_inj_of_notMem (slash_not_mem hc) hrest).mp htail
  have hsame : ext = ext' := by
    rcases hext with rfl | rfl <;> rcases hext' with rfl | rfl
    · rfl
    · exact absurd hfile (live_suffix_ne _ _)
    · exact absurd hfile.symm (live_suffix_ne _ _)
    · rfl
  subst hsame
  exact ⟨Subtype.ext hcoll, Subtype.ext (List.append_cancel_right hfile), rfl⟩

end Paths

section Touch
variable {P : Path → Prop} {cfg : DocCfg}

/-- No file outside `P` has changed. -/
def Spares (P : Path → Prop) (s t : DocSt) : Prop := Within P s.env t.env

theorem spares_chains (P : Path → Prop) : Chains (Spares P) :=
  ⟨fun _ => (within_chains P).refl _, fun h k => (within_chains P).trans h k⟩

def SparesR (P : Path → Prop) (r r' : Reader) : Prop := Spares P r.st r'.st

theorem sparesR_chains (P : Path → Prop) : Chains (SparesR P) :=
  ⟨fun _ => (spares_chains P).refl _, fun h k => (spares_chains P).trans h k⟩

theorem keeps_onEnv {ε α : Type} {m : EStateM ε DocSys α} {s : DocSt} (h : Keeps (Within P) m s.env) :
    Keeps (Spares P) (onEnv m) s := by
  unfold Keeps onEnv Spares
  rw [post_zoom]
  exact h

theorem keeps_onHandle {α : Type} {m : DocM α} {r : Reader} (h : Keeps (Spares P) m r.st) :
    Keeps (SparesR P) (onHandle m) r := by
  unfold Keeps onHandle SparesR
  rw [post_zoom]
  exact h

theorem keeps_updDoc (f : Document → Document) (s : DocSt) : Keeps (Spares P) (updDoc f) s :=
  (within_chains P).refl s.env

theorem keeps_kMalloc (s : DocSt) : Keeps (Spares P) (onEnv kMalloc : DocM Unit) s :=
  keeps_onEnv (keeps_adaptExcept _ (keeps_call _))

theorem keeps_findOrCreate (name : CString) (blank : Value) (s : DocSt) :
    Keeps (Spares P) (findOrCreate cfg name blank) s := by
  unfold findOrCreate
  apply keeps_get_bind
  dsimp only
  split
  · exact keeps_throw (spares_chains P) _ s
  split
  · exact keeps_throw (spares_chains P) _ s
  split
  · split
    · apply keeps_bind (spares_chains P) (keeps_updDoc _ s)
      intro _ t _
      exact keeps_pure (spares_chains P) _ t
    · exact keeps_pure (spares_chains P) _ s
  · split
    · exact keeps_throw (spares_chains P) _ s
    · apply keeps_bind (spares_chains P) (keeps_kMalloc s)
      intro _ t _
      apply keeps_bind (spares_chains P) (keeps_updDoc _ t)
      intro _ u _
      exact keeps_pure (spares_chains P) _ u

theorem keeps_putValue (i : Nat) (value : Value) (s : DocSt) : Keeps (Spares P) (putValue i value) s :=
  (within_chains P).refl s.env

theorem keeps_fieldSet (name : CString) (value : Value) (s : DocSt) :
    Keeps (Spares P) (fieldSet cfg name value) s := by
  have hscalar : ∀ value : Value, Keeps (Spares P) (fieldSetScalar cfg name value) s := fun value =>
    keeps_bind (spares_chains P) (keeps_findOrCreate name _ s) fun i t _ => keeps_putValue i value t
  cases value with
  | int64 v => exact hscalar _
  | double bits => exact hscalar _
  | bool b => exact hscalar _
  | string str =>
    cases str with
    | none => exact keeps_throw (spares_chains P) _ s
    | some str =>
      simp only [fieldSet, fieldSetString]
      split
      · exact keeps_throw (spares_chains P) _ s
      · apply keeps_bind (spares_chains P) (keeps_findOrCreate name _ s)
        intro i t _
        apply keeps_bind (spares_chains P) (keeps_kMalloc t)
        intro _ u _
        exact keeps_putValue i _ u
  | bytes data =>
    simp only [fieldSet, fieldSetBytes]
    split
    · exact keeps_throw (spares_chains P) _ s
    · apply keeps_bind (spares_chains P) (keeps_findOrCreate name _ s)
      intro i t _
      refine keeps_bind (spares_chains P) ?_ fun _ u _ => keeps_putValue i _ u
      unfold allocCopy
      split
      · exact keeps_pure (spares_chains P) _ t
      · exact keeps_kMalloc t

theorem keeps_readExact (path : Path) (len : Nat) (r : Reader) : Keeps (SparesR P) (readExact path len) r := by
  apply keeps_get_bind
  apply keeps_bind (sparesR_chains P) (keeps_onHandle (keeps_onEnv (keeps_adaptExcept _ (keeps_fsRead path _ len _))))
  intro bs t _
  split
  · exact keeps_throw (sparesR_chains P) _ t
  · exact keeps_bind (sparesR_chains P) ((sparesR_chains P).refl t) fun _ u _ => keeps_pure (sparesR_chains P) _ u

theorem keeps_parseValue (path : Path) (name : CString) (type : Nat) (r : Reader) :
    Keeps (SparesR P) (parseValue cfg path name type) r := by
  have hset : ∀ (len : Nat) (value : Bytes → Value) (r : Reader), Keeps (SparesR P)
      (readExact path len >>= fun tmp => onHandle (fieldSet cfg name (value tmp))) r := fun len value r =>
    keeps_bind (sparesR_chains P) (keeps_readExact path len r) fun tmp t _ =>
      keeps_onHandle (keeps_fieldSet name (value tmp) t.st)
  unfold parseValue
  split
  · exact hset 8 (fun tmp => .int64 (UInt64.ofNat (leNat tmp)).toInt64) r
  split
  · exact hset 8 (fun tmp => .double (UInt64.ofNat (leNat tmp))) r
  split
  · exact hset 1 (fun tmp => .bool (leNat tmp != 0)) r
  split
  · apply keeps_bind (sparesR_chains P) (keeps_readExact path 4 r)
    intro tmp t _
    dsimp only
    split
    · exact keeps_throw (sparesR_chains P) _ t
    · apply keeps_bind (sparesR_chains P) (keeps_onHandle (keeps_kMalloc t.st))
      intro _ u _
      exact hset _ (fun str => .string (some (CString.ofBytes str))) u
  split
  · apply keeps_bind (sparesR_chains P) (keeps_readExact path 4 r)
    intro tmp t _
    dsimp only
    split
    · exact keeps_throw (sparesR_chains P) _ t
    split
    · exact keeps_onHandle (keeps_fieldSet name (.bytes []) t.st)
    · apply keeps_bind (sparesR_chains P) (keeps_onHandle (keeps_kMalloc t.st))
      intro _ u _
      exact hset _ (fun buf => .bytes buf) u
  · exact keeps_throw (sparesR_chains P) _ r

theorem keeps_parseFields (path : Path) (n : Nat) (r : Reader) : Keeps (SparesR P) (parseFields cfg path n) r := by
  induction n generalizing r with
  | zero => exact keeps_pure (sparesR_chains P) _ r
  | succ n ih =>
    refine keeps_bind (sparesR_chains P) ?_ fun _ t _ => ih t
    apply keeps_bind (sparesR_chains P) (keeps_readExact path _ r)
    intro hdr t _
    dsimp only
    split
    · exact keeps_throw (sparesR_chains P) _ t
    · apply keeps_bind (sparesR_chains P) (keeps_onHandle (keeps_kMalloc t.st))
      intro _ u _
      apply keeps_bind (sparesR_chains P) (keeps_readExact path _ u)
      intro _ v _
      exact keeps_parseValue path _ _ v

theorem keeps_parseContents (path : Path) (r : Reader) : Keeps (SparesR P) (parseContents cfg path) r := by
  apply keeps_bind (sparesR_chains P) (keeps_readExact path _ r)
  intro hdr t _
  dsimp only
  split
  · exact keeps_throw (sparesR_chains P) _ t
  split
  · exact keeps_throw (sparesR_chains P) _ t
  refine keeps_bind (sparesR_chains P) ((sparesR_chains P).refl t) fun _ t _ => keeps_get_bind ?_
  split
  · exact keeps_throw (sparesR_chains P) _ t
  apply keeps_bind (sparesR_chains P) (keeps_parseFields path _ t)
  intro _ u _
  apply keeps_get_bind
  split
  · exact keeps_throw (sparesR_chains P) _ u
  · exact keeps_pure (sparesR_chains P) _ u

theorem keeps_withReader {α : Type} {m : ReadM α} {s : DocSt} (h : Keeps (SparesR P) m ⟨0, none, s⟩) :
    Keeps (Spares P) (withReader m) s := by
  unfold Keeps post at *
  cases hr : m.run ⟨0, none, s⟩ with
  | ok a r =>
    have hrun : (withReader m).run s = .ok a r.st := by
      show withReader m s = _
      unfold withReader
      rw [hr]
    rw [hr] at h
    rw [hrun]
    exact h
  | error status r =>
    have hrun : (withReader m).run s = .error status r.st := by
      show withReader m s = _
      unfold withReader
      rw [hr]
    rw [hr] at h
    rw [hrun]
    exact h

theorem keeps_parseFile (path : Path) (s : DocSt) : Keeps (Spares P) (parseFile cfg path) s := by
  apply keeps_bind (spares_chains P) (keeps_onEnv (keeps_adaptExcept _ (keeps_fsOpen_read path _)))
  intro _ t _
  apply keeps_bind (spares_chains P) (keeps_attempt (keeps_withReader (keeps_parseContents path _)))
  intro ret u _
  apply keeps_bind (spares_chains P) (keeps_attempt (keeps_onEnv (keeps_call _)))
  intro _ v _
  apply keeps_bind (spares_chains P) (keeps_rethrow (spares_chains P) ret v)
  intro _ w _
  exact keeps_updDoc _ w

theorem keeps_builtPath {s : DocSt} (built : Except Errno Path) :
    Keeps (Spares P) (toStatus (rethrow built) : DocM Path) s :=
  keeps_adaptExcept _ (keeps_rethrow (spares_chains P) _ s)

theorem keeps_openCreated (s : DocSt)
    (hpath : ∀ {ext path}, IsExt ext → buildDocPath cfg s.doc.collectionName s.doc.documentId ext = .ok path → P path) :
    Keeps (Spares P) (openCreated cfg) s := by
  apply keeps_get_bind
  dsimp only
  apply keeps_bind (spares_chains P) (keeps_builtPath _)
  intro path t hbuilt
  have hlive : P path := by
    apply hpath (.inl rfl)
    cases hb : buildDocPath cfg s.doc.collectionName s.doc.documentId DOC_FILE_EXT with
    | ok p =>
      rw [run_path_ok hb] at hbuilt
      cases hbuilt
      rfl
    | error err =>
      rw [run_path hb] at hbuilt
      cases hbuilt
  apply keeps_bind (spares_chains P) (keeps_attempt (keeps_parseFile path t))
  intro ret u _
  split
  · split
    · exact keeps_throw (spares_chains P) _ u
    · rename_i tmpPath htmp
      apply keeps_bind (spares_chains P) (keeps_updDoc _ u)
      intro _ v _
      apply keeps_bind (spares_chains P) (keeps_attempt (keeps_parseFile tmpPath v))
      intro ret' w _
      split
      · exact keeps_adaptExcept _ (keeps_onEnv (keeps_fsMove _ (hpath (.inr rfl) htmp) hlive _))
      · apply keeps_bind (spares_chains P) (keeps_updDoc _ w)
        intro _ x _
        exact keeps_throw (spares_chains P) _ x
  · exact keeps_rethrow (spares_chains P) _ u

theorem keeps_docCreate (collectionName documentId : CString) (e : DocSys) :
    Keeps (Within P) (docCreate cfg collectionName documentId) e := by
  have hmalloc : ∀ e : DocSys, Keeps (Within P) (kMalloc : EStateM Status DocSys Unit) e := fun e =>
    keeps_adaptExcept _ (keeps_call e)
  unfold docCreate
  split
  · exact keeps_throw (within_chains P) _ e
  apply keeps_bind (within_chains P) (keeps_attempt (hmalloc e))
  intro r t _
  apply keeps_bind (within_chains P) (keeps_attempt (hmalloc t))
  intro r' u _
  apply keeps_bind (within_chains P) (keeps_rethrow (within_chains P) r u)
  intro _ v _
  apply keeps_bind (within_chains P) (keeps_rethrow (within_chains P) r' v)
  intro _ w _
  apply keeps_get_bind
  apply keeps_bind (within_chains P) (hmalloc w)
  intro _ x _
  exact keeps_pure (within_chains P) _ x

theorem keeps_withHandle {doc : Document} {m : DocM Unit} {e : DocSys} (h : Keeps (Spares P) m ⟨doc, e⟩) :
    Keeps (Within P) (withHandle doc m) e := by
  unfold Keeps post at *
  cases hr : m.run ⟨doc, e⟩ with
  | ok a s =>
    rw [hr] at h
    rw [run_withHandle hr]
    exact h
  | error status s =>
    rw [hr] at h
    rw [run_withHandle_error hr]
    exact h

end Touch

section Runs
variable {cfg : DocCfg} {collectionName documentId collectionName' documentId' : CString}

/-- The paths a document has: the live one and the staging one. -/
def OwnPath (cfg : DocCfg) (collectionName documentId : CString) (path : Path) : Prop :=
  ∃ ext, IsExt ext ∧ path = docPath cfg collectionName documentId ext

/-- One call on one document, whatever calls below it fail. -/
inductive Handles (cfg : DocCfg) (collectionName documentId : CString) : Files → Files → Prop where
  | create (e : DocSys) :
      Handles cfg collectionName documentId e.files (post (docCreate cfg collectionName documentId) e).files
  | save (s : DocSt) (built : Built cfg s.doc) (collection_eq : s.doc.collectionName = collectionName)
      (document_eq : s.doc.documentId = documentId) :
      Handles cfg collectionName documentId s.env.files (post (docSave cfg) s).env.files
  | opens (e : DocSys) :
      Handles cfg collectionName documentId e.files (post (docOpen cfg collectionName documentId) e).files
  | delete (e : DocSys) :
      Handles cfg collectionName documentId e.files (post (docDelete cfg collectionName documentId) e).files

theorem ownPath_of_build {ext : Bytes} {path : Path} (hext : IsExt ext)
    (h : buildDocPath cfg collectionName documentId ext = .ok path) : OwnPath cfg collectionName documentId path :=
  ⟨ext, hext, buildDocPath_eq h⟩

theorem keeps_docOpen (collectionName documentId : CString) (e : DocSys) :
    Keeps (Within (OwnPath cfg collectionName documentId)) (docOpen cfg collectionName documentId) e := by
  apply keeps_bind (within_chains _) (keeps_docCreate collectionName documentId e)
  intro doc t hcreate
  obtain ⟨-, rfl, rfl, -, -⟩ := docCreate_ok hcreate
  exact keeps_withHandle (keeps_openCreated _ ownPath_of_build)

theorem Handles.elsewhere {F F' : Files} (h : Handles cfg collectionName documentId F F') {path : Path}
    (hother : ¬ OwnPath cfg collectionName documentId path) : F'.look path = F.look path := by
  have hne : ∀ {ext p}, IsExt ext → buildDocPath cfg collectionName documentId ext = .ok p → path ≠ p :=
    fun hext hp heq => hother (heq ▸ ownPath_of_build hext hp)
  cases h with
  | create e =>
    have h : Within (OwnPath cfg collectionName documentId) e (post (docCreate cfg collectionName documentId) e) :=
      keeps_docCreate collectionName documentId e
    exact h.lookup path hother
  | opens e =>
    have h : Within (OwnPath cfg collectionName documentId) e (post (docOpen cfg collectionName documentId) e) :=
      keeps_docOpen collectionName documentId e
    exact h.lookup path hother
  | save s built collection_eq document_eq =>
    subst collection_eq document_eq
    have hsave : (post (docSave cfg) s).env.look path = s.env.look path := by
      rw [docSave_post s built.tidy.valid]
      have hlocked : Yields (saveLocked cfg (s.doc.savedAt s.env.side)) s.env
          (fun _ e' => e'.look path = s.env.look path) fun _ e' => e'.look path = s.env.look path := by
        refine (saveLocked_yields cfg (s.doc.savedAt s.env.side) s.env).imp ?_ ?_
        · rintro _ e' ⟨p, tmpPath, hpaths, hl⟩
          rw [hl.look, Function.update_of_ne (hne (.inl rfl) hpaths.live),
            Function.update_of_ne (hne (.inr rfl) hpaths.staged)]
        · rintro _ e' (⟨hl, -⟩ | ⟨p, tmpPath, hpaths, live, left, hun⟩)
          · rw [hl.look]
          · rw [hun.leads.look, Function.update_of_ne (hne (.inr rfl) hpaths.staged),
              Function.update_of_ne (hne (.inl rfl) hpaths.live)]
      exact hlocked.post
    exact hsave
  | delete e =>
    have hdelete : (post (docDelete cfg collectionName documentId) e).look path = e.look path := by
      rcases docDelete_cases collectionName documentId e with
        ⟨p, tmpPath, live, left, hpaths, hl, -⟩ | ⟨p, live, err, hp, -, hl, -⟩ | ⟨-, hl⟩
      · rw [hl, Function.update_of_ne (hne (.inr rfl) hpaths.staged),
          Function.update_of_ne (hne (.inl rfl) hpaths.live)]
      · rw [hl, Function.update_of_ne (hne (.inl rfl) hp)]
      · rw [hl]
    exact hdelete

theorem found_agree {look look' : Path → Option Bytes}
    (h : ∀ path, OwnPath cfg collectionName documentId path → look' path = look path) :
    found cfg look' collectionName documentId = found cfg look collectionName documentId := by
  unfold found
  cases hlive : buildDocPath cfg collectionName documentId DOC_FILE_EXT with
  | error err => rfl
  | ok path =>
    dsimp only
    rw [h path (ownPath_of_build (.inl rfl) hlive)]
    cases look path with
    | some text => rfl
    | none =>
      dsimp only
      cases hstaged : buildDocPath cfg collectionName documentId DOC_TMP_EXT with
      | error err => rfl
      | ok tmpPath =>
        dsimp only
        rw [h tmpPath (ownPath_of_build (.inr rfl) hstaged)]

theorem ownPath_apart (hkeys : keysValid cfg collectionName documentId = true)
    (hkeys' : keysValid cfg collectionName' documentId' = true)
    (hne : (collectionName, documentId) ≠ (collectionName', documentId')) {path : Path}
    (h : OwnPath cfg collectionName' documentId' path) : ¬ OwnPath cfg collectionName documentId path := by
  rintro ⟨ext, hext, hpath⟩
  obtain ⟨ext', hext', hpath'⟩ := h
  obtain ⟨hcoll, hid⟩ := keysValid_names hkeys
  obtain ⟨rfl, rfl, -⟩ := docPath_injective hcoll hid hext hext' (hpath.symm.trans hpath')
  exact hne rfl

theorem entry_stripped (hkeys : keysValid cfg collectionName documentId = true) {path : Path} {name : Bytes}
    (h : entryName (collectionPath cfg collectionName.val) path = some name) :
    stripExt name = some documentId.val ↔ path = docPath cfg collectionName documentId DOC_FILE_EXT := by
  obtain ⟨rfl, -, -⟩ := entryName_eq_some.mp h
  have hid : documentId.val ≠ [] := by
    have hvalid := (keysValid_names hkeys).2
    intro hnil
    rw [nameValid, hnil] at hvalid
    cases hvalid
  rw [stripExt_eq_some, docPath]
  constructor
  · rintro ⟨rfl, -⟩
    rfl
  · intro heq
    exact ⟨(List.cons.inj (List.append_cancel_left heq)).2, hid⟩

/-- Two documents that `zdb_doc_create` accepts do not touch one another: all their paths differ, a run of
calls on the one leaves what an open of the other returns as it was, and the name of an entry gives back
the id whose live path it is. -/
theorem documents_apart (hkeys : keysValid cfg collectionName documentId = true)
    (hkeys' : keysValid cfg collectionName' documentId' = true)
    (hne : (collectionName, documentId) ≠ (collectionName', documentId')) :
    (∀ path, OwnPath cfg collectionName documentId path → ¬ OwnPath cfg collectionName' documentId' path) ∧
    (∀ F F', Relation.ReflTransGen (Handles cfg collectionName documentId) F F' →
      opened cfg F' collectionName' documentId' = opened cfg F collectionName' documentId') ∧
    ∀ path name, entryName (collectionPath cfg collectionName.val) path = some name →
      (stripExt name = some documentId.val ↔ path = docPath cfg collectionName documentId DOC_FILE_EXT) := by
  refine ⟨fun path => ownPath_apart hkeys' hkeys hne.symm, fun F F' hrun => ?_, fun path name => entry_stripped hkeys⟩
  induction hrun with
  | refl => rfl
  | tail _ hstep ih =>
    rw [← ih]
    exact opened_congr (found_agree fun path hown => hstep.elsewhere (ownPath_apart hkeys hkeys' hne hown))

end Runs

def liveNamed : CString := ⟨[120, 46, 122, 100, 111, 99], by decide⟩

/-- An id that ends like a staging file's name. -/
def stagedNamed : CString := ⟨[120, 46, 122, 100, 111, 99, 46, 116, 109, 112], by decide⟩

/-- A handle for a document under such an id. -/
def liveNamedSt : DocSt := ⟨⟨sampleCollection, liveNamed, [], 16, 7, 7, true⟩, { quiet ∅ with side := 7 }⟩

theorem liveNamedSt_built : Built sampleCfg liveNamedSt.doc :=
  @Built.create sampleCfg { quiet ∅ with side := 7 } _ sampleCollection liveNamed _ rfl

theorem suffixed_apart :
    opened sampleCfg (post (docSave sampleCfg) liveNamedSt).env.files sampleCollection stagedNamed =
      opened sampleCfg ∅ sampleCollection stagedNamed :=
  (documents_apart (by decide) (by decide) (by decide)).2.1 _ _ (.single (.save liveNamedSt liveNamedSt_built rfl rfl))

end ZephyrDB.Doc
