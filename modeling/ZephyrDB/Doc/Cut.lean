import ZephyrDB.Doc.Save

/-!
A document file that has been cut short: whatever part of it is left, an open
reports corruption.

A reader of the part goes beside a reader of the whole file until a read comes
up short; it cannot go to the end, which is past the end of the part.
-/

set_option autoImplicit false

namespace ZephyrDB.Doc

open Lib

variable {cfg : DocCfg}

/-- The reader after one call on its file system. -/
def Reader.next (r : Reader) : Reader := { r with st := ⟨r.st.doc, r.st.env.next⟩ }

/-- The reader past these bytes. -/
def Reader.past (r : Reader) (bs : Bytes) : Reader :=
  { r.next with pos := r.pos + bs.length, crc := r.crc.map fun crc => crc32Update crc bs }

/-- `zdb_fs_read_exact` where no call fails. -/
theorem readExact_clean {path : Path} {r : Reader} (hc : r.st.env.Clean) (len : Nat) :
    (readExact path len).run r =
      if (slice (r.st.env.contents path) r.pos len).length = len then
        .ok (slice (r.st.env.contents path) r.pos len) (r.past (slice (r.st.env.contents path) r.pos len))
      else .error .ERR_CORRUPT r.next := by
  have hread : (onHandle (onEnv (toStatus (fsRead path r.pos len)))).run r =
      .ok (slice (r.st.env.contents path) r.pos len) r.next :=
    run_onHandle (run_onEnv (run_adapt (fsRead_clean hc _ _ _)))
  unfold readExact
  refine run_then (s := r) (a := r) (t := r) rfl (run_then hread ?_)
  by_cases hlen : (slice (r.st.env.contents path) r.pos len).length = len
  · rw [if_neg (not_not.mpr hlen), if_pos hlen, Reader.past, hlen]
    rfl
  · rw [if_pos hlen, if_neg hlen]
    rfl

namespace Pair
variable {w : Pair}

theorem Beside.past {r r' : Reader} (h : w.Beside r r') {bs : Bytes} (hin : r.pos + bs.length ≤ w.text.length) :
    w.Beside (r.past bs) (r'.past bs) :=
  ⟨congrArg (· + bs.length) h.pos, congrArg (Option.map fun crc => crc32Update crc bs) h.crc, hin, h.st.next⟩

theorem curtails_readExact {r r' : Reader} (h : w.Beside r r') (len : Nat) :
    Curtails .ERR_CORRUPT w.Beside (readExact w.path len) r (readExact w.path' len) r' := by
  have htext : r.st.env.contents w.path = w.text := (h.st.left.env.contents _).trans w.holds
  have htext' : r'.st.env.contents w.path' = w.text ++ w.rest := (h.st.right.env.contents _).trans w.holds'
  have hrun := @readExact_clean w.path r (h.st.left.env.clean w.clean) len
  intro bs v hrun'
  rw [readExact_clean (h.st.right.env.clean w.clean') len, htext', h.pos] at hrun'
  rw [htext] at hrun
  by_cases hin : r.pos + len ≤ w.text.length
  · -- both readers see the same bytes
    rw [slice_append_left _ _ _ _ hin] at hrun'
    have hlen : (slice w.text r.pos len).length = len := by
      rw [slice_length]
      omega
    rw [if_pos hlen] at hrun hrun'
    obtain ⟨rfl, rfl⟩ := EStateM.Result.ok.inj hrun'
    exact .inl ⟨_, hrun, h.past (by rw [hlen]; exact hin)⟩
  · have hshort : (slice w.text r.pos len).length ≠ len := by
      have := h.inside
      rw [slice_length]
      omega
    rw [if_neg hshort] at hrun
    exact .inr ⟨_, hrun⟩

theorem curtails_kMalloc {r r' : Reader} (h : w.Beside r r') :
    Curtails .ERR_CORRUPT w.Beside (onHandle (onEnv kMalloc)) r (onHandle (onEnv kMalloc)) r' :=
  (mirrors_handle_kMalloc h).curtails

theorem curtails_fieldSet {r r' : Reader} (h : w.Beside r r') (name : CString) (value : Value) :
    Curtails .ERR_CORRUPT w.Beside (onHandle (fieldSet cfg name value)) r (onHandle (fieldSet cfg name value)) r' :=
  (mirrors_handle_fieldSet h name value).curtails

theorem curtails_parseValue {r r' : Reader} (h : w.Beside r r') (name : CString) (type : Nat) :
    Curtails .ERR_CORRUPT w.Beside (parseValue cfg w.path name type) r (parseValue cfg w.path' name type) r' := by
  unfold parseValue
  split
  · exact curtails_bind (curtails_readExact h 8) fun tmp _ _ hu =>
      curtails_fieldSet hu name (.int64 (UInt64.ofNat (leNat tmp)).toInt64)
  split
  · exact curtails_bind (curtails_readExact h 8) fun tmp _ _ hu =>
      curtails_fieldSet hu name (.double (UInt64.ofNat (leNat tmp)))
  split
  · exact curtails_bind (curtails_readExact h 1) fun tmp _ _ hu =>
      curtails_fieldSet hu name (.bool (leNat tmp != 0))
  split
  · apply curtails_bind (curtails_readExact h 4)
    intro tmp _ _ hu
    dsimp only
    split
    · exact curtails_throw _ _
    · apply curtails_bind (curtails_kMalloc hu)
      intro _ _ _ hv
      exact curtails_bind (curtails_readExact hv _) fun str _ _ hx =>
        curtails_fieldSet hx name (.string (some (CString.ofBytes str)))
  split
  · apply curtails_bind (curtails_readExact h 4)
    intro tmp _ _ hu
    dsimp only
    split
    · exact curtails_throw _ _
    split
    · exact curtails_fieldSet hu name (.bytes [])
    · apply curtails_bind (curtails_kMalloc hu)
      intro _ _ _ hv
      exact curtails_bind (curtails_readExact hv _) fun buf _ _ hx => curtails_fieldSet hx name (.bytes buf)
  · exact curtails_throw _ _

theorem curtails_parseField {r r' : Reader} (h : w.Beside r r') :
    Curtails .ERR_CORRUPT w.Beside (parseField cfg w.path) r (parseField cfg w.path') r' := by
  apply curtails_bind (curtails_readExact h _)
  intro hdr _ _ hu
  dsimp only
  split
  · exact curtails_throw _ _
  · apply curtails_bind (curtails_kMalloc hu)
    intro _ _ _ hv
    exact curtails_bind (curtails_readExact hv _) fun name _ _ hx => curtails_parseValue hx _ _

theorem curtails_parseFields {r r' : Reader} (h : w.Beside r r') (n : Nat) :
    Curtails .ERR_CORRUPT w.Beside (parseFields cfg w.path n) r (parseFields cfg w.path' n) r' := by
  induction n generalizing r r' with
  | zero => exact curtails_pure _ h
  | succ n ih => exact curtails_bind (curtails_parseField h) fun _ _ _ hu => ih hu

theorem curtails_parseContents {r r' : Reader} (h : w.Beside r r') :
    Curtails .ERR_CORRUPT w.Beside (parseContents cfg w.path) r (parseContents cfg w.path') r' := by
  apply curtails_bind (curtails_readExact h _)
  intro hdr u v hu
  dsimp only
  split
  · exact curtails_throw _ _
  split
  · exact curtails_throw _ _
  apply curtails_bind (curtails_modify ⟨hu.pos, rfl, hu.inside, hu.st⟩)
  intro _ u v hv
  apply curtails_get_bind
  rw [hv.st.maxFields]
  split
  · exact curtails_throw _ _
  apply curtails_bind (curtails_parseFields hv _)
  intro _ _ _ hx
  apply curtails_get_bind
  rw [hx.crc]
  split
  · exact curtails_throw _ _
  · exact curtails_pure _ hx

end Pair

theorem decode_cut {doc : Document} (ht : Tidy cfg doc) {text : Bytes} (hcut : text <+: docBytes doc)
    (hshort : text ≠ docBytes doc) : decode cfg text = .error .ERR_CORRUPT := by
  obtain ⟨rest, hrest⟩ := hcut
  have hne : rest ≠ [] := by
    rintro rfl
    exact hshort (by simpa using hrest)
  let w : Pair := {
    path := [], path' := [], text := text, rest := rest
    start := anyHandle cfg (quiet (AList.insert [] text ∅))
    start' := anyHandle cfg (quiet (AList.insert [] (docBytes doc) ∅))
    clean := quiet_clean _, clean' := quiet_clean _
    holds := contents_holding text, holds' := hrest ▸ contents_holding _
    valid := rfl, maxFields := rfl }
  have hbeside : w.Beside ⟨0, none, w.start⟩ ⟨0, none, w.start'⟩ :=
    ⟨rfl, rfl, Nat.zero_le _, Moved.refl _, Moved.refl _, rfl⟩
  have hx : Extends cfg w.start'.doc doc.fields := ht.extends rfl rfl rfl
  obtain ⟨r', now, hrun', hend, -⟩ :=
    parseContents_whole ht (quiet_clean _) (contents_holding (docBytes doc)) hx rfl rfl
  have hfail : ∃ r, (parseContents cfg w.path).run ⟨0, none, w.start⟩ = .error .ERR_CORRUPT r := by
    refine (@Pair.curtails_parseContents cfg w _ _ hbeside _ _ hrun').resolve_left ?_
    -- the whole file is read to its end, which the part does not reach
    rintro ⟨r, -, hr⟩
    have hinside := hr.inside
    have hpos := hr.pos
    have hlen := congrArg List.length hrest
    have htext : w.text.length = text.length := rfl
    have hrestLen := List.length_pos_iff.mpr hne
    rw [List.length_append] at hlen
    omega
  obtain ⟨r, hrun⟩ := hfail
  unfold decode
  rw [show (parseContents cfg []).run ⟨0, none, anyHandle cfg (quiet (AList.insert [] text ∅))⟩ = _ from hrun]

theorem opened_replaced {doc : Document} (ht : Tidy cfg doc) {e : DocSys} (hclean : e.Clean) {path : Path}
    (hpath : buildDocPath cfg doc.collectionName doc.documentId DOC_FILE_EXT = .ok path) {text : Bytes}
    (hl : e.look path = some text) {status : Status} (hdecode : decode cfg text = .error status) :
    outcome (docOpen cfg doc.collectionName doc.documentId) e = .error status := by
  rw [docOpen_outcome hclean, if_pos ht.keys, found_live hpath hl, hdecode]
  rfl

/-- However a saved document's file is cut short, the document opens as corrupt, whatever else the file system
holds. -/
theorem cut_file_corrupt {s t : DocSt} (hbuilt : Built cfg s.doc) (hsave : (docSave cfg).run s = .ok () t) {e : DocSys}
    (hclean : e.Clean) {path : Path} {whole text : Bytes}
    (hpath : buildDocPath cfg s.doc.collectionName s.doc.documentId DOC_FILE_EXT = .ok path)
    (hwhole : t.env.look path = some whole) (hl : e.look path = some text) (hcut : text <+: whole) (hshort : text ≠ whole) :
    outcome (docOpen cfg s.doc.collectionName s.doc.documentId) e = .error .ERR_CORRUPT := by
  obtain ⟨path', hpath', hfile⟩ := saved_file hbuilt hsave
  rw [hpath] at hpath'
  obtain rfl := Except.ok.inj hpath'
  rw [hwhole] at hfile
  obtain rfl := Option.some.inj hfile
  exact opened_replaced hbuilt.tidy hclean hpath hl (decode_cut (hbuilt.tidy.savedAt _) hcut hshort)

/-- The file of the sample document. -/
def samplePath : Path := docPath sampleCfg sampleCollection sampleName DOC_FILE_EXT

/-- A document that ends in an empty string, whose last byte is gone. -/
theorem cut_empty_string : ∃ whole, (post (docSave sampleCfg) filledSt).env.look samplePath = some whole ∧
    outcome (docOpen sampleCfg sampleCollection sampleName) (quiet (AList.insert samplePath whole.dropLast ∅)) =
      .error .ERR_CORRUPT := by
  have hsave := run_of_outcome filled_saved
  obtain ⟨path, hpath, hfile⟩ := saved_file filledSt_built hsave
  obtain rfl : samplePath = path := Except.ok.inj hpath
  refine ⟨_, hfile, ?_⟩
  refine cut_file_corrupt filledSt_built hsave (quiet_clean _) hpath hfile ?_ (List.dropLast_prefix _) fun h => ?_
  · show Files.look (AList.insert samplePath _ ∅) samplePath = _
    rw [Files.look_insert, Function.update_self]
  · have hlen := congrArg List.length h
    have hpos : 0 < (docBytes (filledSt.doc.savedAt filledSt.env.side)).length := by
      rw [docBytes_eq, List.length_append, docHdr_length]
      exact Nat.lt_of_lt_of_le (by decide) (Nat.le_add_right _ _)
    rw [List.length_dropLast] at hlen
    omega

end ZephyrDB.Doc
