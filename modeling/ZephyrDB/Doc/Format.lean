import ZephyrDB.Doc.File

/-!
What a save writes, an open reads back: every field, in order, bit for bit.

A reader that faces a piece of the file eats exactly that piece, and the parts
of the format are read in the order in which they are written.
-/

set_option autoImplicit false

namespace ZephyrDB.Doc

open Lib

def docBytes (doc : Document) : Bytes := (docHdr doc :: fieldsEmit doc).flatten

structure Faces (path : Path) (chunk : Bytes) (r : Reader) : Prop where
  clean : r.st.env.Clean
  ahead : chunk <+: (r.st.env.contents path).drop r.pos

structure Eats (chunk : Bytes) (r r' : Reader) : Prop where
  pos : r'.pos = r.pos + chunk.length
  crc : r'.crc = r.crc.map fun crc => crc32Update crc chunk
  env : Ticks r.st.env r'.st.env

theorem Eats.nil (r : Reader) : Eats [] r r := by
  refine ⟨rfl, ?_, Ticks.refl _⟩
  cases r.crc <;> simp

theorem Eats.append {xs ys : Bytes} {r r' r'' : Reader} (h : Eats xs r r') (k : Eats ys r' r'') :
    Eats (xs ++ ys) r r'' := by
  refine ⟨?_, ?_, h.env.trans k.env⟩
  · rw [k.pos, h.pos, List.length_append, Nat.add_assoc]
  · rw [k.crc, h.crc]
    cases r.crc <;> simp [crc32Update_append]

theorem Faces.left {path : Path} {xs ys : Bytes} {r : Reader} (h : Faces path (xs ++ ys) r) : Faces path xs r :=
  ⟨h.clean, (List.prefix_append xs ys).trans h.ahead⟩

theorem Ticks.contents {e e' : DocSys} (h : Ticks e e') (path : Path) : e'.contents path = e.contents path := by
  unfold Env.contents
  rw [h.files]

theorem Faces.right {path : Path} {xs ys : Bytes} {r r' : Reader} (h : Faces path (xs ++ ys) r)
    (heats : Eats xs r r') : Faces path ys r' := by
  refine ⟨heats.env.clean h.clean, ?_⟩
  obtain ⟨rest, hrest⟩ := h.ahead
  rw [heats.env.contents, heats.pos, ← List.drop_drop, ← hrest, List.append_assoc, List.drop_left]
  exact List.prefix_append ys rest

theorem run_onHandle {α : Type} {m : DocM α} {r : Reader} {a : α} {st : DocSt} (h : m.run r.st = .ok a st) :
    (onHandle m).run r = .ok a { r with st := st } := run_zoom h

theorem fsRead_clean {e : DocSys} (hc : e.Clean) (path : Path) (pos len : Nat) :
    (fsRead path pos len).run e = .ok (slice (e.contents path) pos len) e.next := by
  show fsRead path pos len e = _
  simp [fsRead, Env.fault, hc e.tick]

theorem readExact_eats {path : Path} {chunk : Bytes} {r : Reader} {len : Nat} (h : Faces path chunk r)
    (hlen : chunk.length = len) :
    ∃ r', (readExact path len).run r = .ok chunk r' ∧ Eats chunk r r' ∧ r'.st.doc = r.st.doc := by
  have hslice : slice (r.st.env.contents path) r.pos len = chunk := by
    rw [slice, ← hlen]
    exact (List.prefix_iff_eq_take.mp h.ahead).symm
  refine ⟨⟨r.pos + len, r.crc.map fun crc => crc32Update crc chunk, ⟨r.st.doc, r.st.env.next⟩⟩, ?_, ?_, rfl⟩
  · unfold readExact
    refine run_then (s := r) (a := r) (t := r) rfl ?_
    apply run_then (run_onHandle (run_onEnv (run_adapt (fsRead_clean h.clean path r.pos len))))
    rw [hslice, if_neg (by simp [hlen])]
    rfl
  · exact ⟨by rw [hlen], rfl, ticks_next _⟩

structure Fills (cfg : DocCfg) (chunk : Bytes) (name : CString) (value : Value) (r r' : Reader) : Prop where
  eats : Eats chunk r r'
  doc : ∃ now, r'.st.doc = { r.st.doc with fields := upsert name value r.st.doc.fields, updatedMs := now }

section Value
variable {cfg : DocCfg} {path : Path} {name : CString} {value : Value} {r : Reader}

theorem fills_of_set {chunk : Bytes} {r₁ : Reader} (heats : Eats chunk r r₁) (hdoc : r₁.st.doc = r.st.doc)
    (hc : r.st.env.Clean) (hable : Placeable cfg name r.st.doc) (hadm : value.Admitted cfg) :
    ∃ r', (onHandle (fieldSet cfg name value)).run r₁ = .ok () r' ∧ Fills cfg chunk name value r r' := by
  obtain ⟨_, t, hrun⟩ := fieldSet_run (heats.env.clean hc) (hdoc ▸ hable) hadm
  have hset := fieldSet_ok hrun
  refine ⟨{ r₁ with st := t }, run_onHandle hrun, ⟨heats.pos, heats.crc, heats.env.trans hset.env⟩, ?_⟩
  exact ⟨_, by rw [hset.doc, hdoc]⟩

theorem run_kMalloc_handle {r : Reader} (hc : r.st.env.Clean) :
    (onHandle (onEnv kMalloc)).run r = .ok () { r with st := ⟨r.st.doc, r.st.env.next⟩ } :=
  run_onHandle (run_onEnv (run_kMalloc hc))

theorem eats_next (r : Reader) : Eats [] r { r with st := ⟨r.st.doc, r.st.env.next⟩ } := by
  refine ⟨rfl, ?_, ticks_next _⟩
  cases r.crc <;> simp

theorem read_then_set {before chunk : Bytes} {len : Nat} {r₁ : Reader} (set : Bytes → DocM Unit)
    (h : Faces path chunk r₁) (hlen : chunk.length = len) (heats : Eats before r r₁)
    (hdoc : r₁.st.doc = r.st.doc) (hc : r.st.env.Clean) (hset : set chunk = fieldSet cfg name value)
    (hable : Placeable cfg name r.st.doc) (hadm : value.Admitted cfg) :
    ∃ r', (readExact path len >>= fun buf => onHandle (set buf)).run r₁ = .ok () r' ∧
      Fills cfg (before ++ chunk) name value r r' := by
  obtain ⟨r₂, hrun, heats₂, hdoc₂⟩ := readExact_eats h hlen
  obtain ⟨r', hset', hfills⟩ := fills_of_set (heats.append heats₂) (hdoc₂.trans hdoc) hc hable hadm
  refine ⟨r', run_then hrun ?_, hfills⟩
  rw [hset]
  exact hset'

theorem alloc_read_then_set {before chunk : Bytes} {r₁ : Reader} (set : Bytes → DocM Unit)
    (h : Faces path chunk r₁) (heats : Eats before r r₁) (hdoc : r₁.st.doc = r.st.doc) (hc : r.st.env.Clean)
    (hset : set chunk = fieldSet cfg name value) (hable : Placeable cfg name r.st.doc)
    (hadm : value.Admitted cfg) :
    ∃ r', (onHandle (onEnv kMalloc) >>= fun _ =>
        readExact path chunk.length >>= fun buf => onHandle (set buf)).run r₁ = .ok () r' ∧
      Fills cfg (before ++ chunk) name value r r' := by
  have h₂ := @Faces.right path [] chunk _ _ h (eats_next r₁)
  have heats₂ := heats.append (eats_next r₁)
  rw [List.append_nil] at heats₂
  obtain ⟨r', hrun, hfills⟩ := read_then_set set h₂ rfl heats₂ hdoc hc hset hable hadm
  exact ⟨r', run_then (run_kMalloc_handle h.clean) hrun, hfills⟩

theorem parseValue_fills (h : Faces path value.pieces.flatten r) (hable : Placeable cfg name r.st.doc)
    (hadm : value.Admitted cfg) :
    ∃ r', (parseValue cfg path name value.type).run r = .ok () r' ∧
      Fills cfg value.pieces.flatten name value r r' := by
  cases value with
  | int64 v =>
    have hback : (UInt64.ofNat (leNat (leBytes 8 v.toUInt64.toNat))).toInt64 = v := by
      rw [leNat_leBytes_of_lt v.toUInt64.toNat_lt, UInt64.ofNat_toNat, Int64.toInt64_toUInt64]
    simp only [Value.pieces, List.flatten_cons, List.flatten_nil, List.append_nil] at h ⊢
    exact @read_then_set _ _ _ _ _ [] _ _ _ (fun tmp => fieldSetI64 cfg name (UInt64.ofNat (leNat tmp)).toInt64)
      h (leBytes_length 8 _) (Eats.nil r) rfl h.clean
      (congrArg (fieldSetI64 cfg name) hback) hable hadm
  | double bits =>
    have hback : UInt64.ofNat (leNat (leBytes 8 bits.toNat)) = bits := by
      rw [leNat_leBytes_of_lt bits.toNat_lt, UInt64.ofNat_toNat]
    simp only [Value.pieces, List.flatten_cons, List.flatten_nil, List.append_nil] at h ⊢
    exact @read_then_set _ _ _ _ _ [] _ _ _ (fun tmp => fieldSetF64 cfg name (UInt64.ofNat (leNat tmp)))
      h (leBytes_length 8 _) (Eats.nil r) rfl h.clean
      (congrArg (fieldSetF64 cfg name) hback) hable hadm
  | bool b =>
    have hback : (leNat [if b then 1 else 0] != 0) = b := by cases b <;> rfl
    simp only [Value.pieces, List.flatten_cons, List.flatten_nil, List.append_nil] at h ⊢
    exact @read_then_set _ _ _ _ _ [] _ _ _ (fun tmp => fieldSetBool cfg name (leNat tmp != 0))
      h rfl (Eats.nil r) rfl h.clean
      (congrArg (fieldSetBool cfg name) hback) hable hadm
  | string str =>
    cases str with
    | none => exact absurd hadm id
    | some str =>
      have hmax := cfg.maxStringLen_le
      have hadm' : str.val.length ≤ cfg.maxStringLen := hadm
      have hback : leNat (leBytes 4 str.val.length) = str.val.length := leNat_leBytes_of_lt (by omega)
      simp only [Value.pieces, Option.elim_some, List.flatten_cons, List.flatten_nil, List.append_nil] at h ⊢
      obtain ⟨r₁, hrun₁, heats₁, hdoc₁⟩ := readExact_eats h.left (leBytes_length 4 _)
      have hset : fieldSetString cfg name (CString.ofBytes str.val) = fieldSet cfg name (.string (some str)) :=
        congrArg (fieldSetString cfg name) str.ofBytes_val
      obtain ⟨r', hrun, hfills⟩ := alloc_read_then_set (fun buf => fieldSetString cfg name (CString.ofBytes buf))
        (h.right heats₁) heats₁ hdoc₁ h.clean hset hable hadm
      refine ⟨r', run_then hrun₁ ?_, hfills⟩
      rw [hback, if_neg (Nat.not_lt.mpr hadm')]
      exact hrun
  | bytes data =>
    have hmax := cfg.maxBytesLen_le
    have hadm' : data.length ≤ cfg.maxBytesLen := hadm
    have hback : leNat (leBytes 4 data.length) = data.length := leNat_leBytes_of_lt (by omega)
    simp only [Value.pieces, List.flatten_cons, List.flatten_nil, List.append_nil] at h ⊢
    obtain ⟨r₁, hrun₁, heats₁, hdoc₁⟩ := readExact_eats h.left (leBytes_length 4 _)
    by_cases hempty : data = []
    · subst hempty
      obtain ⟨r', hset, hfills⟩ := fills_of_set heats₁ hdoc₁ h.clean hable hadm
      rw [List.append_nil]
      refine ⟨r', run_then hrun₁ ?_, hfills⟩
      rw [hback, if_neg (Nat.not_lt.mpr hadm'), if_pos List.length_nil]
      exact hset
    · have hset : fieldSetBytes cfg name data = fieldSet cfg name (.bytes data) := rfl
      obtain ⟨r', hrun, hfills⟩ := alloc_read_then_set (fieldSetBytes cfg name)
        (h.right heats₁) heats₁ hdoc₁ h.clean hset hable hadm
      refine ⟨r', run_then hrun₁ ?_, hfills⟩
      rw [hback, if_neg (Nat.not_lt.mpr hadm'), if_neg (by simpa using hempty)]
      exact hrun

end Value

theorem fieldHdr_length (field : Field) : (fieldHdr field).length = DOC_FIELD_HDR_SIZE := by
  simp [fieldHdr, DOC_FIELD_HDR_SIZE]

theorem type_lt (value : Value) : value.type < 256 := by
  cases value <;> simp [Value.type, Value.INT64, Value.DOUBLE, Value.STRING, Value.BOOL, Value.BYTES]

theorem fieldHdr_nameLen {field : Field} (h : field.name.val.length ≤ 128) :
    leNat (slice (fieldHdr field) 0 2) = field.name.val.length := by
  have hslice : slice (fieldHdr field) 0 2 = leBytes 2 field.name.val.length := by
    simp [fieldHdr, slice, leBytes]
  rw [hslice, leNat_leBytes_of_lt (by omega)]

theorem fieldHdr_type (field : Field) : leNat (slice (fieldHdr field) 4 1) = field.value.type := by
  have hslice : slice (fieldHdr field) 4 1 = leBytes 1 field.value.type := by
    simp [fieldHdr, slice, leBytes]
  rw [hslice, leNat_leBytes_of_lt (type_lt field.value)]

section Fields
variable {cfg : DocCfg} {path : Path}

theorem pieces_flatten (field : Field) :
    field.pieces.flatten = fieldHdr field ++ (field.name.val ++ field.value.pieces.flatten) := by
  simp [Field.pieces]

theorem parseField_fills {field : Field} {r : Reader} (h : Faces path field.pieces.flatten r)
    (hable : Placeable cfg field.name r.st.doc) (hadm : field.value.Admitted cfg) :
    ∃ r', (parseField cfg path).run r = .ok () r' ∧
      Fills cfg field.pieces.flatten field.name field.value r r' := by
  rw [pieces_flatten] at h ⊢
  obtain ⟨r₁, hrun₁, heats₁, hdoc₁⟩ := readExact_eats h.left (fieldHdr_length field)
  have h₁ := h.right heats₁
  have hk := @Faces.right path [] _ _ _ h₁ (eats_next r₁)
  obtain ⟨r₂, hrun₂, heats₂, hdoc₂⟩ := readExact_eats hk.left rfl
  obtain ⟨r', hrun, hfills⟩ := parseValue_fills (hk.right heats₂) (hdoc₂.trans hdoc₁ ▸ hable) hadm
  have hall : Eats (fieldHdr field ++ (field.name.val ++ field.value.pieces.flatten)) r r' :=
    heats₁.append ((eats_next r₁).append (heats₂.append hfills.eats))
  refine ⟨r', run_then hrun₁ ?_, hall, ?_⟩
  · have hmax := cfg.maxFieldNameLen_le
    have hlen := hable.named.2
    have hne : field.name.val.length ≠ 0 := by simpa using hable.named.1
    rw [fieldHdr_nameLen (by omega), fieldHdr_type,
      if_neg (by simp only [Bool.or_eq_true, decide_eq_true_eq, not_or]; omega)]
    apply run_then (run_kMalloc_handle h₁.clean)
    apply run_then hrun₂
    rw [CString.ofBytes_val]
    exact hrun
  · obtain ⟨now, hdoc⟩ := hfills.doc
    refine ⟨now, ?_⟩
    rw [hdoc, hdoc₂]
    show _ = _
    rw [hdoc₁]

structure Extends (cfg : DocCfg) (doc : Document) (fields : List Field) : Prop where
  valid : doc.valid = true
  count : (doc.fields ++ fields).length ≤ doc.maxFields
  distinct : ((doc.fields ++ fields).map Field.name).Nodup
  admitted : ∀ field ∈ fields, field.Admitted cfg

theorem Extends.new {doc : Document} {field : Field} {fields : List Field}
    (h : Extends cfg doc (field :: fields)) : field.name ∉ doc.fields.map Field.name := by
  intro hm
  have hd := h.distinct
  rw [List.map_append, List.map_cons] at hd
  exact (List.disjoint_of_nodup_append hd) hm List.mem_cons_self

theorem Extends.placeable {doc : Document} {field : Field} {fields : List Field}
    (h : Extends cfg doc (field :: fields)) : Placeable cfg field.name doc := by
  obtain ⟨hne, hlen, -⟩ := h.admitted field List.mem_cons_self
  refine ⟨h.valid, ⟨hne, hlen⟩, .inr ?_⟩
  have hcount := h.count
  rw [List.length_append, List.length_cons] at hcount
  omega

theorem parseFields_extends {fields : List Field} {r : Reader}
    (h : Faces path (fields.flatMap Field.pieces).flatten r) (hx : Extends cfg r.st.doc fields) :
    ∃ r' now, (parseFields cfg path fields.length).run r = .ok () r' ∧
      Eats (fields.flatMap Field.pieces).flatten r r' ∧
      r'.st.doc = { r.st.doc with fields := r.st.doc.fields ++ fields, updatedMs := now } := by
  induction fields generalizing r with
  | nil => exact ⟨r, r.st.doc.updatedMs, rfl, Eats.nil r, by simp⟩
  | cons field fields ih =>
    rw [List.flatMap_cons, List.flatten_append] at h ⊢
    obtain ⟨r₁, hrun₁, hfills⟩ := parseField_fills h.left hx.placeable (hx.admitted field List.mem_cons_self).2.2
    obtain ⟨now, hdoc⟩ := hfills.doc
    rw [upsert_new hx.new] at hdoc
    have hsplit : r.st.doc.fields ++ [field] ++ fields = r.st.doc.fields ++ field :: fields := by simp
    have hx₁ : Extends cfg r₁.st.doc fields := by
      rw [hdoc]
      refine ⟨hx.valid, ?_, ?_, fun f hf => hx.admitted f (List.mem_cons_of_mem _ hf)⟩
      · exact hsplit ▸ hx.count
      · exact hsplit ▸ hx.distinct
    obtain ⟨r', now', hrun, heats, hdoc'⟩ := ih (h.right hfills.eats) hx₁
    refine ⟨r', now', run_then hrun₁ hrun, hfills.eats.append heats, ?_⟩
    rw [hdoc', hdoc]
    simp

end Fields

theorem slice_hdr (magic version count created updated crc : Nat) :
    let start := leBytes 4 magic ++ leBytes 2 version ++ leBytes 2 count ++ leBytes 8 created ++ leBytes 8 updated
    let hdr := start ++ leBytes 4 crc
    slice hdr 0 4 = leBytes 4 magic ∧ slice hdr 4 2 = leBytes 2 version ∧ slice hdr 6 2 = leBytes 2 count ∧
      slice hdr 8 8 = leBytes 8 created ∧ slice hdr 16 8 = leBytes 8 updated ∧ slice hdr 24 4 = leBytes 4 crc ∧
      hdr.take 24 = start :=
  ⟨rfl, rfl, rfl, rfl, rfl, rfl, rfl⟩

theorem foldl_crc (crc : UInt32) (pieces : List Bytes) :
    pieces.foldl crc32Update crc = crc32Update crc pieces.flatten := by
  induction pieces generalizing crc with
  | nil => simp
  | cons piece pieces ih => rw [List.foldl_cons, ih, List.flatten_cons, crc32Update_append]

theorem docHdr_length (doc : Document) : (docHdr doc).length = DOC_HDR_SIZE := by
  simp [docHdr, docHdrStart, DOC_HDR_SIZE]

theorem Tidy.extends {cfg : DocCfg} {doc blank : Document} (h : Tidy cfg doc) (hvalid : blank.valid = true)
    (hfields : blank.fields = []) (hmax : blank.maxFields = cfg.maxFieldCount) : Extends cfg blank doc.fields := by
  refine ⟨hvalid, ?_, ?_, h.admitted⟩
  · rw [hfields, List.nil_append, hmax, ← h.maxFields]
    exact h.count
  · rw [hfields, List.nil_append]
    exact h.distinct

section Contents
variable {cfg : DocCfg} {doc : Document} {path : Path}

theorem docBytes_eq (doc : Document) : docBytes doc = docHdr doc ++ (fieldsEmit doc).flatten := rfl

theorem parseContents_whole (ht : Tidy cfg doc) {st : DocSt} (hc : st.env.Clean)
    (hfile : st.env.contents path = docBytes doc) (hx : Extends cfg st.doc doc.fields)
    (hempty : st.doc.fields = []) (hmax : st.doc.maxFields = cfg.maxFieldCount) :
    ∃ r' now, (parseContents cfg path).run ⟨0, none, st⟩ = .ok (doc.createdMs, doc.updatedMs) r' ∧
      r'.pos = (docBytes doc).length ∧ Ticks st.env r'.st.env ∧
      r'.st.doc = { st.doc with fields := doc.fields, updatedMs := now } := by
  have hfaces : Faces path (docHdr doc ++ (fieldsEmit doc).flatten) ⟨0, none, st⟩ :=
    ⟨hc, by simp only [List.drop_zero, hfile, docBytes_eq, List.prefix_rfl]⟩
  obtain ⟨r₁, hrun₁, heats₁, hdoc₁⟩ := readExact_eats hfaces.left (docHdr_length doc)
  have h₁ := hfaces.right heats₁
  let r₂ : Reader := { r₁ with crc := some (crc32 (docHdrStart doc)) }
  have h₂ : Faces path (doc.fields.flatMap Field.pieces).flatten r₂ := ⟨h₁.clean, h₁.ahead⟩
  have hx₂ : Extends cfg r₂.st.doc doc.fields := by
    show Extends cfg r₁.st.doc doc.fields
    rwa [hdoc₁]
  obtain ⟨r', now, hrun, heats, hdoc⟩ := parseFields_extends h₂ hx₂
  have hcrc : r'.crc = some (docCrc doc) := by
    rw [heats.crc, docCrc, foldl_crc]
    rfl
  obtain ⟨hmagic, hversion, hcount, hcreated, hupdated, hstored, hstart⟩ :
      slice (docHdr doc) 0 4 = leBytes 4 DOC_MAGIC ∧ slice (docHdr doc) 4 2 = leBytes 2 DOC_VERSION ∧
        slice (docHdr doc) 6 2 = leBytes 2 doc.fields.length ∧
        slice (docHdr doc) 8 8 = leBytes 8 doc.createdMs.toNat ∧
        slice (docHdr doc) 16 8 = leBytes 8 doc.updatedMs.toNat ∧
        slice (docHdr doc) 24 4 = leBytes 4 (docCrc doc).toNat ∧ (docHdr doc).take 24 = docHdrStart doc :=
    slice_hdr _ _ _ _ _ _
  have hbound := cfg.maxFieldCount_le
  have hlen : doc.fields.length ≤ cfg.maxFieldCount := ht.maxFields ▸ ht.count
  have hcount' : leNat (leBytes 2 doc.fields.length) = doc.fields.length := leNat_leBytes_of_lt (by omega)
  have hversion' : leNat (leBytes 2 DOC_VERSION) = DOC_VERSION := by decide
  have hmagic' : leNat (leBytes 4 DOC_MAGIC) = DOC_MAGIC := by decide
  refine ⟨r', now, run_then hrun₁ ?_, ?_, heats₁.env.trans heats.env, ?_⟩
  · simp only [hmagic, hversion, hcount, hcreated, hupdated, hstored, DOC_HDR_CRC, hstart]
    rw [hcount', hversion', hmagic', if_neg (by decide), if_neg (by simp [DOC_VERSION, DOC_VERSION_V1]),
      if_neg (by decide)]
    refine run_then (t := r₂) rfl (run_then (t := r₂) rfl ?_)
    have hroom : ¬ r₂.st.doc.maxFields < doc.fields.length := by
      show ¬ r₁.st.doc.maxFields < doc.fields.length
      rw [hdoc₁]
      exact Nat.not_lt.mpr (hmax ▸ hlen)
    rw [if_neg hroom]
    refine run_then hrun (run_then (t := r') rfl ?_)
    rw [hcrc, leNat_leBytes_of_lt (docCrc doc).toNat_lt, leNat_leBytes_of_lt doc.createdMs.toNat_lt,
      leNat_leBytes_of_lt doc.updatedMs.toNat_lt]
    simp
  · rw [heats.pos]
    show r₁.pos + _ = _
    rw [heats₁.pos, docBytes_eq, List.length_append]
    simp [fieldsEmit]
  · rw [hdoc]
    show { r₁.st.doc with fields := r₁.st.doc.fields ++ doc.fields, updatedMs := now } = _
    rw [hdoc₁, hempty, List.nil_append]

end Contents

end ZephyrDB.Doc
