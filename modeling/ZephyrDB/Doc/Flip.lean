import ZephyrDB.Doc.Cut

/-!
A document file with one bit flipped. What a reader makes of a file whose parts
still have the lengths that their headers name, where it stops at one that has
not, and what the digest says about the rest.
-/

set_option autoImplicit false

namespace ZephyrDB.Doc

open Lib

variable {cfg : DocCfg} {path : Path}

inductive Payload (cfg : DocCfg) : Nat → Bytes → Prop
  | int64 {bs : Bytes} (len : bs.length = 8) : Payload cfg Value.INT64 bs
  | double {bs : Bytes} (len : bs.length = 8) : Payload cfg Value.DOUBLE bs
  | bool {bs : Bytes} (len : bs.length = 1) : Payload cfg Value.BOOL bs
  | string {len str : Bytes} (width : len.length = 4) (names : leNat len = str.length)
      (fits : str.length ≤ cfg.maxStringLen) : Payload cfg Value.STRING (len ++ str)
  | bytes {len data : Bytes} (width : len.length = 4) (names : leNat len = data.length)
      (fits : data.length ≤ cfg.maxBytesLen) : Payload cfg Value.BYTES (len ++ data)

/-- The three parts of a stored field. -/
structure Frame where
  hdr : Bytes
  name : Bytes
  payload : Bytes

def Frame.bytes (f : Frame) : Bytes := f.hdr ++ (f.name ++ f.payload)

structure Framed (cfg : DocCfg) (f : Frame) : Prop where
  width : f.hdr.length = DOC_FIELD_HDR_SIZE
  names : leNat (slice f.hdr 0 2) = f.name.length
  fits : f.name.length ≤ cfg.maxFieldNameLen
  named : (CString.ofBytes f.name).val ≠ []
  payload : Payload cfg (leNat (slice f.hdr 4 1)) f.payload

structure Roomy (n : Nat) (doc : Document) : Prop where
  valid : doc.valid = true
  room : doc.fields.length + n ≤ doc.maxFields

theorem ofBytes_length_le (bs : Bytes) : (CString.ofBytes bs).val.length ≤ bs.length :=
  (List.takeWhile_prefix _).length_le

theorem upsert_length_le (name : CString) (value : Value) (fields : List Field) :
    (upsert name value fields).length ≤ fields.length + 1 := by
  induction fields with
  | nil => exact Nat.le_refl _
  | cons field fields ih =>
    rw [upsert]
    split
    · exact Nat.le_succ _
    · exact Nat.succ_le_succ ih

theorem Fills.roomy {chunk : Bytes} {name : CString} {value : Value} {r r' : Reader} {n : Nat}
    (h : Fills cfg chunk name value r r') (hroom : Roomy (n + 1) r.st.doc) : Roomy n r'.st.doc := by
  obtain ⟨now, hdoc⟩ := h.doc
  have hlen := upsert_length_le name value r.st.doc.fields
  have hmax := hroom.room
  rw [hdoc]
  refine ⟨hroom.valid, ?_⟩
  show (upsert name value r.st.doc.fields).length + n ≤ r.st.doc.maxFields
  omega

theorem parseValue_framed {type : Nat} {payload : Bytes} (hp : Payload cfg type payload) {name : CString} {r : Reader}
    (h : Faces path payload r) (hable : Placeable cfg name r.st.doc) :
    ∃ value r', (parseValue cfg path name type).run r = .ok () r' ∧ Fills cfg payload name value r r' := by
  cases hp with
  | int64 len =>
    refine ⟨.int64 (UInt64.ofNat (leNat payload)).toInt64, ?_⟩
    exact @read_then_set _ _ _ _ _ [] _ _ _ (fun tmp => fieldSetI64 cfg name (UInt64.ofNat (leNat tmp)).toInt64)
      h len (Eats.nil r) rfl h.clean rfl hable trivial
  | double len =>
    refine ⟨.double (UInt64.ofNat (leNat payload)), ?_⟩
    exact @read_then_set _ _ _ _ _ [] _ _ _ (fun tmp => fieldSetF64 cfg name (UInt64.ofNat (leNat tmp)))
      h len (Eats.nil r) rfl h.clean rfl hable trivial
  | bool len =>
    refine ⟨.bool (leNat payload != 0), ?_⟩
    exact @read_then_set _ _ _ _ _ [] _ _ _ (fun tmp => fieldSetBool cfg name (leNat tmp != 0))
      h len (Eats.nil r) rfl h.clean rfl hable trivial
  | @string len str width names fits =>
    obtain ⟨r₁, hrun₁, heats₁, hdoc₁⟩ := readExact_eats h.left width
    have hadm : (Value.string (some (CString.ofBytes str))).Admitted cfg := (ofBytes_length_le str).trans fits
    obtain ⟨r', hrun, hfills⟩ := alloc_read_then_set (fun buf => fieldSetString cfg name (CString.ofBytes buf))
      (h.right heats₁) heats₁ hdoc₁ h.clean rfl hable hadm
    refine ⟨_, r', run_then hrun₁ ?_, hfills⟩
    rw [names, if_neg (Nat.not_lt.mpr fits)]
    exact hrun
  | @bytes len data width names fits =>
    obtain ⟨r₁, hrun₁, heats₁, hdoc₁⟩ := readExact_eats h.left width
    have hadm : (Value.bytes data).Admitted cfg := fits
    by_cases hempty : data = []
    · subst hempty
      obtain ⟨r', hset, hfills⟩ := fills_of_set heats₁ hdoc₁ h.clean hable hadm
      rw [List.append_nil]
      refine ⟨_, r', run_then hrun₁ ?_, hfills⟩
      rw [names, if_neg (Nat.not_lt.mpr fits), if_pos List.length_nil]
      exact hset
    · obtain ⟨r', hrun, hfills⟩ := alloc_read_then_set (fieldSetBytes cfg name)
        (h.right heats₁) heats₁ hdoc₁ h.clean rfl hable hadm
      refine ⟨_, r', run_then hrun₁ ?_, hfills⟩
      rw [names, if_neg (Nat.not_lt.mpr fits), if_neg (by simpa using hempty)]
      exact hrun

/-- These bytes are left of the file, and no call will fail. -/
structure Left (path : Path) (rest : Bytes) (r : Reader) : Prop where
  clean : r.st.env.Clean
  ahead : (r.st.env.contents path).drop r.pos = rest

theorem Left.faces {xs ys : Bytes} {r : Reader} (h : Left path (xs ++ ys) r) : Faces path xs r :=
  ⟨h.clean, by rw [h.ahead]; exact List.prefix_append xs ys⟩

theorem Left.past {xs ys : Bytes} {r r' : Reader} (h : Left path (xs ++ ys) r) (heats : Eats xs r r') : Left path ys r' := by
  refine ⟨heats.env.clean h.clean, ?_⟩
  rw [heats.env.contents, heats.pos, ← List.drop_drop, h.ahead, List.drop_left]

theorem parseField_named {hdr name rest : Bytes} {r : Reader} (h : Left path (hdr ++ (name ++ rest)) r)
    (hwidth : hdr.length = DOC_FIELD_HDR_SIZE) (hnames : leNat (slice hdr 0 2) = name.length) (hne : name ≠ [])
    (hfits : name.length ≤ cfg.maxFieldNameLen) :
    ∃ r₁, (parseField cfg path).run r = (parseValue cfg path (CString.ofBytes name) (leNat (slice hdr 4 1))).run r₁ ∧
      Eats (hdr ++ name) r r₁ ∧ Left path rest r₁ ∧ r₁.st.doc = r.st.doc := by
  obtain ⟨r₁, hrun₁, heats₁, hdoc₁⟩ := readExact_eats h.faces hwidth
  have h₁ := h.past heats₁
  have hk : Left path (name ++ rest) { r₁ with st := ⟨r₁.st.doc, r₁.st.env.next⟩ } :=
    @Left.past path [] _ _ _ h₁ (eats_next r₁)
  obtain ⟨r₂, hrun₂, heats₂, hdoc₂⟩ := readExact_eats hk.faces rfl
  have hall : Eats (hdr ++ name) r r₂ := heats₁.append (@Eats.append [] _ _ _ _ (eats_next r₁) heats₂)
  refine ⟨r₂, ?_, hall, hk.past heats₂, hdoc₂.trans hdoc₁⟩
  have hlen := List.length_pos_iff.mpr hne
  apply run_then hrun₁
  rw [hnames, if_neg (by simp only [Bool.or_eq_true, decide_eq_true_eq, not_or]; omega)]
  exact run_then (run_kMalloc_handle h₁.clean) (run_then hrun₂ rfl)

theorem Framed.ne {f : Frame} (h : Framed cfg f) : f.name ≠ [] := by
  rintro hnil
  have hnamed := h.named
  rw [hnil] at hnamed
  exact hnamed rfl

theorem parseField_framed {f : Frame} (hf : Framed cfg f) {rest : Bytes} {r : Reader} (h : Left path (f.bytes ++ rest) r)
    {n : Nat} (hroom : Roomy (n + 1) r.st.doc) :
    ∃ r', (parseField cfg path).run r = .ok () r' ∧ Eats f.bytes r r' ∧ Roomy n r'.st.doc := by
  have hsplit : f.bytes ++ rest = f.hdr ++ (f.name ++ (f.payload ++ rest)) := by simp [Frame.bytes]
  rw [hsplit] at h
  obtain ⟨r₁, hrun₁, heats₁, hleft, hdoc₁⟩ := @parseField_named cfg path _ _ _ _ h hf.width hf.names hf.ne hf.fits
  have hable : Placeable cfg (CString.ofBytes f.name) r₁.st.doc := by
    have hmax := hroom.room
    refine ⟨hdoc₁ ▸ hroom.valid, ⟨hf.named, (ofBytes_length_le f.name).trans hf.fits⟩, .inr ?_⟩
    rw [hdoc₁]
    omega
  obtain ⟨value, r', hrun, hfills⟩ := parseValue_framed hf.payload hleft.faces hable
  refine ⟨r', hrun₁.trans hrun, ?_, hfills.roomy (hdoc₁ ▸ hroom)⟩
  rw [Frame.bytes, ← List.append_assoc]
  exact heats₁.append hfills.eats

def Stops (cfg : DocCfg) (path : Path) (rest : Bytes) (status : Status) : Prop :=
  ∀ r, Left path rest r → ∃ r', (parseField cfg path).run r = .error status r'

theorem stops_end : Stops cfg path [] .ERR_CORRUPT := by
  intro r h
  refine ⟨r.next, run_fails ?_⟩
  rw [readExact_clean h.clean, slice, h.ahead, if_neg (by decide)]

theorem stops_nameLen {hdr rest : Bytes} (hwidth : hdr.length = DOC_FIELD_HDR_SIZE)
    (hbad : leNat (slice hdr 0 2) = 0 ∨ cfg.maxFieldNameLen < leNat (slice hdr 0 2) ∨ rest.length < leNat (slice hdr 0 2)) :
    Stops cfg path (hdr ++ rest) .ERR_CORRUPT := by
  intro r h
  obtain ⟨r₁, hrun₁, heats₁, -⟩ := readExact_eats h.faces hwidth
  have h₁ := h.past heats₁
  by_cases hrange : leNat (slice hdr 0 2) = 0 ∨ cfg.maxFieldNameLen < leNat (slice hdr 0 2)
  · refine ⟨r₁, run_then hrun₁ ?_⟩
    rw [if_pos (by simpa using hrange)]
    rfl
  · have hk : Left path rest r₁.next := @Left.past path [] _ _ _ h₁ (eats_next r₁)
    refine ⟨r₁.next.next, run_then hrun₁ ?_⟩
    rw [if_neg (by simpa using hrange)]
    apply run_then (run_kMalloc_handle h₁.clean)
    apply run_fails
    show (readExact path _).run r₁.next = _
    rw [readExact_clean hk.clean, slice, hk.ahead, if_neg (by rw [List.length_take]; omega)]

def KnownType (type : Nat) : Prop :=
  type = Value.INT64 ∨ type = Value.DOUBLE ∨ type = Value.BOOL ∨ type = Value.STRING ∨ type = Value.BYTES

theorem stops_type {f : Frame} {rest : Bytes} (hwidth : f.hdr.length = DOC_FIELD_HDR_SIZE)
    (hnames : leNat (slice f.hdr 0 2) = f.name.length) (hne : f.name ≠ []) (hfits : f.name.length ≤ cfg.maxFieldNameLen)
    (htype : ¬ KnownType (leNat (slice f.hdr 4 1))) : Stops cfg path (f.bytes ++ rest) .ERR_UNSUPPORTED := by
  intro r h
  have hsplit : f.bytes ++ rest = f.hdr ++ (f.name ++ (f.payload ++ rest)) := by simp [Frame.bytes]
  rw [hsplit] at h
  obtain ⟨r₁, hrun₁, -⟩ := @parseField_named cfg path _ _ _ _ h hwidth hnames hne hfits
  refine ⟨r₁, hrun₁.trans ?_⟩
  unfold KnownType at htype
  simp only [not_or] at htype
  obtain ⟨h1, h2, h3, h4, h5⟩ := htype
  unfold parseValue
  rw [if_neg h1, if_neg h2, if_neg h3, if_neg h4, if_neg h5]
  rfl

def lengthLimit (cfg : DocCfg) (type : Nat) : Option Nat :=
  if type = Value.STRING then some cfg.maxStringLen else if type = Value.BYTES then some cfg.maxBytesLen else none

theorem parseValue_misled {type limit : Nat} (hlimit : lengthLimit cfg type = some limit) {len rest : Bytes} {r : Reader}
    (h : Left path (len ++ rest) r) (hlen : len.length = 4) (hbad : limit < leNat len ∨ rest.length < leNat len)
    (name : CString) : ∃ r', (parseValue cfg path name type).run r = .error .ERR_CORRUPT r' := by
  obtain ⟨r₁, hrun₁, heats₁, -⟩ := readExact_eats h.faces hlen
  have h₁ := h.past heats₁
  have hk : Left path rest r₁.next := @Left.past path [] _ _ _ h₁ (eats_next r₁)
  have halloc : (onHandle (onEnv kMalloc)).run r₁ = .ok () r₁.next := run_kMalloc_handle h₁.clean
  have hread : rest.length < leNat len → (readExact path (leNat len)).run r₁.next = .error .ERR_CORRUPT r₁.next.next := by
    intro hshort
    rw [readExact_clean hk.clean, slice, hk.ahead, if_neg (by rw [List.length_take]; omega)]
  unfold lengthLimit at hlimit
  by_cases hstring : type = Value.STRING
  · rw [if_pos hstring] at hlimit
    rw [Option.some.inj hlimit.symm] at hbad
    subst hstring
    by_cases hlong : cfg.maxStringLen < leNat len
    · refine ⟨r₁, run_then hrun₁ ?_⟩
      rw [if_pos hlong]
      rfl
    · refine ⟨r₁.next.next, run_then hrun₁ ?_⟩
      rw [if_neg hlong]
      exact run_then halloc (run_fails (hread (hbad.resolve_left hlong)))
  · rw [if_neg hstring] at hlimit
    split at hlimit
    · rename_i hbytes
      rw [Option.some.inj hlimit.symm] at hbad
      subst hbytes
      by_cases hlong : cfg.maxBytesLen < leNat len
      · refine ⟨r₁, run_then hrun₁ ?_⟩
        rw [if_pos hlong]
        rfl
      · have hshort := hbad.resolve_left hlong
        refine ⟨r₁.next.next, run_then hrun₁ ?_⟩
        rw [if_neg hlong, if_neg (by omega)]
        exact run_then halloc (run_fails (hread hshort))
    · cases hlimit

theorem stops_length {f : Frame} {rest : Bytes} (hwidth : f.hdr.length = DOC_FIELD_HDR_SIZE)
    (hnames : leNat (slice f.hdr 0 2) = f.name.length) (hne : f.name ≠ []) (hfits : f.name.length ≤ cfg.maxFieldNameLen)
    {len tail : Bytes} (hpayload : f.payload = len ++ tail) (hlen : len.length = 4) {limit : Nat}
    (hlimit : lengthLimit cfg (leNat (slice f.hdr 4 1)) = some limit)
    (hbad : limit < leNat len ∨ (tail ++ rest).length < leNat len) : Stops cfg path (f.bytes ++ rest) .ERR_CORRUPT := by
  intro r h
  have hsplit : f.bytes ++ rest = f.hdr ++ (f.name ++ (len ++ (tail ++ rest))) := by simp [Frame.bytes, hpayload]
  rw [hsplit] at h
  obtain ⟨r₁, hrun₁, -, hleft, -⟩ := @parseField_named cfg path _ _ _ _ h hwidth hnames hne hfits
  obtain ⟨r', hfail⟩ := parseValue_misled hlimit hleft hlen hbad (CString.ofBytes f.name)
  exact ⟨r', hrun₁.trans hfail⟩

theorem parseFields_framed {frames : List Frame} (hf : ∀ f ∈ frames, Framed cfg f) {rest : Bytes} {r : Reader}
    (h : Left path (frames.flatMap Frame.bytes ++ rest) r) {n : Nat} (hroom : Roomy (frames.length + n) r.st.doc) (m : Nat) :
    ∃ r', Eats (frames.flatMap Frame.bytes) r r' ∧ Left path rest r' ∧ Roomy n r'.st.doc ∧
      (parseFields cfg path (frames.length + m)).run r = (parseFields cfg path m).run r' := by
  induction frames generalizing r with
  | nil => exact ⟨r, Eats.nil r, h, by simpa using hroom, by simp⟩
  | cons f frames ih =>
    rw [List.flatMap_cons] at h ⊢
    rw [List.append_assoc] at h
    have hroom' : Roomy (frames.length + n + 1) r.st.doc := by
      rw [List.length_cons, Nat.add_right_comm] at hroom
      exact hroom
    obtain ⟨r₁, hrun₁, heats₁, hroom₁⟩ := parseField_framed (hf f List.mem_cons_self) h hroom'
    obtain ⟨r', heats, hleft, hlast, hrest⟩ := ih (fun g hg => hf g (List.mem_cons_of_mem f hg)) (h.past heats₁) hroom₁
    refine ⟨r', heats₁.append heats, hleft, hlast, ?_⟩
    rw [List.length_cons, Nat.add_right_comm]
    exact (run_then hrun₁ rfl).trans hrest

structure Starts (hdr : Bytes) (count : Nat) : Prop where
  width : hdr.length = DOC_HDR_SIZE
  magic : leNat (slice hdr 0 4) = DOC_MAGIC
  version : leNat (slice hdr 4 2) = DOC_VERSION
  count : leNat (slice hdr 6 2) = count

def digestOf (hdr : Bytes) : UInt32 := UInt32.ofNat (leNat (slice hdr 24 4))

/-- What follows the header, and what the reader makes of it. -/
structure Opens (cfg : DocCfg) (hdr body : Bytes) (count : Nat) (r : Reader) : Prop where
  left : Left [] body r
  crc : r.crc = some (crc32 (hdr.take DOC_HDR_CRC))
  room : r.st.doc.fields = [] ∧ r.st.doc.valid = true ∧ r.st.doc.maxFields = cfg.maxFieldCount
  fails : ∀ {status r'}, (parseFields cfg [] count).run r = .error status r' → decode cfg (hdr ++ body) = .error status
  ends : ∀ {r'}, (parseFields cfg [] count).run r = .ok () r' → decode cfg (hdr ++ body) =
    if r'.crc.any (digestOf hdr != ·) then .error .ERR_CORRUPT
    else .ok ⟨r'.st.doc.fields, UInt64.ofNat (leNat (slice hdr 8 8)), UInt64.ofNat (leNat (slice hdr 16 8))⟩

theorem left_file (cfg : DocCfg) (text : Bytes) : Left [] text ⟨0, none, anyHandle cfg (quiet (AList.insert [] text ∅))⟩ :=
  ⟨quiet_clean _, contents_holding text⟩

theorem decode_nomem {hdr : Bytes} {count : Nat} (h : Starts hdr count) (body : Bytes) (hmany : cfg.maxFieldCount < count) :
    decode cfg (hdr ++ body) = .error .ERR_NOMEM := by
  obtain ⟨r₁, hrun₁, -, hdoc₁⟩ := readExact_eats (left_file cfg (hdr ++ body)).faces h.width
  have hrun : ∃ r, (parseContents cfg []).run ⟨0, none, anyHandle cfg (quiet (AList.insert [] (hdr ++ body) ∅))⟩ =
      .error .ERR_NOMEM r := by
    refine ⟨{ r₁ with crc := some (crc32 (hdr.take DOC_HDR_CRC)) }, run_then hrun₁ ?_⟩
    simp only [h.magic, h.version, h.count]
    rw [if_neg (by decide), if_neg (by simp [DOC_VERSION, DOC_VERSION_V1]), if_neg (by decide)]
    apply run_then rfl
    apply run_then rfl
    rw [if_pos]
    · rfl
    · show r₁.st.doc.maxFields < count
      rw [hdoc₁]
      exact hmany
  obtain ⟨r, hrun⟩ := hrun
  unfold decode
  rw [hrun]

theorem decode_opens {hdr : Bytes} {count : Nat} (h : Starts hdr count) (body : Bytes) (hfew : count ≤ cfg.maxFieldCount) :
    ∃ r, Opens cfg hdr body count r := by
  have hstart := left_file cfg (hdr ++ body)
  obtain ⟨r₁, hrun₁, heats₁, hdoc₁⟩ := readExact_eats hstart.faces h.width
  have hleft := hstart.past heats₁
  let r : Reader := { r₁ with crc := some (crc32 (hdr.take DOC_HDR_CRC)) }
  have hcontents : (parseContents cfg []).run ⟨0, none, anyHandle cfg (quiet (AList.insert [] (hdr ++ body) ∅))⟩ =
      (do
        parseFields cfg [] count
        if (← get).crc.any (digestOf hdr != ·) then throw .ERR_CORRUPT
        else return (UInt64.ofNat (leNat (slice hdr 8 8)), UInt64.ofNat (leNat (slice hdr 16 8))) : ReadM _).run r := by
    apply run_then hrun₁
    simp only [h.magic, h.version, h.count]
    rw [if_neg (by decide), if_neg (by simp [DOC_VERSION, DOC_VERSION_V1]), if_neg (by decide)]
    apply run_then rfl
    apply run_then rfl
    rw [if_neg]
    · rfl
    · show ¬ r₁.st.doc.maxFields < count
      rw [hdoc₁]
      exact Nat.not_lt.mpr hfew
  refine ⟨r, ⟨hleft.clean, hleft.ahead⟩, rfl, ?_, fun hrun => ?_, fun hrun => ?_⟩
  · show r₁.st.doc.fields = [] ∧ r₁.st.doc.valid = true ∧ r₁.st.doc.maxFields = _
    rw [hdoc₁]
    exact ⟨rfl, rfl, rfl⟩
  · unfold decode
    rw [hcontents, run_fails hrun]
  · rename_i r'
    have hlast : (do
        if (← get).crc.any (digestOf hdr != ·) then throw .ERR_CORRUPT
        else return (UInt64.ofNat (leNat (slice hdr 8 8)), UInt64.ofNat (leNat (slice hdr 16 8))) : ReadM _).run r' =
          if r'.crc.any (digestOf hdr != ·) then .error .ERR_CORRUPT r'
          else .ok (UInt64.ofNat (leNat (slice hdr 8 8)), UInt64.ofNat (leNat (slice hdr 16 8))) r' := by
      show (if r'.crc.any (digestOf hdr != ·) = true then _ else _ : ReadM _).run r' = _
      split <;> rfl
    unfold decode
    rw [hcontents, run_then hrun hlast]
    by_cases hcrc : r'.crc.any (digestOf hdr != ·) = true
    · rw [if_pos hcrc, if_pos hcrc]
    · rw [if_neg hcrc, if_neg hcrc]

theorem decode_framed {hdr : Bytes} {frames : List Frame} (h : Starts hdr frames.length) (hf : ∀ f ∈ frames, Framed cfg f)
    (hfew : frames.length ≤ cfg.maxFieldCount) (rest : Bytes) :
    let digest := crc32Update (crc32 (hdr.take DOC_HDR_CRC)) (frames.flatMap Frame.bytes)
    (digest ≠ digestOf hdr → decode cfg (hdr ++ (frames.flatMap Frame.bytes ++ rest)) = .error .ERR_CORRUPT) ∧
      (digest = digestOf hdr → ∃ snap, decode cfg (hdr ++ (frames.flatMap Frame.bytes ++ rest)) = .ok snap) := by
  intro digest
  obtain ⟨r, hopens⟩ := decode_opens h (frames.flatMap Frame.bytes ++ rest) hfew
  obtain ⟨hfields, hvalid, hmax⟩ := hopens.room
  have hroom : Roomy (frames.length + 0) r.st.doc := ⟨hvalid, by rw [hfields, hmax, List.length_nil]; omega⟩
  obtain ⟨r', heats, -, -, hrun⟩ := parseFields_framed hf hopens.left hroom 0
  have hcrc : r'.crc = some digest := by
    rw [heats.crc, hopens.crc]
    rfl
  have hends := hopens.ends (hrun.trans rfl)
  rw [hcrc, Option.any_some] at hends
  constructor
  · intro hne
    rw [hends, if_pos (by simpa using Ne.symm hne)]
  · intro heq
    rw [if_neg (by simp [heq])] at hends
    exact ⟨_, hends⟩

theorem decode_stops {hdr : Bytes} {count : Nat} (h : Starts hdr count) {frames : List Frame}
    (hf : ∀ f ∈ frames, Framed cfg f) (hcount : frames.length < count) (hfew : count ≤ cfg.maxFieldCount) {rest : Bytes}
    {status : Status} (hstops : Stops cfg [] rest status) :
    decode cfg (hdr ++ (frames.flatMap Frame.bytes ++ rest)) = .error status := by
  obtain ⟨r, hopens⟩ := decode_opens h (frames.flatMap Frame.bytes ++ rest) hfew
  obtain ⟨hfields, hvalid, hmax⟩ := hopens.room
  have hroom : Roomy (frames.length + 0) r.st.doc := ⟨hvalid, by rw [hfields, hmax, List.length_nil]; omega⟩
  obtain ⟨m, hm⟩ : ∃ m, count = frames.length + (m + 1) := ⟨count - frames.length - 1, by omega⟩
  obtain ⟨r', -, hleft, -, hrun⟩ := parseFields_framed hf hopens.left hroom (m + 1)
  obtain ⟨r'', hstop⟩ := hstops r' hleft
  have hfail : (parseFields cfg [] count).run r = .error status r'' := by
    rw [hm, hrun]
    exact run_fails hstop
  exact hopens.fails hfail

def Field.frame (field : Field) : Frame := ⟨fieldHdr field, field.name.val, field.value.pieces.flatten⟩

/-- The fields as they stand in a file. -/
def stream (fields : List Field) : Bytes := (fields.map Field.frame).flatMap Frame.bytes

theorem stream_eq (doc : Document) : (fieldsEmit doc).flatten = stream doc.fields := by
  unfold fieldsEmit stream
  induction doc.fields with
  | nil => rfl
  | cons field fields ih =>
    rw [List.flatMap_cons, List.flatten_append, ih, pieces_flatten, List.map_cons, List.flatMap_cons]
    rfl

theorem payload_pieces {value : Value} (h : value.Admitted cfg) : Payload cfg value.type value.pieces.flatten := by
  cases value with
  | int64 v => exact .int64 (by simp [Value.pieces])
  | double bits => exact .double (by simp [Value.pieces])
  | bool b => exact .bool (by simp [Value.pieces])
  | string str =>
    cases str with
    | none => exact absurd h id
    | some str =>
      have hmax := cfg.maxStringLen_le
      have hadm : str.val.length ≤ cfg.maxStringLen := h
      have hflat : (Value.string (some str)).pieces.flatten = leBytes 4 str.val.length ++ str.val := by simp [Value.pieces]
      rw [hflat]
      exact .string (leBytes_length 4 _) (leNat_leBytes_of_lt (by omega)) hadm
  | bytes data =>
    have hmax := cfg.maxBytesLen_le
    have hadm : data.length ≤ cfg.maxBytesLen := h
    have hflat : (Value.bytes data).pieces.flatten = leBytes 4 data.length ++ data := by simp [Value.pieces]
    rw [hflat]
    exact .bytes (leBytes_length 4 _) (leNat_leBytes_of_lt (by omega)) hadm

theorem Field.Admitted.framed {field : Field} (h : field.Admitted cfg) : Framed cfg field.frame := by
  obtain ⟨hne, hlen, hadm⟩ := h
  have hmax := cfg.maxFieldNameLen_le
  refine ⟨fieldHdr_length field, fieldHdr_nameLen (by omega), hlen, ?_, ?_⟩
  · show (CString.ofBytes field.name.val).val ≠ []
    rw [CString.ofBytes_val]
    exact hne
  · show Payload cfg (leNat (slice (fieldHdr field) 4 1)) _
    rw [fieldHdr_type]
    exact payload_pieces hadm

/-- One bit of a stored field is flipped. -/
def Frame.flip (f : Frame) (k : Nat) (bit : Fin 8) : Frame :=
  if k < f.hdr.length then { f with hdr := flipBit f.hdr k bit }
  else if k < f.hdr.length + f.name.length then { f with name := flipBit f.name (k - f.hdr.length) bit }
  else { f with payload := flipBit f.payload (k - f.hdr.length - f.name.length) bit }

theorem Frame.flip_bytes (f : Frame) (k : Nat) (bit : Fin 8) : (f.flip k bit).bytes = flipBit f.bytes k bit := by
  unfold Frame.flip Frame.bytes
  split
  · rename_i h
    rw [flipBit_append_left _ h]
  · rename_i h
    rw [flipBit_append_right _ (Nat.not_lt.mp h)]
    split
    · rename_i hn
      rw [flipBit_append_left _ (by omega)]
    · rename_i hn
      rw [flipBit_append_right _ (by omega)]

/-- The part of a document's file that a byte belongs to: one that the digest alone covers, the field count, or
one that steers the reader, with its place in the file. -/
inductive Place where
  | checked
  | count
  | nameLen (at_ : Nat)
  | type (at_ : Nat)
  | nameStart (at_ : Nat)
  | length (at_ limit : Nat)
  deriving DecidableEq

/-- The part of a field at this offset in it; the field stands at `at_` in the file. -/
def Field.placeAt (cfg : DocCfg) (field : Field) (at_ k : Nat) : Place :=
  if k < 2 then .nameLen at_
  else if k = 4 then .type (at_ + 4)
  else if k < 8 then .checked
  else if k = 8 then .nameStart (at_ + 8)
  else if k < 8 + field.name.val.length then .checked
  else
    match lengthLimit cfg field.value.type with
    | none => .checked
    | some limit =>
      if k < 8 + field.name.val.length + 4 then .length (at_ + 8 + field.name.val.length) limit else .checked

def fieldsPlaceAt (cfg : DocCfg) : List Field → Nat → Nat → Place
  | [], _, _ => .checked
  | field :: fields, at_, k =>
    let size := field.frame.bytes.length
    if k < size then field.placeAt cfg at_ k else fieldsPlaceAt cfg fields (at_ + size) (k - size)

/-- The part of a document's file at this offset. -/
def placeAt (cfg : DocCfg) (doc : Document) (i : Nat) : Place :=
  if i = 6 ∨ i = 7 then .count
  else if i < DOC_HDR_SIZE then .checked
  else fieldsPlaceAt cfg doc.fields DOC_HDR_SIZE (i - DOC_HDR_SIZE)

theorem flip_stream {fields : List Field} {k : Nat} (h : k < (stream fields).length) (bit : Fin 8) (at_ : Nat) :
    ∃ before field after j, fields = before ++ field :: after ∧ j < field.frame.bytes.length ∧
      fieldsPlaceAt cfg fields at_ k = field.placeAt cfg (at_ + (stream before).length) j ∧
      flipBit (stream fields) k bit = stream before ++ ((field.frame.flip j bit).bytes ++ stream after) := by
  induction fields generalizing k at_ with
  | nil => exact absurd h (Nat.not_lt_zero k)
  | cons field fields ih =>
    have hcons : ∀ fs, stream (field :: fs) = field.frame.bytes ++ stream fs := fun _ => rfl
    rw [hcons] at h ⊢
    by_cases hk : k < field.frame.bytes.length
    · refine ⟨[], field, fields, k, rfl, hk, ?_, ?_⟩
      · rw [fieldsPlaceAt]
        exact if_pos hk
      · rw [flipBit_append_left _ hk, Frame.flip_bytes]
        rfl
    · rw [List.length_append] at h
      obtain ⟨before, target, after, j, hsplit, hj, hplace, hflip⟩ := ih (k := k - field.frame.bytes.length) (by omega)
        (at_ + field.frame.bytes.length)
      refine ⟨field :: before, target, after, j, by rw [hsplit]; rfl, hj, ?_, ?_⟩
      · rw [fieldsPlaceAt]
        refine (if_neg hk).trans ?_
        rw [hplace, hcons, List.length_append, Nat.add_assoc]
      · rw [flipBit_append_right _ (Nat.not_lt.mp hk), hflip, hcons, List.append_assoc]

def Reads (path : Path) (r r' : Reader) : Prop :=
  ∀ rest, Left path rest r → ∃ chunk rest', rest = chunk ++ rest' ∧ Eats chunk r r' ∧ Left path rest' r'

theorem Reads.trans {r r' r'' : Reader} (h : Reads path r r') (k : Reads path r' r'') : Reads path r r'' := by
  intro rest hleft
  obtain ⟨chunk, rest', rfl, heats, hleft'⟩ := h rest hleft
  obtain ⟨chunk', rest'', rfl, heats', hleft''⟩ := k rest' hleft'
  exact ⟨chunk ++ chunk', rest'', (List.append_assoc _ _ _).symm, heats.append heats', hleft''⟩

theorem reads_handle {α : Type} {m : DocM α} {r r' : Reader} {a : α} (h : (onHandle m).run r = .ok a r')
    (hm : ∀ st, m.run r.st = .ok a st → Ticks r.st.env st.env) : Reads path r r' := by
  obtain ⟨st, hst, rfl⟩ := of_run_zoom h
  intro rest hleft
  have heats : Eats [] r { r with st := st } := by
    refine ⟨rfl, ?_, hm st hst⟩
    cases r.crc <;> simp
  exact ⟨[], rest, rfl, heats, @Left.past path [] rest _ _ hleft heats⟩

theorem reads_kMalloc {r r' : Reader} (h : (onHandle (onEnv kMalloc)).run r = .ok () r') : Reads path r r' := by
  apply reads_handle h
  intro st hst
  obtain ⟨e, he, rfl⟩ := of_run_onEnv hst
  rw [of_run_kMalloc he]
  exact ticks_next _

theorem reads_set {name : CString} {value : Value} {r r' : Reader}
    (h : (onHandle (fieldSet cfg name value)).run r = .ok () r') : Reads path r r' :=
  reads_handle h fun _ hst => (fieldSet_ok hst).env

theorem reads_readExact {len : Nat} {bs : Bytes} {r r' : Reader} (h : (readExact path len).run r = .ok bs r') :
    Reads path r r' := by
  intro rest hleft
  rw [readExact_clean hleft.clean] at h
  split at h
  · obtain ⟨rfl, rfl⟩ := EStateM.Result.ok.inj h
    have heats : Eats (slice (r.st.env.contents path) r.pos len) r (r.past (slice (r.st.env.contents path) r.pos len)) :=
      ⟨rfl, rfl, ticks_next _⟩
    have hsplit : rest = slice (r.st.env.contents path) r.pos len ++ rest.drop len := by
      rw [slice, hleft.ahead, List.take_append_drop]
    rw [hsplit] at hleft
    exact ⟨_, _, hsplit, heats, hleft.past heats⟩
  · cases h

theorem reads_value {name : CString} {type : Nat} {r r' : Reader} (h : (parseValue cfg path name type).run r = .ok () r') :
    Reads path r r' := by
  have hscalar : ∀ {len : Nat} {value : Bytes → Value},
      (readExact path len >>= fun tmp => onHandle (fieldSet cfg name (value tmp))).run r = .ok () r' → Reads path r r' := by
    intro len value h
    obtain ⟨tmp, u, hread, hset⟩ := of_run_bind h
    exact (reads_readExact hread).trans (reads_set hset)
  have halloc : ∀ {len : Nat} {value : Bytes → Value} {u : Reader},
      (onHandle (onEnv kMalloc) >>= fun _ => readExact path len >>= fun buf =>
        onHandle (fieldSet cfg name (value buf))).run u = .ok () r' → Reads path u r' := by
    intro len value u h
    obtain ⟨_, v, hmalloc, h⟩ := of_run_bind h
    obtain ⟨buf, w, hread, hset⟩ := of_run_bind h
    exact (reads_kMalloc hmalloc).trans ((reads_readExact hread).trans (reads_set hset))
  unfold parseValue at h
  split at h
  · exact @hscalar 8 (fun tmp => .int64 (UInt64.ofNat (leNat tmp)).toInt64) h
  split at h
  · exact @hscalar 8 (fun tmp => .double (UInt64.ofNat (leNat tmp))) h
  split at h
  · exact @hscalar 1 (fun tmp => .bool (leNat tmp != 0)) h
  split at h
  · obtain ⟨len, u, hread, h⟩ := of_run_bind h
    dsimp only at h
    split at h
    · cases h
    · exact (reads_readExact hread).trans (@halloc _ (fun buf => .string (some (CString.ofBytes buf))) _ h)
  split at h
  · obtain ⟨len, u, hread, h⟩ := of_run_bind h
    dsimp only at h
    split at h
    · cases h
    split at h
    · exact (reads_readExact hread).trans (@reads_set cfg path name (.bytes []) _ _ h)
    · exact (reads_readExact hread).trans (@halloc _ Value.bytes _ h)
  · cases h

theorem reads_field {r r' : Reader} (h : (parseField cfg path).run r = .ok () r') : Reads path r r' := by
  obtain ⟨hdr, u, hread, h⟩ := of_run_bind h
  dsimp only at h
  split at h
  · cases h
  · obtain ⟨_, v, hmalloc, h⟩ := of_run_bind h
    obtain ⟨name, w, hname, h⟩ := of_run_bind h
    exact (reads_readExact hread).trans ((reads_kMalloc hmalloc).trans ((reads_readExact hname).trans (reads_value h)))

theorem reads_fields {n : Nat} {r r' : Reader} (h : (parseFields cfg path n).run r = .ok () r') : Reads path r r' := by
  induction n generalizing r with
  | zero =>
    cases h
    exact fun rest hleft => ⟨[], rest, rfl, Eats.nil _, hleft⟩
  | succ n ih =>
    obtain ⟨_, u, hfield, h⟩ := of_run_bind h
    exact (reads_field hfield).trans (ih h)

theorem decode_digest {hdr body : Bytes} {count : Nat} (h : Starts hdr count) {snap : Snapshot}
    (hok : decode cfg (hdr ++ body) = .ok snap) :
    ∃ chunk rest, body = chunk ++ rest ∧ crc32Update (crc32 (hdr.take DOC_HDR_CRC)) chunk = digestOf hdr := by
  by_cases hmany : cfg.maxFieldCount < count
  · rw [decode_nomem h body hmany] at hok
    cases hok
  obtain ⟨r, hopens⟩ := @decode_opens cfg _ _ h body (Nat.le_of_not_lt hmany)
  cases hrun : (parseFields cfg [] count).run r with
  | error status r' =>
    rw [hopens.fails hrun] at hok
    cases hok
  | ok _ r' =>
    obtain ⟨chunk, rest, hsplit, heats, -⟩ := reads_fields hrun body hopens.left
    have hcrc : r'.crc = some (crc32Update (crc32 (hdr.take DOC_HDR_CRC)) chunk) := by
      rw [heats.crc, hopens.crc]
      rfl
    rw [hopens.ends hrun, hcrc, Option.any_some] at hok
    split at hok
    · cases hok
    · rename_i hsame
      exact ⟨chunk, rest, hsplit, (by simpa using hsame : digestOf hdr = _).symm⟩

theorem decode_badHeader {hdr : Bytes} (hwidth : hdr.length = DOC_HDR_SIZE) (body : Bytes)
    (hbad : leNat (slice hdr 0 4) ≠ DOC_MAGIC ∨
      (leNat (slice hdr 4 2) ≠ DOC_VERSION ∧ leNat (slice hdr 4 2) ≠ DOC_VERSION_V1)) :
    decode cfg (hdr ++ body) = .error .ERR_CORRUPT := by
  obtain ⟨r₁, hrun₁, -⟩ := readExact_eats (left_file cfg (hdr ++ body)).faces hwidth
  have hrun : (parseContents cfg []).run ⟨0, none, anyHandle cfg (quiet (AList.insert [] (hdr ++ body) ∅))⟩ =
      .error .ERR_CORRUPT r₁ := by
    apply run_then hrun₁
    rw [if_pos (by simpa using hbad)]
    rfl
  unfold decode
  rw [hrun]

structure Heads (doc : Document) : Prop where
  starts : Starts (docHdr doc) doc.fields.length
  version : slice (docHdr doc) 4 2 = [2, 0]
  digest : digestOf (docHdr doc) = crc32Update (crc32 ((docHdr doc).take DOC_HDR_CRC)) (stream doc.fields)

theorem docHdr_heads {doc : Document} (ht : Tidy cfg doc) : Heads doc := by
  obtain ⟨hmagic, hversion, hcount, -, -, hstored, hstart⟩ :
      slice (docHdr doc) 0 4 = leBytes 4 DOC_MAGIC ∧ slice (docHdr doc) 4 2 = leBytes 2 DOC_VERSION ∧
        slice (docHdr doc) 6 2 = leBytes 2 doc.fields.length ∧
        slice (docHdr doc) 8 8 = leBytes 8 doc.createdMs.toNat ∧
        slice (docHdr doc) 16 8 = leBytes 8 doc.updatedMs.toNat ∧
        slice (docHdr doc) 24 4 = leBytes 4 (docCrc doc).toNat ∧ (docHdr doc).take 24 = docHdrStart doc :=
    slice_hdr _ _ _ _ _ _
  have hbound := cfg.maxFieldCount_le
  have hlen : doc.fields.length ≤ cfg.maxFieldCount := ht.maxFields ▸ ht.count
  refine ⟨⟨docHdr_length doc, ?_, ?_, ?_⟩, hversion, ?_⟩
  · rw [hmagic]
    decide
  · rw [hversion]
    decide
  · rw [hcount, leNat_leBytes_of_lt (by omega)]
  · rw [digestOf, hstored, leNat_leBytes_of_lt (docCrc doc).toNat_lt, UInt32.ofNat_toNat, DOC_HDR_CRC, hstart, docCrc,
      foldl_crc, stream_eq]

theorem leNat_slice_flipBit {bs : Bytes} {i off len : Nat} (hlo : off ≤ i) (hhi : i < off + len) (hin : i < bs.length)
    (bit : Fin 8) : leNat (slice (flipBit bs i bit) off len) ≠ leNat (slice bs off len) := by
  rw [slice_flipBit_inside bit hlo]
  exact leNat_flipBit bit (by rw [slice_length]; omega)

/-- What an open makes of a file with a flipped bit, by the part of the file that the bit is in. -/
def Promised {α : Type} (cfg : DocCfg) (fieldCount : Nat) (text : Bytes) (r : Except Status α) : Place → Prop
  | .checked => r = .error .ERR_CORRUPT
  | .count =>
    let count := leNat (slice text 6 2)
    (cfg.maxFieldCount < count → r = .error .ERR_NOMEM) ∧
      (fieldCount < count → count ≤ cfg.maxFieldCount → r = .error .ERR_CORRUPT) ∧
      (count < fieldCount → r = .error .ERR_CORRUPT ∨ ∃ a, r = .ok a)
  | .nameLen at_ =>
    let len := leNat (slice text at_ 2)
    len = 0 ∨ cfg.maxFieldNameLen < len ∨ text.length < at_ + DOC_FIELD_HDR_SIZE + len → r = .error .ERR_CORRUPT
  | .type at_ => ¬ KnownType (leNat (slice text at_ 1)) → r = .error .ERR_UNSUPPORTED
  | .nameStart at_ => slice text at_ 1 ≠ [0] → r = .error .ERR_CORRUPT
  | .length at_ limit =>
    let len := leNat (slice text at_ 4)
    limit < len ∨ text.length < at_ + 4 + len → r = .error .ERR_CORRUPT

theorem Promised.map {α β : Type} {n : Nat} {text : Bytes} {r : Except Status α} {place : Place}
    (h : Promised cfg n text r place) (f : α → β) : Promised cfg n text (r.map f) place := by
  have herror : ∀ {status}, r = .error status → r.map f = .error status := by
    rintro status rfl
    rfl
  cases place with
  | checked => exact herror h
  | count =>
    obtain ⟨hmany, hmore, hfewer⟩ := h
    refine ⟨fun hc => herror (hmany hc), fun hc hle => herror (hmore hc hle), fun hc => ?_⟩
    rcases hfewer hc with h | ⟨a, rfl⟩
    · exact .inl (herror h)
    · exact .inr ⟨f a, rfl⟩
  | nameLen at_ => exact fun hbad => herror (h hbad)
  | type at_ => exact fun hbad => herror (h hbad)
  | nameStart at_ => exact fun hbad => herror (h hbad)
  | length at_ limit => exact fun hbad => herror (h hbad)

/-- The reader has taken other bytes for the document: it stopped before the end of the file, and the digest
of what it read happens to be the stored one. -/
def Mistaken (text : Bytes) : Prop :=
  ∃ n, DOC_HDR_SIZE + n < text.length ∧
    crc32Update (crc32 (text.take DOC_HDR_CRC)) (slice text DOC_HDR_SIZE n) = digestOf text

section Flipped
variable {doc : Document}

theorem framed_fields (ht : Tidy cfg doc) : ∀ f ∈ doc.fields.map Field.frame, Framed cfg f := by
  intro f hf
  obtain ⟨field, hfield, rfl⟩ := List.mem_map.mp hf
  exact (ht.admitted field hfield).framed

theorem Tidy.few (ht : Tidy cfg doc) : doc.fields.length ≤ cfg.maxFieldCount := ht.maxFields ▸ ht.count

theorem decode_otherHeader (ht : Tidy cfg doc) {hdr : Bytes} (h : Starts hdr doc.fields.length)
    (hne : crc32Update (crc32 (hdr.take DOC_HDR_CRC)) (stream doc.fields) ≠ digestOf hdr) :
    decode cfg (hdr ++ stream doc.fields) = .error .ERR_CORRUPT := by
  have hcount : (doc.fields.map Field.frame).length = doc.fields.length := List.length_map _
  have hframed := (decode_framed (hcount ▸ h) (framed_fields ht) (hcount ▸ ht.few) []).1 hne
  rwa [List.append_nil] at hframed

theorem decode_otherCount (ht : Tidy cfg doc) {hdr : Bytes} {count : Nat} (h : Starts hdr count) :
    Promised cfg doc.fields.length (hdr ++ stream doc.fields) (decode cfg (hdr ++ stream doc.fields)) .count := by
  have hcount : leNat (slice (hdr ++ stream doc.fields) 6 2) = count := by
    rw [slice_append_left _ _ _ _ (by rw [h.width]; decide), h.count]
  refine ⟨fun hmany => ?_, fun hmore hfew => ?_, fun hfewer => ?_⟩ <;> rw [hcount] at *
  · exact decode_nomem h _ hmany
  · -- the fields that are not there cannot be read
    have hstops := decode_stops h (framed_fields ht) (by rwa [List.length_map]) hfew stops_end
    rwa [List.append_nil] at hstops
  · have hlen : ((doc.fields.map Field.frame).take count).length = count := by
      rw [List.length_take, List.length_map]
      omega
    have hsplit : stream doc.fields =
        ((doc.fields.map Field.frame).take count).flatMap Frame.bytes ++
          ((doc.fields.map Field.frame).drop count).flatMap Frame.bytes := by
      rw [← List.flatMap_append, List.take_append_drop]
      rfl
    obtain ⟨hne, heq⟩ := decode_framed (hlen ▸ h) (fun f hf => framed_fields ht f (List.mem_of_mem_take hf))
      (by rw [hlen]; exact hfewer.le.trans ht.few) (((doc.fields.map Field.frame).drop count).flatMap Frame.bytes)
    rw [hsplit]
    exact (Classical.em _).symm.imp hne heq

theorem digest_flipBit {hdr : Bytes} {i : Nat} (hi : i < DOC_HDR_CRC) (hin : i < hdr.length) (bit : Fin 8) (bs : Bytes) :
    crc32Update (crc32 ((flipBit hdr i bit).take DOC_HDR_CRC)) bs ≠ crc32Update (crc32 (hdr.take DOC_HDR_CRC)) bs := by
  have htake : (flipBit hdr i bit).take DOC_HDR_CRC = flipBit (hdr.take DOC_HDR_CRC) i bit := by
    have hinside := @slice_flipBit_inside hdr i bit 0 DOC_HDR_CRC (Nat.zero_le i)
    simpa [slice] using hinside
  rw [htake]
  refine (crc32Update_injective _).ne (crc32Update_flipBit bit _ ?_)
  rw [List.length_take]
  omega

theorem decode_headerFlip (ht : Tidy cfg doc) {i : Nat} (hi : i < DOC_HDR_SIZE) (bit : Fin 8) :
    Promised cfg doc.fields.length (flipBit (docBytes doc) i bit) (decode cfg (flipBit (docBytes doc) i bit))
      (placeAt cfg doc i) := by
  have hheads := docHdr_heads ht
  have hwidth := hheads.starts.width
  have hin : i < (docHdr doc).length := by rw [hwidth]; exact hi
  obtain ⟨hdr, hhdr⟩ : ∃ hdr, hdr = flipBit (docHdr doc) i bit := ⟨_, rfl⟩
  have hwidth' : hdr.length = DOC_HDR_SIZE := by rw [hhdr, flipBit_length, hwidth]
  have hbytes : flipBit (docBytes doc) i bit = hdr ++ stream doc.fields := by
    rw [docBytes_eq, stream_eq, flipBit_append_left _ hin, hhdr]
  have hsame : ∀ {off len}, i < off ∨ off + len ≤ i → slice hdr off len = slice (docHdr doc) off len := fun h => by
    rw [hhdr, slice_flipBit bit h]
  have hother : ∀ {off len}, off ≤ i → i < off + len → leNat (slice hdr off len) ≠ leNat (slice (docHdr doc) off len) :=
    fun hlo hhi => by
      rw [hhdr]
      exact leNat_slice_flipBit hlo hhi hin bit
  rw [hbytes]
  unfold placeAt
  by_cases hcount : i = 6 ∨ i = 7
  · rw [if_pos hcount]
    refine decode_otherCount ht ⟨hwidth', ?_, ?_, rfl⟩
    · rw [hsame (.inr (by omega)), hheads.starts.magic]
    · rw [hsame (.inr (by omega)), hheads.starts.version]
  rw [if_neg hcount, if_pos hi]
  show decode cfg _ = .error .ERR_CORRUPT
  by_cases hmagic : i < 4
  · refine decode_badHeader hwidth' _ (.inl ?_)
    rw [← hheads.starts.magic]
    exact hother (Nat.zero_le i) (by omega)
  have hmagic' : leNat (slice hdr 0 4) = DOC_MAGIC := by rw [hsame (.inr (by omega)), hheads.starts.magic]
  by_cases hversion : i < 6
  · -- no single flip takes version 2 to version 1
    have hflips : ∀ k < 2, ∀ bit : Fin 8,
        leNat (flipBit [2, 0] k bit) ≠ DOC_VERSION ∧ leNat (flipBit [2, 0] k bit) ≠ DOC_VERSION_V1 := by decide
    refine decode_badHeader hwidth' _ (.inr ?_)
    rw [hhdr, slice_flipBit_inside bit (by omega), hheads.version]
    exact hflips (i - 4) (by omega) bit
  have hstarts : Starts hdr doc.fields.length := by
    refine ⟨hwidth', hmagic', ?_, ?_⟩
    · rw [hsame (.inr (by omega)), hheads.starts.version]
    · rw [hsame (.inr (by omega)), hheads.starts.count]
  apply decode_otherHeader ht hstarts
  by_cases htimes : i < DOC_HDR_CRC
  · -- the digest is of other bytes
    have hdigest : digestOf hdr = digestOf (docHdr doc) := by
      rw [digestOf, digestOf, @hsame 24 4 (.inl htimes)]
    rw [hdigest, hheads.digest, hhdr]
    exact digest_flipBit htimes hin bit _
  · -- the digest itself has changed
    have htake : hdr.take DOC_HDR_CRC = (docHdr doc).take DOC_HDR_CRC := by
      have hoff := @hsame 0 DOC_HDR_CRC (.inr (by omega))
      simpa [slice] using hoff
    have hstored := @hother 24 4 (Nat.not_lt.mp htimes) hi
    rw [htake, ← hheads.digest]
    intro heq
    have hsmall : ∀ bs : Bytes, leNat (slice bs 24 4) < 2 ^ 32 := fun bs => by
      have hlt := leNat_lt (slice bs 24 4)
      have hle : (slice bs 24 4).length ≤ 4 := List.length_take_le _ _
      exact lt_of_lt_of_le hlt (Nat.pow_le_pow_right (by decide) hle)
    have hnat := congrArg UInt32.toNat heq
    rw [digestOf, digestOf, UInt32.toNat_ofNat', UInt32.toNat_ofNat', Nat.mod_eq_of_lt (hsmall _),
      Nat.mod_eq_of_lt (hsmall _)] at hnat
    exact hstored hnat.symm

theorem Payload.flip {type : Nat} {payload : Bytes} (h : Payload cfg type payload) {m : Nat}
    (hfree : lengthLimit cfg type = none ∨ 4 ≤ m) (bit : Fin 8) : Payload cfg type (flipBit payload m bit) := by
  cases h with
  | int64 len => exact .int64 (by rw [flipBit_length, len])
  | double len => exact .double (by rw [flipBit_length, len])
  | bool len => exact .bool (by rw [flipBit_length, len])
  | string width names fits =>
    have hm : 4 ≤ m := hfree.resolve_left nofun
    rw [flipBit_append_right bit (by rw [width]; exact hm)]
    exact .string width (by rw [flipBit_length, names]) (by rw [flipBit_length]; exact fits)
  | bytes width names fits =>
    have hm : 4 ≤ m := hfree.resolve_left nofun
    rw [flipBit_append_right bit (by rw [width]; exact hm)]
    exact .bytes width (by rw [flipBit_length, names]) (by rw [flipBit_length]; exact fits)

theorem Payload.prefixed {type limit : Nat} {payload : Bytes} (h : Payload cfg type payload)
    (hlimit : lengthLimit cfg type = some limit) : ∃ len tail, payload = len ++ tail ∧ len.length = 4 := by
  cases h with
  | int64 len => cases hlimit
  | double len => cases hlimit
  | bool len => cases hlimit
  | @string len str width names fits => exact ⟨len, str, rfl, width⟩
  | @bytes len data width names fits => exact ⟨len, data, rfl, width⟩

theorem ofBytes_ne_nil {bs : Bytes} : (CString.ofBytes bs).val ≠ [] ↔ bs ≠ [] ∧ slice bs 0 1 ≠ [0] := by
  cases bs with
  | nil => simp [CString.ofBytes]
  | cons b bs =>
    by_cases hb : b = 0
    · simp [CString.ofBytes, slice, hb]
    · simp [CString.ofBytes, slice, hb]

theorem slice_middle (before mid after : Bytes) {off len : Nat} (h : off + len ≤ mid.length) :
    slice (before ++ (mid ++ after)) (before.length + off) len = slice mid off len := by
  rw [slice_append_right _ _ _ _ (Nat.le_add_right _ _), Nat.add_sub_cancel_left, slice_append_left _ _ _ _ h]

theorem decode_framedFlip (ht : Tidy cfg doc) {before after : List Field} {field : Field} (hdoc : doc.fields = before ++ field :: after)
    {frame : Frame} (hframe : Framed cfg frame) {k : Nat} (hk : k < (stream doc.fields).length) {bit : Fin 8}
    (hflip : flipBit (stream doc.fields) k bit = stream before ++ (frame.bytes ++ stream after)) :
    decode cfg (docHdr doc ++ flipBit (stream doc.fields) k bit) = .error .ERR_CORRUPT := by
  have hheads := docHdr_heads ht
  let frames := before.map Field.frame ++ frame :: after.map Field.frame
  have hframes : frames.flatMap Frame.bytes = flipBit (stream doc.fields) k bit := by
    rw [hflip, List.flatMap_append, List.flatMap_cons]
    rfl
  have hlen : frames.length = doc.fields.length := by
    rw [hdoc]
    simp [frames]
  have hall : ∀ f ∈ frames, Framed cfg f := by
    have hfields := framed_fields ht
    rw [hdoc, List.map_append, List.map_cons] at hfields
    intro f hf
    rcases List.mem_append.mp hf with hf | hf
    · exact hfields f (List.mem_append_left _ hf)
    · rcases List.mem_cons.mp hf with rfl | hf
      · exact hframe
      · exact hfields f (List.mem_append_right _ (List.mem_cons_of_mem _ hf))
  have hdecode := (decode_framed (hlen ▸ hheads.starts) hall (hlen ▸ ht.few) []).1 (by
    rw [hframes, hheads.digest]
    exact crc32Update_flipBit bit _ hk)
  rwa [List.append_nil, hframes] at hdecode

theorem decode_stoppedFlip (ht : Tidy cfg doc) {before after : List Field} {field : Field} (hdoc : doc.fields = before ++ field :: after)
    {rest : Bytes} {status : Status} (hstops : Stops cfg [] rest status) :
    decode cfg (docHdr doc ++ (stream before ++ rest)) = .error status := by
  refine decode_stops (docHdr_heads ht).starts (fun f hf => ?_) ?_ ht.few hstops
  · apply framed_fields ht f
    rw [hdoc, List.map_append]
    exact List.mem_append_left _ hf
  · rw [List.length_map, hdoc, List.length_append, List.length_cons]
    omega

structure Damaged (cfg : DocCfg) (text : Bytes) (at_ : Nat) (frame : Frame) (rest : Bytes) : Prop where
  framed : Framed cfg frame → decode cfg text = .error .ERR_CORRUPT
  stopped : ∀ {status}, Stops cfg [] (frame.bytes ++ rest) status → decode cfg text = .error status
  part : ∀ {off len}, off + len ≤ frame.bytes.length → slice text (at_ + off) len = slice frame.bytes off len
  size : text.length = at_ + (frame.bytes ++ rest).length

variable {text rest : Bytes} {at_ j : Nat} {bit : Fin 8} {frame : Frame}

theorem damaged_hdr (hf : Framed cfg frame) (w : Damaged cfg text at_ ⟨flipBit frame.hdr j bit, frame.name, frame.payload⟩ rest)
    (hj : j < 8) (n : Nat) : Promised cfg n text (decode cfg text)
      (if j < 2 then .nameLen at_ else if j = 4 then .type (at_ + 4) else .checked) := by
  have hwidth : (flipBit frame.hdr j bit).length = DOC_FIELD_HDR_SIZE := by rw [flipBit_length, hf.width]
  have hpart : ∀ {off len}, off + len ≤ 8 → slice text (at_ + off) len = slice (flipBit frame.hdr j bit) off len := by
    intro off len h
    have hin : off + len ≤ (flipBit frame.hdr j bit).length := hwidth ▸ h
    refine (w.part (hin.trans ?_)).trans (slice_append_left _ _ _ _ hin)
    exact (List.prefix_append (flipBit frame.hdr j bit) _).length_le
  have hsame : ∀ {off len}, j < off ∨ off + len ≤ j → slice (flipBit frame.hdr j bit) off len = slice frame.hdr off len :=
    fun h => slice_flipBit bit h
  by_cases hlen : j < 2
  · rw [if_pos hlen]
    intro hbad
    have hread : slice text at_ 2 = slice (flipBit frame.hdr j bit) 0 2 := @hpart 0 2 (by decide)
    have hsplit : Frame.bytes ⟨flipBit frame.hdr j bit, frame.name, frame.payload⟩ ++ rest =
        flipBit frame.hdr j bit ++ (frame.name ++ frame.payload ++ rest) := by simp [Frame.bytes]
    apply w.stopped
    rw [hsplit]
    apply stops_nameLen hwidth
    rw [← hread]
    apply hbad.imp_right
    apply Or.imp_right
    intro hshort
    rw [w.size, hsplit, List.length_append, hwidth] at hshort
    omega
  rw [if_neg hlen]
  have hnames : leNat (slice (flipBit frame.hdr j bit) 0 2) = frame.name.length := by
    rw [hsame (.inr (by omega)), hf.names]
  by_cases htype : j = 4
  · rw [if_pos htype]
    intro hunknown
    rw [hpart (by decide)] at hunknown
    exact w.stopped (stops_type hwidth hnames hf.ne hf.fits hunknown)
  · -- the digest alone covers the reserved bytes
    rw [if_neg htype]
    refine w.framed ⟨hwidth, hnames, hf.fits, hf.named, ?_⟩
    show Payload cfg (leNat (slice (flipBit frame.hdr j bit) 4 1)) frame.payload
    rw [hsame (by omega)]
    exact hf.payload

theorem damaged_name (hf : Framed cfg frame) (w : Damaged cfg text at_ ⟨frame.hdr, flipBit frame.name j bit, frame.payload⟩ rest)
    (n : Nat) : Promised cfg n text (decode cfg text) (if j = 0 then .nameStart (at_ + 8) else .checked) := by
  have hlen := List.length_pos_iff.mpr hf.ne
  have hframed : slice (flipBit frame.name j bit) 0 1 ≠ [0] → decode cfg text = .error .ERR_CORRUPT := by
    intro hstart
    refine w.framed ⟨hf.width, ?_, ?_, ofBytes_ne_nil.mpr ⟨?_, hstart⟩, hf.payload⟩
    · rw [flipBit_length, hf.names]
    · rw [flipBit_length]
      exact hf.fits
    · exact List.length_pos_iff.mp (by rw [flipBit_length]; exact hlen)
  by_cases hj : j = 0
  · rw [if_pos hj]
    intro hstart
    apply hframed
    have hwidth : frame.hdr.length = 8 := hf.width
    have hin : 0 + 1 ≤ (flipBit frame.name j bit).length := by rw [flipBit_length]; exact hlen
    have hpart := @Damaged.part _ _ _ _ _ w 8 1 (by
      simp only [Frame.bytes, List.length_append, flipBit_length, hwidth]
      omega)
    have hread := slice_middle frame.hdr (flipBit frame.name j bit) frame.payload hin
    rw [hwidth] at hread
    rwa [hpart, Frame.bytes, hread] at hstart
  · -- what comes after its first byte cannot empty a name
    rw [if_neg hj]
    apply hframed
    rw [slice_flipBit bit (.inr (by omega))]
    exact (ofBytes_ne_nil.mp hf.named).2

theorem damaged_payload (hf : Framed cfg frame) (w : Damaged cfg text at_ ⟨frame.hdr, frame.name, flipBit frame.payload j bit⟩ rest)
    (n : Nat) : Promised cfg n text (decode cfg text)
      (match lengthLimit cfg (leNat (slice frame.hdr 4 1)) with
        | none => .checked
        | some limit => if j < 4 then .length (at_ + 8 + frame.name.length) limit else .checked) := by
  have hframed : lengthLimit cfg (leNat (slice frame.hdr 4 1)) = none ∨ 4 ≤ j → decode cfg text = .error .ERR_CORRUPT :=
    fun hfree => w.framed ⟨hf.width, hf.names, hf.fits, hf.named, hf.payload.flip hfree bit⟩
  cases hlimit : lengthLimit cfg (leNat (slice frame.hdr 4 1)) with
  | none => exact hframed (.inl hlimit)
  | some limit =>
    by_cases hj : j < 4
    · simp only [if_pos hj]
      intro hbad
      obtain ⟨pre, tail, hpayload, hpre⟩ := hf.payload.prefixed hlimit
      have hflip : flipBit frame.payload j bit = flipBit pre j bit ++ tail := by
        rw [hpayload, flipBit_append_left bit (by rw [hpre]; exact hj)]
      have hpre' : (flipBit pre j bit).length = 4 := by rw [flipBit_length, hpre]
      have hwidth : frame.hdr.length = 8 := hf.width
      have hsplit : Frame.bytes ⟨frame.hdr, frame.name, flipBit frame.payload j bit⟩ =
          (frame.hdr ++ frame.name) ++ (flipBit pre j bit ++ tail) := by
        simp [Frame.bytes, hflip]
      have hread : slice text (at_ + 8 + frame.name.length) 4 = flipBit pre j bit := by
        have hpart := @Damaged.part _ _ _ _ _ w (8 + frame.name.length) 4 (by
          rw [hsplit, List.length_append, List.length_append, List.length_append, hpre', hwidth]
          omega)
        have hin : 0 + 4 ≤ (flipBit pre j bit).length := hpre'.ge
        have hmiddle := slice_middle (frame.hdr ++ frame.name) (flipBit pre j bit) tail hin
        rw [List.length_append, hwidth, Nat.add_zero] at hmiddle
        rw [Nat.add_assoc, hpart, hsplit, hmiddle, ← hpre', slice_all]
      refine w.stopped (stops_length hf.width hf.names hf.ne hf.fits hflip hpre' hlimit ?_)
      rw [← hread]
      apply hbad.imp_right
      intro hshort
      rw [w.size, hsplit] at hshort
      simp only [List.length_append, hwidth, hpre'] at hshort ⊢
      omega
    · simp only [if_neg hj]
      exact hframed (.inr (Nat.le_of_not_lt hj))

theorem decode_fieldFlip (ht : Tidy cfg doc) {k : Nat} (hk : k < (stream doc.fields).length) (bit : Fin 8) :
    let text := docHdr doc ++ flipBit (stream doc.fields) k bit
    Promised cfg doc.fields.length text (decode cfg text) (fieldsPlaceAt cfg doc.fields DOC_HDR_SIZE k) := by
  intro text
  obtain ⟨before, field, after, j, hdoc, hj, hplace, hflip⟩ := @flip_stream cfg _ _ hk bit DOC_HDR_SIZE
  have hf : Framed cfg field.frame := framed_fields ht _ (List.mem_map_of_mem (by rw [hdoc]; simp))
  have hwidth : field.frame.hdr.length = 8 := hf.width
  obtain ⟨at_, hat⟩ : ∃ at_, at_ = DOC_HDR_SIZE + (stream before).length := ⟨_, rfl⟩
  have hdamaged : Damaged cfg text at_ (field.frame.flip j bit) (stream after) := by
    have hpre : (docHdr doc ++ stream before).length = at_ := by rw [List.length_append, docHdr_length, hat]
    have htext : text = (docHdr doc ++ stream before) ++ ((field.frame.flip j bit).bytes ++ stream after) := by
      show docHdr doc ++ _ = _
      rw [hflip, List.append_assoc]
    refine ⟨fun h => decode_framedFlip ht hdoc h hk hflip, fun h => ?_, fun h => ?_, ?_⟩
    · rw [htext, List.append_assoc]
      exact decode_stoppedFlip ht hdoc h
    · rw [htext, ← hpre, slice_middle _ _ _ h]
    · rw [htext, List.length_append, hpre]
  rw [hplace, ← hat]
  unfold Frame.flip at hdamaged
  unfold Field.placeAt
  by_cases hhdr : j < 8
  · rw [if_pos (by rw [hwidth]; exact hhdr)] at hdamaged
    have h := damaged_hdr hf hdamaged hhdr doc.fields.length
    rwa [if_pos hhdr]
  rw [if_neg (by rw [hwidth]; exact hhdr), hwidth] at hdamaged
  have hlen : field.frame.name.length = field.name.val.length := rfl
  rw [if_neg (by omega), if_neg (by omega), if_neg hhdr]
  by_cases hname : j < 8 + field.name.val.length
  · rw [if_pos (hlen ▸ hname)] at hdamaged
    have h := damaged_name hf hdamaged doc.fields.length
    by_cases hstart : j = 8
    · rw [if_pos (by omega)] at h
      rwa [if_pos hstart]
    · rw [if_neg (by omega)] at h
      rwa [if_neg hstart, if_pos hname]
  · rw [if_neg (hlen ▸ hname)] at hdamaged
    have h := damaged_payload hf hdamaged doc.fields.length
    have hnext : j ≠ 8 := fun heq => hname (by
      have hpos := List.length_pos_iff.mpr hf.ne
      rw [hlen] at hpos
      omega)
    rw [if_neg hnext, if_neg hname]
    rw [show leNat (slice field.frame.hdr 4 1) = field.value.type from fieldHdr_type field] at h
    cases hlimit : lengthLimit cfg field.value.type with
    | none =>
      rw [hlimit] at h
      exact h
    | some limit =>
      rw [hlimit] at h
      have hoff : (j - 8 - field.frame.name.length < 4) = (j < 8 + field.name.val.length + 4) := by
        rw [hlen]
        exact propext ⟨fun h => by omega, fun h => by omega⟩
      simp only [hoff] at h
      exact h

theorem decode_flip (ht : Tidy cfg doc) {i : Nat} (hi : i < (docBytes doc).length) (bit : Fin 8) :
    Promised cfg doc.fields.length (flipBit (docBytes doc) i bit) (decode cfg (flipBit (docBytes doc) i bit))
      (placeAt cfg doc i) := by
  by_cases hhdr : i < DOC_HDR_SIZE
  · exact decode_headerFlip ht hhdr bit
  have hlen := docHdr_length doc
  have hbytes : docBytes doc = docHdr doc ++ stream doc.fields := by rw [docBytes_eq, stream_eq]
  rw [hbytes, List.length_append, hlen] at hi
  rw [hbytes, flipBit_append_right bit (by rw [hlen]; exact Nat.not_lt.mp hhdr), hlen]
  unfold placeAt
  rw [if_neg (by simp only [DOC_HDR_SIZE] at hhdr; omega), if_neg hhdr]
  exact decode_fieldFlip ht (by omega) bit

theorem mistaken_of_flip (ht : Tidy cfg doc) {i : Nat} (hi : i < (docBytes doc).length) {bit : Fin 8} {snap : Snapshot}
    (hok : decode cfg (flipBit (docBytes doc) i bit) = .ok snap) : Mistaken (flipBit (docBytes doc) i bit) := by
  have hheads := docHdr_heads ht
  have hlen := docHdr_length doc
  have hbytes : docBytes doc = docHdr doc ++ stream doc.fields := by rw [docBytes_eq, stream_eq]
  -- the damage is in what the digest covers
  obtain ⟨hdr, body, count, hflip, hstarts, hdigest⟩ : ∃ hdr body count, flipBit (docBytes doc) i bit = hdr ++ body ∧
      Starts hdr count ∧ crc32Update (crc32 (hdr.take DOC_HDR_CRC)) body ≠ digestOf hdr := by
    rw [hbytes, List.length_append, hlen] at hi
    by_cases hhdr : i < DOC_HDR_SIZE
    · by_cases hcount : i = 6 ∨ i = 7
      · have hsame : ∀ {off len}, i < off ∨ off + len ≤ i →
            slice (flipBit (docHdr doc) i bit) off len = slice (docHdr doc) off len := fun h => slice_flipBit bit h
        refine ⟨flipBit (docHdr doc) i bit, stream doc.fields, _, ?_, ⟨?_, ?_, ?_, rfl⟩, ?_⟩
        · rw [hbytes, flipBit_append_left bit (by rw [hlen]; exact hhdr)]
        · rw [flipBit_length, hlen]
        · rw [hsame (.inr (by omega)), hheads.starts.magic]
        · rw [hsame (.inr (by omega)), hheads.starts.version]
        · rw [digestOf, hsame (.inl (by omega))]
          show _ ≠ digestOf (docHdr doc)
          rw [hheads.digest]
          exact digest_flipBit (by simp only [DOC_HDR_CRC]; omega) (by rw [hlen]; exact hhdr) bit _
      · have hchecked := decode_headerFlip ht hhdr bit
        unfold placeAt at hchecked
        rw [if_neg hcount, if_pos hhdr, hok] at hchecked
        cases hchecked
    · refine ⟨docHdr doc, flipBit (stream doc.fields) (i - DOC_HDR_SIZE) bit, _, ?_, hheads.starts, ?_⟩
      · rw [hbytes, flipBit_append_right bit (by rw [hlen]; exact Nat.not_lt.mp hhdr), hlen]
      · rw [hheads.digest]
        exact crc32Update_flipBit bit _ (by omega)
  rw [hflip] at hok ⊢
  obtain ⟨chunk, rest, rfl, hsame⟩ := decode_digest hstarts hok
  have hne : rest ≠ [] := by
    rintro rfl
    rw [List.append_nil] at hdigest
    exact hdigest hsame
  have hrest := List.length_pos_iff.mpr hne
  refine ⟨chunk.length, ?_, ?_⟩
  · rw [List.length_append, hstarts.width, List.length_append]
    omega
  · have hcovered : slice (hdr ++ (chunk ++ rest)) DOC_HDR_SIZE chunk.length = chunk := by
      rw [← hstarts.width]
      exact slice_field hdr chunk rest
    rw [hcovered, List.take_append_of_le_length (by rw [hstarts.width]; decide), hsame, digestOf, digestOf,
      slice_append_left _ _ _ _ (by rw [hstarts.width]; decide)]

end Flipped

/-- Whatever bit of a saved document's file is flipped, the open reports what the part of the file that the bit
is in promises, and hands a document over only where the reader has taken other bytes for it. -/
theorem flipped_file_reported {s t : DocSt} (hbuilt : Built cfg s.doc) (hsave : (docSave cfg).run s = .ok () t) {e : DocSys}
    (hclean : e.Clean) {path : Path} {whole : Bytes}
    (hpath : buildDocPath cfg s.doc.collectionName s.doc.documentId DOC_FILE_EXT = .ok path)
    (hwhole : t.env.look path = some whole) {i : Nat} (hi : i < whole.length) (bit : Fin 8)
    (hl : e.look path = some (flipBit whole i bit)) :
    let r := outcome (docOpen cfg s.doc.collectionName s.doc.documentId) e
    Promised cfg s.doc.fields.length (flipBit whole i bit) r (placeAt cfg s.doc i) ∧
      ∀ doc, r = .ok doc → Mistaken (flipBit whole i bit) := by
  obtain ⟨path', hpath', hfile⟩ := saved_file hbuilt hsave
  rw [hpath] at hpath'
  obtain rfl := Except.ok.inj hpath'
  rw [hwhole] at hfile
  obtain rfl := Option.some.inj hfile
  have ht := hbuilt.tidy.savedAt s.env.side
  have hopen : outcome (docOpen cfg s.doc.collectionName s.doc.documentId) e =
      (decode cfg (flipBit (docBytes (s.doc.savedAt s.env.side)) i bit)).map
        (Snapshot.document cfg s.doc.collectionName s.doc.documentId) := by
    rw [docOpen_outcome hclean, if_pos hbuilt.tidy.keys, found_live hpath hl]
  intro r
  refine ⟨?_, fun doc hok => ?_⟩
  · show Promised _ _ _ (outcome _ e) _
    rw [hopen]
    exact (decode_flip ht hi bit).map _
  · rw [show r = _ from hopen] at hok
    cases hdecode : decode cfg (flipBit (docBytes (s.doc.savedAt s.env.side)) i bit) with
    | error status =>
      rw [hdecode] at hok
      cases hok
    | ok snap => exact mistaken_of_flip ht hi hdecode

/-- A flip in the stored digest. -/
theorem flipped_digest_bit : ∃ whole, (post (docSave sampleCfg) filledSt).env.look samplePath = some whole ∧
    outcome (docOpen sampleCfg sampleCollection sampleName) (quiet (AList.insert samplePath (flipBit whole 24 0) ∅)) =
      .error .ERR_CORRUPT := by
  have hsave := run_of_outcome filled_saved
  obtain ⟨path, hpath, hfile⟩ := saved_file filledSt_built hsave
  obtain rfl : samplePath = path := Except.ok.inj hpath
  refine ⟨_, hfile, ?_⟩
  have hin : 24 < (docBytes (filledSt.doc.savedAt filledSt.env.side)).length := by
    rw [docBytes_eq, List.length_append, docHdr_length]
    exact Nat.lt_of_lt_of_le (by decide) (Nat.le_add_right _ _)
  exact (flipped_file_reported filledSt_built hsave (quiet_clean _) hpath hfile hin 0 (by
    show Files.look (AList.insert samplePath _ ∅) samplePath = _
    rw [Files.look_insert, Function.update_self])).1

/-- A flip in the field count of the same file asks for more fields than a document can hold. -/
theorem flipped_count_not_corrupt : ¬ ∀ (cfg : DocCfg) (s t : DocSt), Built cfg s.doc → (docSave cfg).run s = .ok () t →
    ∀ (e : DocSys) (path : Path) (whole : Bytes), e.Clean →
      buildDocPath cfg s.doc.collectionName s.doc.documentId DOC_FILE_EXT = .ok path → t.env.look path = some whole →
      ∀ i < whole.length, ∀ bit, e.look path = some (flipBit whole i bit) →
        outcome (docOpen cfg s.doc.collectionName s.doc.documentId) e = .error .ERR_CORRUPT := by
  intro hclaim
  have hsave := run_of_outcome filled_saved
  obtain ⟨path, hpath, hfile⟩ := saved_file filledSt_built hsave
  let doc := filledSt.doc.savedAt filledSt.env.side
  let e := quiet (AList.insert path (flipBit (docBytes doc) 7 7) ∅)
  have hin : 7 < (docBytes doc).length := by
    rw [docBytes_eq, List.length_append, docHdr_length]
    exact Nat.lt_of_lt_of_le (by decide) (Nat.le_add_right _ _)
  have hl : e.look path = some (flipBit (docBytes doc) 7 7) := by
    show Files.look (AList.insert path _ ∅) path = _
    rw [Files.look_insert, Function.update_self]
  have ht : Tidy sampleCfg doc := filledSt_built.tidy.savedAt _
  have hcount : Promised sampleCfg _ _ _ .count := decode_headerFlip ht (by decide : 7 < DOC_HDR_SIZE) 7
  have hmany : sampleCfg.maxFieldCount < leNat (slice (flipBit (docBytes doc) 7 7) 6 2) := by decide +kernel
  have hnomem := opened_replaced ht (quiet_clean _) hpath hl (hcount.1 hmany)
  have hcorrupt := hclaim sampleCfg filledSt _ filledSt_built hsave e path _ (quiet_clean _) hpath hfile 7 hin 7 hl
  rw [show outcome (docOpen sampleCfg filledSt.doc.collectionName filledSt.doc.documentId) e = _ from hnomem] at hcorrupt
  cases hcorrupt

end ZephyrDB.Doc
