import Mathlib.Algebra.Order.Ring.Cast
import Mathlib.Algebra.Order.Ring.Rat
import ZephyrDB.Doc.QuerySpec

/-!
What a filter asks of a field, and where the code asks the same.

A numeric filter is a double, and an integer field meets it when it is the value
that the double denotes. The range check compares with the double next to
`INT64_MAX`, which is one more: at that one value a conversion is made that has
no result.
-/

set_option autoImplicit false

namespace ZephyrDB.Doc

open Lib

/-- The comparison of an integer field with a finite value, with what it converts to an `int64_t`: the
conversion stands behind the range check and the comparison of the fraction. -/
def int64Steps (overflow v : Int64) (q : ℚ) : Bool × List Int :=
  if q < -2 ^ 63 || 2 ^ 63 < q then (false, [])
  else if q.den == 1 then (v == castInt64 overflow q.num, [q.num])
  else (false, [])

def Filter.steps (overflow : Int64) (filter : Filter) : Value → Bool × List Int
  | .int64 v =>
    match Double.ofBits filter.numericValue with
    | .finite q => int64Steps overflow v q
    | _ => (false, [])
  | .double bits => (Double.equal (Double.ofBits bits) (Double.ofBits filter.numericValue), [])
  | .bool b => (b == filter.boolValue, [])
  | .string str => (str.isSome && str == filter.stringValue, [])
  | .bytes data => (!data.isEmpty && filter.stringValue.any fun str => data == str.val, [])

/-- `zdb_doc_field_filter_match`, with the values that it converts to an `int64_t` on the way. -/
def fieldFilterSteps (overflow : Int64) (field : Field) (filter : Filter) : Bool × List Int :=
  if field.name.val.isEmpty then (false, [])
  else
    match filter.fieldName with
    | none => (false, [])
    | some fieldName =>
      if fieldName.val.isEmpty || field.name != fieldName then (false, [])
      else if field.value.type != filter.type then (false, [])
      else filter.steps overflow field.value

theorem fieldFilterSteps_fst (overflow : Int64) (field : Field) (filter : Filter) :
    (fieldFilterSteps overflow field filter).1 = fieldFilterMatch overflow field filter := by
  unfold fieldFilterSteps fieldFilterMatch
  split
  · rfl
  cases filter.fieldName with
  | none => rfl
  | some fieldName =>
    dsimp only
    split
    · rfl
    split
    · rfl
    cases field.value with
    | int64 v =>
      unfold Filter.steps int64Steps
      cases Double.ofBits filter.numericValue with
      | finite q =>
        dsimp only
        split
        · rfl
        · cases q.den == 1 <;> rfl
      | nan => rfl
      | inf negative => rfl
    | double bits => rfl
    | bool b => rfl
    | string str => rfl
    | bytes data => rfl

/-- The field is of the filter's name and of its type. -/
structure Filter.Names (filter : Filter) (field : Field) : Prop where
  named : field.name.val ≠ []
  name : filter.fieldName = some field.name
  type : filter.type = field.value.type

theorem Filter.Names.steps {filter : Filter} {field : Field} (h : filter.Names field) (overflow : Int64) :
    fieldFilterSteps overflow field filter = filter.steps overflow field.value := by
  unfold fieldFilterSteps
  rw [if_neg (by simpa using h.named), h.name]
  dsimp only
  rw [if_neg (by simpa using h.named), if_neg (by simp [h.type])]

theorem names_of_match {overflow : Int64} {filter : Filter} {field : Field}
    (h : fieldFilterMatch overflow field filter = true) : filter.Names field := by
  unfold fieldFilterMatch at h
  split at h
  · cases h
  rename_i hnamed
  cases hname : filter.fieldName with
  | none =>
    rw [hname] at h
    cases h
  | some fieldName =>
    rw [hname] at h
    dsimp only at h
    split at h
    · cases h
    rename_i hsame
    split at h
    · cases h
    rename_i htype
    simp only [Bool.or_eq_true, bne_iff_ne, not_or, not_not] at hsame htype
    exact ⟨by simpa using hnamed, hsame.2 ▸ hname, htype.symm⟩

section Integers
variable {overflow : Int64}

theorem castInt64_of_le {n : Int} (hlo : -2 ^ 63 ≤ n) (hhi : n ≤ 2 ^ 63 - 1) : (castInt64 overflow n).toInt = n := by
  unfold castInt64
  rw [if_neg (by omega)]
  exact Int64.toInt_ofInt_of_le hlo (by omega)

theorem cast_limit : ((2 ^ 63 : Int) : ℚ) = 2 ^ 63 := by norm_cast

theorem cast_neg_limit : ((-2 ^ 63 : Int) : ℚ) = -2 ^ 63 := by rw [Int.cast_neg, cast_limit]

/-- Except at the double next to `INT64_MAX`, an integer matches exactly its value, and what is
converted has a result. -/
theorem int64Steps_exact {v : Int64} {q : ℚ} (hq : q ≠ 2 ^ 63) :
    ((int64Steps overflow v q).1 = true ↔ (v.toInt : ℚ) = q) ∧
      ∀ n ∈ (int64Steps overflow v q).2, -2 ^ 63 ≤ n ∧ n ≤ 2 ^ 63 - 1 := by
  unfold int64Steps
  have hlo : (-2 ^ 63 : ℚ) ≤ v.toInt := cast_neg_limit ▸ Int.cast_le.mpr v.le_toInt
  have hhi : (v.toInt : ℚ) < 2 ^ 63 := cast_limit ▸ Int.cast_lt.mpr v.toInt_lt
  split
  · rename_i hout
    simp only [Bool.or_eq_true, decide_eq_true_eq] at hout
    refine ⟨⟨nofun, fun heq => ?_⟩, nofun⟩
    rw [← heq] at hout
    rcases hout with hout | hout
    · exact absurd hlo (not_le.mpr hout)
    · exact absurd hhi (not_lt.mpr hout.le)
  rename_i hin
  simp only [Bool.or_eq_true, decide_eq_true_eq, not_or, not_lt] at hin
  split
  · rename_i hden
    have hint : ((q.num : Int) : ℚ) = q := Rat.coe_int_num_of_den_eq_one (by simpa using hden)
    have hrange : -2 ^ 63 ≤ q.num ∧ q.num ≤ 2 ^ 63 - 1 := by
      obtain ⟨hge, hle⟩ := hin
      rw [← hint, ← cast_neg_limit, Int.cast_le] at hge
      rw [← hint, ← cast_limit, Int.cast_le] at hle
      rw [← hint, ← cast_limit, Ne, Int.cast_inj] at hq
      exact ⟨hge, by omega⟩
    refine ⟨?_, fun n hn => List.mem_singleton.mp hn ▸ hrange⟩
    have hcast := @castInt64_of_le overflow _ hrange.1 hrange.2
    rw [beq_iff_eq, ← Int64.toInt_inj, hcast, ← hint]
    simp
  · rename_i hden
    refine ⟨⟨nofun, fun heq => ?_⟩, nofun⟩
    rw [← heq] at hden
    exact absurd rfl hden

theorem int64Steps_top (v : Int64) : (2 ^ 63 : Int) ∈ (int64Steps overflow v (2 ^ 63)).2 := by
  unfold int64Steps
  rw [if_neg (by decide +kernel), if_pos (by decide +kernel)]
  exact List.mem_singleton.mpr (by decide +kernel)

/-- On an integer field of a filter's name, the filter is exact, and converts nothing that an `int64_t` does
not hold, unless its number is the double next to `INT64_MAX`. -/
theorem integer_filter_exact_iff {field : Field} {filter : Filter} {v : Int64} {q : ℚ} (hnamed : field.name.val ≠ [])
    (hname : filter.fieldName = some field.name) (htype : filter.type = Value.INT64) (hvalue : field.value = .int64 v)
    (hnumber : Double.ofBits filter.numericValue = .finite q) :
    ((fieldFilterMatch overflow field filter = true ↔ (v.toInt : ℚ) = q) ∧
      ∀ n ∈ (fieldFilterSteps overflow field filter).2, -2 ^ 63 ≤ n ∧ n ≤ 2 ^ 63 - 1) ↔ q ≠ 2 ^ 63 := by
  have hnames : filter.Names field := ⟨hnamed, hname, htype.trans (by rw [hvalue]; rfl)⟩
  have hsteps : fieldFilterSteps overflow field filter = int64Steps overflow v q := by
    rw [hnames.steps, hvalue, Filter.steps, hnumber]
  rw [← fieldFilterSteps_fst, hsteps]
  refine ⟨?_, int64Steps_exact⟩
  rintro ⟨-, hconverted⟩ rfl
  have htop := (hconverted _ (int64Steps_top v)).2
  omega

/-- An integer field, and a filter of its name. -/
def sampleField (v : Int64) : Field := ⟨⟨[110], by decide⟩, .int64 v⟩

def sampleFilter (number : UInt64) : Filter := ⟨some ⟨[110], by decide⟩, Value.INT64, number, none, false⟩

theorem negative_two_exact :
    (fieldFilterMatch 0 (sampleField (-2)) (sampleFilter 0xC000000000000000) = true ↔ ((-2 : Int64).toInt : ℚ) = -2) ∧
      ∀ n ∈ (fieldFilterSteps 0 (sampleField (-2)) (sampleFilter 0xC000000000000000)).2, -2 ^ 63 ≤ n ∧ n ≤ 2 ^ 63 - 1 :=
  (integer_filter_exact_iff (by decide) rfl rfl rfl (by decide +kernel)).mpr (by decide +kernel)

/-- The double next to `INT64_MAX` is converted; where that comes to `INT64_MAX`, it even matches. -/
theorem next_to_max_converted : ¬ ∀ (overflow : Int64) (field : Field) (filter : Filter) (v : Int64) (q : ℚ),
    field.name.val ≠ [] → filter.fieldName = some field.name → filter.type = Value.INT64 → field.value = .int64 v →
      Double.ofBits filter.numericValue = .finite q →
      (fieldFilterMatch overflow field filter = true ↔ (v.toInt : ℚ) = q) ∧
        ∀ n ∈ (fieldFilterSteps overflow field filter).2, -2 ^ 63 ≤ n ∧ n ≤ 2 ^ 63 - 1 := by
  intro hclaim
  have h := hclaim Int64.maxValue (sampleField Int64.maxValue) (sampleFilter 0x43E0000000000000) Int64.maxValue (2 ^ 63)
    (by decide) rfl rfl rfl (by decide +kernel)
  have hmatch : fieldFilterMatch Int64.maxValue (sampleField Int64.maxValue) (sampleFilter 0x43E0000000000000) = true := by
    decide +kernel
  exact absurd (h.1.mp hmatch) (by decide +kernel)

end Integers

section Meaning
variable {overflow : Int64} {filter : Filter} {field : Field}

def Filter.Means (filter : Filter) : Value → Prop
  | .int64 v => Double.ofBits filter.numericValue = .finite v.toInt
  | .double bits => Double.equal (Double.ofBits bits) (Double.ofBits filter.numericValue) = true
  | .bool b => b = filter.boolValue
  | .string str => str ≠ none ∧ str = filter.stringValue
  | .bytes data => data ≠ [] ∧ ∃ str, filter.stringValue = some str ∧ data = str.val

/-- A field that a filter is for. -/
structure Filter.Selects (filter : Filter) (field : Field) : Prop where
  names : filter.Names field
  means : filter.Means field.value

/-- A filter whose number is not the double next to `INT64_MAX`. -/
def Filter.Safe (filter : Filter) : Prop := Double.ofBits filter.numericValue ≠ .finite (2 ^ 63)

theorem Filter.Safe.steps (h : filter.Safe) (value : Value) :
    (filter.steps overflow value).1 = true ↔ filter.Means value := by
  cases value with
  | int64 v =>
    unfold Filter.steps Filter.Means
    cases hq : Double.ofBits filter.numericValue with
    | finite q =>
      have hne : q ≠ 2 ^ 63 := fun heq => h (heq ▸ hq)
      show _ ↔ Double.finite q = .finite v.toInt
      rw [Double.finite.injEq]
      exact (int64Steps_exact hne).1.trans eq_comm
    | nan => simp
    | inf negative => simp
  | double bits => rfl
  | bool b => simp [Filter.steps, Filter.Means]
  | string str => simp [Filter.steps, Filter.Means, Option.isSome_iff_ne_none]
  | bytes data => simp [Filter.steps, Filter.Means, Option.any_eq_true]

theorem Filter.Safe.match_iff (h : filter.Safe) : fieldFilterMatch overflow field filter = true ↔ filter.Selects field := by
  constructor
  · intro hmatch
    have hnames := names_of_match hmatch
    rw [← fieldFilterSteps_fst, hnames.steps] at hmatch
    exact ⟨hnames, (h.steps field.value).mp hmatch⟩
  · rintro ⟨hnames, hmeans⟩
    rw [← fieldFilterSteps_fst, hnames.steps]
    exact (h.steps field.value).mpr hmeans

theorem docMatchesQuery_selects {query : Query} {doc : Document} {filters : List Filter} (hfilters : query.filters = some filters)
    (hsafe : ∀ filter ∈ filters, filter.Safe) : docMatchesQuery overflow doc query = true ↔
      (query.fromMs = 0 ∨ query.fromMs ≤ doc.updatedMs) ∧ (query.toMs = 0 ∨ doc.updatedMs ≤ query.toMs) ∧
        ∀ filter ∈ filters, ∃ field ∈ doc.fields, filter.Selects field := by
  rw [docMatchesQuery_iff]
  constructor
  · rintro ⟨hfrom, hto, -, hall⟩
    refine ⟨hfrom, hto, fun filter hfilter => ?_⟩
    obtain ⟨field, hfield, hmatch⟩ := hall filters hfilters filter hfilter
    exact ⟨field, hfield, (hsafe filter hfilter).match_iff.mp hmatch⟩
  · rintro ⟨hfrom, hto, hall⟩
    refine ⟨hfrom, hto, fun hnone => absurd (hfilters.symm.trans hnone) nofun, fun list hlist filter hfilter => ?_⟩
    obtain rfl := Option.some.inj (hfilters.symm.trans hlist)
    obtain ⟨field, hfield, hselects⟩ := hall filter hfilter
    exact ⟨field, hfield, (hsafe filter hfilter).match_iff.mpr hselects⟩

end Meaning

/-- A query is exact where no staged files lie about and fewer than `UINT32_MAX` documents are stored: the
list it goes by holds each document that opens once, and it counts or reports those that it admits, in that
order, up to its limit and the capacity. Admitted are, with safe filters, the documents of the window that have a
field for every filter. -/
theorem query_exact {cfg : DocCfg} {e : DocSys} (hc : e.Clean)
    (hstaged : ∀ collectionName documentId, fileAt cfg e.look collectionName documentId DOC_TMP_EXT = none)
    (hfew : (storedDocs cfg e.files).length < 2 ^ 32 - 1) (overflow : Int64) (request : Request) :
    (storedDocs cfg e.files).Nodup ∧
    (∀ doc, doc ∈ storedDocs cfg e.files ↔
      outcome (docOpen cfg doc.collectionName doc.documentId) e = .ok doc) ∧
    (outcome (docQuery cfg overflow request) e =
      match buildRootPath cfg with
      | .error err => .error (statusFromErrno err, request.capacity)
      | .ok _ =>
        let docs := request.query.capped
          ((storedDocs cfg e.files).filter fun doc => request.query.Admits overflow doc)
        if request.array && 0 < request.capacity then
          .ok ((docs.take request.capacity).length, (docs.take request.capacity).map Document.entry)
        else .ok (docs.length, [])) ∧
    ∀ filters, request.query.filters = some filters → (∀ filter ∈ filters, filter.Safe) → ∀ doc,
      request.query.Admits overflow doc ↔
        (request.query.fromMs = 0 ∨ request.query.fromMs ≤ doc.updatedMs) ∧
        (request.query.toMs = 0 ∨ doc.updatedMs ≤ request.query.toMs) ∧
        ∀ filter ∈ filters, ∃ field ∈ doc.fields, filter.Selects field := by
  refine ⟨storedDocs_nodup, fun doc => ?_, ?_, fun filters hfilters hsafe doc => ?_⟩
  · rw [docOpen_outcome hc, show e.look = e.files.look from rfl, ← opened_eq, mem_storedDocs]
    refine ⟨And.left, fun hopen => ⟨hopen, fun hnone => ?_⟩⟩
    obtain ⟨snap, hfound, -⟩ := opened_ok hopen
    have hst := staged_of_found hfound hnone
    rw [show e.files.look = e.look from rfl, hstaged] at hst
    cases hst
  · rw [docQuery_clean hc]
    cases buildRootPath cfg with
    | error err => rfl
    | ok root =>
      dsimp only
      obtain ⟨docs, hdocs⟩ : ∃ docs, docs = (storedDocs cfg e.files).filter fun doc => request.query.Admits overflow doc :=
        ⟨_, rfl⟩
      have hlen : docs.length < 2 ^ 32 - 1 := by
        have := (storedDocs cfg e.files).length_filter_le fun doc => request.query.Admits overflow doc
        rw [← hdocs] at this
        omega
      rw [← hdocs]
      have hlimit : request.query.capped docs = docs.take request.limit := by
        unfold Query.capped Request.limit
        split
        · rw [List.take_of_length_le (by omega)]
        · rfl
      rw [hlimit]
      unfold Request.answer Request.bound
      show _ = if request.reports = true then _ else _
      split
      · rw [List.take_take]
      · rfl
  · rw [← docMatchesQuery_iff, docMatchesQuery_selects hfilters hsafe]

def keep (files : Files) (collectionName documentId : CString) (value : Int64) : Files :=
  (post (fieldSet sampleCfg sampleName (.int64 value) >>= fun _ => docSave sampleCfg)
    ⟨⟨collectionName, documentId, [], 16, 7, 7, true⟩, { quiet files with side := 7 }⟩).env.files

def otherName : CString := ⟨[101], by decide⟩

/-- Four documents in two collections; in three of them the integer is 5. -/
def keptFiles : Files :=
  keep (keep (keep (keep ∅ sampleCollection sampleName 5) sampleCollection otherName 5) otherName sampleName 6)
    otherName otherName 5

theorem keptFiles_unstaged (collectionName documentId : CString) :
    fileAt sampleCfg keptFiles.look collectionName documentId DOC_TMP_EXT = none := by
  have hkeys : ∀ p ∈ keptFiles.keys, ∃ c ∈ [sampleCollection, otherName], ∃ d ∈ [sampleName, otherName],
      p = docPath sampleCfg c d DOC_FILE_EXT := by decide +kernel
  cases hpath : buildDocPath sampleCfg collectionName documentId DOC_TMP_EXT with
  | error err => rw [fileAt, hpath]
  | ok path =>
    rw [fileAt_eq hpath, ← Option.not_isSome_iff_eq_none, ← Files.mem_keys, buildDocPath_eq hpath, docPath_eq_append]
    intro hmem
    obtain ⟨c, -, d, -, heq⟩ := hkeys _ hmem
    rw [docPath_eq_append] at heq
    exact live_suffix_ne _ _ heq.symm

/-- Two of the three, and an array with room for one. -/
def oneOfThree : Request :=
  ⟨⟨some [⟨some sampleName, Value.INT64, 0x4014000000000000, none, false⟩], 1, fun _ h => by cases h; rfl, 7, 0, 2⟩, true, 1⟩

theorem filtered_and_capped :
    ((storedDocs sampleCfg keptFiles).filter fun doc => oneOfThree.query.Admits 0 doc).length = 3 ∧
    outcome (docQuery sampleCfg 0 oneOfThree) (quiet keptFiles) =
      match buildRootPath sampleCfg with
      | .error err => .error (statusFromErrno err, oneOfThree.capacity)
      | .ok _ =>
        let docs := oneOfThree.query.capped
          ((storedDocs sampleCfg keptFiles).filter fun doc => oneOfThree.query.Admits 0 doc)
        if oneOfThree.array && 0 < oneOfThree.capacity then
          .ok ((docs.take oneOfThree.capacity).length, (docs.take oneOfThree.capacity).map Document.entry)
        else .ok (docs.length, []) :=
  ⟨by decide +kernel,
    (query_exact (quiet_clean keptFiles) keptFiles_unstaged (by decide +kernel) 0 oneOfThree).2.2.1⟩

end ZephyrDB.Doc
