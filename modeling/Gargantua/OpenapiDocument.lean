import Gargantua.JsonNumber
import Gargantua.RuntimeSink
import Gargantua.GeneratorRoutes
import Gargantua.OpenapiWriter

/-! # The OpenAPI document is JSON

    The document has a value, built from the model (`documentValue`), and each
    function of the writer appends the text of its part of that value.  A part is
    a value, or the members that an object goes on with. -/

namespace OpenapiDocument

open RouteGenerator hiding ParsedRoute
open CString Decimal JsonGrammar JsonValue JsonNumber Writing GeneratorText GeneratorSource
open GeneratorValidate GeneratorAccepted GeneratorRoutes OpenapiWriter
open Utf8 (WellFormed)

/-! ## Texts of values -/

/-- The digits of a control character. -/
theorem hex_digits {c : Byte} (h : c < 0x20) :
    ∃ hhi hlo, c.toNat
      = (HexDigit.mk ((lit "0123456789abcdef").getD (c >>> 4).toNat 0) hhi).value * 16
        + (HexDigit.mk ((lit "0123456789abcdef").getD (c &&& 15).toNat 0) hlo).value := by
  revert h
  cases c with
  | ofBitVec b =>
      revert b
      decide +kernel

/-- **The escapes of the writer are JSON's.** -/
theorem escapes : Escapes openapiEscaped where
  plain := by
    intro c hc
    have hquote : ¬ (c = 0x22 ∨ c = 0x5C) := not_or.mpr hc.2
    rw [openapiEscaped, if_neg hquote, if_neg (UInt8.not_lt.mpr hc.1)]
  special := by
    intro c hc
    rw [openapiEscaped]
    by_cases hquote : c = 0x22 ∨ c = 0x5C
    · rw [if_pos hquote]
      rcases hquote with rfl | rfl
      · exact ⟨.escape .quote, rfl, rfl⟩
      · exact ⟨.escape .backslash, rfl, rfl⟩
    · rw [if_neg hquote]
      have hlow : c < 0x20 := by
        by_contra hge
        exact hc ⟨UInt8.not_lt.mp hge, not_or.mp hquote⟩
      rw [if_pos hlow]
      obtain ⟨hhi, hlo, hvalue⟩ := hex_digits hlow
      exact RuntimeSink.exists_unicode (special_ascii hc) hhi hlo hvalue
  ascii := by
    intro c
    cases c with
    | ofBitVec b =>
        revert b
        decide +kernel

/-- The text of a value, and of the members of an object behind others. -/
abbrev printed (v : Value) : Bytes := v.print openapiEscaped

def membersText (ms : List (Bytes × Value)) : Bytes := (members ms).print openapiEscaped

/-- A name with its colon, and with a comma in front. -/
def firstLabel (name : Bytes) : Bytes := quote openapiEscaped name ++ [0x3A]

def label (name : Bytes) : Bytes := 0x2C :: firstLabel name

theorem membersText_nil : membersText [] = [] := rfl

theorem membersText_cons (name : Bytes) (v : Value) (ms : List (Bytes × Value)) :
    membersText ((name, v) :: ms) = label name ++ (printed v ++ membersText ms) := rfl

example : membersText [(lit "type", .str (lit "string"))] = lit ",\"type\":\"string\"" := by
  decide +kernel

theorem membersText_append (ms ns : List (Bytes × Value)) :
    membersText (ms ++ ns) = membersText ms ++ membersText ns := by
  induction ms with
  | nil => rfl
  | cons m ms ih =>
      rw [List.cons_append, membersText_cons, ih, membersText_cons, List.append_assoc,
        List.append_assoc]

theorem membersText_flatten (mss : List (List (Bytes × Value))) :
    membersText mss.flatten = (mss.map membersText).flatten := by
  induction mss with
  | nil => rfl
  | cons ms mss ih => rw [List.flatten_cons, membersText_append, ih, List.map_cons, List.flatten_cons]

theorem membersText_flatMap (ms : List (Bytes × Value)) :
    membersText ms = ms.flatMap fun m => [0x2C] ++ (firstLabel m.1 ++ printed m.2) := by
  induction ms with
  | nil => rfl
  | cons m ms ih =>
      rw [List.flatMap_cons, ← ih, membersText_cons, List.append_assoc, List.append_assoc]
      rfl

theorem membersText_tail (name : Bytes) (v : Value) (ms : List (Bytes × Value)) :
    (membersText ((name, v) :: ms)).tail = firstLabel name ++ (printed v ++ membersText ms) := rfl

theorem printed_object (ms : List (Bytes × Value)) :
    printed (object ms) = [0x7B] ++ ((membersText ms).tail ++ [0x7D]) := rfl

theorem tail_append {ms : List (Bytes × Value)} (h : ms ≠ []) (ns : List (Bytes × Value)) :
    (membersText (ms ++ ns)).tail = (membersText ms).tail ++ membersText ns := by
  cases ms with
  | nil => exact absurd rfl h
  | cons m ms =>
      rw [membersText_append]
      rfl

/-- An object without its closing brace. -/
theorem printed_dropLast (ms : List (Bytes × Value)) :
    (printed (object ms)).dropLast = [0x7B] ++ (membersText ms).tail := by
  rw [printed_object, ← List.append_assoc, List.dropLast_concat]

theorem printed_array (vs : List Value) :
    printed (array vs) = [0x5B] ++ (separated [0x2C] printed vs ++ [0x5D]) := by
  have hitems : ∀ vs : List Value,
      (items vs).print openapiEscaped = vs.flatMap fun v => [0x2C] ++ printed v := by
    intro vs
    induction vs with
    | nil => rfl
    | cons v vs ih =>
        rw [List.flatMap_cons, ← ih]
        rfl
  cases vs with
  | nil => rfl
  | cons v vs =>
      rw [separated, ← hitems]
      rfl

/-- The members of an object, as a loop writes them. -/
theorem separated_members {ι : Type} (member : ι → Bytes × Value) (xs : List ι) :
    separated [0x2C] (fun x => firstLabel (member x).1 ++ printed (member x).2) xs
      = (membersText (xs.map member)).tail := by
  cases xs with
  | nil => rfl
  | cons x xs =>
      rw [List.map_cons, membersText_tail, membersText_flatMap, List.flatMap_map, separated,
        List.append_assoc]

/-! ## The writer -/

/-- The writer as one that appends. -/
def sink : Sink OpenApiWriter Byte where
  content := OpenApiWriter.file
  failed := OpenApiWriter.failed
  sound w := w.size = w.file.length

variable (fwrite : Bytes → Bytes → Nat)

theorem text_appends (s : Bytes) : Appends sink (openapiWriteText fwrite s) s := by
  intro w hw
  rw [openapiWriteText] at hw ⊢
  by_cases hfailed : w.failed = true
  · rw [if_pos hfailed] at hw
    exact nomatch hfailed.symm.trans hw
  rw [if_neg hfailed] at hw ⊢
  by_cases hroom : s.length > OPENAPI_MAX_DOCUMENT - w.size
  · rw [if_pos hroom] at hw
    exact nomatch hw
  rw [if_neg hroom] at hw ⊢
  by_cases hall : fwrite w.file s ≠ s.length
  · dsimp only at hw
    rw [if_pos hall] at hw
    exact nomatch hw
  dsimp only
  rw [if_neg hall, not_not.mp hall, List.take_length]
  refine ⟨Bool.not_eq_true _ ▸ hfailed, fun hsize => ?_, rfl⟩
  show w.size + s.length = (w.file ++ s).length
  rw [List.length_append, show w.size = w.file.length from hsize]

theorem quoted_appends {s : Bytes} (h : s.length ≤ GENERATOR_MAX_URL) :
    Appends sink (openapiWriteQuoted fwrite s) (quote openapiEscaped s) := by
  refine (Appends.seq (.cons (text_appends fwrite _) (.cons
    (appends_each fun c _ => text_appends fwrite _) (.cons (text_appends fwrite _) .nil)))).of_eq ?_
  rw [List.take_of_length_le h]
  simp only [List.flatten_cons, List.flatten_nil, List.append_nil]
  rfl

theorem fail_appends (t : Bytes) : Appends sink OpenApiWriter.fail t :=
  appends_of_fails fun _ => rfl

/-- Members that are not always there. -/
theorem optional_appends {c : Prop} [Decidable c] {f : Action} {ms : List (Bytes × Value)}
    (h : c → Appends sink f (membersText ms)) :
    Appends sink (if c then f else id) (membersText (if c then ms else [])) := by
  rw [apply_ite membersText]
  exact Appends.optional h

/-- Members, one after another. -/
theorem members_appends {fs : List Action} {mss : List (List (Bytes × Value))}
    (h : List.Forall₂ (fun f ms => Appends sink f (membersText ms)) fs mss) :
    Appends sink (seq fs) (membersText mss.flatten) := by
  rw [membersText_flatten]
  refine Appends.seq ?_
  rw [List.forall₂_map_right_iff]
  exact h

/-! ## Fields -/

/-- A string that is fixed. -/
abbrev text (s : String) : Value := .str (lit s)

/-- The members that `openapi_scalar_type` writes. -/
def scalarMembers (type : Bytes) : List (Bytes × Value) :=
  if type = lit "int" ∨ type = lit "FIELD_INT" then
    [(lit "type", text "integer"), (lit "format", text "int32")]
  else if type = lit "long" ∨ type = lit "FIELD_LONG" then
    [(lit "type", text "integer"), (lit "format", text "int64")]
  else if type = lit "double" ∨ type = lit "FIELD_DOUBLE" then
    [(lit "type", text "number"), (lit "format", text "double")]
  else if type = lit "bool" ∨ type = lit "FIELD_BOOL" then [(lit "type", text "boolean")]
  else [(lit "type", text "string")]

theorem openapiScalarType_printed {type scalar : Bytes} (h : openapiScalarType type = some scalar) :
    scalar = printed (object (scalarMembers type)) := by
  rw [openapiScalarType] at h
  rw [scalarMembers]
  split_ifs at h ⊢
  all_goals
    obtain rfl := Option.some.inj h
    rfl

/-- The type of a field: what may be null has two. -/
def typeMembers (field : ParsedField) : List (Bytes × Value) :=
  if field.flags.nullable ∧ field.flags.notNull = false then
    [(lit "type", array [if integral field then text "integer"
      else if kindText field.kind = lit "FIELD_DOUBLE" then text "number" else text "boolean",
      text "null"])]
  else if kindText field.kind = lit "FIELD_STR" ∧ field.flags.notNull = false then
    [(lit "type", array [text "string", text "null"])]
  else scalarMembers (kindText field.kind)

theorem nullableScalar_printed {field : ParsedField} {scalar : Bytes}
    (h : openapiScalarType (kindText field.kind) = some scalar) :
    nullableScalar field scalar = printed (object (typeMembers field)) := by
  unfold nullableScalar typeMembers
  dsimp only
  split_ifs
  all_goals first | exact openapiScalarType_printed h | rfl

theorem typeMembers_ne_nil (field : ParsedField) : typeMembers field ≠ [] := by
  unfold typeMembers scalarMembers
  split_ifs <;> exact List.cons_ne_nil _ _

/-- A bound of a field. -/
def boundValue (field : ParsedField) (int : Int) (bound : LongDouble) : Value :=
  .prim (if integral field then printInt int else longDoubleText bound)

/-- The members that `openapi_write_validation` writes. -/
def validationMembers (field : ParsedField) : List (List (Bytes × Value)) := [
  if field.rules.validation.min then
    [(lit "minimum", boundValue field field.rules.minInt field.rules.min)] else [],
  if field.rules.validation.max then
    [(lit "maximum", boundValue field field.rules.maxInt field.rules.max)] else [],
  if field.rules.validation.size then
    [(lit "minLength", .prim (print field.rules.sizeMin)),
      (lit "maxLength", .prim (print field.rules.sizeMax))] else [],
  if field.rules.validation.email then [(lit "format", text "email")] else [],
  if field.flags.id then [(lit "readOnly", .prim (lit "true"))] else [],
  if field.references ≠ [] then
    [(lit "x-references", object [(lit "table", .str field.references),
      (lit "key", .str field.referenceKey)])] else []]

/-- A string that `openapi_write_quoted` writes whole. -/
def Short (s : Bytes) : Prop := s.length ≤ GENERATOR_MAX_URL

instance (s : Bytes) : Decidable (Short s) := inferInstanceAs (Decidable (_ ≤ _))

theorem short_of_safe {name : Bytes} (h : isSafeIdentifier name = true) : Short name := by
  rw [isSafeIdentifier] at h
  split at h
  · exact nomatch h
  · have hlt := (Bool.and_eq_true_iff.mp h).1
    exact Nat.le_of_lt (Nat.lt_trans (of_decide_eq_true hlt) (by decide))

/-- Text that is safe is text. -/
theorem wellFormed_of_safe {name : Bytes} (h : isSafeIdentifier name = true) : WellFormed name := by
  have hword : ∀ b : Byte, (isAlnum b || b == 0x5F) = true → b < 0x80 := by
    intro b
    cases b with
    | ofBitVec b =>
        revert b
        decide +kernel
  refine Utf8.wellFormed_of_ascii fun b hb => hword b ?_
  cases name with
  | nil => exact nomatch hb
  | cons c name =>
      rw [isSafeIdentifier] at h
      split at h
      · exact nomatch h
      rename_i hstart
      rcases List.mem_cons.mp hb with rfl | hb
      · simp only [Bool.or_eq_true, not_or, Bool.not_eq_true, Bool.not_eq_false', List.headD_cons]
          at hstart
        rw [isAlnum, hstart.1.1]
        rfl
      · exact List.all_eq_true.mp (Bool.and_eq_true_iff.mp h).2 b hb

theorem validation_appends {field : ParsedField} (h : ReferenceSound field) :
    Appends sink (openapiWriteValidation fwrite field)
      (membersText (validationMembers field).flatten) := by
  refine members_appends (.cons ?min (.cons ?max (.cons ?size (.cons ?email (.cons ?readOnly
    (.cons ?references .nil))))))
  case min =>
    refine optional_appends fun _ => (text_appends fwrite _).of_eq ?_
    rw [membersText_cons, membersText_nil, List.append_nil,
      show lit ",\"minimum\":" = label (lit "minimum") by rfl]
    rfl
  case max =>
    refine optional_appends fun _ => (text_appends fwrite _).of_eq ?_
    rw [membersText_cons, membersText_nil, List.append_nil,
      show lit ",\"maximum\":" = label (lit "maximum") by rfl]
    rfl
  case size =>
    refine optional_appends fun _ => (text_appends fwrite _).of_eq ?_
    rw [membersText_cons, membersText_cons, membersText_nil, List.append_nil,
      show lit ",\"minLength\":" = label (lit "minLength") by rfl,
      show lit ",\"maxLength\":" = label (lit "maxLength") by rfl, List.append_assoc,
      List.append_assoc]
    rfl
  case email =>
    exact optional_appends fun _ => (text_appends fwrite _).of_eq (by rfl)
  case readOnly =>
    exact optional_appends fun _ => (text_appends fwrite _).of_eq (by rfl)
  case references =>
    refine optional_appends fun hset => ?_
    obtain ⟨htable, hkey⟩ := h hset
    refine (Appends.seq (.cons (text_appends fwrite _) (.cons
      (quoted_appends fwrite (short_of_safe htable)) (.cons (text_appends fwrite _) (.cons
      (quoted_appends fwrite (short_of_safe hkey)) (.cons (text_appends fwrite _) .nil)))))).of_eq ?_
    rw [membersText_cons, membersText_nil, List.append_nil, printed_object, membersText_tail,
      membersText_cons, membersText_nil,
      show lit ",\"x-references\":\x7b\"table\":"
        = label (lit "x-references") ++ ([0x7B] ++ firstLabel (lit "table")) by rfl,
      show lit ",\"key\":" = label (lit "key") by rfl]
    simp only [List.flatten_cons, List.flatten_nil, List.append_nil, List.append_assoc]
    rfl

/-- The members of a field that is no object. -/
def fieldMembers (field : ParsedField) : List (Bytes × Value) :=
  typeMembers field ++ (validationMembers field).flatten

theorem scalarField_appends {field : ParsedField} (h : ReferenceSound field) :
    Appends sink (openapiWriteScalarField fwrite field) (printed (object (fieldMembers field))) := by
  rw [openapiWriteScalarField]
  split
  · exact fail_appends _
  rename_i scalar hscalar
  refine (Appends.seq (.cons (text_appends fwrite _) (.cons (validation_appends fwrite h)
    (.cons (text_appends fwrite _) .nil)))).of_eq ?_
  rw [nullableScalar_printed hscalar, printed_dropLast, fieldMembers, printed_object,
    tail_append (typeMembers_ne_nil field)]
  simp only [List.flatten_cons, List.flatten_nil, List.append_nil, List.append_assoc]
  rfl

/-! ## Types -/

/-- A reference to the schema of a type. -/
def refValue (name : Bytes) : Value :=
  object [(lit "$ref", .str (lit "#/components/schemas/" ++ name))]

/-- The schema of a scalar or a reference. -/
def schemaValue (type : Bytes) : Value :=
  if (openapiScalarType type).isSome then object (scalarMembers type) else refValue type

/-- The names of the types are identifiers. -/
def NamesSafe (ctx : Generator) : Prop := ∀ type ∈ ctx.types, isSafeIdentifier type.name = true

variable {ctx : Generator}

theorem typeExists_safe (hnames : NamesSafe ctx) {name : Bytes}
    (h : openapiTypeExists ctx name = true) : isSafeIdentifier name = true := by
  obtain ⟨type, htype, hname⟩ := List.any_eq_true.mp h
  exact of_decide_eq_true hname ▸ hnames type htype

theorem safe_length {name : Bytes} (h : isSafeIdentifier name = true) :
    name.length < GENERATOR_MAX_NAME := by
  rw [isSafeIdentifier] at h
  split at h
  · exact nomatch h
  · exact of_decide_eq_true (Bool.and_eq_true_iff.mp h).1

theorem schemaRef_appends (hnames : NamesSafe ctx) (name : Bytes) :
    Appends sink (openapiWriteSchemaRef fwrite ctx name) (printed (refValue name)) := by
  rw [openapiWriteSchemaRef]
  by_cases hexists : openapiTypeExists ctx name = false
  · rw [if_pos hexists]
    exact fail_appends _
  rw [if_neg hexists]
  have hlen := safe_length (typeExists_safe hnames (Bool.not_eq_false _ ▸ hexists))
  have hshort : (lit "#/components/schemas/" ++ name).length ≤ GENERATOR_MAX_NAME + 32 - 1 := by
    rw [List.length_append, show (lit "#/components/schemas/").length = 21 by rfl]
    omega
  rw [List.take_of_length_le hshort]
  refine (Appends.seq (.cons (text_appends fwrite _) (.cons
    (quoted_appends fwrite (hshort.trans (by decide))) (.cons (text_appends fwrite _) .nil)))).of_eq ?_
  rw [refValue, printed_object, membersText_tail, membersText_nil,
    show lit "\x7b\"$ref\":" = [0x7B] ++ firstLabel (lit "$ref") by rfl]
  simp only [List.flatten_cons, List.flatten_nil, List.append_nil, List.append_assoc]
  rfl

theorem schema_appends (hnames : NamesSafe ctx) (type : Bytes) :
    Appends sink (openapiWriteSchema fwrite ctx type) (printed (schemaValue type)) := by
  rw [openapiWriteSchema, schemaValue]
  split
  · rename_i scalar hscalar
    rw [hscalar, if_pos (show (some scalar).isSome = true from rfl)]
    exact (text_appends fwrite _).of_eq (openapiScalarType_printed hscalar)
  · rename_i hnone
    rw [hnone, if_neg (fun h => nomatch h)]
    exact schemaRef_appends fwrite hnames type

/-- The members that `openapi_write_required` writes. -/
def requiredMembers (type : ParsedType) (isPartial : Bool) : List (Bytes × Value) :=
  let fields := type.fields.filter fun field => !isPartial && field.flags.notNull
  if fields = [] then []
  else [(lit "required", array (fields.map fun field => .str field.name))]

/-- A loop that opens an array with its first item, and closes it if it has. -/
theorem listed_appends {ι : Type} {doing : OpenApiWriter → ι → Bool} {body : Nat → ι → Action}
    {xs : List ι} (chosen : ι → Bool) (head : Bytes) (item : ι → Bytes)
    (hcounts : Counts sink doing chosen)
    (hbody : ∀ n, ∀ x ∈ xs, chosen x = true →
      Appends sink (body n x) ((if n = 0 then head else [0x2C]) ++ item x)) :
    Appends sink (fun w => if (countEach doing body xs (w, 0)).2 ≠ 0 then
        openapiWriteText fwrite (lit "]") (countEach doing body xs (w, 0)).1
        else (countEach doing body xs (w, 0)).1)
      (if xs.filter chosen = [] then []
        else head ++ (separated [0x2C] item (xs.filter chosen) ++ [0x5D])) := by
  have hjoined := @zipIdx_separated ι Byte [0x2C] item (fun n => if n = 0 then head else [0x2C])
    (fun n hn => if_neg hn) (xs.filter chosen)
  rw [if_pos rfl] at hjoined
  intro w hw
  dsimp only at hw ⊢
  by_cases hsome : (countEach doing body xs (w, 0)).2 ≠ 0
  · rw [if_pos hsome] at hw ⊢
    obtain ⟨hmid, hsound', hcontent'⟩ := text_appends fwrite _ _ hw
    obtain ⟨hstart, hsound, hcontent, hcount⟩ := countEach_spec hcounts hbody hmid
    have hne : xs.filter chosen ≠ [] := by
      intro hnil
      rw [hnil] at hcount
      exact hsome hcount
    rw [if_neg hne] at hjoined ⊢
    refine ⟨hstart, fun hs => hsound' (hsound hs), ?_⟩
    rw [hcontent', hcontent, hjoined, List.append_assoc, List.append_assoc]
    rfl
  · rw [if_neg hsome] at hw ⊢
    obtain ⟨hstart, hsound, hcontent, hcount⟩ := countEach_spec hcounts hbody hw
    rw [Nat.zero_add] at hcount
    have hnil := List.length_eq_zero_iff.mp (hcount.symm.trans (not_not.mp hsome))
    rw [hnil] at hcontent ⊢
    exact ⟨hstart, hsound, hcontent⟩

theorem required_appends {type : ParsedType} (hfields : ∀ field ∈ type.fields, Short field.name)
    (isPartial : Bool) : Appends sink (openapiWriteRequired fwrite type isPartial)
      (membersText (requiredMembers type isPartial)) := by
  refine (listed_appends fwrite (fun field => !isPartial && field.flags.notNull)
    (lit ",\"required\":[") (fun field => quote openapiEscaped field.name) ⟨?_, ?_⟩ ?_).of_eq ?_
  · exact fun w field h => (Bool.and_eq_true_iff.mp h).2
  · intro w field hw h
    rw [show w.failed = false from hw, h]
    rfl
  · intro n field hfield _
    refine (Appends.seq (.cons (text_appends fwrite _) (.cons
      (quoted_appends fwrite (hfields field hfield)) .nil))).of_eq ?_
    rw [List.flatten_cons, List.flatten_cons, List.flatten_nil, List.append_nil]
    rfl
  · rw [requiredMembers]
    split
    · rfl
    · rw [membersText_cons, membersText_nil, List.append_nil, printed_array,
        show lit ",\"required\":[" = label (lit "required") ++ [0x5B] by rfl,
        List.append_assoc, separated_map]
      rfl

/-- A member of an object, as a loop writes it. -/
theorem member_appends (i : Nat) {name : Bytes} (hname : Short name) {f : Action} {v : Value}
    (hf : Appends sink f (printed v)) :
    Appends sink (seq [if i ≠ 0 then openapiWriteText fwrite (lit ",") else id,
        openapiWriteQuoted fwrite name, openapiWriteText fwrite (lit ":"), f])
      ((if i ≠ 0 then [0x2C] else []) ++ (firstLabel name ++ printed v)) := by
  refine (Appends.seq (.cons (Appends.optional fun _ => text_appends fwrite (lit ",")) (.cons
    (quoted_appends fwrite hname) (.cons (text_appends fwrite (lit ":")) (.cons hf .nil))))).of_eq ?_
  simp only [List.flatten_cons, List.flatten_nil, List.append_nil, List.append_assoc, firstLabel]
  rfl

/-- The loop over the members of an object. -/
theorem memberLoop_appends {ι : Type} {xs : List ι} {body : ι × Nat → Action}
    (member : ι → Bytes × Value)
    (h : ∀ x ∈ xs, ∀ i, Appends sink (body (x, i))
      ((if i ≠ 0 then [0x2C] else []) ++ (firstLabel (member x).1 ++ printed (member x).2))) :
    Appends sink (each xs.zipIdx body) (membersText (xs.map member)).tail := by
  have hjoined := @zipIdx_separated ι Byte [0x2C]
    (fun x => firstLabel (member x).1 ++ printed (member x).2)
    (fun n => if n ≠ 0 then [0x2C] else []) (fun n hn => if_pos hn) xs
  refine (appends_each fun x hx => ?_).of_eq (hjoined.trans ?_)
  · exact h x.1 (List.fst_mem_of_mem_zipIdx hx) x.2
  · rw [separated_members]
    cases xs with
    | nil => rfl
    | cons x xs => rfl

/-- The schema of a type that is written in place. -/
def inlineValue (ctx : Generator) (schema : ParsedType → Value) (name : Bytes) : Value :=
  match ctx.types.find? fun type => type.name = name with
  | some type => schema type
  | none => object []

/-- The schema of a field, `schema` being that of a nested type. -/
def fieldValue (ctx : Generator) (schema : ParsedType → Value) (isPartial : Bool)
    (field : ParsedField) : Value :=
  if kindText field.kind ≠ lit "FIELD_OBJECT" then object (fieldMembers field)
  else if isPartial = false then refValue field.cType
  else inlineValue ctx schema field.cType

/-- The schema of a type, with the levels left. -/
def typeSchemaValue (ctx : Generator) : Nat → Bool → ParsedType → Value
  | 0, _, _ => object []
  | levels + 1, isPartial, type =>
      object ([(lit "type", text "object"), (lit "additionalProperties", .prim (lit "false")),
        (lit "properties", object (type.fields.map fun field => (field.name,
          fieldValue ctx (typeSchemaValue ctx levels true) isPartial field)))]
        ++ requiredMembers type isPartial)

theorem kindText_object {field : ParsedField} (h : kindText field.kind = lit "FIELD_OBJECT") :
    isObject field = true := by
  revert h
  rw [isObject]
  rcases field.kind with _ | kind
  · decide
  · cases kind <;> decide

/-- What is assumed of the model from here on. -/
structure Documented (ctx : Generator) : Prop where
  sound : ModelSound ctx
  routes : ctx.routes.length ≤ GENERATOR_MAX_ROUTES
  params : ∀ r ∈ ctx.routes, r.params.length ≤ GENERATOR_MAX_PARAMS
  collections : ∀ r ∈ ctx.routes, r.collection ≤ 2
  methods : ∀ r ∈ ctx.routes, openapiMethodName r.method ≠ none
  distinct : ctx.routes.Pairwise fun other r => ¬ (r.url = other.url ∧ r.method = other.method)

theorem Documented.names (h : Documented ctx) : NamesSafe ctx := fun type htype =>
  (h.sound.types.type type htype).name

/-- A type that is declared is found. -/
theorem find_of_mem {name : Bytes} (h : name ∈ ctx.types.map (·.name)) :
    ∃ type ∈ ctx.types, (ctx.types.find? fun type => type.name = name) = some type := by
  obtain ⟨type, htype, hname⟩ := List.mem_map.mp h
  have hsome : (ctx.types.find? fun type => type.name = name).isSome = true :=
    List.find?_isSome.mpr ⟨type, htype, decide_eq_true hname⟩
  obtain ⟨found, hfound⟩ := Option.isSome_iff_exists.mp hsome
  exact ⟨found, List.mem_of_find?_eq_some hfound, hfound⟩

/-- The type of a nested field is declared. -/
theorem Documented.nested (h : Documented ctx) {type : ParsedType} (htype : type ∈ ctx.types)
    {field : ParsedField} (hfield : field ∈ type.fields) (hobject : isObject field = true) :
    field.cType ∈ ctx.types.map (·.name) := by
  obtain ⟨depth, hdepth⟩ := h.sound.types.depth
  obtain ⟨i, hi⟩ := List.mem_iff_getElem?.mp htype
  obtain ⟨k, hk, -⟩ := (hdepth i type hi).2.2 field hfield hobject
  have hlt := typeIndex_lt hk
  obtain ⟨hmem, hname⟩ := @typeIndex_name _ field.cType _ (by
    rw [hk]
    exact List.getElem?_eq_getElem hlt)
  exact List.mem_map.mpr ⟨_, hmem, hname⟩

theorem inline_appends {writeTypeSchema : ParsedType → Action} {schema : ParsedType → Value}
    (h : ∀ type ∈ ctx.types, Appends sink (writeTypeSchema type) (printed (schema type)))
    {name : Bytes} (hname : name ∈ ctx.types.map (·.name)) :
    Appends sink (openapiWriteInlineType writeTypeSchema ctx name)
      (printed (inlineValue ctx schema name)) := by
  obtain ⟨type, htype, hfound⟩ := find_of_mem hname
  rw [openapiWriteInlineType, inlineValue, hfound]
  exact h type htype

/-- **The schema of a type**, by induction on the levels left. -/
theorem typeSchema_appends (h : Documented ctx) (levels : Nat) : ∀ isPartial : Bool,
    ∀ type ∈ ctx.types, Appends sink (openapiWriteTypeSchema fwrite ctx levels isPartial type)
      (printed (typeSchemaValue ctx levels isPartial type)) := by
  induction levels with
  | zero => exact fun isPartial type _ => fail_appends _
  | succ levels ih =>
      intro isPartial type htype
      have haccepted := h.sound.types.type type htype
      have hshort : ∀ field ∈ type.fields, Short field.name := fun field hfield =>
        short_of_safe (haccepted.field field hfield).name
      have hfields := @memberLoop_appends ParsedField type.fields (fun x =>
        guarded OpenApiWriter.failed <| seq [
          if x.2 ≠ 0 then openapiWriteText fwrite (lit ",") else id,
          openapiWriteQuoted fwrite x.1.name,
          openapiWriteText fwrite (lit ":"),
          if kindText x.1.kind ≠ lit "FIELD_OBJECT" then openapiWriteScalarField fwrite x.1
          else if isPartial = false then openapiWriteSchemaRef fwrite ctx x.1.cType
          else openapiWriteInlineType (openapiWriteTypeSchema fwrite ctx levels true) ctx x.1.cType])
        (fun field => (field.name, fieldValue ctx (typeSchemaValue ctx levels true) isPartial field))
        (by
          intro field hfield i
          refine Appends.guarded (member_appends fwrite i (hshort field hfield) ?_)
          rw [fieldValue]
          dsimp only
          split
          · exact scalarField_appends fwrite (h.sound.references type htype field hfield)
          rename_i hkind
          split
          · exact schemaRef_appends fwrite h.names _
          · exact inline_appends (ih true)
              (h.nested htype hfield (kindText_object (not_not.mp hkind))))
      refine (Appends.guarded (Appends.seq (.cons (text_appends fwrite _) (.cons hfields (.cons
        (text_appends fwrite _) (.cons (required_appends fwrite hshort isPartial) (.cons
        (text_appends fwrite _) .nil))))))).of_eq ?_
      rw [typeSchemaValue, printed_object, tail_append (List.cons_ne_nil _ _), membersText_tail,
        membersText_cons, membersText_cons, membersText_nil, List.append_nil, printed_object,
        show lit "\x7b\"type\":\"object\",\"additionalProperties\":false,\"properties\":\x7b"
          = [0x7B] ++ (firstLabel (lit "type") ++ (printed (text "object")
            ++ (label (lit "additionalProperties") ++ (printed (.prim (lit "false"))
            ++ (label (lit "properties") ++ [0x7B]))))) by rfl]
      simp only [List.flatten_cons, List.flatten_nil, List.append_nil, List.append_assoc]
      rfl

/-! ## Operations -/

/-- The schema of a list. -/
def arrayValue (v : Value) : Value :=
  object [(lit "type", text "array"), (lit "maxItems", .prim (lit "100")), (lit "items", v)]

/-- The schema of a number of items or pages. -/
def countMembers : List (Bytes × Value) :=
  [(lit "type", text "integer"), (lit "format", text "int32")]

/-- The schema of a page. -/
def pageValue (v : Value) : Value :=
  object [(lit "type", text "object"),
    (lit "required", array [text "items", text "page", text "size", text "hasMore"]),
    (lit "properties", object [(lit "items", v),
      (lit "page", object (countMembers ++ [(lit "minimum", .prim (lit "0"))])),
      (lit "size", object (countMembers ++ [(lit "minimum", .prim (lit "1")),
        (lit "maximum", .prim (lit "100"))])),
      (lit "hasMore", object [(lit "type", text "boolean")])])]

example : printed (object countMembers) = lit "\x7b\"type\":\"integer\",\"format\":\"int32\"\x7d" := by
  decide +kernel

/-- The schema of what a route returns. -/
def responseValue (route : GeneratorSource.ParsedRoute) : Value :=
  if route.collection = 0 then schemaValue route.returnType
  else if route.collection = 2 then pageValue (arrayValue (schemaValue route.returnType))
  else arrayValue (schemaValue route.returnType)

theorem response_appends (hnames : NamesSafe ctx) (route : GeneratorSource.ParsedRoute) :
    Appends sink (openapiWriteResponse fwrite ctx route) (printed (responseValue route)) := by
  have hschema := schema_appends fwrite hnames route.returnType
  have harray : printed (arrayValue (schemaValue route.returnType))
      = lit "\x7b\"type\":\"array\",\"maxItems\":100,\"items\":"
        ++ (printed (schemaValue route.returnType) ++ lit "\x7d") := by
    rw [arrayValue, printed_object, membersText_tail, membersText_cons, membersText_cons,
      membersText_nil, List.append_nil,
      show lit "\x7b\"type\":\"array\",\"maxItems\":100,\"items\":"
        = [0x7B] ++ (firstLabel (lit "type") ++ (printed (text "array")
          ++ (label (lit "maxItems") ++ (printed (.prim (lit "100"))
          ++ label (lit "items"))))) by rfl]
    simp only [List.append_assoc]
    rfl
  have hpage : ∀ v, printed (pageValue v)
      = (lit "\x7b\"type\":\"object\",\"required\":[\"items\",\"page\",\"size\",\"hasMore\"],"
          ++ lit "\"properties\":\x7b\"items\":") ++ (printed v
        ++ (lit ",\"page\":\x7b\"type\":\"integer\",\"format\":\"int32\",\"minimum\":0\x7d,"
          ++ lit "\"size\":\x7b\"type\":\"integer\",\"format\":\"int32\",\"minimum\":1,\"maximum\":100\x7d,"
          ++ lit "\"hasMore\":\x7b\"type\":\"boolean\"\x7d\x7d\x7d")) := by
    intro v
    rw [pageValue, printed_object, membersText_tail, membersText_cons, membersText_cons,
      membersText_nil, List.append_nil, printed_object, membersText_tail,
      show lit "\x7b\"type\":\"object\",\"required\":[\"items\",\"page\",\"size\",\"hasMore\"],"
          ++ lit "\"properties\":\x7b\"items\":"
        = [0x7B] ++ (firstLabel (lit "type") ++ (printed (text "object")
          ++ (label (lit "required")
          ++ (printed (array [text "items", text "page", text "size", text "hasMore"])
          ++ (label (lit "properties") ++ ([0x7B] ++ firstLabel (lit "items"))))))) by rfl,
      show lit ",\"page\":\x7b\"type\":\"integer\",\"format\":\"int32\",\"minimum\":0\x7d,"
          ++ lit "\"size\":\x7b\"type\":\"integer\",\"format\":\"int32\",\"minimum\":1,\"maximum\":100\x7d,"
          ++ lit "\"hasMore\":\x7b\"type\":\"boolean\"\x7d\x7d\x7d"
        = membersText [(lit "page", object (countMembers ++ [(lit "minimum", .prim (lit "0"))])),
          (lit "size", object (countMembers ++ [(lit "minimum", .prim (lit "1")),
            (lit "maximum", .prim (lit "100"))])),
          (lit "hasMore", object [(lit "type", text "boolean")])] ++ ([0x7D] ++ [0x7D])
        by decide +kernel]
    simp only [List.append_assoc]
  refine (Appends.seq (.cons (Appends.optional fun _ => text_appends fwrite _) (.cons
    (Appends.optional fun _ => text_appends fwrite _) (.cons hschema (.cons
    (Appends.optional fun _ => text_appends fwrite _) (.cons
    (Appends.optional fun _ => text_appends fwrite _) .nil)))))).of_eq ?_
  rw [responseValue]
  by_cases hnone : route.collection = 0
  · have htwo : ¬ route.collection = 2 := hnone ▸ by decide
    simp only [if_pos hnone, if_neg htwo, if_neg (not_not.mpr hnone), List.flatten_cons,
      List.flatten_nil, List.append_nil, List.nil_append]
  by_cases htwo : route.collection = 2
  · simp only [if_neg hnone, if_pos htwo, if_pos (show route.collection ≠ 0 from hnone), hpage,
      harray, List.flatten_cons, List.flatten_nil, List.append_nil, List.append_assoc]
  · simp only [if_neg hnone, if_neg htwo, if_pos (show route.collection ≠ 0 from hnone), harray,
      List.flatten_cons, List.flatten_nil, List.append_nil, List.nil_append, List.append_assoc]

/-- The responses that every operation has. -/
def errorMembers : List (Bytes × Value) :=
  errorCodes.map fun code =>
    (code, object [(lit "$ref", text "#/components/responses/GargantuaError")])

theorem errorResponses_appends :
    Appends sink (openapiWriteErrorResponses fwrite) (membersText errorMembers) := by
  have hshort : ∀ code ∈ errorCodes, Short code := by decide
  refine (appends_each fun code hcode => Appends.seq (.cons (text_appends fwrite _) (.cons
    (quoted_appends fwrite (hshort code hcode)) (.cons (text_appends fwrite _) .nil)))).of_eq ?_
  rw [errorMembers, membersText_flatMap, List.flatMap_map]
  refine List.flatMap_congr fun code _ => ?_
  rw [firstLabel, List.append_assoc,
    show lit ":\x7b\"$ref\":\"#/components/responses/GargantuaError\"\x7d" = [0x3A]
      ++ printed (object [(lit "$ref", text "#/components/responses/GargantuaError")])
      by rfl]
  simp only [List.flatten_cons, List.flatten_nil, List.append_nil]
  rfl

/-- The scheme with which a caller shows who it is. -/
def bearerValue : Value := object [(lit "BearerAuth", array [])]

example : printed bearerValue = lit "\x7b\"BearerAuth\":[]\x7d" := by decide +kernel

/-- The members that `openapi_write_security` writes. -/
def securityMembers (route : GeneratorSource.ParsedRoute) : List (List (Bytes × Value)) := [
  if route.publicRoute then [(lit "security", array [])]
  else if route.authenticated ∨ route.role ≠ [] then [(lit "security", array [bearerValue])]
  else [(lit "security", array [object [], bearerValue]),
    (lit "x-security-config", text "security.enabled")],
  if route.role ≠ [] then [(lit "x-required-role", .str route.role)] else []]

theorem isRole_text {role : Bytes} (h : IsRole role) : Short role ∧ WellFormed role := by
  have hascii : ∀ role, (∀ b ∈ role, b < 0x80) → WellFormed role :=
    fun _ => Utf8.wellFormed_of_ascii
  rcases h with rfl | rfl | rfl
  · exact ⟨Nat.zero_le _, Utf8.wellFormed_nil⟩
  · exact ⟨by decide, hascii _ (by decide)⟩
  · exact ⟨by decide, hascii _ (by decide)⟩

theorem security_appends {route : GeneratorSource.ParsedRoute} (h : IsRole route.role) :
    Appends sink (openapiWriteSecurity fwrite route)
      (membersText (securityMembers route).flatten) := by
  refine members_appends (.cons ?security (.cons ?role .nil))
  case security =>
    rw [apply_ite membersText, apply_ite membersText]
    refine Appends.ite (fun _ => (text_appends fwrite _).of_eq (by rfl)) fun _ => ?_
    exact Appends.ite (fun _ => (text_appends fwrite _).of_eq (by rfl))
      fun _ => (text_appends fwrite _).of_eq (by rfl)
  case role =>
    refine optional_appends fun _ => (Appends.seq (.cons (text_appends fwrite _) (.cons
      (quoted_appends fwrite (isRole_text h).1) .nil))).of_eq ?_
    rw [membersText_cons, membersText_nil,
      show lit ",\"x-required-role\":" = label (lit "x-required-role") by rfl]
    rfl

/-- A parameter of an operation. -/
def parameterValue (param : ParsedParam) : Value :=
  object [(lit "name", .str param.name),
    (lit "in", if param.isQuery then text "query" else text "path"),
    (lit "required", .prim (if param.isQuery = false then lit "true" else lit "false")),
    (lit "schema", schemaValue param.type)]

/-- The members that `openapi_write_parameters` writes. -/
def parametersMembers (route : GeneratorSource.ParsedRoute) : List (Bytes × Value) :=
  if route.params.filter (fun param => !param.isBody) = [] then []
  else [(lit "parameters",
    array ((route.params.filter fun param => !param.isBody).map parameterValue))]

theorem parameters_appends (hnames : NamesSafe ctx) {route : GeneratorSource.ParsedRoute}
    (h : ∀ param ∈ route.params, ParamSound param) :
    Appends sink (openapiWriteParameters fwrite ctx route)
      (membersText (parametersMembers route)) := by
  refine (listed_appends fwrite (fun param => !param.isBody) (lit ",\"parameters\":[")
    (fun param => printed (parameterValue param)) ⟨fun _ _ h => h, fun _ _ _ h => h⟩ ?_).of_eq ?_
  · intro n param hparam _
    refine (Appends.seq (.cons (text_appends fwrite _) (.cons (text_appends fwrite _) (.cons
      (quoted_appends fwrite (short_of_safe (h param hparam).name)) (.cons (text_appends fwrite _)
      (.cons (text_appends fwrite _) (.cons (schema_appends fwrite hnames _) (.cons
      (text_appends fwrite _) .nil)))))))).of_eq ?_
    rw [parameterValue, printed_object, membersText_tail, membersText_cons, membersText_cons,
      membersText_cons, membersText_nil, List.append_nil,
      show lit "\x7b\"name\":" = [0x7B] ++ firstLabel (lit "name") by rfl]
    have hin : (if param.isQuery then lit ",\"in\":\"query\"" else lit ",\"in\":\"path\"")
        = label (lit "in") ++ printed (if param.isQuery then text "query" else text "path") := by
      cases param.isQuery <;> rfl
    have hrequired : (if param.isQuery = false then lit ",\"required\":true,\"schema\":"
          else lit ",\"required\":false,\"schema\":")
        = label (lit "required")
          ++ (printed (.prim (if param.isQuery = false then lit "true" else lit "false"))
          ++ label (lit "schema")) := by
      cases param.isQuery <;> rfl
    rw [hin, hrequired]
    simp only [List.flatten_cons, List.flatten_nil, List.append_nil, List.append_assoc]
    rfl
  · rw [parametersMembers]
    split
    · rfl
    · rw [membersText_cons, membersText_nil, List.append_nil, printed_array, separated_map,
        show lit ",\"parameters\":[" = label (lit "parameters") ++ [0x5B] by rfl,
        List.append_assoc]

/-- The schema of a body. -/
def bodyValue (ctx : Generator) (route : GeneratorSource.ParsedRoute) (type : Bytes) : Value :=
  if route.method ≠ lit "PATCH" then refValue type
  else inlineValue ctx (typeSchemaValue ctx 8 true) type

/-- The member that a body adds. -/
def bodyMember (ctx : Generator) (route : GeneratorSource.ParsedRoute) (type : Bytes) :
    Bytes × Value :=
  (lit "requestBody", object [(lit "required", .prim (lit "true")),
    (lit "content", object [(lit "application/json",
      object [(lit "schema", bodyValue ctx route type)])])])

/-- The members that `openapi_write_request_body` writes. -/
def requestBodyMembers (ctx : Generator) (route : GeneratorSource.ParsedRoute) :
    List (Bytes × Value) :=
  (route.params.filter (·.isBody)).map fun param => bodyMember ctx route param.type

theorem requestBody_appends (h : Documented ctx) {route : GeneratorSource.ParsedRoute}
    (hbody : ∀ param ∈ route.params, param.isBody = true → param.type ∈ ctx.types.map (·.name)) :
    Appends sink (openapiWriteRequestBody fwrite ctx route)
      (membersText (requestBodyMembers ctx route)) := by
  have hmembers : membersText (requestBodyMembers ctx route) = route.params.flatMap fun param =>
      if param.isBody = false then [] else membersText [bodyMember ctx route param.type] := by
    rw [requestBodyMembers]
    generalize route.params = params
    induction params with
    | nil => rfl
    | cons param params ih =>
        rw [List.flatMap_cons, ← ih]
        cases hbody : param.isBody with
        | false => rw [List.filter_cons_of_neg (by rw [hbody]; exact Bool.false_ne_true), if_pos rfl,
            List.nil_append]
        | true =>
            rw [List.filter_cons_of_pos hbody, if_neg (fun hc => nomatch hc), List.map_cons,
              ← membersText_append]
            rfl
  rw [hmembers]
  refine appends_each fun param hparam => Appends.ite (fun _ => appends_nothing) fun hset => ?_
  -- a `PATCH` describes a partial object, in place
  have hschema : Appends sink
      (if route.method ≠ lit "PATCH" then openapiWriteSchemaRef fwrite ctx param.type
        else openapiWriteInlineType (openapiWriteTypeSchema fwrite ctx 8 true) ctx param.type)
      (printed (bodyValue ctx route param.type)) := by
    rw [bodyValue]
    split
    · exact schemaRef_appends fwrite h.names _
    · exact inline_appends (typeSchema_appends fwrite h 8 true)
        (hbody param hparam (Bool.not_eq_false _ ▸ hset))
  refine (Appends.seq (.cons (text_appends fwrite _) (.cons hschema (.cons (text_appends fwrite _)
    .nil)))).of_eq ?_
  rw [bodyMember, membersText_cons, membersText_nil, printed_object, membersText_tail,
    membersText_cons, membersText_nil, printed_object, membersText_tail, membersText_nil,
    printed_object, membersText_tail, membersText_nil,
    show lit ",\"requestBody\":\x7b\"required\":true,\"content\":"
        ++ lit "\x7b\"application/json\":\x7b\"schema\":"
      = label (lit "requestBody") ++ ([0x7B] ++ (firstLabel (lit "required")
        ++ (printed (.prim (lit "true")) ++ (label (lit "content") ++ ([0x7B]
        ++ (firstLabel (lit "application/json") ++ ([0x7B] ++ firstLabel (lit "schema"))))))))
      by rfl,
    show lit "\x7d\x7d\x7d" = [0x7D] ++ ([0x7D] ++ [0x7D]) by rfl]
  simp only [List.flatten_cons, List.flatten_nil, List.append_nil, List.append_assoc]

/-- The member of the response that succeeds. -/
def successMember (route : GeneratorSource.ParsedRoute) : Bytes × Value :=
  if route.returnType = lit "void" then
    (lit "204", object [(lit "description", text "No content")])
  else
    (if route.method = lit "POST" then lit "201" else lit "200",
      object ((lit "description", if route.method = lit "POST" then text "Created" else text "Success")
        :: ((if route.method = lit "POST" then
          [(lit "headers", object [(lit "Location", object [
            (lit "description", text "Resource URI, when supplied by the handler"),
            (lit "schema", object [(lit "type", text "string"),
              (lit "format", text "uri-reference")])])])] else [])
        ++ [(lit "content", object [
          (if route.collection = 0 ∧ route.returnType = lit "str" then lit "text/plain"
            else lit "application/json", object [(lit "schema", responseValue route)])])])))

/-- The responses are opened with the one that succeeds. -/
theorem success_appends (hnames : NamesSafe ctx) (route : GeneratorSource.ParsedRoute) :
    Appends sink (openapiWriteSuccess fwrite ctx route)
      (label (lit "responses") ++ ([0x7B] ++ (firstLabel (successMember route).1
        ++ printed (successMember route).2))) := by
  rw [openapiWriteSuccess, successMember]
  by_cases hvoid : route.returnType = lit "void"
  · rw [if_pos hvoid, if_pos hvoid]
    exact (text_appends fwrite _).of_eq (by rfl)
  rw [if_neg hvoid, if_neg hvoid]
  have hmime : Short (if route.collection = 0 ∧ route.returnType = lit "str" then lit "text/plain"
      else lit "application/json") := by
    split <;> decide
  refine (Appends.seq (.cons (text_appends fwrite _) (.cons
    (Appends.optional fun _ => text_appends fwrite _) (.cons (text_appends fwrite _) (.cons
    (quoted_appends fwrite hmime) (.cons (text_appends fwrite _) (.cons
    (response_appends fwrite hnames route) (.cons (text_appends fwrite _) .nil)))))))).of_eq ?_
  rw [printed_object, membersText_tail, membersText_append, membersText_cons, membersText_nil,
    List.append_nil, printed_object, membersText_tail, membersText_nil, printed_object,
    membersText_tail, membersText_nil,
    show lit ",\"content\":\x7b" = label (lit "content") ++ [0x7B] by rfl,
    show lit ":\x7b\"schema\":" = [0x3A] ++ ([0x7B] ++ firstLabel (lit "schema")) by rfl,
    show lit "\x7d\x7d\x7d" = [0x7D] ++ ([0x7D] ++ [0x7D]) by rfl]
  dsimp only
  generalize (if route.collection = 0 ∧ route.returnType = lit "str" then lit "text/plain"
    else lit "application/json") = mime
  by_cases hpost : route.method = lit "POST"
  · simp only [if_pos hpost]
    rw [show lit ",\"responses\":\x7b\"201\":\x7b\"description\":\"Created\""
        = label (lit "responses") ++ ([0x7B] ++ (firstLabel (lit "201") ++ ([0x7B]
          ++ (firstLabel (lit "description") ++ printed (text "Created"))))) by rfl,
      show lit ",\"headers\":\x7b\"Location\":\x7b\"description\":"
          ++ lit "\"Resource URI, when supplied by the handler\","
          ++ lit "\"schema\":\x7b\"type\":\"string\",\"format\":\"uri-reference\"\x7d\x7d\x7d"
        = membersText [(lit "headers", object [(lit "Location", object [
          (lit "description", text "Resource URI, when supplied by the handler"),
          (lit "schema", object [(lit "type", text "string"),
            (lit "format", text "uri-reference")])])])] by decide +kernel]
    simp only [List.flatten_cons, List.flatten_nil, List.append_nil, List.append_assoc, firstLabel]
  · simp only [if_neg hpost]
    rw [show lit ",\"responses\":\x7b\"200\":\x7b\"description\":\"Success\""
        = label (lit "responses") ++ ([0x7B] ++ (firstLabel (lit "200") ++ ([0x7B]
          ++ (firstLabel (lit "description") ++ printed (text "Success"))))) by rfl,
      membersText_nil]
    simp only [List.flatten_cons, List.flatten_nil, List.append_nil, List.nil_append,
      List.append_assoc, firstLabel]

/-- The members of an operation behind its name. -/
def operationMembers (ctx : Generator) (route : GeneratorSource.ParsedRoute) :
    List (List (Bytes × Value)) :=
  [(securityMembers route).flatten, parametersMembers route, requestBodyMembers ctx route,
    [(lit "responses", object (successMember route :: errorMembers))]]

/-- An operation. -/
def operationValue (ctx : Generator) (route : GeneratorSource.ParsedRoute) : Value :=
  object ((lit "operationId", .str route.functionName) :: (operationMembers ctx route).flatten)

theorem operation_appends (h : Documented ctx) {route : GeneratorSource.ParsedRoute}
    (hroute : route ∈ ctx.routes) : Appends sink (openapiWriteOperation fwrite ctx route)
      (printed (operationValue ctx route)) := by
  have hsound := h.sound.routes route hroute
  -- a body has a declared type: the model was checked for that
  have hbody : ∀ param ∈ route.params, param.isBody = true →
      param.type ∈ ctx.types.map (·.name) := by
    intro param hparam
    have hchecked := h.sound.checked route (by rwa [List.take_of_length_le h.routes])
    refine hchecked.body param ?_
    rwa [List.take_of_length_le (h.params route hroute)]
  refine (Appends.seq (.cons (text_appends fwrite _) (.cons
    (quoted_appends fwrite (short_of_safe hsound.functionName)) (.cons
    (security_appends fwrite hsound.role) (.cons (parameters_appends fwrite h.names hsound.params)
    (.cons (requestBody_appends fwrite h hbody) (.cons (success_appends fwrite h.names route) (.cons
    (errorResponses_appends fwrite) (.cons (text_appends fwrite _) .nil))))))))).of_eq ?_
  have hresponses : (membersText (successMember route :: errorMembers)).tail
      = firstLabel (successMember route).1
        ++ (printed (successMember route).2 ++ membersText errorMembers) := rfl
  rw [operationValue, printed_object, membersText_tail, operationMembers]
  simp only [List.flatten_cons, List.flatten_nil, List.append_nil]
  rw [membersText_append, membersText_append, membersText_append, membersText_cons,
    membersText_nil, printed_object, hresponses,
    show lit "\x7b\"operationId\":" = [0x7B] ++ firstLabel (lit "operationId") by rfl,
    show lit "\x7d\x7d" = [0x7D] ++ [0x7D] by rfl]
  simp only [List.append_nil, List.append_assoc]
  rfl

/-! ## Paths -/

/-- The operations of a path. -/
def operations (ctx : Generator) (url : Bytes) (routes : List GeneratorSource.ParsedRoute) :
    List (Bytes × Value) :=
  (routes.filter fun route => route.url = url).map fun route =>
    ((openapiMethodName route.method).getD [], operationValue ctx route)

/-- The paths that have not been `seen`, each with all of its operations. -/
def pathItems (ctx : Generator) : List Bytes → List GeneratorSource.ParsedRoute →
    List (Bytes × Value)
  | _, [] => []
  | seen, route :: routes =>
      if route.url ∈ seen then pathItems ctx seen routes
      else
        (route.url, object (operations ctx route.url (route :: routes)))
          :: pathItems ctx (route.url :: seen) routes

theorem methodName_mem {method name : Bytes} (h : openapiMethodName method = some name) :
    name ∈ [lit "get", lit "post", lit "put", lit "patch", lit "delete"] := by
  rw [openapiMethodName] at h
  split_ifs at h
  all_goals
    obtain rfl := Option.some.inj h
    decide

/-- The name of a method of the model. -/
theorem Documented.method (h : Documented ctx) {route : GeneratorSource.ParsedRoute}
    (hroute : route ∈ ctx.routes) :
    openapiMethodName route.method = some ((openapiMethodName route.method).getD []) := by
  obtain ⟨name, hname⟩ := Option.ne_none_iff_exists'.mp (h.methods route hroute)
  rw [hname]
  rfl

theorem Documented.shortMethod (h : Documented ctx) {route : GeneratorSource.ParsedRoute}
    (hroute : route ∈ ctx.routes) : Short ((openapiMethodName route.method).getD []) := by
  have hall : ∀ name ∈ [lit "get", lit "post", lit "put", lit "patch", lit "delete"], Short name := by
    decide
  exact hall _ (methodName_mem (h.method hroute))

theorem methods_appends (h : Documented ctx) {routes : List GeneratorSource.ParsedRoute}
    (hroutes : ∀ route ∈ routes, route ∈ ctx.routes) (url : Bytes) :
    Appends sink (openapiWriteMethods fwrite ctx url routes)
      (membersText (operations ctx url routes)).tail := by
  have hjoined := @zipIdx_separated GeneratorSource.ParsedRoute Byte [0x2C]
    (fun route => firstLabel ((openapiMethodName route.method).getD [])
      ++ printed (operationValue ctx route))
    (fun n => if n ≠ 0 then [0x2C] else []) (fun n hn => if_pos hn)
    (routes.filter fun route => route.url = url)
  have htext : (membersText (operations ctx url routes)).tail
      = ((routes.filter fun route => route.url = url).zipIdx).flatMap fun x =>
        (if x.2 ≠ 0 then [0x2C] else []) ++ (firstLabel ((openapiMethodName x.1.method).getD [])
          ++ printed (operationValue ctx x.1)) := by
    rw [hjoined, operations, ← separated_members]
    split
    · rename_i hnil
      rw [hnil]
      rfl
    · rfl
  rw [htext]
  intro w hw
  have hspec := @countEach_spec OpenApiWriter GeneratorSource.ParsedRoute Byte sink
    (fun _ route => decide (route.url = url)) (fun route => decide (route.url = url))
    (fun methods route => seq [if methods ≠ 0 then openapiWriteText fwrite (lit ",") else id,
      openapiWriteQuoted fwrite ((openapiMethodName route.method).getD []),
      openapiWriteText fwrite (lit ":"), openapiWriteOperation fwrite ctx route])
    (fun n route => (if n ≠ 0 then [0x2C] else [])
      ++ (firstLabel ((openapiMethodName route.method).getD []) ++ printed (operationValue ctx route)))
    ⟨fun _ _ h => h, fun _ _ _ h => h⟩ routes
    (fun n route hroute _ => member_appends fwrite n (h.shortMethod (hroutes route hroute))
      (operation_appends fwrite h (hroutes route hroute))) 0 w hw
  exact ⟨hspec.1, hspec.2.1, hspec.2.2.1⟩

theorem zipWith_map_self {α β γ : Type} (f : α → β → γ) (g : α → β) (xs : List α) :
    List.zipWith f xs (xs.map g) = xs.map fun x => f x (g x) := by
  induction xs with
  | nil => rfl
  | cons x xs ih => rw [List.map_cons, List.zipWith_cons_cons, ih, List.map_cons]

/-- The loop over the paths: a route is emitted when its path has been seen. -/
theorem paths_appends (h : Documented ctx) (routes : List GeneratorSource.ParsedRoute) :
    ∀ seen : List Bytes, (∀ route ∈ routes, route ∈ ctx.routes) →
      Appends sink (openapiWritePaths fwrite ctx routes
          (routes.map fun route => decide (route.url ∈ seen)))
        (membersText (pathItems ctx seen routes)) := by
  induction routes with
  | nil => exact fun seen _ => appends_nothing
  | cons route routes ih =>
      intro seen hroutes
      have hrest : ∀ other ∈ routes, other ∈ ctx.routes :=
        fun other hother => hroutes other (List.mem_cons_of_mem route hother)
      rw [List.map_cons, openapiWritePaths, pathItems]
      by_cases hseen : route.url ∈ seen
      · rw [if_pos hseen, if_pos (decide_eq_true hseen)]
        exact ih seen hrest
      -- the later routes of this path are marked, and written with it
      have hmark : List.zipWith (fun (other : GeneratorSource.ParsedRoute) emitted =>
            emitted || decide (other.url = route.url)) routes
          (routes.map fun other => decide (other.url ∈ seen))
          = routes.map fun other => decide (other.url ∈ route.url :: seen) := by
        rw [zipWith_map_self]
        refine List.map_congr_left fun other _ => ?_
        rw [← Bool.decide_or]
        exact decide_eq_decide.mpr ((or_comm).trans List.mem_cons.symm)
      have hurl : Short route.url :=
        Nat.le_of_lt (h.sound.routes route (hroutes route List.mem_cons_self)).url.1
      rw [if_neg hseen, if_neg (fun hc => hseen (of_decide_eq_true hc)), hmark]
      refine (Appends.seq (.cons (text_appends fwrite _) (.cons (quoted_appends fwrite hurl) (.cons
        (text_appends fwrite _) (.cons (methods_appends fwrite h hroutes route.url) (.cons
        (text_appends fwrite _) (.cons (ih (route.url :: seen) hrest) .nil))))))).of_eq ?_
      rw [membersText_cons, printed_object, label, firstLabel,
        show lit ":\x7b" = [0x3A] ++ [0x7B] by rfl]
      simp only [List.flatten_cons, List.flatten_nil, List.append_nil, List.append_assoc,
        List.cons_append]
      rfl

/-! ## The document -/

/-- The path of the document itself. -/
def openapiItem : Bytes × Value :=
  (lit "/openapi.json", object [(lit "get", object [(lit "operationId", text "gg.openapi"),
    (lit "responses", object ((lit "200", object [(lit "description", text "OpenAPI document"),
      (lit "content", object [(lit "application/json",
        object [(lit "schema", object [(lit "type", text "object")])])])]) :: errorMembers))])])

/-- The schema of an object with these properties. -/
def objectSchema (required : List String) (properties : List (Bytes × Value)) :
    List (Bytes × Value) :=
  [(lit "type", text "object"), (lit "required", array (required.map text)),
    (lit "properties", object properties)]

/-- The schema of a fixed type. -/
def fixedSchema (type : String) : Value := object [(lit "type", text type)]

example : printed (fixedSchema "boolean") = lit "\x7b\"type\":\"boolean\"\x7d" := by decide +kernel

/-- The response that reports an error. -/
def errorValue : Value :=
  object [(lit "description", text "Request failed"),
    (lit "content", object [(lit "application/json", object [(lit "schema", object
      (objectSchema ["status", "code", "error", "fields", "truncated"] [
        (lit "status", fixedSchema "integer"), (lit "code", fixedSchema "string"),
        (lit "error", fixedSchema "string"), (lit "truncated", fixedSchema "boolean"),
        (lit "fields", object [(lit "type", text "array"), (lit "maxItems", .prim (lit "16")),
          (lit "items", object (objectSchema ["field", "code", "message"] [
            (lit "field", fixedSchema "string"), (lit "code", fixedSchema "string"),
            (lit "message", fixedSchema "string")]))])]))])])]

/-- The document, from its paths and its schemas. -/
def documentValue (paths schemas : List (Bytes × Value)) : Value :=
  object [(lit "openapi", text "3.1.1"),
    (lit "info", object [(lit "title", text "Gargantua API"), (lit "version", text "1.0.0")]),
    (lit "paths", object paths),
    (lit "components", object [
      (lit "securitySchemes", object [(lit "BearerAuth",
        object [(lit "type", text "http"), (lit "scheme", text "bearer")])]),
      (lit "responses", object [(lit "GargantuaError", errorValue)]),
      (lit "schemas", object schemas)])]

/-- The paths and the schemas of a model. -/
def paths (ctx : Generator) : List (Bytes × Value) :=
  openapiItem :: pathItems ctx [lit "/openapi.json"] ctx.routes

def schemas (ctx : Generator) : List (Bytes × Value) :=
  ctx.types.map fun type => (type.name, typeSchemaValue ctx 8 false type)

theorem Documented.reserved (h : Documented ctx) {route : GeneratorSource.ParsedRoute}
    (hroute : route ∈ ctx.routes) : route.url ≠ lit "/openapi.json" :=
  (h.sound.checked route (by rwa [List.take_of_length_le h.routes])).reserved

theorem schemas_appends (h : Documented ctx) :
    Appends sink (each ctx.types.zipIdx fun x => seq [
        if x.2 ≠ 0 then openapiWriteText fwrite (lit ",") else id,
        openapiWriteQuoted fwrite x.1.name,
        openapiWriteText fwrite (lit ":"),
        openapiWriteTypeSchema fwrite ctx 8 false x.1])
      (membersText (schemas ctx)).tail :=
  memberLoop_appends (fun type => (type.name, typeSchemaValue ctx 8 false type))
    fun type htype i => member_appends fwrite i (short_of_safe (h.names type htype))
      (typeSchema_appends fwrite h 8 false type htype)

/-- **The document that is written is the text of its value.** -/
theorem document_appends (h : Documented ctx) :
    Appends sink (openapiWriteDocument fwrite ctx)
      (printed (documentValue (paths ctx) (schemas ctx))) := by
  have hreserved : Appends sink (each ctx.routes fun route =>
      if route.url = lit "/openapi.json" then
        seq [openapiWriteText fwrite (lit ","),
          openapiWriteQuoted fwrite ((openapiMethodName route.method).getD []),
          openapiWriteText fwrite (lit ":"),
          openapiWriteOperation fwrite ctx route]
      else id) [] := by
    -- the check of the model leaves no route with the path of the document
    have hnothing : ctx.routes.flatMap (fun _ => ([] : Bytes)) = [] :=
      List.flatMap_eq_nil_iff.mpr fun _ _ => rfl
    rw [← hnothing]
    refine appends_each fun route hroute => ?_
    rw [if_neg (h.reserved hroute)]
    exact appends_nothing
  have hpaths := paths_appends fwrite h ctx.routes [lit "/openapi.json"] fun _ hroute => hroute
  -- at the start the path of the document is the only one that is taken
  have hemitted : (ctx.routes.map fun route => decide (route.url ∈ [lit "/openapi.json"]))
      = ctx.routes.map fun route => decide (route.url = lit "/openapi.json") :=
    List.map_congr_left fun route _ => decide_eq_decide.mpr List.mem_singleton
  rw [hemitted] at hpaths
  refine (Appends.seq (.cons (text_appends fwrite _) (.cons
    (quoted_appends fwrite (show Short (lit "/openapi.json") by decide)) (.cons
    (text_appends fwrite _) (.cons (errorResponses_appends fwrite) (.cons (text_appends fwrite _)
    (.cons hreserved (.cons (text_appends fwrite _) (.cons hpaths (.cons (text_appends fwrite _)
    (.cons (schemas_appends fwrite h) (.cons (text_appends fwrite _) .nil)))))))))))).of_eq ?_
  have hopen : lit "\x7b\"openapi\":\"3.1.1\",\"info\":\x7b\"title\":\"Gargantua API\","
      ++ lit "\"version\":\"1.0.0\"\x7d,\"paths\":\x7b"
      = [0x7B] ++ (firstLabel (lit "openapi") ++ (printed (text "3.1.1") ++ (label (lit "info")
        ++ (printed (object [(lit "title", text "Gargantua API"), (lit "version", text "1.0.0")])
        ++ (label (lit "paths") ++ [0x7B]))))) := by rfl
  have hitem : ∀ t : Bytes, quote openapiEscaped (lit "/openapi.json")
      ++ ((lit ":\x7b\"get\":\x7b\"operationId\":\"gg.openapi\",\"responses\":\x7b\"200\":\x7b"
        ++ lit "\"description\":\"OpenAPI document\",\"content\":\x7b\"application/json\":\x7b"
        ++ lit "\"schema\":\x7b\"type\":\"object\"\x7d\x7d\x7d\x7d")
        ++ (membersText errorMembers ++ (lit "\x7d\x7d" ++ (lit "\x7d" ++ t))))
      = firstLabel openapiItem.1 ++ (printed openapiItem.2 ++ t) := by
    intro t
    have hclosed : quote openapiEscaped (lit "/openapi.json")
        ++ ((lit ":\x7b\"get\":\x7b\"operationId\":\"gg.openapi\",\"responses\":\x7b\"200\":\x7b"
          ++ lit "\"description\":\"OpenAPI document\",\"content\":\x7b\"application/json\":\x7b"
          ++ lit "\"schema\":\x7b\"type\":\"object\"\x7d\x7d\x7d\x7d")
          ++ (membersText errorMembers ++ (lit "\x7d\x7d" ++ lit "\x7d")))
        = firstLabel openapiItem.1 ++ printed openapiItem.2 := by decide +kernel
    rw [← List.append_assoc (firstLabel openapiItem.1), ← hclosed]
    simp only [List.append_assoc]
  have hcomponents : (
      lit "\x7d,\"components\":\x7b\"securitySchemes\":\x7b\"BearerAuth\":\x7b\"type\":\"http\",\"scheme\":\"bearer\"\x7d\x7d,"
      ++ lit "\"responses\":\x7b\"GargantuaError\":\x7b\"description\":\"Request failed\","
      ++ lit "\"content\":\x7b\"application/"
      ++ lit "json\":\x7b\"schema\":\x7b\"type\":\"object\","
      ++ lit "\"required\":[\"status\",\"code\",\"error\",\"fields\",\"truncated\"],"
      ++ lit "\"properties\":\x7b\"status\":\x7b\"type\":\"integer\"\x7d,\"code\":\x7b\"type\":\"string\"\x7d,"
      ++ lit "\"error\":\x7b\"type\":\"string\"\x7d,\"truncated\":\x7b\"type\":\"boolean\"\x7d,"
      ++ lit "\"fields\":\x7b\"type\":\"array\",\"maxItems\":16,\"items\":\x7b"
      ++ lit "\"type\":\"object\",\"required\":[\"field\",\"code\",\"message\"],"
      ++ lit "\"properties\":\x7b\"field\":\x7b\"type\":\"string\"\x7d,\"code\":\x7b\"type\":\"string\"\x7d,"
      ++ lit "\"message\":\x7b\"type\":\"string\"\x7d\x7d\x7d\x7d\x7d\x7d\x7d\x7d\x7d\x7d,\"schemas\":\x7b")
      = [0x7D] ++ (label (lit "components") ++ ([0x7B] ++ (firstLabel (lit "securitySchemes")
        ++ (printed (object [(lit "BearerAuth",
          object [(lit "type", text "http"), (lit "scheme", text "bearer")])])
        ++ (label (lit "responses") ++ (printed (object [(lit "GargantuaError", errorValue)])
        ++ (label (lit "schemas") ++ [0x7B]))))))) := by decide +kernel
  have htail : (membersText (paths ctx)).tail = firstLabel openapiItem.1
      ++ (printed openapiItem.2 ++ membersText (pathItems ctx [lit "/openapi.json"] ctx.routes)) := rfl
  rw [documentValue, printed_object, membersText_tail, membersText_cons, membersText_cons,
    membersText_cons, membersText_nil, printed_object (paths ctx), htail,
    printed_object [_, _, _], membersText_tail, membersText_cons, membersText_cons, membersText_nil,
    printed_object (schemas ctx), hopen, hcomponents]
  simp only [List.flatten_cons, List.flatten_nil, List.append_nil, List.append_assoc, ← hitem]
  rfl

end OpenapiDocument
