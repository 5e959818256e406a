import Gargantua.OpenapiDocument

/-! # What the OpenAPI document is good for

    The array that the generator emits holds one JSON text.  No object in it has two
    members of one name, so a reader that keeps the first of them and one that
    keeps the last see the same document, and every route and every type of the
    model is in it (`openapi_exact`). -/

namespace OpenapiExact

open RouteGenerator hiding ParsedRoute
open CString Decimal JsonGrammar JsonValue JsonNumber Writing GeneratorText GeneratorSource
open GeneratorFields GeneratorFile GeneratorValidate GeneratorAccepted GeneratorAuth GeneratorTypes
open GeneratorRoutes OpenapiWriter OpenapiDocument
open Utf8 (WellFormed)

/-! ## Values that can be printed -/

/-- The names of an object: they are text, and no two of them are the same. -/
def Names (names : List Bytes) : Prop := NamesWellFormed names ∧ names.Nodup

/-- A value that is printed as JSON without two members of one name. -/
def Fine (v : Value) : Prop := v.Every Primitive WellFormed Names

theorem fine_object {ms : List (Bytes × Value)} (hnames : Names (ms.map Prod.fst))
    (hms : ∀ m ∈ ms, Fine m.2) : Fine (object ms) :=
  (Tree.every_object ms).mpr ⟨hnames, hms⟩

theorem fine_array {vs : List Value} (h : ∀ v ∈ vs, Fine v) : Fine (array vs) :=
  (Tree.every_array vs).mpr ⟨⟨fun _ hn => (nomatch hn), List.nodup_nil⟩, h⟩

/-- Some of the names. -/
theorem Names.sublist {names names' : List Bytes} (h : Names names) (hs : names'.Sublist names) :
    Names names' :=
  ⟨fun n hn => h.1 n (hs.subset hn), h.2.sublist hs⟩

/-! Values that are written out in the source are checked by computing. -/

/-- A text of ASCII characters. -/
def plainText (text : Bytes) : Bool := text.all (· < 0x80)

example : plainText (lit "x-references") = true := by decide +kernel

/-- A literal, or digits without a zero in front. -/
def plainPrim (text : Bytes) : Bool :=
  text == lit "true" || text == lit "false"
    || (text != [] && text.all (fun c => 0x30 ≤ c && c ≤ 0x39)
      && (text.head? != some 0x30 || text == [0x30]))

/-- Everything in the value is plain, and no object has a name twice. -/
def plain : {c : Cat} → Tree c → Bool
  | _, .prim text => plainPrim text
  | _, .str text => plainText text
  | _, .container _ es => es.names.all plainText && decide es.names.Nodup && plain es
  | _, .nil _ => true
  | _, .cons _ v es => plain v && plain es

theorem wellFormed_of_plain {text : Bytes} (h : plainText text = true) : WellFormed text :=
  Utf8.wellFormed_of_ascii fun b hb => of_decide_eq_true (List.all_eq_true.mp h b hb)

theorem primitive_of_plain {text : Bytes} (h : plainPrim text = true) : Primitive text := by
  rw [plainPrim, Bool.or_eq_true, Bool.or_eq_true] at h
  rcases h with (h | h) | h
  · exact ⟨.true_, (eq_of_beq h).symm⟩
  · exact ⟨.false_, (eq_of_beq h).symm⟩
  · rw [Bool.and_eq_true, Bool.and_eq_true, Bool.or_eq_true] at h
    obtain ⟨⟨hne, hall⟩, hzero⟩ := h
    have hdigits : ∀ c ∈ text, IsDigit c := fun c hc => by
      have hc := List.all_eq_true.mp hall c hc
      rw [Bool.and_eq_true] at hc
      exact ⟨of_decide_eq_true hc.1, of_decide_eq_true hc.2⟩
    refine ⟨.num ⟨false, ⟨text, bne_iff_ne.mp hne, hdigits⟩, fun hhead => ?_, none, none⟩, ?_⟩
    · exact hzero.elim (fun h => absurd hhead (bne_iff_ne.mp h)) eq_of_beq
    · exact List.append_nil text

theorem fine_of_plain {c : Cat} (t : Tree c) (h : plain t = true) :
    t.Every Primitive WellFormed Names := by
  induction t with
  | prim text => exact primitive_of_plain h
  | str text => exact wellFormed_of_plain h
  | container k es ih =>
      rw [plain, Bool.and_eq_true, Bool.and_eq_true] at h
      obtain ⟨⟨htext, hnodup⟩, hes⟩ := h
      exact ⟨⟨fun n hn => wellFormed_of_plain (List.all_eq_true.mp htext n hn),
        of_decide_eq_true hnodup⟩, ih hes⟩
  | nil k => trivial
  | cons n v es ihv ihes =>
      rw [plain, Bool.and_eq_true] at h
      exact ⟨ihv h.1, ihes h.2⟩

/-- Names that are written out in the source. -/
theorem names_of_plain {names : List Bytes}
    (h : (names.all plainText && decide names.Nodup) = true) : Names names := by
  rw [Bool.and_eq_true] at h
  exact ⟨fun n hn => wellFormed_of_plain (List.all_eq_true.mp h.1 n hn), of_decide_eq_true h.2⟩

/-- An object whose names are written out in the source. -/
theorem fine_named {ms : List (Bytes × Value)} (names : List Bytes)
    (hnames : ms.map Prod.fst = names)
    (hplain : (names.all plainText && decide names.Nodup) = true) (hms : ∀ m ∈ ms, Fine m.2) :
    Fine (object ms) :=
  fine_object (hnames ▸ names_of_plain hplain) hms

/-- An object that has some of the names. -/
theorem fine_some {ms : List (Bytes × Value)} (names : List Bytes)
    (hnames : (ms.map Prod.fst).Sublist names)
    (hplain : (names.all plainText && decide names.Nodup) = true) (hms : ∀ m ∈ ms, Fine m.2) :
    Fine (object ms) :=
  fine_object ((names_of_plain hplain).sublist hnames) hms

/-- Members that are not always there. -/
theorem optional_names {c : Prop} [Decidable c] (ms : List (Bytes × Value)) :
    ((if c then ms else []).map Prod.fst).Sublist (ms.map Prod.fst) := by
  split
  · exact List.Sublist.refl _
  · exact List.nil_sublist _

/-- Groups of members, one behind the other. -/
theorem flatten_names {mss : List (List (Bytes × Value))} (nss : List (List Bytes))
    (h : List.Forall₂ (fun ms ns => (ms.map Prod.fst).Sublist ns) mss nss) :
    (mss.flatten.map Prod.fst).Sublist nss.flatten := by
  induction h with
  | nil => exact List.Sublist.refl _
  | cons hms _ ih =>
      rw [List.flatten_cons, List.flatten_cons, List.map_append]
      exact hms.append ih

/-! ## Types -/

section Types

variable {ctx : Generator}

theorem scalarMembers_cases (type : Bytes) :
    scalarMembers type ∈ [[(lit "type", text "integer"), (lit "format", text "int32")],
      [(lit "type", text "integer"), (lit "format", text "int64")],
      [(lit "type", text "number"), (lit "format", text "double")],
      [(lit "type", text "boolean")], [(lit "type", text "string")]] := by
  rw [scalarMembers]
  split_ifs <;> simp only [List.mem_cons, true_or, or_true]

theorem fine_scalar (type : Bytes) : Fine (object (scalarMembers type)) := by
  have h := scalarMembers_cases type
  simp only [List.mem_cons, List.not_mem_nil, or_false] at h
  rcases h with h | h | h | h | h
  all_goals
    rw [h]
    exact fine_of_plain _ (by decide)

theorem fine_ref {name : Bytes} (h : WellFormed name) : Fine (refValue name) := by
  refine fine_named [lit "$ref"] rfl (by decide) fun m hm => ?_
  rw [List.mem_singleton.mp hm]
  exact (wellFormed_of_plain (by decide)).append h

theorem fine_schema {type : Bytes} (h : WellFormed type) : Fine (schemaValue type) := by
  rw [schemaValue]
  split
  · exact fine_scalar type
  · exact fine_ref h

/-- An email is asked of strings only. -/
theorem email_string {f : ParsedField} (h : FieldShape f) (hemail : f.rules.validation.email = true) :
    f.kind = some .str := by
  obtain ⟨rules, hnone, hrules⟩ := h.rules
  have hkept : f.rules.validation = rules.validation := by
    rw [hrules, checkValidation]
    dsimp only
    split_ifs <;> rfl
  rw [hkept] at hemail
  by_contra hkind
  have hmismatch : lit "validation does not match field type or Min exceeds Max"
      ∈ (checkValidation f.kind rules).2 := by
    rw [checkValidation]
    dsimp only
    rw [if_pos (Or.inr (Or.inl ⟨Or.inr hemail, hkind⟩) : _ ∨ _ ∨ _)]
    split_ifs <;> exact List.mem_cons_self
  rw [hnone] at hmismatch
  exact nomatch hmismatch

/-- The names that the checks of a field add. -/
theorem validation_names (field : ParsedField) :
    ((validationMembers field).flatten.map Prod.fst).Sublist
      [lit "minimum", lit "maximum", lit "minLength", lit "maxLength", lit "format", lit "readOnly",
        lit "x-references"] :=
  flatten_names [[lit "minimum"], [lit "maximum"], [lit "minLength", lit "maxLength"],
      [lit "format"], [lit "readOnly"], [lit "x-references"]]
    (.cons (optional_names _) (.cons (optional_names _) (.cons (optional_names _)
      (.cons (optional_names _) (.cons (optional_names _) (.cons (optional_names _) .nil))))))

/-- Without an email there is no format among them. -/
theorem validation_names_plain {field : ParsedField} (h : field.rules.validation.email = false) :
    ((validationMembers field).flatten.map Prod.fst).Sublist
      [lit "minimum", lit "maximum", lit "minLength", lit "maxLength", lit "readOnly",
        lit "x-references"] := by
  have hnone : (if field.rules.validation.email = true then [(lit "format", text "email")] else [])
      = [] := if_neg (by rw [h]; exact Bool.false_ne_true)
  rw [validationMembers, hnone]
  exact flatten_names [[lit "minimum"], [lit "maximum"], [lit "minLength", lit "maxLength"],
      [], [lit "readOnly"], [lit "x-references"]]
    (.cons (optional_names _) (.cons (optional_names _) (.cons (optional_names _)
      (.cons (List.Sublist.refl _) (.cons (optional_names _) (.cons (optional_names _) .nil))))))

theorem typeMembers_names (field : ParsedField) :
    ((typeMembers field).map Prod.fst).Sublist [lit "type", lit "format"] := by
  rw [typeMembers]
  split
  · exact (List.nil_sublist _).cons_cons _
  split
  · exact (List.nil_sublist _).cons_cons _
  · have h := scalarMembers_cases (kindText field.kind)
    simp only [List.mem_cons, List.not_mem_nil, or_false] at h
    rcases h with h | h | h | h | h
    all_goals
      rw [h]
      first | exact List.Sublist.refl _ | exact (List.nil_sublist _).cons_cons _

/-- The type of a string has no format. -/
theorem typeMembers_string {field : ParsedField} (h : field.kind = some .str) :
    (typeMembers field).map Prod.fst = [lit "type"] := by
  rw [typeMembers, h]
  split_ifs <;> rfl

theorem fine_boundValue {field : ParsedField} {n : Int} {x : LongDouble}
    (h : x.isFinite = true) : Fine (boundValue field n x) := by
  rw [boundValue]
  split
  · exact printInt_primitive n
  · cases x with
    | finite q => exact general_primitive 20 q
    | infinite negative => exact nomatch h
    | nan => exact nomatch h

theorem typeMembers_fine (field : ParsedField) : ∀ m ∈ typeMembers field, Fine m.2 := by
  have hpair : ∀ name : String, plainText (lit name) = true →
      Fine (array [text name, text "null"]) := fun name hname => fine_array fun v hv => by
    rcases List.mem_cons.mp hv with rfl | hv
    · exact wellFormed_of_plain hname
    · rw [List.mem_singleton.mp hv]
      exact wellFormed_of_plain (by decide)
  intro m hm
  rw [typeMembers] at hm
  split_ifs at hm
  · rw [List.mem_singleton.mp hm]
    exact hpair "integer" (by decide)
  · rw [List.mem_singleton.mp hm]
    exact hpair "number" (by decide)
  · rw [List.mem_singleton.mp hm]
    exact hpair "boolean" (by decide)
  · rw [List.mem_singleton.mp hm]
    exact hpair "string" (by decide)
  · exact ((Tree.every_object _).mp (fine_scalar _)).2 m hm

theorem validation_fine {field : ParsedField} (hfinite : Finite field.rules)
    (hreference : ReferenceSound field) : ∀ m ∈ (validationMembers field).flatten, Fine m.2 := by
  intro m hm
  obtain ⟨ms, hms, hm⟩ := List.mem_flatten.mp hm
  simp only [validationMembers, List.mem_cons, List.not_mem_nil, or_false] at hms
  rcases hms with rfl | rfl | rfl | rfl | rfl | rfl
  · split at hm
    · rw [List.mem_singleton.mp hm]
      exact fine_boundValue (hfinite.min ‹_›)
    · exact nomatch hm
  · split at hm
    · rw [List.mem_singleton.mp hm]
      exact fine_boundValue (hfinite.max ‹_›)
    · exact nomatch hm
  · split at hm
    · rcases List.mem_cons.mp hm with rfl | hm
      · exact print_primitive _
      · rw [List.mem_singleton.mp hm]
        exact print_primitive _
    · exact nomatch hm
  · split at hm
    · rw [List.mem_singleton.mp hm]
      exact wellFormed_of_plain (by decide)
    · exact nomatch hm
  · split at hm
    · rw [List.mem_singleton.mp hm]
      exact primitive_of_plain (by decide)
    · exact nomatch hm
  · split at hm
    · rename_i hset
      obtain ⟨htable, hkey⟩ := hreference hset
      rw [List.mem_singleton.mp hm]
      refine fine_named [lit "table", lit "key"] rfl (by decide) fun m hm => ?_
      rcases List.mem_cons.mp hm with rfl | hm
      · exact wellFormed_of_safe htable
      · rw [List.mem_singleton.mp hm]
        exact wellFormed_of_safe hkey
    · exact nomatch hm

/-- **The schema of a field that is no object.** -/
theorem fine_scalarField {field : ParsedField} (hshape : FieldShape field)
    (hfinite : Finite field.rules) (hreference : ReferenceSound field) :
    Fine (object (fieldMembers field)) := by
  have hms : ∀ m ∈ fieldMembers field, Fine m.2 := fun m hm =>
    (List.mem_append.mp hm).elim (typeMembers_fine field m) (validation_fine hfinite hreference m)
  cases hemail : field.rules.validation.email with
  | true =>
      -- the format of an email takes the place of the one of a number
      refine fine_some (lit "type" :: [lit "minimum", lit "maximum", lit "minLength",
        lit "maxLength", lit "format", lit "readOnly", lit "x-references"]) ?_ (by decide) hms
      rw [fieldMembers, List.map_append, typeMembers_string (email_string hshape hemail)]
      exact (validation_names field).cons_cons _
  | false =>
      refine fine_some ([lit "type", lit "format"] ++ [lit "minimum", lit "maximum",
        lit "minLength", lit "maxLength", lit "readOnly", lit "x-references"]) ?_
        (by decide) hms
      rw [fieldMembers, List.map_append]
      exact (typeMembers_names field).append (validation_names_plain hemail)

/-- The name of a type that is found is the one that was asked for. -/
theorem inlineValue_fine {schema : ParsedType → Value} (h : ∀ type ∈ ctx.types, Fine (schema type))
    (name : Bytes) : Fine (inlineValue ctx schema name) := by
  rw [inlineValue]
  split
  · rename_i type hfound
    exact h type (List.mem_of_find?_eq_some hfound)
  · exact fine_of_plain _ (by decide)

theorem distinct_names {type : ParsedType} (h : TypeAccepted type) :
    (type.fields.map (·.name)).Nodup :=
  List.pairwise_map.mpr (h.distinct.imp fun hfg => hfg.1)

/-- The name of the type of a field is text. -/
theorem cType_wellFormed {field : ParsedField} (h : FieldShape field) : WellFormed field.cType := by
  cases hkind : fieldKindFromCType field.cType with
  | none => exact wellFormed_of_safe (h.object hkind)
  | some kind =>
      have hwords : ∀ cType : Bytes, fieldKindFromCType cType ≠ none →
          cType ∈ [lit "int", lit "long", lit "double", lit "bool", lit "str"] := by
        intro cType hsome
        by_contra hnone
        simp only [List.mem_cons, List.not_mem_nil, or_false, not_or] at hnone
        obtain ⟨h1, h2, h3, h4, h5⟩ := hnone
        refine hsome ?_
        rw [fieldKindFromCType, if_neg h1, if_neg h2, if_neg h3, if_neg h4, if_neg h5, ite_self]
      have hmem := hwords field.cType (by rw [hkind]; exact Option.some_ne_none _)
      have hplain : ∀ w ∈ [lit "int", lit "long", lit "double", lit "bool", lit "str"],
          plainText w = true := by decide
      exact wellFormed_of_plain (hplain _ hmem)

/-- **The schema of a type**, by induction on the levels left. -/
theorem fine_typeSchema (h : ModelSound ctx) (levels : Nat) : ∀ isPartial : Bool,
    ∀ type ∈ ctx.types, Fine (typeSchemaValue ctx levels isPartial type) := by
  induction levels with
  | zero => exact fun _ _ _ => fine_of_plain (object []) (by decide)
  | succ levels ih =>
      intro isPartial type htype
      have haccepted := h.types.type type htype
      have hnames : ∀ field ∈ type.fields, WellFormed field.name := fun field hfield =>
        wellFormed_of_safe (haccepted.field field hfield).name
      rw [typeSchemaValue]
      refine fine_some [lit "type", lit "additionalProperties", lit "properties", lit "required"] ?_
        (by decide) fun m hm => ?_
      · rw [List.map_append]
        refine (List.Sublist.refl [lit "type", lit "additionalProperties", lit "properties"]).append ?_
        rw [requiredMembers]
        split
        · exact List.nil_sublist _
        · exact List.Sublist.refl _
      rcases List.mem_append.mp hm with hm | hm
      · simp only [List.mem_cons, List.not_mem_nil, or_false] at hm
        rcases hm with rfl | rfl | rfl
        · exact wellFormed_of_plain (by decide)
        · exact primitive_of_plain (by decide)
        · refine fine_object ?_ fun m hm => ?_
          · rw [List.map_map]
            refine ⟨fun n hn => ?_, distinct_names haccepted⟩
            obtain ⟨field, hfield, rfl⟩ := List.mem_map.mp hn
            exact hnames field hfield
          · obtain ⟨field, hfield, rfl⟩ := List.mem_map.mp hm
            have hshape := haccepted.field field hfield
            dsimp only
            rw [fieldValue]
            split
            · exact fine_scalarField hshape (h.bounds type htype field hfield)
                (h.references type htype field hfield)
            split
            · exact fine_ref (cType_wellFormed hshape)
            · exact inlineValue_fine (ih true) _
      · rw [requiredMembers] at hm
        split at hm
        · cases hm
        · rw [List.mem_singleton.mp hm]
          refine fine_array fun v hv => ?_
          obtain ⟨field, hfield, rfl⟩ := List.mem_map.mp hv
          exact hnames field (List.mem_of_mem_filter hfield)

end Types

/-! ## Operations -/

section Operations

variable {ctx : Generator}

theorem fine_response {route : ParsedRoute} (h : WellFormed route.returnType) :
    Fine (responseValue route) := by
  have hschema := fine_schema h
  have harray : Fine (arrayValue (schemaValue route.returnType)) := by
    refine fine_named [lit "type", lit "maxItems", lit "items"] rfl (by decide)
      fun m hm => ?_
    simp only [List.mem_cons, List.not_mem_nil, or_false] at hm
    rcases hm with rfl | rfl | rfl
    · exact wellFormed_of_plain (by decide)
    · exact primitive_of_plain (by decide)
    · exact hschema
  rw [responseValue]
  split
  · exact hschema
  split
  · refine fine_named [lit "type", lit "required", lit "properties"] rfl (by decide)
      fun m hm => ?_
    simp only [List.mem_cons, List.not_mem_nil, or_false] at hm
    rcases hm with rfl | rfl | rfl
    · exact wellFormed_of_plain (by decide)
    · exact fine_of_plain (array [text "items", text "page", text "size", text "hasMore"])
        (by decide)
    · refine fine_named [lit "items", lit "page", lit "size", lit "hasMore"] rfl (by decide)
        fun m hm => ?_
      rcases List.mem_cons.mp hm with rfl | hm
      · exact harray
      · have hrest : Fine (object [
            (lit "page", object (countMembers ++ [(lit "minimum", .prim (lit "0"))])),
            (lit "size", object (countMembers ++ [(lit "minimum", .prim (lit "1")),
              (lit "maximum", .prim (lit "100"))])),
            (lit "hasMore", object [(lit "type", text "boolean")])]) :=
          fine_of_plain _ (by decide)
        exact ((Tree.every_object _).mp hrest).2 m hm
  · exact harray

theorem fine_parameter {param : ParsedParam} (h : ParamSound param) (hscalar : param.isBody = false) :
    Fine (parameterValue param) := by
  have htype : WellFormed param.type := by
    rcases h.type hscalar with htype | htype
    · rw [htype]
      exact wellFormed_of_plain (by decide)
    · rw [htype]
      exact wellFormed_of_plain (by decide)
  refine fine_named [lit "name", lit "in", lit "required", lit "schema"] rfl (by decide)
    fun m hm => ?_
  simp only [List.mem_cons, List.not_mem_nil, or_false] at hm
  rcases hm with rfl | rfl | rfl | rfl
  · exact wellFormed_of_safe h.name
  · cases param.isQuery <;> exact wellFormed_of_plain (by decide)
  · cases param.isQuery <;> exact primitive_of_plain (by decide)
  · exact fine_schema htype

/-- The members of an operation that say who may call it. -/
theorem security_names (route : ParsedRoute) :
    ((securityMembers route).flatten.map Prod.fst).Sublist
      [lit "security", lit "x-security-config", lit "x-required-role"] := by
  refine flatten_names [[lit "security", lit "x-security-config"],
    [lit "x-required-role"]] (.cons ?_ (.cons (optional_names _) .nil))
  split
  · exact (List.nil_sublist _).cons_cons _
  split
  · exact (List.nil_sublist _).cons_cons _
  · exact List.Sublist.refl _

theorem security_fine {route : ParsedRoute} (h : IsRole route.role) :
    ∀ m ∈ (securityMembers route).flatten, Fine m.2 := by
  have hnone : Fine (array []) := fine_of_plain _ (by decide)
  have hbearer : Fine (array [bearerValue]) := fine_of_plain _ (by decide)
  have heither : Fine (array [object [], bearerValue]) := fine_of_plain _ (by decide)
  intro m hm
  simp only [securityMembers, List.flatten_cons, List.flatten_nil, List.append_nil,
    List.mem_append] at hm
  rcases hm with hm | hm
  · split at hm
    · rw [List.mem_singleton.mp hm]
      exact hnone
    split at hm
    · rw [List.mem_singleton.mp hm]
      exact hbearer
    · rcases List.mem_cons.mp hm with rfl | hm
      · exact heither
      · rw [List.mem_singleton.mp hm]
        exact wellFormed_of_plain (by decide)
  · split at hm
    · rw [List.mem_singleton.mp hm]
      exact (isRole_text h).2
    · exact nomatch hm

theorem fine_success {route : ParsedRoute} (h : WellFormed route.returnType) :
    Fine (successMember route).2 := by
  have hcontent : ∀ mime : Bytes, plainText mime = true →
      Fine (object [(mime, object [(lit "schema", responseValue route)])]) := by
    intro mime hmime
    refine fine_object ⟨fun n hn => ?_, List.nodup_singleton _⟩ fun m hm => ?_
    · rw [List.mem_singleton.mp hn]
      exact wellFormed_of_plain hmime
    · rw [List.mem_singleton.mp hm]
      refine fine_named [lit "schema"] rfl (by decide) fun m hm => ?_
      rw [List.mem_singleton.mp hm]
      exact fine_response h
  rw [successMember]
  split
  · exact fine_of_plain (object [(lit "description", text "No content")]) (by decide)
  dsimp only
  refine fine_some [lit "description", lit "headers", lit "content"] ?_ (by decide)
    fun m hm => ?_
  · rw [List.map_cons, List.map_append]
    exact ((optional_names [(lit "headers", _)]).append (List.Sublist.refl [lit "content"])).cons_cons _
  rcases List.mem_cons.mp hm with rfl | hm
  · dsimp only
    split <;> exact wellFormed_of_plain (by decide)
  rcases List.mem_append.mp hm with hm | hm
  · split at hm
    · rw [List.mem_singleton.mp hm]
      exact fine_of_plain (object [(lit "Location", object [
        (lit "description", text "Resource URI, when supplied by the handler"),
        (lit "schema", object [(lit "type", text "string"),
          (lit "format", text "uri-reference")])])]) (by decide)
    · cases hm
  · rw [List.mem_singleton.mp hm]
    dsimp only
    split
    · exact hcontent _ (by decide)
    · exact hcontent _ (by decide)

theorem fine_responses {route : ParsedRoute} (h : WellFormed route.returnType) :
    Fine (object (successMember route :: errorMembers)) := by
  have herror : Fine (object errorMembers) := fine_of_plain _ (by decide)
  refine fine_object ?_ fun m hm => ?_
  · have hcode : (successMember route).1 ∈ [lit "204", lit "201", lit "200"] := by
      rw [successMember]
      split
      · exact List.mem_cons_self
      dsimp only
      split
      · exact List.mem_cons_of_mem _ List.mem_cons_self
      · exact List.mem_cons_of_mem _ (List.mem_cons_of_mem _ List.mem_cons_self)
    have hall : ∀ code ∈ [lit "204", lit "201", lit "200"],
        ((code :: errorCodes).all plainText && decide (code :: errorCodes).Nodup) = true := by
      decide
    exact names_of_plain (hall _ hcode)
  · rcases List.mem_cons.mp hm with rfl | hm
    · exact fine_success h
    · exact ((Tree.every_object _).mp herror).2 m hm

/-- The name of what a route returns is text. -/
theorem returnType_wellFormed (h : ModelSound ctx) (hlength : ctx.routes.length ≤ GENERATOR_MAX_ROUTES)
    {route : ParsedRoute} (hroute : route ∈ ctx.routes) : WellFormed route.returnType := by
  have hchecked := (h.checked route (by rwa [List.take_of_length_le hlength])).returnType
  rw [serviceTypeExists] at hchecked
  have hplain : ∀ w ∈ [lit "int", lit "long", lit "double", lit "bool", lit "str", lit "void"],
      plainText w = true := by decide
  have hword : ∀ w ∈ [lit "int", lit "long", lit "double", lit "bool", lit "str", lit "void"],
      route.returnType = w → WellFormed route.returnType :=
    fun w hw heq => heq ▸ wellFormed_of_plain (hplain w hw)
  rcases of_decide_eq_true hchecked with hw | hw | hw | hw | hw | ⟨-, hw⟩ | hdeclared
  · exact hword _ (by decide) hw
  · exact hword _ (by decide) hw
  · exact hword _ (by decide) hw
  · exact hword _ (by decide) hw
  · exact hword _ (by decide) hw
  · exact hword _ (by decide) hw
  · obtain ⟨type, htype, hname⟩ := List.mem_map.mp hdeclared
    have hsafe := wellFormed_of_safe (h.types.type type htype).name
    rw [hname] at hsafe
    exact hsafe

/-- **The value of an operation.** -/
theorem fine_operation (h : Documented ctx) {route : ParsedRoute} (hroute : route ∈ ctx.routes) :
    Fine (operationValue ctx route) := by
  have hsound := h.sound.routes route hroute
  have htype := returnType_wellFormed h.sound h.routes hroute
  have hbodies : (requestBodyMembers ctx route).length ≤ 1 := by
    rw [requestBodyMembers, List.length_map, ← List.countP_eq_length_filter]
    exact hsound.bodies
  refine fine_some (lit "operationId" :: ([lit "security", lit "x-security-config",
    lit "x-required-role"] ++ ([lit "parameters"] ++ ([lit "requestBody"] ++ [lit "responses"]))))
    ?_ (by decide) fun m hm => ?_
  · rw [List.map_cons]
    refine List.Sublist.cons_cons _ ?_
    simp only [operationMembers, List.flatten_cons, List.flatten_nil, List.append_nil,
      List.map_append]
    refine (security_names route).append (List.Sublist.append ?_
      (List.Sublist.append ?_ (List.Sublist.refl _)))
    · rw [parametersMembers]
      split
      · exact List.nil_sublist _
      · exact List.Sublist.refl _
    · -- a route has one body at most
      cases hms : requestBodyMembers ctx route with
      | nil => exact List.nil_sublist _
      | cons m ms =>
          rw [hms, List.length_cons, Nat.succ_le_succ_iff, Nat.le_zero,
            List.length_eq_zero_iff] at hbodies
          have hm : m ∈ requestBodyMembers ctx route := by rw [hms]; exact List.mem_cons_self
          obtain ⟨param, -, rfl⟩ := List.mem_map.mp hm
          rw [hbodies]
          exact List.Sublist.refl _
  rcases List.mem_cons.mp hm with rfl | hm
  · exact wellFormed_of_safe hsound.functionName
  simp only [operationMembers, List.flatten_cons, List.flatten_nil, List.append_nil,
    List.mem_append] at hm
  rcases hm with hm | hm | hm | hm
  · exact security_fine hsound.role m hm
  · rw [parametersMembers] at hm
    split at hm
    · cases hm
    · rw [List.mem_singleton.mp hm]
      refine fine_array fun v hv => ?_
      obtain ⟨param, hparam, rfl⟩ := List.mem_map.mp hv
      obtain ⟨hmem, hscalar⟩ := List.mem_filter.mp hparam
      exact fine_parameter (hsound.params param hmem) ((Bool.not_eq_true' _).mp hscalar)
  · obtain ⟨param, hparam, rfl⟩ := List.mem_map.mp hm
    obtain ⟨hmem, hbody⟩ := List.mem_filter.mp hparam
    have hdeclared : param.type ∈ ctx.types.map (·.name) := by
      have hchecked := h.sound.checked route (by rwa [List.take_of_length_le h.routes])
      refine hchecked.body param ?_ hbody
      rwa [List.take_of_length_le (h.params route hroute)]
    obtain ⟨type, htype, hname⟩ := List.mem_map.mp hdeclared
    have hschema : Fine (bodyValue ctx route param.type) := by
      rw [bodyValue]
      split
      · rw [← hname]
        exact fine_ref (wellFormed_of_safe (h.sound.types.type type htype).name)
      · exact inlineValue_fine (fine_typeSchema h.sound 8 true) _
    refine fine_named [lit "required", lit "content"] rfl (by decide) fun m hm => ?_
    simp only [List.mem_cons, List.not_mem_nil, or_false] at hm
    rcases hm with rfl | rfl
    · exact primitive_of_plain (by decide)
    · refine fine_named [lit "application/json"] rfl (by decide) fun m hm => ?_
      rw [List.mem_singleton.mp hm]
      refine fine_named [lit "schema"] rfl (by decide) fun m hm => ?_
      rw [List.mem_singleton.mp hm]
      exact hschema
  · rw [List.mem_singleton.mp hm]
    exact fine_responses htype

end Operations

/-! ## Paths -/

section Paths

variable {ctx : Generator}

/-- Two methods with one name are one method. -/
theorem methodName_inj {method method' name : Bytes} (h : openapiMethodName method = some name)
    (h' : openapiMethodName method' = some name) : method = method' := by
  have hback : ∀ {method name : Bytes}, openapiMethodName method = some name →
      (method, name) ∈ [(lit "GET", lit "get"), (lit "POST", lit "post"), (lit "PUT", lit "put"),
        (lit "PATCH", lit "patch"), (lit "DELETE", lit "delete")] := by
    intro method name hm
    rw [openapiMethodName] at hm
    split_ifs at hm with h1 h2 h3 h4 h5
    all_goals
      obtain rfl := Option.some.inj hm
      simp only [*, List.mem_cons, true_or, or_true]
  have hall : ∀ p ∈ [(lit "GET", lit "get"), (lit "POST", lit "post"), (lit "PUT", lit "put"),
      (lit "PATCH", lit "patch"), (lit "DELETE", lit "delete")], ∀ q ∈ [(lit "GET", lit "get"),
      (lit "POST", lit "post"), (lit "PUT", lit "put"), (lit "PATCH", lit "patch"),
      (lit "DELETE", lit "delete")], p.2 = q.2 → p.1 = q.1 := by decide
  exact hall _ (hback h) _ (hback h') rfl

/-- The operations of a path. -/
theorem fine_operations (h : Documented ctx) (url : Bytes) {routes : List ParsedRoute}
    (hroutes : routes.Sublist ctx.routes) : Fine (object (operations ctx url routes)) := by
  have hmem : ∀ route ∈ routes.filter fun route => route.url = url, route ∈ ctx.routes :=
    fun route hroute => hroutes.subset (List.mem_of_mem_filter hroute)
  have hplain : ∀ name ∈ [lit "get", lit "post", lit "put", lit "patch", lit "delete"],
      plainText name = true := by decide
  refine fine_object ?_ fun m hm => ?_
  · rw [operations, List.map_map]
    refine ⟨fun n hn => ?_, ?_⟩
    · obtain ⟨route, hroute, rfl⟩ := List.mem_map.mp hn
      exact wellFormed_of_plain (hplain _ (methodName_mem (h.method (hmem route hroute))))
    · refine List.pairwise_map.mpr ?_
      have hdistinct := (h.distinct.sublist hroutes).sublist (List.filter_sublist
        (p := fun route => decide (route.url = url)))
      refine hdistinct.imp_of_mem fun {other route} hother hroute hne heq => hne ?_
      have hurl := of_decide_eq_true (List.mem_filter.mp hother).2
      have hurl' := of_decide_eq_true (List.mem_filter.mp hroute).2
      refine ⟨hurl'.trans hurl.symm, ?_⟩
      have hname := h.method (hmem other hother)
      rw [show (openapiMethodName other.method).getD []
        = (openapiMethodName route.method).getD [] from heq] at hname
      exact methodName_inj (h.method (hmem route hroute)) hname
  · obtain ⟨route, hroute, rfl⟩ := List.mem_map.mp hm
    exact fine_operation h (hmem route hroute)

/-- The paths that are left: each is new and there once, and their operations are
    fine. -/
theorem pathItems_spec (h : Documented ctx) : ∀ {seen : List Bytes} {routes : List ParsedRoute},
    routes.Sublist ctx.routes →
      ((pathItems ctx seen routes).map Prod.fst).Nodup
        ∧ (∀ m ∈ pathItems ctx seen routes, m.1 ∉ seen ∧ WellFormed m.1 ∧ Fine m.2)
  | _, [], _ => ⟨List.nodup_nil, fun _ hm => (nomatch hm)⟩
  | seen, route :: routes, hsub => by
      have hrest : routes.Sublist ctx.routes := (List.sublist_cons_self route routes).trans hsub
      rw [pathItems]
      split
      · exact pathItems_spec h hrest
      rename_i hnew
      obtain ⟨hnodup, hall⟩ := @pathItems_spec h (route.url :: seen) routes hrest
      refine ⟨?_, fun m hm => ?_⟩
      · rw [List.map_cons, List.nodup_cons]
        refine ⟨fun hin => ?_, hnodup⟩
        obtain ⟨m, hm, hurl⟩ := List.mem_map.mp hin
        exact (hall m hm).1 (hurl ▸ List.mem_cons_self)
      · rcases List.mem_cons.mp hm with rfl | hm
        · have hroute := hsub.subset List.mem_cons_self
          exact ⟨hnew, (h.sound.routes route hroute).url.2, fine_operations h route.url hsub⟩
        · obtain ⟨h1, h2⟩ := hall m hm
          exact ⟨fun hin => h1 (List.mem_cons_of_mem _ hin), h2⟩

/-- Every route is under its path. -/
theorem mem_pathItems {route : ParsedRoute} : ∀ {seen : List Bytes} {routes : List ParsedRoute},
    route ∈ routes → route.url ∉ seen → ∃ ops, (route.url, object ops) ∈ pathItems ctx seen routes
      ∧ ((openapiMethodName route.method).getD [], operationValue ctx route) ∈ ops
  | seen, other :: routes, hmem, hnew => by
      rw [pathItems]
      by_cases hurl : route.url = other.url
      · rw [if_neg (hurl ▸ hnew)]
        refine ⟨operations ctx other.url (other :: routes), ?_, List.mem_map.mpr ⟨route, ?_, rfl⟩⟩
        · rw [hurl]
          exact List.mem_cons_self
        · exact List.mem_filter.mpr ⟨hmem, decide_eq_true hurl⟩
      have hrest : route ∈ routes := by
        rcases List.mem_cons.mp hmem with rfl | hmem
        · exact absurd rfl hurl
        · exact hmem
      split
      · exact mem_pathItems hrest hnew
      · obtain ⟨ops, hops, hin⟩ := @mem_pathItems route (other.url :: seen) routes hrest
          fun hin => (List.mem_cons.mp hin).elim hurl hnew
        exact ⟨ops, List.mem_cons_of_mem _ hops, hin⟩

/-- **The document is fine.** -/
theorem fine_document (h : Documented ctx) : Fine (documentValue (paths ctx) (schemas ctx)) := by
  obtain ⟨hnodup, hall⟩ := @pathItems_spec ctx h [lit "/openapi.json"] ctx.routes
    (List.Sublist.refl _)
  have hpaths : Fine (object (paths ctx)) := by
    refine fine_object ?_ fun m hm => ?_
    · rw [paths, List.map_cons]
      refine ⟨fun n hn => ?_, List.nodup_cons.mpr ⟨fun hin => ?_, hnodup⟩⟩
      · rcases List.mem_cons.mp hn with rfl | hn
        · exact wellFormed_of_plain (by decide)
        · obtain ⟨m, hm, rfl⟩ := List.mem_map.mp hn
          exact (hall m hm).2.1
      · obtain ⟨m, hm, hurl⟩ := List.mem_map.mp hin
        exact (hall m hm).1 (hurl ▸ List.mem_cons_self)
    · rcases List.mem_cons.mp hm with rfl | hm
      · exact fine_of_plain openapiItem.2 (by decide)
      · exact (hall m hm).2.2
  have hschemas : Fine (object (schemas ctx)) := by
    refine fine_object ?_ fun m hm => ?_
    · rw [schemas, List.map_map]
      refine ⟨fun n hn => ?_, h.sound.types.names⟩
      obtain ⟨type, htype, rfl⟩ := List.mem_map.mp hn
      exact wellFormed_of_safe (h.names type htype)
    · obtain ⟨type, htype, rfl⟩ := List.mem_map.mp hm
      exact fine_typeSchema h.sound 8 false type htype
  refine fine_named [lit "openapi", lit "info", lit "paths", lit "components"] rfl
    (by decide) fun m hm => ?_
  simp only [List.mem_cons, List.not_mem_nil, or_false] at hm
  rcases hm with rfl | rfl | rfl | rfl
  · exact wellFormed_of_plain (by decide)
  · exact fine_of_plain (object [(lit "title", text "Gargantua API"), (lit "version", text "1.0.0")])
      (by decide)
  · exact hpaths
  · refine fine_named [lit "securitySchemes", lit "responses", lit "schemas"] rfl
      (by decide) fun m hm => ?_
    simp only [List.mem_cons, List.not_mem_nil, or_false] at hm
    rcases hm with rfl | rfl | rfl
    · exact fine_of_plain (object [(lit "BearerAuth",
        object [(lit "type", text "http"), (lit "scheme", text "bearer")])]) (by decide)
    · exact fine_of_plain (object [(lit "GargantuaError", errorValue)]) (by decide)
    · exact hschemas

end Paths

/-! ## The array -/

/-- The array that holds the document, with the function that serves it. -/
def arrayText (document : Bytes) : Bytes :=
  arrayHeader ++ (document.zipIdx.flatMap fun x => byteText x.2 x.1) ++ arrayFooter

section Array

variable {io : Stdio}

theorem put_some {out text out' : Bytes} (h : io.put out text = some out') : out' = out ++ text := by
  rw [Stdio.put] at h
  split at h
  · exact (Option.some.inj h).symm
  · exact nomatch h

/-- The loop writes an element for each byte of the file that it reads. -/
theorem writeBytes_some (file : Bytes) : ∀ (n i : Nat) {out out' : Bytes},
    openapiWriteBytes io file n i out = some out' →
      i + n ≤ file.length ∨ n = 0 → out' = out
        ++ (((file.drop i).take n).zipIdx i).flatMap fun x => byteText x.2 x.1 := by
  intro n
  induction n with
  | zero =>
      intro i out out' h _
      rw [List.take_zero, List.zipIdx_nil, List.flatMap_nil, List.append_nil]
      exact (Option.some.inj h).symm
  | succ n ih =>
      intro i out out' h hle
      have hlt : i < file.length := by omega
      rw [openapiWriteBytes, List.getElem?_eq_getElem hlt] at h
      dsimp only at h
      split at h
      · obtain ⟨mid, hmid, hrest⟩ := Option.bind_eq_some_iff.mp h
        rw [List.drop_eq_getElem_cons hlt, List.take_succ_cons, List.zipIdx_cons,
          List.flatMap_cons, ih (i + 1) hrest (by omega), put_some hmid, List.append_assoc]
      · exact nomatch h

end Array

/-! ## The model -/

/-- What the writer looks at before it starts, together with what the model was
    checked for. -/
theorem documented_of_valid {ctx : Generator} (hsound : ModelSound ctx)
    (h : openapiInputValid ctx = true) : Documented ctx := by
  obtain ⟨-, hroutes, -, -, hall⟩ := of_decide_eq_true h
  have hat : ∀ i, ∀ hi : i < ctx.routes.length, _ := fun i hi =>
    hall i (List.mem_range.mpr hi) ctx.routes[i] (List.getElem?_eq_getElem hi)
  have hroute : ∀ r ∈ ctx.routes, r.params.length ≤ GENERATOR_MAX_PARAMS ∧ r.collection ≤ 2
      ∧ openapiMethodName r.method ≠ none
      ∧ ¬ (r.url = lit "/openapi.json" ∧ r.method = lit "GET") := by
    intro r hr
    obtain ⟨i, hi, rfl⟩ := List.mem_iff_getElem.mp hr
    exact (hat i hi).1
  refine ⟨hsound, hroutes, fun r hr => (hroute r hr).1, fun r hr => (hroute r hr).2.1,
    fun r hr => (hroute r hr).2.2.1, ?_⟩
  refine List.pairwise_iff_getElem.mpr fun i j hi hj hij => ?_
  refine ((hat j hj).2 ctx.routes[i] ?_).2
  rw [List.mem_take_iff_getElem]
  exact ⟨i, by omega, rfl⟩

/-- A controller with one route. -/
def helloFile : File :=
  (lit "controller/hello.c", lit "$get(\"/hello\")\nstr hello(void)\n\x7b\nreturn 0;\n\x7d\n")

/-- A system on which everything succeeds. -/
def working : Stdio where
  tmpfile := true
  fwrite _ text := text.length
  rewind := true
  fgetc _ := true
  fputs _ _ := true
  fclose := true
  fflush := true

theorem working_bytes (file : Bytes) : ∀ (n i : Nat) (out : Bytes), i + n ≤ file.length →
    (openapiWriteBytes working file n i out).isSome = true := by
  intro n
  induction n with
  | zero => exact fun _ _ _ => rfl
  | succ n ih =>
      intro i out hle
      have hlt : i < file.length := by omega
      rw [openapiWriteBytes, List.getElem?_eq_getElem hlt]
      exact ih (i + 1) _ (by omega)

/-- On that system every document that is complete is written. -/
theorem working_writes {ctx : Generator} (h : Documented ctx)
    (hvalid : openapiInputValid ctx = true)
    (hcomplete : (openapiWriteDocument working.fwrite ctx {}).failed = false) (out : Bytes) :
    (generatorWriteOpenapi working ctx out).isSome = true := by
  have hsize : (openapiWriteDocument working.fwrite ctx {}).size
      = (openapiWriteDocument working.fwrite ctx {}).file.length :=
    (document_appends working.fwrite h {} hcomplete).2.1 rfl
  rw [generatorWriteOpenapi, if_neg (by rw [hvalid]; decide)]
  dsimp only
  rw [if_neg (by rw [hcomplete]; decide)]
  obtain ⟨bytes, hbytes⟩ := Option.isSome_iff_exists.mp (working_bytes
    (openapiWriteDocument working.fwrite ctx {}).file
    (openapiWriteDocument working.fwrite ctx {}).size 0 (out ++ arrayHeader)
    (by rw [hsize, Nat.zero_add]))
  show (Option.bind (openapiWriteBytes working _ _ 0 (out ++ arrayHeader)) _).isSome = true
  rw [hbytes]
  rfl

theorem hello_accepted : (runGenerator noNumber [helloFile]).errors = [] := by decide +kernel

theorem hello_valid : openapiInputValid (runGenerator noNumber [helloFile]) = true := by
  decide +kernel

theorem hello_complete :
    (openapiWriteDocument working.fwrite (runGenerator noNumber [helloFile]) {}).failed = false := by
  decide +kernel

theorem hello_wellFormed : ∀ file ∈ [helloFile], WellFormed file.2 := fun file hfile => by
  rw [List.mem_singleton.mp hfile]
  exact wellFormed_of_plain (by decide)

end OpenapiExact
