import Mathlib.Data.List.Pairwise
import Gargantua.BodyBinding

/-! # Reading a body reads its derivation

    The reader works on tokens, on a text that it changes under its own feet and
    on a struct.  Over the tokens of a derivation it fails exactly where the rules
    on the derivation fail, and else leaves what applying the members one after
    the other leaves: values written to the struct, strings decoded in place, and
    a table of what was there. -/

namespace BodyRead

open CString JsonParse JsonGrammar JsonDecode JsonLexical JsonAccess GeneratorText GeneratorSource
  RuntimeTypes RuntimeError RuntimeObject RuntimeBody BodyTree ObjectFields BodyBinding JsonMachine
  Memory

/-! ## One value -/

/-- What reading a string does to the text. -/
def decodeInPlace : Json .value → Nat → Bytes → Bytes
  | .str s, position, json => overwrite json (position + 1) (s.decode ++ [0])
  | _, _, json => json

/-- A value as the struct stores it: a string is a pointer into the text. -/
def stored (position : Nat) : Scalar → Scalar
  | .str _ => .str (.body (position + 1))
  | v => v

theorem stored_kind (position : Nat) (c : Scalar) : Scalar.kind (stored position c) = Scalar.kind c := by
  cases c <;> rfl

section Token

variable {v : Json .value} {position index : Nat} {parent : Int} {tok : JsonToken} {js : Bytes}

/-- The number is not the literal `null`. -/
theorem number_not_null (n : Number) : n.render ≠ lit "null" := by
  obtain ⟨c, t, heq, hc⟩ := Number.render_cons n
  rw [heq]
  intro h
  obtain rfl : c = 0x6E := (List.cons.inj h).1
  rcases hc with hc | hc
  · exact absurd hc (by decide)
  · exact absurd hc (by decide)

theorem prim_null (p : Prim) : (p.render == lit "null") = isNullValue (.prim p) := by
  cases p with
  | true_ => rfl
  | false_ => rfl
  | null => rfl
  | num n => exact beq_eq_false_iff_ne.mpr (number_not_null n)

/-- The reader recognises `null`. -/
theorem nullToken_eq (htok : (v.tokens position index parent).head? = some tok)
    (htext : TextAt js position v.render) : nullToken js tok = isNullValue v := by
  cases v with
  | prim p =>
      obtain rfl := Option.some.inj htok
      have hspans := htext.spans (t := ⟨.prim, position,
        ((position + p.render.length : Nat) : Int), parent⟩) rfl rfl
      rw [nullToken, ← prim_null p, hspans.slice]
      show (true && _ && p.render == lit "null") = (p.render == lit "null")
      rw [Bool.true_and]
      cases hnull : p.render == lit "null" with
      | true =>
          rw [Bool.and_true]
          refine decide_eq_true ?_
          rw [eq_of_beq hnull]
          dsimp only
          have h4 : (lit "null").length = 4 := rfl
          omega
      | false => exact Bool.and_false _
  | str s => obtain rfl := Option.some.inj htok; rfl
  | empty k w => obtain rfl := Option.some.inj htok; cases k <;> rfl
  | full k es => obtain rfl := Option.some.inj htok; cases k <;> rfl

theorem tokenText_prim {js : Bytes} {tok : JsonToken} {text : Bytes} (htype : tok.type = .prim)
    (h : Spans js tok text) (hne : text ≠ []) (cap : Nat) :
    tokenText js tok cap = if text.length ≥ cap then none else some text := by
  have hslice := h.slice
  obtain ⟨pre, post, -, hstart, hend⟩ := h
  have hlen := List.length_pos_of_ne_nil hne
  rw [tokenText, if_neg, hslice]
  rw [not_or, not_not, hstart, hend]
  exact ⟨htype, by omega⟩

theorem tokenText_other {js : Bytes} {tok : JsonToken} (htype : tok.type ≠ .prim) (cap : Nat) :
    tokenText js tok cap = none :=
  if_pos (Or.inl htype)

theorem prim_ne_nil (p : Prim) : p.render ≠ [] := by
  obtain ⟨c, t, heq, -⟩ := Prim.render_cons p
  rw [heq]
  exact List.cons_ne_nil c t

theorem jsonTokenLongChecked_prim {tok : JsonToken} {p : Prim} (htype : tok.type = .prim)
    (h : Spans js tok p.render) : jsonTokenLongChecked js tok = checkedLong p.render := by
  rw [jsonTokenLongChecked, tokenText_prim htype h (prim_ne_nil p), checkedLong]
  by_cases hlen : p.render.length ≥ 128
  · rw [if_pos hlen, if_pos hlen]
  · rw [if_neg hlen, if_neg hlen]

theorem jsonTokenDoubleChecked_prim (strtod : Strtod) {tok : JsonToken} {p : Prim}
    (htype : tok.type = .prim) (h : Spans js tok p.render) :
    jsonTokenDoubleChecked strtod js tok = checkedDouble strtod p.render := by
  rw [jsonTokenDoubleChecked, tokenText_prim htype h (prim_ne_nil p), checkedDouble]
  by_cases hlen : p.render.length ≥ 128
  · rw [if_pos hlen, if_pos hlen]
  · rw [if_neg hlen, if_neg hlen]

theorem jsonTokenBoolChecked_prim {tok : JsonToken} {p : Prim} (htype : tok.type = .prim)
    (h : Spans js tok p.render) (strtod : Strtod) :
    (jsonTokenBoolChecked js tok).map Scalar.bool = readContent strtod .bool (.prim p) := by
  have hslice := h.slice
  obtain ⟨pre, post, -, hstart, hend⟩ := h
  rw [jsonTokenBoolChecked, if_neg (by rw [not_or, not_not, hstart, hend]; exact ⟨htype, by omega⟩),
    hslice]
  cases p with
  | true_ => rfl
  | false_ => rfl
  | null => rfl
  | num n =>
      obtain ⟨c, t, heq, hc⟩ := Number.render_cons n
      have hne : ∀ l : Bytes, ¬ (l.headD 0 = 0x2D ∨ IsDigit (l.headD 0)) → ¬ n.render = l := by
        rintro l hl rfl
        rw [heq] at hl
        exact hl hc
      rw [Prim.render, if_neg (hne (lit "true") (by decide)),
        if_neg (hne (lit "false") (by decide))]
      rfl

end Token

section Value

variable {abi : Abi} {strtod : Strtod} {f : FieldInfo} {base : Nat} {st : Reader}
  {v : Json .value} {position index : Nat} {parent : Int} {tok : JsonToken}

/-- The state behind a value that was read. -/
def Reader.put (abi : Abi) (f : FieldInfo) (base position : Nat) (v : Json .value) (st : Reader)
    (c : Scalar) : Reader :=
  { st with
    json := decodeInPlace v position st.json
    obj := store st.obj (base + f.offset) (abi.sizeOf f.kind) (stored position c) }

/-- A primitive is read as a value of its kind. -/
theorem readScalar_prim {p : Prim} (hkind : f.kind ≠ .object) (htype : tok.type = .prim)
    (hspans : Spans st.json tok p.render) (hnull : isNullValue (.prim p) = false) :
    @readScalar abi strtod f base st tok
      = (readContent strtod f.kind (.prim p)).map
          (Reader.put abi f base position (.prim p) st) := by
  rw [readScalar]
  cases hk : f.kind with
  | str =>
      have hslice := hspans.slice
      have hno : nullToken st.json tok = false := by
        rw [nullToken, hslice, prim_null, hnull, Bool.and_false]
      have hstr : tok.type ≠ .str := by
        rw [htype]
        exact fun e => nomatch e
      dsimp only
      rw [readTextField, hno, Bool.false_and, if_neg Bool.false_ne_true, if_pos hstr]
      rfl
  | int =>
      dsimp only
      rw [readIntField, jsonTokenLongChecked_prim htype hspans, readContent]
      cases checkedLong p.render with
      | none => rfl
      | some n =>
          dsimp only
          split_ifs
          · rfl
          · rw [Option.map_some, Reader.put, hk]
            rfl
  | long =>
      dsimp only
      rw [jsonTokenLongChecked_prim htype hspans, readContent, Option.map_map]
      refine Option.map_congr fun n _ => ?_
      rw [Function.comp_apply, Reader.put, hk]
      rfl
  | double =>
      dsimp only
      rw [jsonTokenDoubleChecked_prim strtod htype hspans, readContent, Option.map_map]
      refine Option.map_congr fun n _ => ?_
      rw [Function.comp_apply, Reader.put, hk]
      rfl
  | bool =>
      dsimp only
      rw [← jsonTokenBoolChecked_prim htype hspans strtod, Option.map_map]
      refine Option.map_congr fun b _ => ?_
      rw [Function.comp_apply, Reader.put, hk]
      rfl
  | object => exact absurd hk hkind

/-- A string is decoded in place. -/
theorem readScalar_str {s : Str} (hkind : f.kind ≠ .object) (htype : tok.type = .str)
    (hstart : tok.start = position + 1) (hspans : Spans st.json tok s.render) :
    @readScalar abi strtod f base st tok
      = (readContent strtod f.kind (.str s)).map (Reader.put abi f base position (.str s) st) := by
  have hprim : tok.type ≠ .prim := by
    rw [htype]
    exact fun e => nomatch e
  rw [readScalar]
  cases hk : f.kind with
  | str =>
      have hno : nullToken st.json tok = false := by
        rw [nullToken, decide_eq_false hprim, Bool.false_and, Bool.false_and]
      have hnul := stringHasNoNul_iff hspans
      have hcopy : jsonCopyStr st.json tok ((tok.end_ - tok.start).toNat + 1) = s.decode := by
        obtain ⟨pre, post, -, h1, h2⟩ := id hspans
        refine hspans.jsonCopyStr htype ?_
        rw [h1, h2]
        omega
      dsimp only
      rw [readTextField, hno, Bool.false_and, if_neg Bool.false_ne_true,
        if_neg (fun hne => hne htype), unescapeInPlace, readContent]
      by_cases hz : (0 : Byte) ∈ s.decode
      · rw [if_neg (fun h => hnul.mp h hz), if_pos hz]
        rfl
      · rw [if_pos (hnul.mpr hz), if_neg hz, hcopy, Option.map_some, Option.map_some, Reader.put,
          hk, hstart]
        rfl
  | int =>
      dsimp only
      rw [readIntField, jsonTokenLongChecked, tokenText_other hprim]
      rfl
  | long =>
      dsimp only
      rw [jsonTokenLongChecked, tokenText_other hprim]
      rfl
  | double =>
      dsimp only
      rw [jsonTokenDoubleChecked, tokenText_other hprim]
      rfl
  | bool =>
      dsimp only
      rw [jsonTokenBoolChecked, if_pos (Or.inl hprim)]
      rfl
  | object => exact absurd hk hkind

/-- A container is no value of a scalar field. -/
theorem readScalar_container (hkind : f.kind ≠ .object) (hprim : tok.type ≠ .prim)
    (hstr : tok.type ≠ .str) : @readScalar abi strtod f base st tok = none := by
  have hno : nullToken st.json tok = false := by
    rw [nullToken, decide_eq_false hprim, Bool.false_and, Bool.false_and]
  rw [readScalar]
  cases hk : f.kind with
  | str =>
      dsimp only
      rw [readTextField, hno, Bool.false_and, if_neg Bool.false_ne_true, if_pos hstr]
  | int =>
      dsimp only
      rw [readIntField, jsonTokenLongChecked, tokenText_other hprim]
  | long =>
      dsimp only
      rw [jsonTokenLongChecked, tokenText_other hprim]
      rfl
  | double =>
      dsimp only
      rw [jsonTokenDoubleChecked, tokenText_other hprim]
      rfl
  | bool =>
      dsimp only
      rw [jsonTokenBoolChecked, if_pos (Or.inl hprim)]
      rfl
  | object => exact absurd hk hkind

/-- **A value is read as the rules on derivations say.** -/
theorem readScalar_eq (hkind : f.kind ≠ .object) (hnull : isNullValue v = false)
    (htok : (v.tokens position index parent).head? = some tok)
    (htext : TextAt st.json position v.render) :
    @readScalar abi strtod f base st tok
      = (readContent strtod f.kind v).map (Reader.put abi f base position v st) := by
  cases v with
  | prim p =>
      obtain rfl := Option.some.inj htok
      exact readScalar_prim hkind rfl (htext.spans rfl rfl) hnull
  | str s =>
      obtain rfl := Option.some.inj htok
      have hinner : TextAt st.json (position + 1) s.render := by
        have h : TextAt st.json position s.quoted := htext
        rw [Str.quoted] at h
        exact h.tail.left
      exact readScalar_str hkind rfl rfl (hinner.spans rfl rfl)
  | empty k w =>
      obtain rfl := Option.some.inj htok
      rw [readScalar_container hkind (by cases k <;> exact fun e => by cases e)
        (by cases k <;> exact fun e => by cases e)]
      cases f.kind <;> rfl
  | full k es =>
      obtain rfl := Option.some.inj htok
      rw [readScalar_container hkind (by cases k <;> exact fun e => by cases e)
        (by cases k <;> exact fun e => by cases e)]
      cases f.kind <;> rfl

/-- Over the text of a value, decoding in place stays inside it. -/
theorem decodeInPlace_sameOutside {js : Bytes} (h : position + v.render.length ≤ js.length) :
    SameOutside js (decodeInPlace v position js) position (position + v.render.length) := by
  cases v with
  | prim p => exact SameOutside.refl js _ _
  | str s =>
      have hlen : (Json.str s).render.length = s.render.length + 2 := by
        show (Str.quoted s).length = _
        rw [Str.quoted, List.length_cons, List.length_append, List.length_singleton]
      have hdec := Str.decode_length s
      have hbytes : (s.decode ++ [0]).length = s.decode.length + 1 := List.length_append
      rw [hlen] at h ⊢
      exact (overwrite_sameOutside js (by omega)).mono (by omega) (by omega)
  | empty k w => exact SameOutside.refl js _ _
  | full k es => exact SameOutside.refl js _ _

/-- The string that was decoded in place is there. -/
theorem decodeInPlace_textAt {s : Str} {js : Bytes} (h : position + 1 ≤ js.length) :
    TextAt (decodeInPlace (.str s) position js) (position + 1) (s.decode ++ [0]) :=
  overwrite_textAt js h

/-- The rules see the string that the pointer points to. -/
theorem stored_rules (printLg : LongDouble → Bytes) (r : FieldRules) {kind : FieldKind}
    {js : Bytes} {c : Scalar} (hc : readContent strtod kind v = some c)
    (hjs : position + 1 ≤ js.length) :
    scalarRules printLg r (decodeInPlace v position js) (stored position c)
      = scalarRules printLg r [] c := by
  match kind, v with
  | .str, .str s =>
      rw [readContent] at hc
      split_ifs at hc with hnul
      rw [← Option.some.inj hc]
      have htext := cstr_textAt (decodeInPlace_textAt (s := s) hjs) hnul
      show stringRules r (cstr ((decodeInPlace (.str s) position js).drop (position + 1)))
        = stringRules r (cstr s.decode)
      rw [htext, cstr_eq_self hnul]
  | .int, .prim p =>
      have hk := readContent_kind hc
      cases c with
      | int n => rfl
      | long n => cases hk
      | double x => cases hk
      | bool b => cases hk
      | str p => cases hk
  | .long, .prim p =>
      obtain ⟨n, -, rfl⟩ := Option.map_eq_some_iff.mp hc
      rfl
  | .double, .prim p =>
      obtain ⟨x, -, rfl⟩ := Option.map_eq_some_iff.mp hc
      rfl
  | .bool, .prim .true_ => rw [← Option.some.inj hc]; rfl
  | .bool, .prim .false_ => rw [← Option.some.inj hc]; rfl

end Value

/-! ## Entries -/

/-- A member that the reader reads: the field that it is for, and where it
    stands. -/
structure Entry where
  path : Bytes
  base : Nat
  field : FieldInfo
  value : Json .value
  position : Nat

/-- The row of the table. -/
def Entry.state (e : Entry) : BodyField where
  path := snprintf FIELD_PATH_LEN e.path
  offset := e.base + e.field.offset
  field := e.field
  isNull := isNullValue e.value

section Entries

variable {abi : Abi} (nl : NullableLayout abi) (strtod : Strtod) (ds : Descriptors)

/-- What reading a value leaves in the struct. -/
def leafWrite (f : FieldInfo) (v : Json .value) (position : Nat) (obj : Object) (base : Nat) :
    Object :=
  match decodedValue strtod f.kind v with
  | none => clear obj (base + f.offset) f.size
  | some c => writeField nl f (stored position c) obj base

/-- What reading a member leaves. -/
def Entry.apply (st : Reader) (e : Entry) : Reader :=
  if e.field.kind = .object then { st with body := st.body ++ [e.state] }
  else
    { json := decodeInPlace e.value e.position st.json
      obj := leafWrite nl strtod e.field e.value e.position st.obj e.base
      body := st.body ++ [e.state]
      fail := st.fail }

/-- The entries of a field, with those of a nested object. -/
def fieldEntries (nested : Option Nat → Bytes → Nat → Json .value → Nat → Nat → List Entry)
    (path : Bytes) (base : Nat) (ms : List Member) (f : FieldInfo) : List Entry :=
  match lookup ms f.name with
  | none => []
  | some m =>
      ⟨joinPath path f.name, base, f, m.value, m.valueAt⟩ ::
        (if f.kind = .object then
          nested f.nested (joinPath path f.name) (base + f.offset) m.value m.valueAt m.index
        else [])

/-- The entries of an object, in the order in which they are read. -/
def entries : Nat → Option Nat → Bytes → Nat → Json .value → Nat → Nat → List Entry
  | 0, _, _, _, _, _, _ => []
  | levels + 1, type, path, base, v, position, index =>
      match deref ds type, objectMembers v position index with
      | some info, some ms => info.fields.flatMap (fieldEntries (entries levels) path base ms)
      | _, _ => []

end Entries

/-! ## A field that is no object -/

section Leaf

variable {abi : Abi} {nl : NullableLayout abi} {strtod : Strtod} {printLg : LongDouble → Bytes}
  {toks : List JsonToken} {f : FieldInfo} {base t : Nat} {st : Reader} {v : Json .value}
  {position index : Nat} {parent : Int} {tok : JsonToken}

/-- A value is read into its field, flag and all. -/
theorem readValue_eq (hkind : f.kind ≠ .object)
    (htok : (v.tokens position index parent).head? = some tok)
    (htext : TextAt st.json position v.render) :
    readValue nl strtod f base st tok
      = if isNullValue v then some { st with obj := clear st.obj (base + f.offset) f.size }
        else (readContent strtod f.kind v).map fun c =>
          { st with
            json := decodeInPlace v position st.json
            obj := writeField nl f (stored position c) st.obj base } := by
  rw [readValue, nullToken_eq htok htext]
  cases hnull : isNullValue v with
  | true => rfl
  | false =>
      have hk := fieldScalar_kind nl f
      rw [if_neg Bool.false_ne_true, if_neg Bool.false_ne_true,
        readScalar_eq (by rw [hk]; exact hkind) hnull htok htext, hk, Option.map_map]
      refine Option.map_congr fun c _ => ?_
      rw [Function.comp_apply, Reader.put, hk]
      rfl

theorem isNullValue_decoded (h : isNullValue v = true) (kind : FieldKind) :
    decodedValue strtod kind v = none :=
  if_pos h

theorem isNullValue_inPlace (h : isNullValue v = true) (js : Bytes) :
    decodeInPlace v position js = js := by
  cases v with
  | str s => exact nomatch h
  | prim p => rfl
  | empty k w => rfl
  | full k es => rfl

/-- A field that takes `null` is null when it is cleared. -/
theorem zeroValue_of_null (h : refusesNull f = false) :
    zeroValue f = none ∧ f.flags.notNull = false := by
  rw [refusesNull, Bool.or_eq_false_iff, Bool.and_eq_false_iff, decide_eq_false_iff_not, not_not,
    Bool.not_eq_false'] at h
  refine ⟨?_, h.1⟩
  rw [zeroValue]
  rcases h.2 with hk | hn
  · rw [hk, ite_self]
  · rw [if_pos hn]

/-- The reader with one more row in its table. -/
def Reader.note (st : Reader) (e : Entry) : Reader := { st with body := st.body ++ [e.state] }

/-- `json_read_nested` at a value of the derivation. -/
theorem bindField_eq {nested : Option Nat → Nat → Bytes → Nat → Reader → Bool × Reader}
    (name : Bytes) (hget : toks[t]? = some tok)
    (htok : (v.tokens position index parent).head? = some tok)
    (htext : TextAt st.json position v.render) :
    bindField nl strtod printLg toks nested base name f t st
      = let st' := Reader.note st ⟨name, base, f, v, position⟩
        if isNullValue v && refusesNull f then
          (true, st'.error name (lit "not_null") (lit "field does not accept null"))
        else if f.kind = .object then
          if tok.type ≠ .obj then (true, st'.error name (lit "type") (lit "must be an object"))
          else nested f.nested t name (base + f.offset) st'
        else
          match readValue nl strtod f base st' tok with
          | none => (true, st'.error name (lit "type") (lit "invalid value for field type"))
          | some st' =>
              let result := fieldValidate abi nl printLg st'.json f st'.obj base name st'.fail
              (result.1, { st' with fail := result.2 }) := by
  rw [bindField, hget]
  dsimp only
  rw [nullToken_eq htok htext]
  rfl

/-- The check of a value that was just written. -/
theorem fieldValidate_written (hplaced : Placed abi f) {js : Bytes} {obj : Object}
    (name : Bytes) (fail : Failure) {x : Option Scalar} (hx : fieldValue nl f obj base = x) :
    (valueCheck printLg f js x = none →
        fieldValidate abi nl printLg js f obj base name fail = (false, fail))
      ∧ (valueCheck printLg f js x ≠ none →
        (fieldValidate abi nl printLg js f obj base name fail).1 = true) := by
  rw [fieldValidate, fieldCheck_eq nl printLg js hplaced.scalar, hx]
  cases hcheck : valueCheck printLg f js x with
  | none => exact ⟨fun _ => rfl, fun h => absurd rfl h⟩
  | some e => exact ⟨fun h => (nomatch h), fun _ => rfl⟩

/-- **A field is bound exactly if it takes the value.** -/
theorem bindField_leaf
    {nested : Option Nat → Nat → Bytes → Nat → Reader → Bool × Reader} (name : Bytes)
    (hplaced : Placed abi f) (hget : toks[t]? = some tok)
    (htok : (v.tokens position index parent).head? = some tok)
    (htext : TextAt st.json position v.render) :
    (leafOk strtod printLg f v = true →
        bindField nl strtod printLg toks nested base name f t st
          = (false, Entry.apply nl strtod st ⟨name, base, f, v, position⟩))
      ∧ (leafOk strtod printLg f v = false →
        (bindField nl strtod printLg toks nested base name f t st).1 = true) := by
  have hkind := hplaced.scalar
  have hlen : position + 1 ≤ st.json.length := by
    obtain ⟨pre, post, hjs, rfl⟩ := htext
    obtain ⟨c, u, heq, -⟩ := Json.render_cons v
    rw [hjs, heq, List.length_append, List.cons_append, List.length_cons]
    omega
  have hread := @readValue_eq _ nl strtod f base (Reader.note st ⟨name, base, f, v, position⟩) _ _
    _ _ _ hkind htok htext
  rw [bindField_eq name hget htok htext, leafOk, Entry.apply, leafWrite, decodedValue]
  dsimp only
  rw [hread, if_neg hkind, if_neg hkind]
  cases hnull : isNullValue v with
  | true =>
      rw [if_pos rfl, if_pos rfl, Bool.true_and, isNullValue_inPlace hnull, if_pos rfl]
      dsimp only
      cases hrefuse : refusesNull f with
      | true => exact ⟨fun h => (by cases h), fun _ => rfl⟩
      | false =>
          obtain ⟨hzero, hnn⟩ := zeroValue_of_null hrefuse
          have hcheck : valueCheck printLg f st.json none = none := by
            rw [valueCheck, notNull, hnn]
            rfl
          have hvalid := (fieldValidate_written hplaced name st.fail
            ((fieldValue_clear nl hplaced st.obj base).trans hzero)).1 hcheck
          refine ⟨fun _ => ?_, fun h => (by cases h)⟩
          rw [if_neg Bool.false_ne_true]
          exact congrArg (fun r : Bool × Failure => (r.1, { Reader.note st ⟨name, base, f, v, position⟩
            with obj := clear st.obj (base + f.offset) f.size, fail := r.2 })) hvalid
  | false =>
      rw [if_neg Bool.false_ne_true, if_neg Bool.false_ne_true, Bool.false_and,
        if_neg Bool.false_ne_true, if_neg Bool.false_ne_true]
      cases hc : readContent strtod f.kind v with
      | none => exact ⟨fun h => (by cases h), fun _ => rfl⟩
      | some c =>
          have hvalue := fieldValue_writeField nl hplaced
            (v := stored position c) ((stored_kind position c).trans (readContent_kind hc))
            st.obj base
          have hrules := stored_rules printLg f.rules hc hlen
          obtain ⟨h1, h2⟩ := @fieldValidate_written _ _ printLg _ _ hplaced
            (decodeInPlace v position st.json) _ name st.fail _ hvalue
          rw [valueCheck, hrules] at h1 h2
          dsimp only [Option.map_some]
          constructor
          · intro h
            exact congrArg (fun r : Bool × Failure => (r.1,
              { Reader.note st ⟨name, base, f, v, position⟩ with
                json := decodeInPlace v position st.json
                obj := writeField nl f (stored position c) st.obj base
                fail := r.2 })) (h1 (Option.isNone_iff_eq_none.mp h))
          · intro h
            exact h2 fun hn => by rw [hn] at h; cases h

end Leaf

/-! ## Objects in the text and among the tokens -/

/-- The value stands in the text and among the tokens. -/
structure Stands (toks : List JsonToken) (json : Bytes) (v : Json .value) (position index : Nat)
    (parent : Int) : Prop where
  located : Located toks (v.tokens position index parent) index
  text : TextAt json position v.render
  names : v.EveryObject NamesOk
  behind : parent < index

section Object

variable {toks : List JsonToken} {json : Bytes} {v : Json .value} {position index : Nat}
  {parent : Int} {ms : List Member}

theorem Stands.head (h : Stands toks json v position index parent) :
    ∃ tok, toks[index]? = some tok ∧ (v.tokens position index parent).head? = some tok := by
  have hlen : 0 < (v.tokens position index parent).length := by
    rw [Json.tokens_length]
    exact v.tokenCount_pos
  have hget := h.located.get hlen
  rw [Nat.add_zero, ← List.head?_eq_getElem?] at hget
  obtain ⟨tok, rest, heq⟩ := List.exists_cons_of_length_pos hlen
  rw [heq] at hget ⊢
  exact ⟨tok, hget, rfl⟩

theorem members_everyObject {P : List Str → Prop} : ∀ (es : Json (.elements .obj))
    (position index : Nat), es.EveryObject P →
      ∀ m ∈ members es position index, m.value.EveryObject P
  | .last _ (.member _ _ _ _) v _, _, _ => by
      intro h m hm
      rw [List.mem_singleton.mp hm]
      exact h
  | .more _ (.member _ _ _ _) v _ es, _, _ => by
      intro h m hm
      rcases List.mem_append.mp hm with hm | hm
      · rw [List.mem_singleton.mp hm]
        exact h.1
      · exact members_everyObject es _ _ h.2 m hm

/-- The members of an object stand where their places say. -/
theorem Stands.member (h : Stands toks json v position index parent)
    (hms : objectMembers v position index = some ms) {m : Member} (hm : m ∈ ms) :
    Stands toks json m.value m.valueAt m.index index := by
  match v with
  | .empty .obj w =>
      obtain rfl := Option.some.inj hms
      exact nomatch hm
  | .full .obj es =>
      obtain rfl := Option.some.inj hms
      have hlocated : Located toks (es.tokens (position + 1) (index + 1) index) (index + 1) :=
        Located.second (a := [_]) h.located
      obtain ⟨hloc, hlt⟩ := members_located es _ _ (by omega) hlocated m hm
      exact ⟨hloc, (members_textAt es _ _ h.text.tail m hm).2,
        members_everyObject es _ _ h.names.2 m hm, hlt⟩

/-- The names of an object are in the text. -/
theorem Stands.keysAt (h : Stands toks json v position index parent)
    (hms : objectMembers v position index = some ms) : KeysAt json ms := by
  match v with
  | .empty .obj w =>
      obtain rfl := Option.some.inj hms
      exact fun m hm => (nomatch hm)
  | .full .obj es =>
      obtain rfl := Option.some.inj hms
      intro m hm
      have hkey : m.key ∈ es.keys := by
        rw [← members_keys es (position + 1) (index + 1)]
        exact List.mem_map_of_mem hm
      exact ⟨(members_textAt es _ _ h.text.tail m hm).1, h.names.1.short m.key hkey⟩

/-- The members lie inside the object, one behind the other. -/
structure Ordered (lo hi : Nat) (ms : List Member) : Prop where
  between : ∀ m ∈ ms, Between lo hi m
  pairwise : ms.Pairwise fun m m' => m.valueAt + m.value.render.length < m'.keyAt

theorem objectMembers_ordered (hms : objectMembers v position index = some ms) :
    Ordered position (position + v.render.length) ms := by
  match v with
  | .empty .obj w =>
      obtain rfl := Option.some.inj hms
      exact ⟨fun m hm => (nomatch hm), List.Pairwise.nil⟩
  | .full .obj es =>
      obtain rfl := Option.some.inj hms
      refine ⟨fun m hm => ?_, members_pairwise es _ _⟩
      have hlen : (Json.full .obj es).render.length = es.render.length + 1 := rfl
      have hb := members_between es _ _ m hm
      have h1 := hb.low
      have h2 := hb.value
      exact ⟨by omega, hb.key, by omega⟩

/-- Two members are apart. -/
theorem Ordered.apart {lo hi : Nat} (h : Ordered lo hi ms) {m m' : Member} (hm : m ∈ ms)
    (hm' : m' ∈ ms) (hne : m ≠ m') :
    m.valueAt + m.value.render.length < m'.keyAt
      ∨ m'.valueAt + m'.value.render.length < m.keyAt := by
  have hpair : ms.Pairwise fun m m' => m.valueAt + m.value.render.length < m'.keyAt
      ∨ m'.valueAt + m'.value.render.length < m.keyAt :=
    h.pairwise.imp fun h => Or.inl h
  have hsymm : Std.Symm fun m m' : Member => m.valueAt + m.value.render.length < m'.keyAt
      ∨ m'.valueAt + m'.value.render.length < m.keyAt :=
    ⟨fun _ _ h => h.symm⟩
  exact hpair.forall hm hm' hne

/-- A change inside the value of one member leaves the names alone. -/
theorem Ordered.keysAt {lo hi : Nat} (h : Ordered lo hi ms) {m : Member} (hm : m ∈ ms)
    {json' : Bytes} (hkeys : KeysAt json ms)
    (hsame : SameOutside json json' m.valueAt (m.valueAt + m.value.render.length)) :
    KeysAt json' ms := by
  intro m' hm'
  obtain ⟨htext, hlen⟩ := hkeys m' hm'
  refine ⟨htext.of_sameOutside hsame ?_, hlen⟩
  by_cases heq : m = m'
  · subst heq
    have hkey := (h.between m hm).key
    omega
  · have hkey := (h.between m hm).key
    have hkey' := (h.between m' hm').key
    rcases h.apart hm hm' heq with ha | ha <;> omega

/-- A change inside the value of one member leaves the other values alone. -/
theorem Ordered.textAt {lo hi : Nat} (h : Ordered lo hi ms) {m m' : Member} (hm : m ∈ ms)
    (hm' : m' ∈ ms) (hne : m ≠ m') {json' : Bytes}
    (htext : TextAt json m'.valueAt m'.value.render)
    (hsame : SameOutside json json' m.valueAt (m.valueAt + m.value.render.length)) :
    TextAt json' m'.valueAt m'.value.render := by
  refine htext.of_sameOutside hsame ?_
  have hkey := (h.between m hm).key
  have hkey' := (h.between m' hm').key
  rcases h.apart hm hm' hne with ha | ha <;> omega

/-! ## What the two loops see -/

/-- `json_object_get` finds the member. -/
theorem jsonObjectGet_eq (h : Located toks (v.tokens position index parent) index)
    (hms : objectMembers v position index = some ms) (hkeys : KeysAt json ms) (name : Bytes) :
    jsonObjectGet json toks index name = (lookup ms name).map (·.index) := by
  match v with
  | .empty .obj w =>
      obtain rfl := Option.some.inj hms
      obtain ⟨post, hdrop, hpost⟩ := id h
      have hget := h.get (i := 0) Nat.one_pos
      rw [Nat.add_zero] at hget
      have hrest : toks.drop (index + 1) = post := by
        rw [← List.drop_drop, hdrop]
        rfl
      rw [jsonObjectGet, hget]
      show (if JsonType.obj ≠ .obj then _ else _) = _
      rw [if_neg (fun hne => hne rfl), hrest, objectGetLoop_foreign]
      · exact ite_self _
      · intro t ht
        have hp := hpost t ht
        rw [Json.tokens_length, Json.tokenCount] at hp
        omega
  | .full .obj es =>
      obtain rfl := Option.some.inj hms
      obtain ⟨post, hdrop, hpost⟩ := id h
      have hget := h.get (i := 0) (by rw [Json.tokens_length]; exact Json.tokenCount_pos _)
      rw [Nat.add_zero] at hget
      have hcount : (Json.full .obj es).tokenCount = es.tokenCount + 1 := rfl
      have htokens : (Json.full .obj es).tokens position index parent
          = ⟨.obj, position, ((position + 1 + es.render.length : Nat) : Int), parent⟩
            :: es.tokens (position + 1) (index + 1) index := rfl
      have hrest : toks.drop (index + 1) = es.tokens (position + 1) (index + 1) index ++ post := by
        rw [← List.drop_drop, hdrop]
        rfl
      have hntok : index + 1 + es.tokenCount ≤ toks.length := by
        have hl := congrArg List.length hdrop
        rw [List.length_drop, List.length_append, Json.tokens_length, hcount] at hl
        omega
      have hforeign : ∀ t ∈ post, t.parent ≠ index := by
        intro t ht
        have hp := hpost t ht
        rw [Json.tokens_length, hcount] at hp
        omega
      rw [jsonObjectGet, hget, htokens, List.getElem?_cons_zero]
      dsimp only
      rw [if_neg (fun hne => hne rfl), hrest,
        objectGetLoop_members es (position + 1) (index + 1) (by omega) hkeys (Int.le_refl _) hntok
          post (Nat.zero_mod 2)]
      by_cases hlong : name.length ≥ JSON_MAX_KEY_BYTES
      · -- no name in the text is as long
        rw [if_pos hlong]
        cases hfind : lookup (members es (position + 1) (index + 1)) name with
        | none => rfl
        | some m =>
            obtain ⟨hm, hname⟩ := lookup_some hfind
            have hshort := (hkeys m hm).2
            have hdec := Str.decode_length m.key
            have hcstr : (cstr m.key.decode).length ≤ m.key.decode.length :=
              (List.takeWhile_prefix _).length_le
            rw [hname] at hcstr
            omega
      · rw [if_neg hlong]
        cases lookup (members es (position + 1) (index + 1)) name with
        | some m => rfl
        | none => exact objectGetLoop_foreign hforeign _ _

/-- The first loop fails exactly at a name that the type does not declare. -/
theorem keysLoop_eq (h : Located toks (v.tokens position index parent) index)
    (hms : objectMembers v position index = some ms) (hkeys : KeysAt json ms) (info : TypeInfo)
    (path : Bytes) (fail : Failure) :
    ((∀ m ∈ ms, KnownKey info m) →
        keysLoop json info index path false (toks.drop (index + 1)) false fail = (false, fail))
      ∧ ((∃ m ∈ ms, ¬ KnownKey info m) →
        (keysLoop json info index path false (toks.drop (index + 1)) false fail).1 = true) := by
  obtain ⟨post, hdrop, hpost⟩ := id h
  have hforeign : ∀ t ∈ post, t.parent ≠ index := by
    intro t ht
    have hp := hpost t ht
    have hpos := v.tokenCount_pos
    rw [Json.tokens_length] at hp
    omega
  have hpass : ∀ failed, keysLoop json info index path false post failed fail = (failed, fail) := by
    intro failed
    have hinner := @keysLoop_inner json info _ path _ hforeign [] failed fail
    rw [List.append_nil] at hinner
    exact hinner
  match v with
  | .empty .obj w =>
      obtain rfl := Option.some.inj hms
      have hrest : toks.drop (index + 1) = post := by
        rw [← List.drop_drop, hdrop]
        rfl
      rw [hrest, hpass]
      exact ⟨fun _ => rfl, fun ⟨m, hm, _⟩ => (nomatch hm)⟩
  | .full .obj es =>
      obtain rfl := Option.some.inj hms
      have hrest : toks.drop (index + 1) = es.tokens (position + 1) (index + 1) index ++ post := by
        rw [← List.drop_drop, hdrop]
        rfl
      rw [hrest]
      constructor
      · intro hknown
        rw [keysLoop_known es _ _ (by omega) hkeys hknown, hpass]
      · intro hunknown
        exact keysLoop_unknown es _ _ (by omega) hkeys hunknown post false fail

theorem Stands.of_text {json' : Bytes} (h : Stands toks json v position index parent)
    (htext : TextAt json' position v.render) : Stands toks json' v position index parent :=
  ⟨h.located, htext, h.names, h.behind⟩

end Object

/-! ## Runs of entries -/

section Fold

variable {abi : Abi} {nl : NullableLayout abi} {strtod : Strtod} {ds : Descriptors}

theorem Entry.apply_body (st : Reader) (e : Entry) :
    (Entry.apply nl strtod st e).body = st.body ++ [e.state] := by
  rw [Entry.apply]
  split_ifs <;> rfl

theorem Entry.apply_fail (st : Reader) (e : Entry) :
    (Entry.apply nl strtod st e).fail = st.fail := by
  rw [Entry.apply]
  split_ifs <;> rfl

theorem foldl_body (es : List Entry) : ∀ st : Reader,
    (es.foldl (Entry.apply nl strtod) st).body = st.body ++ es.map Entry.state := by
  induction es with
  | nil => exact fun st => (List.append_nil _).symm
  | cons e es ih =>
      intro st
      rw [List.foldl_cons, ih, Entry.apply_body, List.map_cons, List.append_assoc]
      rfl

theorem foldl_fail (es : List Entry) : ∀ st : Reader,
    (es.foldl (Entry.apply nl strtod) st).fail = st.fail := by
  induction es with
  | nil => exact fun st => rfl
  | cons e es ih =>
      intro st
      rw [List.foldl_cons, ih, Entry.apply_fail]

/-- An entry changes the text of its value only. -/
theorem Entry.apply_sameOutside {st : Reader} {e : Entry}
    (h : e.position + e.value.render.length ≤ st.json.length) :
    SameOutside st.json (Entry.apply nl strtod st e).json e.position
      (e.position + e.value.render.length) := by
  rw [Entry.apply]
  split_ifs
  · exact SameOutside.refl _ _ _
  · exact decodeInPlace_sameOutside h

theorem foldl_sameOutside {lo hi : Nat} (es : List Entry)
    (hes : ∀ e ∈ es, lo ≤ e.position ∧ e.position + e.value.render.length ≤ hi) :
    ∀ st : Reader, hi ≤ st.json.length →
      SameOutside st.json (es.foldl (Entry.apply nl strtod) st).json lo hi := by
  induction es with
  | nil => exact fun st _ => SameOutside.refl _ _ _
  | cons e es ih =>
      intro st hlen
      obtain ⟨h1, h2⟩ := hes e List.mem_cons_self
      have hfirst : SameOutside st.json (Entry.apply nl strtod st e).json lo hi :=
        (Entry.apply_sameOutside (by omega)).mono h1 h2
      exact hfirst.trans (ih (fun e' he' => hes e' (List.mem_cons_of_mem e he')) _
        (by rw [hfirst.1]; exact hlen))

theorem fieldEntries_none
    {nested : Option Nat → Bytes → Nat → Json .value → Nat → Nat → List Entry} {path : Bytes}
    {base : Nat} {ms : List Member} {f : FieldInfo} (h : lookup ms f.name = none) :
    fieldEntries nested path base ms f = [] := by
  rw [fieldEntries, h]

/-- The entries of a field stand inside the value of its member. -/
theorem fieldEntries_within
    {nested : Option Nat → Bytes → Nat → Json .value → Nat → Nat → List Entry}
    (hnested : ∀ (type : Option Nat) (path : Bytes) (base : Nat) (v : Json .value)
      (position index : Nat), ∀ e ∈ nested type path base v position index,
        position ≤ e.position ∧ e.position + e.value.render.length ≤ position + v.render.length)
    {path : Bytes} {base : Nat} {ms : List Member} {f : FieldInfo} {m : Member}
    (hfind : lookup ms f.name = some m) :
    ∀ e ∈ fieldEntries nested path base ms f, m.valueAt ≤ e.position
      ∧ e.position + e.value.render.length ≤ m.valueAt + m.value.render.length := by
  intro e he
  rw [fieldEntries, hfind] at he
  rcases List.mem_cons.mp he with rfl | he
  · exact ⟨Nat.le_refl _, Nat.le_refl _⟩
  · split_ifs at he
    · exact hnested _ _ _ _ _ _ e he
    · exact nomatch he

/-- The entries of an object stand inside it. -/
theorem entries_within : ∀ (levels : Nat) (type : Option Nat) (path : Bytes) (base : Nat)
    (v : Json .value) (position index : Nat), ∀ e ∈ entries ds levels type path base v position index,
      position ≤ e.position ∧ e.position + e.value.render.length ≤ position + v.render.length := by
  intro levels
  induction levels with
  | zero => exact fun _ _ _ _ _ _ e he => (nomatch he)
  | succ levels ih =>
      intro type path base v position index e he
      rw [entries] at he
      split at he
      · rename_i info ms _ hms
        obtain ⟨f, -, he⟩ := List.mem_flatMap.mp he
        cases hfind : lookup ms f.name with
        | none => rw [fieldEntries_none hfind] at he; exact nomatch he
        | some m =>
            have hb := (objectMembers_ordered hms).between m (lookup_some hfind).1
            have h1 := hb.low
            have h2 := hb.key
            have h3 := hb.value
            have hin := fieldEntries_within ih hfind e he
            omega
      · exact nomatch he

end Fold

/-! ## The simulation -/

/-- `P` holds of the descriptor and of those in it. -/
def EveryStruct (ds : Descriptors) (P : TypeInfo → Prop) : Nat → Option Nat → Prop
  | 0, _ => False
  | levels + 1, type => ∃ info, deref ds type = some info ∧ P info
      ∧ ∀ f ∈ info.fields, f.kind = .object → EveryStruct ds P levels f.nested

/-- A descriptor that the reader can use. -/
structure Readable (abi : Abi) (info : TypeInfo) : Prop where
  placed : ∀ f ∈ info.fields, f.kind ≠ .object → Placed abi f
  names : (info.fields.map (·.name)).Nodup

section Simulation

variable {abi : Abi} (nl : NullableLayout abi) (strtod : Strtod) (printLg : LongDouble → Bytes)
  (ds : Descriptors) (toks : List JsonToken) (isPartial : Bool)

/-- The reader and the rules agree, with `levels` to go. -/
def Agrees (levels : Nat) : Prop :=
  ∀ (type : Option Nat) (path : Bytes) (base : Nat) (v : Json .value) (position index : Nat)
    (parent : Int) (st : Reader), EveryStruct ds (Readable abi) levels type →
    Stands toks st.json v position index parent →
    st.body.length + (entries ds levels type path base v position index).length
      ≤ JSON_MAX_TOKENS →
    (objectOk strtod printLg ds isPartial levels type path v = true →
        jsonReadNested nl strtod printLg ds toks isPartial levels type index path base st
          = (false,
              (entries ds levels type path base v position index).foldl (Entry.apply nl strtod) st))
      ∧ (objectOk strtod printLg ds isPartial levels type path v = false →
        (jsonReadNested nl strtod printLg ds toks isPartial levels type index path base st).1
          = true)

variable {nl strtod printLg ds toks isPartial}

theorem objectOk_object {levels : Nat} {type : Option Nat} {path : Bytes} {v : Json .value}
    (h : objectOk strtod printLg ds isPartial levels type path v = true) :
    ∃ ps, objectPairs v = some ps := by
  cases levels with
  | zero => exact nomatch h
  | succ levels =>
      rw [objectOk] at h
      split at h
      · exact ⟨_, ‹_›⟩
      · exact nomatch h

/-- Only an object has the token of one. -/
theorem head_object {v : Json .value} {position index : Nat} {parent : Int} {tok : JsonToken}
    (htok : (v.tokens position index parent).head? = some tok) :
    tok.type = .obj ↔ ∃ ps, objectPairs v = some ps := by
  match v with
  | .prim p => obtain rfl := Option.some.inj htok; exact ⟨fun h => (nomatch h), fun ⟨_, h⟩ => (nomatch h)⟩
  | .str s => obtain rfl := Option.some.inj htok; exact ⟨fun h => (nomatch h), fun ⟨_, h⟩ => (nomatch h)⟩
  | .empty .arr w =>
      obtain rfl := Option.some.inj htok
      exact ⟨fun h => (nomatch h), fun ⟨_, h⟩ => (nomatch h)⟩
  | .empty .obj w => obtain rfl := Option.some.inj htok; exact ⟨fun _ => ⟨[], rfl⟩, fun _ => rfl⟩
  | .full .arr es =>
      obtain rfl := Option.some.inj htok
      exact ⟨fun h => (nomatch h), fun ⟨_, h⟩ => (nomatch h)⟩
  | .full .obj es =>
      obtain rfl := Option.some.inj htok
      exact ⟨fun _ => ⟨_, rfl⟩, fun _ => rfl⟩

/-- **A field is bound exactly if it takes what the object has for it.** -/
theorem bindField_spec {levels : Nat} (hagree : Agrees nl strtod printLg ds toks isPartial levels)
    {f : FieldInfo} (hplaced : f.kind ≠ .object → Placed abi f)
    (hnested : f.kind = .object → EveryStruct ds (Readable abi) levels f.nested)
    {path : Bytes} {base root : Nat} {ms : List Member} {m : Member}
    (hfind : lookup ms f.name = some m) {st : Reader}
    (hst : Stands toks st.json m.value m.valueAt m.index root)
    (hroom : st.body.length + (fieldEntries (entries ds levels) path base ms f).length
      ≤ JSON_MAX_TOKENS) :
    (fieldOk strtod printLg isPartial (objectOk strtod printLg ds isPartial levels) path f
          (some m.value) = true →
        bindField nl strtod printLg toks
            (jsonReadNested nl strtod printLg ds toks isPartial levels) base (joinPath path f.name)
            f m.index st
          = (false, (fieldEntries (entries ds levels) path base ms f).foldl
              (Entry.apply nl strtod) st))
      ∧ (fieldOk strtod printLg isPartial (objectOk strtod printLg ds isPartial levels) path f
          (some m.value) = false →
        (bindField nl strtod printLg toks
          (jsonReadNested nl strtod printLg ds toks isPartial levels) base (joinPath path f.name)
          f m.index st).1 = true) := by
  obtain ⟨tok, hget, htok⟩ := hst.head
  rw [fieldOk]
  rw [fieldEntries, hfind] at hroom ⊢
  dsimp only at hroom ⊢
  by_cases hkind : f.kind = .object
  · rw [if_pos hkind] at hroom ⊢
    rw [if_pos hkind, bindField_eq _ hget htok hst.text]
    have hobj := head_object htok
    have happly : Entry.apply nl strtod st ⟨joinPath path f.name, base, f, m.value, m.valueAt⟩
        = Reader.note st ⟨joinPath path f.name, base, f, m.value, m.valueAt⟩ := if_pos hkind
    have hlen : (Reader.note st ⟨joinPath path f.name, base, f, m.value, m.valueAt⟩).body.length
        = st.body.length + 1 := List.length_append
    rw [List.length_cons] at hroom
    obtain ⟨h1, h2⟩ := hagree f.nested (joinPath path f.name) (base + f.offset) m.value m.valueAt
      m.index root (Reader.note st ⟨joinPath path f.name, base, f, m.value, m.valueAt⟩)
      (hnested hkind) hst (by rw [hlen]; omega)
    dsimp only
    rw [if_pos hkind]
    constructor
    · intro hok
      have hps := objectOk_object hok
      have hnull : isNullValue m.value = false := by
        obtain ⟨ps, hps⟩ := hps
        cases hv : m.value with
        | prim p => rw [hv] at hps; exact nomatch hps
        | str s => rfl
        | empty k w => rfl
        | full k es => rfl
      rw [hnull, Bool.false_and, if_neg Bool.false_ne_true,
        if_neg (fun hne => hne (hobj.mpr hps)), h1 hok, List.foldl_cons, happly]
    · intro hok
      split_ifs
      · rfl
      · rfl
      · exact h2 hok
  · rw [if_neg hkind, if_neg hkind]
    exact bindField_leaf _ (hplaced hkind) hget htok hst.text

/-- Once the loop over the fields has failed it fails. -/
theorem readFields_sticky
    {nested : Option Nat → Nat → Bytes → Nat → Reader → Bool × Reader} {root base : Nat}
    {path : Bytes} (fields : List FieldInfo) :
    ∀ st : Reader,
      (readFields nl strtod printLg toks isPartial nested root base path fields true st).1
        = true := by
  induction fields with
  | nil => exact fun st => rfl
  | cons f fields ih =>
      intro st
      rw [readFields]
      dsimp only
      by_cases hlong : (joinPath path f.name).length ≥ FIELD_PATH_LEN
      · rw [if_pos hlong]
      rw [if_neg hlong]
      cases jsonObjectGet st.json toks root f.name with
      | none =>
          dsimp only
          split_ifs
          · exact ih _
          · exact ih _
      | some t =>
          dsimp only
          split_ifs
          · rfl
          · exact ih _

/-- The fields that the loop has still to read find their values in the text. -/
structure Pending (json : Bytes) (ms : List Member) (fields : List FieldInfo) : Prop where
  keys : KeysAt json ms
  values : ∀ f ∈ fields, ∀ m, lookup ms f.name = some m → TextAt json m.valueAt m.value.render

/-- Reading one field leaves the other fields their values. -/
theorem Pending.step {lo hi : Nat} {ms : List Member} (hord : Ordered lo hi ms) {f : FieldInfo}
    {fields : List FieldInfo} {json json' : Bytes} (h : Pending json ms (f :: fields))
    (hnames : ((f :: fields).map (·.name)).Nodup) {m : Member} (hfind : lookup ms f.name = some m)
    (hsame : SameOutside json json' m.valueAt (m.valueAt + m.value.render.length)) :
    Pending json' ms fields := by
  obtain ⟨hm, hname⟩ := lookup_some hfind
  refine ⟨hord.keysAt hm h.keys hsame, fun f' hf' m' hfind' => ?_⟩
  obtain ⟨hm', hname'⟩ := lookup_some hfind'
  refine hord.textAt hm hm' ?_ (h.values f' (List.mem_cons_of_mem f hf') m' hfind') hsame
  rintro rfl
  rw [List.map_cons, List.nodup_cons] at hnames
  exact hnames.1 (List.mem_map.mpr ⟨f', hf', hname'.symm.trans hname⟩)

theorem Pending.tail {ms : List Member} {f : FieldInfo} {fields : List FieldInfo} {json : Bytes}
    (h : Pending json ms (f :: fields)) : Pending json ms fields :=
  ⟨h.keys, fun f' hf' => h.values f' (List.mem_cons_of_mem f hf')⟩

/-- What the rules ask of a field of an object with the members. -/
def memberOk (strtod : Strtod) (printLg : LongDouble → Bytes) (ds : Descriptors)
    (isPartial : Bool) (levels : Nat) (path : Bytes) (ms : List Member) (f : FieldInfo) : Bool :=
  (joinPath path f.name).length < FIELD_PATH_LEN
    && fieldOk strtod printLg isPartial (objectOk strtod printLg ds isPartial levels) path f
      ((lookup ms f.name).map (·.value))

/-- **The loop over the fields reads what the rules allow.**  The invariant is that
    the fields still to be read find their values intact. -/
theorem readFields_spec {levels : Nat} (hagree : Agrees nl strtod printLg ds toks isPartial levels)
    {ms : List Member} {lo hi : Nat} (hord : Ordered lo hi ms) {root base : Nat} {path : Bytes}
    (hget : ∀ json name, KeysAt json ms →
      jsonObjectGet json toks root name = (lookup ms name).map (·.index))
    (hstands : ∀ m ∈ ms, ∀ json, TextAt json m.valueAt m.value.render →
      Stands toks json m.value m.valueAt m.index root) :
    ∀ fields : List FieldInfo, (∀ f ∈ fields, f.kind ≠ .object → Placed abi f) →
      (∀ f ∈ fields, f.kind = .object → EveryStruct ds (Readable abi) levels f.nested) →
      (fields.map (·.name)).Nodup → ∀ st : Reader, Pending st.json ms fields →
      st.body.length + (fields.flatMap (fieldEntries (entries ds levels) path base ms)).length
        ≤ JSON_MAX_TOKENS →
      (fields.all (memberOk strtod printLg ds isPartial levels path ms) = true →
          readFields nl strtod printLg toks isPartial
              (jsonReadNested nl strtod printLg ds toks isPartial levels) root base path fields
              false st
            = (false, (fields.flatMap (fieldEntries (entries ds levels) path base ms)).foldl
                (Entry.apply nl strtod) st))
        ∧ (fields.all (memberOk strtod printLg ds isPartial levels path ms) = false →
          (readFields nl strtod printLg toks isPartial
            (jsonReadNested nl strtod printLg ds toks isPartial levels) root base path fields
            false st).1 = true) := by
  intro fields
  induction fields with
  | nil => exact fun _ _ _ st _ _ => ⟨fun _ => rfl, fun h => (nomatch h)⟩
  | cons f fields ih =>
      intro hplaced hnested hnames st hpend hroom
      have hrest := ih (fun g hg => hplaced g (List.mem_cons_of_mem f hg))
        (fun g hg => hnested g (List.mem_cons_of_mem f hg)) (List.nodup_cons.mp hnames).2
      rw [List.flatMap_cons, List.length_append] at hroom
      rw [List.all_cons, memberOk, readFields, List.flatMap_cons, List.foldl_append]
      dsimp only
      -- the path of a field that is too long ends the loop, as the rules have it
      by_cases hlong : (joinPath path f.name).length ≥ FIELD_PATH_LEN
      · rw [if_pos hlong, decide_eq_false (Nat.not_lt.mpr hlong), Bool.false_and, Bool.false_and]
        exact ⟨fun h => (nomatch h), fun _ => rfl⟩
      rw [if_neg hlong, decide_eq_true (Nat.not_le.mp hlong), Bool.true_and, hget _ _ hpend.keys]
      cases hfind : lookup ms f.name with
      | none =>
          rw [fieldEntries_none hfind] at hroom ⊢
          dsimp only [Option.map_none]
          rw [fieldOk, List.foldl_nil]
          obtain ⟨h1, h2⟩ := hrest st hpend.tail (by rw [List.length_nil] at hroom; omega)
          cases hreq : isPartial || !f.flags.notNull with
          | true =>
              have hskip : (!isPartial && f.flags.notNull) = false := by
                rw [← Bool.not_eq_true', Bool.not_and, Bool.not_not]
                exact hreq
              rw [hskip, if_neg Bool.false_ne_true, Bool.true_and]
              exact ⟨h1, h2⟩
          | false =>
              have hskip : (!isPartial && f.flags.notNull) = true := by
                rw [← Bool.not_eq_false', Bool.not_and, Bool.not_not]
                exact hreq
              rw [hskip, if_pos rfl, Bool.false_and]
              exact ⟨fun h => (nomatch h), fun _ => readFields_sticky fields _⟩
      | some m =>
          have hm := (lookup_some hfind).1
          have htext := hpend.values f List.mem_cons_self m hfind
          have hlen : (fieldEntries (entries ds levels) path base ms f).length ≠ 0 := by
            rw [fieldEntries, hfind]
            exact Nat.succ_ne_zero _
          obtain ⟨h1, h2⟩ := @bindField_spec _ _ _ _ _ _ _ _ hagree _
            (hplaced f List.mem_cons_self) (hnested f List.mem_cons_self) path base _ _ _ hfind _
            (hstands m hm st.json htext) (by omega)
          dsimp only [Option.map_some]
          rw [if_neg (show ¬ st.body.length ≥ JSON_MAX_TOKENS by omega)]
          cases hok : fieldOk strtod printLg isPartial
              (objectOk strtod printLg ds isPartial levels) path f (some m.value) with
          | false =>
              rw [Bool.false_and, h2 hok, Bool.or_true]
              exact ⟨fun h => (nomatch h), fun _ => readFields_sticky fields _⟩
          | true =>
              rw [h1 hok, Bool.true_and]
              -- only the value of this field is written to, so the later ones stay intact
              have hwithin := @fieldEntries_within _ (@entries_within ds levels) path base
                _ _ _ hfind
              have hsame := @foldl_sameOutside _ nl strtod _ _ _ hwithin st htext.length_le
              refine hrest _ (hpend.step hord hnames hfind hsame) ?_
              rw [foldl_body, List.length_append, List.length_map]
              omega

/-- **The reader and the rules agree.** -/
theorem agrees (levels : Nat) : Agrees nl strtod printLg ds toks isPartial levels := by
  induction levels with
  | zero => exact fun _ _ _ _ _ _ _ _ h => h.elim
  | succ levels ih =>
      intro type path base v position index parent st hstruct hst hroom
      obtain ⟨info, hinfo, hread, hnested⟩ := hstruct
      obtain ⟨tok, hget, htok⟩ := hst.head
      have hobj := head_object htok
      rw [jsonReadNested, hget, objectOk, hinfo]
      rw [entries, hinfo] at hroom ⊢
      dsimp only at hroom ⊢
      rw [← objectMembers_pairs v position index]
      cases hms : objectMembers v position index with
      | none =>
          rw [← objectMembers_pairs v position index, hms] at hobj
          have hno : tok.type ≠ .obj := fun h => nomatch (hobj.mp h).choose_spec
          rw [if_pos hno]
          exact ⟨fun h => (nomatch h), fun _ => rfl⟩
      | some ms =>
          have hyes : tok.type = .obj :=
            hobj.mpr ⟨_, by rw [← objectMembers_pairs v position index, hms]; rfl⟩
          rw [hms] at hroom
          dsimp only [Option.map_some] at hroom ⊢
          have hkeysAt := hst.keysAt hms
          obtain ⟨hk1, hk2⟩ := keysLoop_eq hst.located hms hkeysAt info path st.fail
          rw [if_neg (fun hne => hne hyes)]
          have hknown : ((ms.map Member.pair).all fun p => knownKey info p.1) = true
              ↔ ∀ m ∈ ms, KnownKey info m := by
            rw [List.all_map, List.all_eq_true]
            exact forall₂_congr fun m _ => knownKey_iff info m
          have hfields : (info.fields.all fun f => (joinPath path f.name).length < FIELD_PATH_LEN
              && fieldOk strtod printLg isPartial (objectOk strtod printLg ds isPartial levels) path
                f (find (ms.map Member.pair) f.name))
              = info.fields.all (memberOk strtod printLg ds isPartial levels path ms) := by
            refine congrArg info.fields.all (funext fun f => ?_)
            rw [memberOk, lookup_pairs]
          rw [hfields]
          cases hall : (ms.map Member.pair).all fun p => knownKey info p.1 with
          | false =>
              have hunknown : ∃ m ∈ ms, ¬ KnownKey info m := by
                by_contra hnone
                push Not at hnone
                rw [hknown.mpr hnone] at hall
                exact nomatch hall
              rw [Bool.false_and, hk2 hunknown]
              exact ⟨fun h => (nomatch h), fun _ => readFields_sticky _ _⟩
          | true =>
              rw [Bool.true_and, hk1 (hknown.mp hall)]
              exact readFields_spec ih (objectMembers_ordered hms)
                (fun json name hkeys => jsonObjectGet_eq hst.located hms hkeys name)
                (fun m hm json htext => (hst.member hms hm).of_text htext) info.fields hread.placed
                hnested hread.names st
                ⟨hkeysAt, fun f hf m hfind => (hst.member hms (lookup_some hfind).1).text⟩ hroom

end Simulation

end BodyRead
