import Gargantua.RuntimeObject
import Gargantua.JsonAccess

/-! # Reading a request body (`src/runtime/runtime_body.c`)

    `json_read_mode` parses the text, reads the object that it holds into a
    struct, field by field and into the structs in it, and keeps a table of the
    fields that were there; strings are decoded where they stand and the struct
    points at them.  `patch_apply` copies the fields of the table into another
    struct.

    A function that returns `-1` returns `true` here: it failed. -/

namespace RuntimeBody

open CString JsonParse JsonAccess GeneratorText GeneratorSource RuntimeTypes RuntimeError
  RuntimeObject Memory

/-- `JSON_MAX_TOKENS`. -/
abbrev JSON_MAX_TOKENS : Nat := 256

/-- `BodyField`. -/
structure BodyField where
  path : Bytes
  offset : Nat
  field : FieldInfo
  isNull : Bool
  deriving DecidableEq

/-- `g_body_fields` up to `g_body_count`, `g_body_type` and `g_body_partial`. -/
structure BodyTable where
  fields : List BodyField := []
  type : Option Nat := none
  isPartial : Bool := false

/-- `body_has_key`. -/
def bodyHasKey (table : BodyTable) (path : Bytes) : Bool :=
  table.fields.any fun state => state.path == path

/-- `body_is_null`. -/
def bodyIsNull (table : BodyTable) (path : Bytes) : Bool :=
  ((table.fields.find? fun state => state.path == path).map (·.isNull)).getD false

/-- What a read changes: the text, the struct, the table and the failure of the
    request. -/
structure Reader where
  json : Bytes
  obj : Object
  body : List BodyField
  fail : Failure

/-- `field_error_add`. -/
def Reader.error (st : Reader) (path code message : Bytes) : Reader :=
  { st with fail := fieldErrorAdd st.fail path code message }

/-- The token is `null`. -/
def nullToken (json : Bytes) (tok : JsonToken) : Bool :=
  tok.type = .prim && tok.end_ - tok.start = 4 && slice json tok == lit "null"

section Read

variable {abi : Abi} (nl : NullableLayout abi) (strtod : Strtod) (printLg : LongDouble → Bytes)

/-! ## Scalars -/

/-- `read_text_field`. -/
def readTextField (f : FieldInfo) (base : Nat) (st : Reader) (tok : JsonToken) : Option Reader :=
  if nullToken st.json tok && !f.flags.notNull then
    some { st with obj := clear st.obj (base + f.offset) (abi.sizeOf .str) }
  else if tok.type ≠ .str then none
  else
    (unescapeInPlace st.json tok).map fun json =>
      { st with
        json := json
        obj := store st.obj (base + f.offset) (abi.sizeOf .str) (.str (.body tok.start)) }

/-- `read_int_field`. -/
def readIntField (f : FieldInfo) (base : Nat) (st : Reader) (tok : JsonToken) : Option Reader :=
  match jsonTokenLongChecked st.json tok with
  | none => none
  | some value =>
      if value > 2147483647 ∨ value < -2147483648 then none
      else some { st with obj := store st.obj (base + f.offset) (abi.sizeOf .int) (.int value) }

/-- `read_scalar`. -/
def readScalar (f : FieldInfo) (base : Nat) (st : Reader) (tok : JsonToken) : Option Reader :=
  match f.kind with
  | .str => @readTextField abi f base st tok
  | .int => @readIntField abi f base st tok
  | .long => (jsonTokenLongChecked st.json tok).map fun value =>
      { st with obj := store st.obj (base + f.offset) (abi.sizeOf .long) (.long value) }
  | .double => (jsonTokenDoubleChecked strtod st.json tok).map fun value =>
      { st with obj := store st.obj (base + f.offset) (abi.sizeOf .double) (.double value) }
  | .bool => (jsonTokenBoolChecked st.json tok).map fun value =>
      { st with obj := store st.obj (base + f.offset) (abi.sizeOf .bool) (.bool value) }
  | .object => some st

/-- The value of a field that is no object, with its flag if it is nullable. -/
def readValue (f : FieldInfo) (base : Nat) (st : Reader) (tok : JsonToken) : Option Reader :=
  if nullToken st.json tok then some { st with obj := clear st.obj (base + f.offset) f.size }
  else
    (@readScalar abi strtod (fieldScalar nl f) base st tok).map fun st =>
      { st with obj := fieldSetPresent abi f st.obj base }

/-! ## Objects -/

/-- The first loop of `json_read_nested`, over the tokens behind that of the
    object: `skip` is set behind a name. -/
def keysLoop (json : Bytes) (info : TypeInfo) (root : Nat) (path : Bytes) :
    Bool → List JsonToken → Bool → Failure → Bool × Failure
  | _, [], failed, fail => (failed, fail)
  | true, _ :: toks, failed, fail => keysLoop json info root path false toks failed fail
  | false, tok :: toks, failed, fail =>
      if tok.parent ≠ root ∨ tok.type ≠ .str then
        keysLoop json info root path false toks failed fail
      else if stringHasNoNul json tok = false then
        -- the value behind the name is not skipped here
        keysLoop json info root path false toks true
          (fieldErrorAdd fail path (lit "unknown_field") (lit "field names must not contain NUL"))
      else
        let key := cstr (jsonCopyStr json tok JSON_MAX_KEY_BYTES)
        if info.fields.any fun f => f.name == key then
          keysLoop json info root path true toks failed fail
        else
          keysLoop json info root path true toks true
            (fieldErrorAdd fail (joinPath path key) (lit "unknown_field")
              (lit "field is not allowed"))

variable (ds : Descriptors) (toks : List JsonToken) (isPartial : Bool)

/-- The second loop of `json_read_nested` for a field whose value is the token at
    `t`, with the call for a nested object. -/
def bindField (nested : Option Nat → Nat → Bytes → Nat → Reader → Bool × Reader) (base : Nat)
    (name : Bytes) (f : FieldInfo) (t : Nat) (st : Reader) : Bool × Reader :=
  match toks[t]? with
  | none => (true, st)
  | some tok =>
      let isNull := nullToken st.json tok
      let st := { st with
        body := st.body ++ [{
          path := snprintf FIELD_PATH_LEN name
          offset := base + f.offset
          field := f
          isNull := isNull }] }
      if isNull && (f.flags.notNull || (f.kind ≠ .str && !f.flags.nullable)) then
        (true, st.error name (lit "not_null") (lit "field does not accept null"))
      else if f.kind = .object then
        if tok.type ≠ .obj then (true, st.error name (lit "type") (lit "must be an object"))
        else nested f.nested t name (base + f.offset) st
      else
        match readValue nl strtod f base st tok with
        | none => (true, st.error name (lit "type") (lit "invalid value for field type"))
        | some st =>
            let result := fieldValidate abi nl printLg st.json f st.obj base name st.fail
            (result.1, { st with fail := result.2 })

/-- The second loop of `json_read_nested`. -/
def readFields (nested : Option Nat → Nat → Bytes → Nat → Reader → Bool × Reader)
    (root base : Nat) (path : Bytes) : List FieldInfo → Bool → Reader → Bool × Reader
  | [], failed, st => (failed, st)
  | f :: fields, failed, st =>
      let name := joinPath path f.name
      if name.length ≥ FIELD_PATH_LEN then (true, st)
      else
        match jsonObjectGet st.json toks root f.name with
        | none =>
            if !isPartial && f.flags.notNull then
              readFields nested root base path fields true
                (st.error name (lit "required") (lit "field is required"))
            else readFields nested root base path fields failed st
        | some t =>
            if st.body.length ≥ JSON_MAX_TOKENS then (true, st)
            else
              let result := bindField nl strtod printLg toks nested base name f t st
              readFields nested root base path fields (failed || result.1) result.2

/-- `json_read_nested`, with `NEST_DEPTH_MAX - depth` levels to go. -/
def jsonReadNested : Nat → Option Nat → Nat → Bytes → Nat → Reader → Bool × Reader
  | 0, _, _, _, _, st => (true, st)
  | levels + 1, type, root, path, base, st =>
      match toks[root]?, deref ds type with
      | some tok, some info =>
          if tok.type ≠ .obj then (true, st)
          else
            let keys := keysLoop st.json info root path false (toks.drop (root + 1)) false st.fail
            readFields nl strtod printLg toks isPartial (jsonReadNested levels) root base path
              info.fields keys.1 { st with fail := keys.2 }
      | _, _ => (true, st)

end Read

/-! ## Whole bodies -/

/-- What `json_read_mode` leaves: the struct, the text, the table and the failure
    of the request. -/
structure Outcome where
  failed : Bool
  obj : Object
  json : Bytes
  table : BodyTable
  fail : Failure

section Mode

variable {abi : Abi} (nl : NullableLayout abi) (strtod : Strtod) (printLg : LongDouble → Bytes)
  (ds : Descriptors)

/-- `json_read_mode`.  The text is not empty where `len` is not zero. -/
def jsonReadMode (type : Option Nat) (obj : Object) (json : Bytes) (isPartial : Bool)
    (fail : Failure) : Outcome :=
  if json = [] ∨ typeValid abi ds type = false then
    { failed := true, obj := obj, json := json, table := {}
      fail := requestFailCode fail 400 (lit "invalid_json") (lit "expected a JSON object") }
  else
    match jsonParse json JSON_MAX_TOKENS with
    | none =>
        { failed := true, obj := obj, json := json, table := {}
          fail := requestFailCode fail 400 (lit "invalid_json")
            (lit "expected a valid JSON object within parser limits") }
    | some toks =>
        if (toks.head?.map (·.type)) ≠ some .obj then
          { failed := true, obj := obj, json := json, table := {}
            fail := requestFailCode fail 400 (lit "invalid_json")
              (lit "expected a valid JSON object within parser limits") }
        else
          let read := jsonReadNested nl strtod printLg ds toks isPartial NEST_DEPTH_MAX type 0 []
            0 { json := json, obj := obj, body := [], fail := fail }
          let checked :=
            if read.1 || isPartial then (read.1, read.2.fail)
            else validateStruct abi nl printLg ds read.2.json read.2.obj type read.2.fail
          { failed := checked.1
            obj := read.2.obj
            json := read.2.json
            table :=
              if checked.1 then {}
              else { fields := read.2.body, type := type, isPartial := isPartial }
            fail := checked.2 }

/-- `json_read_struct`. -/
def jsonReadStruct (type : Option Nat) (obj : Object) (json : Bytes) (fail : Failure) : Outcome :=
  jsonReadMode nl strtod printLg ds type obj json false fail

/-- The loop of `patch_apply`: whether a field lies outside the struct, and the
    target. -/
def patchLoop (size : Nat) (changes : Object) : List BodyField → Object → Bool × Object
  | [], target => (false, target)
  | state :: fields, target =>
      if state.field.kind = .object then patchLoop size changes fields target
      else if state.offset > size ∨ state.field.size > size - state.offset then (true, target)
      else patchLoop size changes fields (copy target changes state.offset state.field.size)

/-- `patch_apply`: whether it fails, the target and the failure of the request.
    `json` is the text that the strings in the structs point into. -/
def patchApply (table : BodyTable) (type : Option Nat) (json : Bytes) (target changes : Object)
    (fail : Failure) : Bool × Object × Failure :=
  if table.isPartial = false ∨ type ≠ table.type ∨ requestFailed fail = true then
    (true, target, fail)
  else
    let copied := patchLoop ((deref ds type).elim 0 (·.size)) changes table.fields target
    if copied.1 then (true, copied.2, fail)
    else
      let result := validateStruct abi nl printLg ds json copied.2 type fail
      (result.1, copied.2, result.2)

end Mode

end RuntimeBody
