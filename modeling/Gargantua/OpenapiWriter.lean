import Gargantua.Lib.Writing
import Gargantua.Lib.GeneralFormat
import Gargantua.GeneratorValidate

/-! # The OpenAPI document (`src/generator/generator_openapi.c`)

    The document is written piece by piece to a temporary file, and the bytes of
    the file become an array of the generated program.  A writer that fails, or
    whose document would not fit into a response, stays failed and writes nothing
    more. -/

namespace OpenapiWriter

open RouteGenerator hiding ParsedRoute
open CString Decimal GeneralFormat Writing GeneratorText GeneratorSource

/-- `SERVER_BODY_MAX` and `OPENAPI_MAX_DOCUMENT`. -/
abbrev SERVER_BODY_MAX : Nat := 8 * 1024 * 1024
abbrev OPENAPI_MAX_DOCUMENT : Nat := SERVER_BODY_MAX - 1

/-- `OpenApiWriter`, with what has gone to its file. -/
structure OpenApiWriter where
  file : Bytes := []
  size : Nat := 0
  failed : Bool := false
  deriving Repr, DecidableEq

/-- `w->failed = 1`. -/
def OpenApiWriter.fail (w : OpenApiWriter) : OpenApiWriter := { w with failed := true }

/-- A statement of the writer. -/
abbrev Action := OpenApiWriter → OpenApiWriter

/-! ## Texts -/

/-- The bytes that `openapi_write_quoted` writes for one. -/
def openapiEscaped (c : Byte) : Bytes :=
  let hex := lit "0123456789abcdef"
  if c = 0x22 ∨ c = 0x5C then [0x5C, c]
  else if c < 32 then lit "\\u00" ++ [hex.getD (c >>> 4).toNat 0, hex.getD (c &&& 15).toNat 0]
  else [c]

/-- The `kind` of a field, empty until `$pick` is resolved. -/
def kindText : Option FieldKind → Bytes
  | none => []
  | some .int => lit "FIELD_INT"
  | some .long => lit "FIELD_LONG"
  | some .double => lit "FIELD_DOUBLE"
  | some .bool => lit "FIELD_BOOL"
  | some .str => lit "FIELD_STR"
  | some .object => lit "FIELD_OBJECT"

/-- `%.21Lg`. -/
def longDoubleText : LongDouble → Bytes
  | .finite q => general 20 q
  | .infinite negative => if negative then lit "-inf" else lit "inf"
  | .nan => lit "nan"

/-- `openapi_type_exists`. -/
def openapiTypeExists (ctx : Generator) (name : Bytes) : Bool :=
  ctx.types.any fun type => type.name = name

/-- `openapi_scalar_type`. -/
def openapiScalarType (type : Bytes) : Option Bytes :=
  if type = lit "int" ∨ type = lit "FIELD_INT" then
    some (lit "\x7b\"type\":\"integer\",\"format\":\"int32\"\x7d")
  else if type = lit "long" ∨ type = lit "FIELD_LONG" then
    some (lit "\x7b\"type\":\"integer\",\"format\":\"int64\"\x7d")
  else if type = lit "double" ∨ type = lit "FIELD_DOUBLE" then
    some (lit "\x7b\"type\":\"number\",\"format\":\"double\"\x7d")
  else if type = lit "bool" ∨ type = lit "FIELD_BOOL" then some (lit "\x7b\"type\":\"boolean\"\x7d")
  else if type = lit "str" ∨ type = lit "FIELD_STR" then some (lit "\x7b\"type\":\"string\"\x7d")
  else none

/-- `openapi_method_name`. -/
def openapiMethodName (method : Bytes) : Option Bytes :=
  if method = lit "GET" then some (lit "get")
  else if method = lit "POST" then some (lit "post")
  else if method = lit "PUT" then some (lit "put")
  else if method = lit "PATCH" then some (lit "patch")
  else if method = lit "DELETE" then some (lit "delete")
  else none

/-- The codes of `openapi_write_error_responses`. -/
def errorCodes : List Bytes :=
  [lit "400", lit "401", lit "403", lit "404", lit "405", lit "409", lit "413", lit "415",
    lit "429", lit "500", lit "503", lit "default"]

section Write

-- how many bytes of a text `fwrite` adds to a file, given what the file holds
variable (fwrite : Bytes → Bytes → Nat)

/-- `openapi_write_text`. -/
def openapiWriteText (s : Bytes) (w : OpenApiWriter) : OpenApiWriter :=
  if w.failed then w
  else if s.length > OPENAPI_MAX_DOCUMENT - w.size then w.fail
  else
    let n := fwrite w.file s
    let w := { w with file := w.file ++ s.take n }
    if n ≠ s.length then w.fail else { w with size := w.size + s.length }

/-- `openapi_write_quoted`. -/
def openapiWriteQuoted (s : Bytes) : Action :=
  seq [openapiWriteText fwrite (lit "\""),
    each (s.take GENERATOR_MAX_URL) fun c => openapiWriteText fwrite (openapiEscaped c),
    openapiWriteText fwrite (lit "\"")]

/-- `openapi_write_schema_ref`; `ref` has room for `GENERATOR_MAX_NAME + 32`
    bytes. -/
def openapiWriteSchemaRef (ctx : Generator) (name : Bytes) : Action :=
  if openapiTypeExists ctx name = false then OpenApiWriter.fail
  else
    seq [openapiWriteText fwrite (lit "\x7b\"$ref\":"),
      openapiWriteQuoted fwrite
        ((lit "#/components/schemas/" ++ name).take (GENERATOR_MAX_NAME + 32 - 1)),
      openapiWriteText fwrite (lit "\x7d")]

/-- `openapi_write_schema`. -/
def openapiWriteSchema (ctx : Generator) (type : Bytes) : Action :=
  match openapiScalarType type with
  | some scalar => openapiWriteText fwrite scalar
  | none => openapiWriteSchemaRef fwrite ctx type

/-! ## Types -/

/-- The field is an integer. -/
def integral (field : ParsedField) : Bool :=
  kindText field.kind = lit "FIELD_INT" ∨ kindText field.kind = lit "FIELD_LONG"

/-- `openapi_write_validation`.  The buffer `rule` is larger than any of its
    texts. -/
def openapiWriteValidation (field : ParsedField) : Action :=
  seq [
    if field.rules.validation.min then
      openapiWriteText fwrite (lit ",\"minimum\":" ++
        if integral field then printInt field.rules.minInt else longDoubleText field.rules.min)
    else id,
    if field.rules.validation.max then
      openapiWriteText fwrite (lit ",\"maximum\":" ++
        if integral field then printInt field.rules.maxInt else longDoubleText field.rules.max)
    else id,
    if field.rules.validation.size then
      openapiWriteText fwrite (lit ",\"minLength\":" ++ print field.rules.sizeMin
        ++ lit ",\"maxLength\":" ++ print field.rules.sizeMax)
    else id,
    if field.rules.validation.email then openapiWriteText fwrite (lit ",\"format\":\"email\"")
    else id,
    if field.flags.id then openapiWriteText fwrite (lit ",\"readOnly\":true") else id,
    if field.references ≠ [] then
      seq [openapiWriteText fwrite (lit ",\"x-references\":\x7b\"table\":"),
        openapiWriteQuoted fwrite field.references,
        openapiWriteText fwrite (lit ",\"key\":"),
        openapiWriteQuoted fwrite field.referenceKey,
        openapiWriteText fwrite (lit "\x7d")]
    else id]

/-- `scalar` of `openapi_write_scalar_field`: what a field may be null adds. -/
def nullableScalar (field : ParsedField) (scalar : Bytes) : Bytes :=
  let scalar :=
    if kindText field.kind = lit "FIELD_STR" ∧ field.flags.notNull = false then
      lit "\x7b\"type\":[\"string\",\"null\"]\x7d"
    else scalar
  if field.flags.nullable ∧ field.flags.notNull = false then
    if integral field then lit "\x7b\"type\":[\"integer\",\"null\"]\x7d"
    else if kindText field.kind = lit "FIELD_DOUBLE" then lit "\x7b\"type\":[\"number\",\"null\"]\x7d"
    else lit "\x7b\"type\":[\"boolean\",\"null\"]\x7d"
  else scalar

/-- `openapi_write_scalar_field`. -/
def openapiWriteScalarField (field : ParsedField) : Action :=
  match openapiScalarType (kindText field.kind) with
  | none => OpenApiWriter.fail
  | some scalar =>
      seq [openapiWriteText fwrite (nullableScalar field scalar).dropLast,
        openapiWriteValidation fwrite field,
        openapiWriteText fwrite (lit "\x7d")]

/-- `openapi_write_required`. -/
def openapiWriteRequired (type : ParsedType) (isPartial : Bool) (w : OpenApiWriter) :
    OpenApiWriter :=
  let r := countEach
    (fun w field => !w.failed && (!isPartial && field.flags.notNull))
    (fun required (field : ParsedField) =>
      seq [openapiWriteText fwrite (if required = 0 then lit ",\"required\":[" else lit ","),
        openapiWriteQuoted fwrite field.name])
    type.fields (w, 0)
  if r.2 ≠ 0 then openapiWriteText fwrite (lit "]") r.1 else r.1

/-- `openapi_write_inline_type`, given `openapi_write_type_schema` at its depth. -/
def openapiWriteInlineType (writeTypeSchema : ParsedType → Action) (ctx : Generator)
    (name : Bytes) : Action :=
  match ctx.types.find? fun type => type.name = name with
  | some type => writeTypeSchema type
  | none => id

/-- `openapi_write_type_schema`, `levels` being `8 - depth`. -/
def openapiWriteTypeSchema (ctx : Generator) : Nat → Bool → ParsedType → Action
  | 0, _, _ => OpenApiWriter.fail
  | levels + 1, isPartial, type =>
      guarded OpenApiWriter.failed <| seq [
        openapiWriteText fwrite
          (lit "\x7b\"type\":\"object\",\"additionalProperties\":false,\"properties\":\x7b"),
        each type.fields.zipIdx fun (field, i) => guarded OpenApiWriter.failed <| seq [
          if i ≠ 0 then openapiWriteText fwrite (lit ",") else id,
          openapiWriteQuoted fwrite field.name,
          openapiWriteText fwrite (lit ":"),
          if kindText field.kind ≠ lit "FIELD_OBJECT" then openapiWriteScalarField fwrite field
          else if isPartial = false then openapiWriteSchemaRef fwrite ctx field.cType
          else
            openapiWriteInlineType (openapiWriteTypeSchema ctx levels true) ctx field.cType],
        openapiWriteText fwrite (lit "\x7d"),
        openapiWriteRequired fwrite type isPartial,
        openapiWriteText fwrite (lit "\x7d")]

/-! ## Operations -/

/-- `openapi_write_response`. -/
def openapiWriteResponse (ctx : Generator) (route : ParsedRoute) : Action :=
  seq [
    if route.collection = 2 then
      openapiWriteText fwrite (lit "\x7b\"type\":\"object\",\"required\":[\"items\",\"page\",\"size\",\"hasMore\"],"
        ++ lit "\"properties\":\x7b\"items\":")
    else id,
    if route.collection ≠ 0 then
      openapiWriteText fwrite (lit "\x7b\"type\":\"array\",\"maxItems\":100,\"items\":")
    else id,
    openapiWriteSchema fwrite ctx route.returnType,
    if route.collection ≠ 0 then openapiWriteText fwrite (lit "\x7d") else id,
    if route.collection = 2 then
      openapiWriteText fwrite (lit ",\"page\":\x7b\"type\":\"integer\",\"format\":\"int32\",\"minimum\":0\x7d,"
        ++ lit "\"size\":\x7b\"type\":\"integer\",\"format\":\"int32\",\"minimum\":1,\"maximum\":100\x7d,"
        ++ lit "\"hasMore\":\x7b\"type\":\"boolean\"\x7d\x7d\x7d")
    else id]

/-- `openapi_write_error_responses`. -/
def openapiWriteErrorResponses : Action :=
  each errorCodes fun code =>
    seq [openapiWriteText fwrite (lit ","),
      openapiWriteQuoted fwrite code,
      openapiWriteText fwrite (lit ":\x7b\"$ref\":\"#/components/responses/GargantuaError\"\x7d")]

/-- `openapi_write_security`. -/
def openapiWriteSecurity (route : ParsedRoute) : Action :=
  seq [
    if route.publicRoute then openapiWriteText fwrite (lit ",\"security\":[]")
    else if route.authenticated ∨ route.role ≠ [] then
      openapiWriteText fwrite (lit ",\"security\":[\x7b\"BearerAuth\":[]\x7d]")
    else
      openapiWriteText fwrite (lit ",\"security\":[\x7b\x7d,\x7b\"BearerAuth\":[]\x7d],"
        ++ lit "\"x-security-config\":\"security.enabled\""),
    if route.role ≠ [] then
      seq [openapiWriteText fwrite (lit ",\"x-required-role\":"),
        openapiWriteQuoted fwrite route.role]
    else id]

/-- `openapi_write_parameters`. -/
def openapiWriteParameters (ctx : Generator) (route : ParsedRoute) (w : OpenApiWriter) :
    OpenApiWriter :=
  let r := countEach (fun _ param => !param.isBody)
    (fun parameters (param : ParsedParam) =>
      seq [openapiWriteText fwrite (if parameters = 0 then lit ",\"parameters\":[" else lit ","),
        openapiWriteText fwrite (lit "\x7b\"name\":"),
        openapiWriteQuoted fwrite param.name,
        openapiWriteText fwrite
          (if param.isQuery then lit ",\"in\":\"query\"" else lit ",\"in\":\"path\""),
        openapiWriteText fwrite
          (if param.isQuery = false then lit ",\"required\":true,\"schema\":"
          else lit ",\"required\":false,\"schema\":"),
        openapiWriteSchema fwrite ctx param.type,
        openapiWriteText fwrite (lit "\x7d")])
    route.params (w, 0)
  if r.2 ≠ 0 then openapiWriteText fwrite (lit "]") r.1 else r.1

/-- `openapi_write_request_body`. -/
def openapiWriteRequestBody (ctx : Generator) (route : ParsedRoute) : Action :=
  each route.params fun param =>
    if param.isBody = false then id
    else
      seq [openapiWriteText fwrite (lit ",\"requestBody\":\x7b\"required\":true,\"content\":"
          ++ lit "\x7b\"application/json\":\x7b\"schema\":"),
        if route.method ≠ lit "PATCH" then openapiWriteSchemaRef fwrite ctx param.type
        else openapiWriteInlineType (openapiWriteTypeSchema fwrite ctx 8 true) ctx param.type,
        openapiWriteText fwrite (lit "\x7d\x7d\x7d")]

/-- `openapi_write_success`. -/
def openapiWriteSuccess (ctx : Generator) (route : ParsedRoute) : Action :=
  if route.returnType = lit "void" then
    openapiWriteText fwrite (lit ",\"responses\":\x7b\"204\":\x7b\"description\":\"No content\"\x7d")
  else
    seq [
      openapiWriteText fwrite
        (if route.method = lit "POST" then lit ",\"responses\":\x7b\"201\":\x7b\"description\":\"Created\""
        else lit ",\"responses\":\x7b\"200\":\x7b\"description\":\"Success\""),
      if route.method = lit "POST" then
        openapiWriteText fwrite (lit ",\"headers\":\x7b\"Location\":\x7b\"description\":"
          ++ lit "\"Resource URI, when supplied by the handler\","
          ++ lit "\"schema\":\x7b\"type\":\"string\",\"format\":\"uri-reference\"\x7d\x7d\x7d")
      else id,
      openapiWriteText fwrite (lit ",\"content\":\x7b"),
      openapiWriteQuoted fwrite
        (if route.collection = 0 ∧ route.returnType = lit "str" then lit "text/plain"
        else lit "application/json"),
      openapiWriteText fwrite (lit ":\x7b\"schema\":"),
      openapiWriteResponse fwrite ctx route,
      openapiWriteText fwrite (lit "\x7d\x7d\x7d")]

/-- `openapi_write_operation`. -/
def openapiWriteOperation (ctx : Generator) (route : ParsedRoute) : Action :=
  seq [openapiWriteText fwrite (lit "\x7b\"operationId\":"),
    openapiWriteQuoted fwrite route.functionName,
    openapiWriteSecurity fwrite route,
    openapiWriteParameters fwrite ctx route,
    openapiWriteRequestBody fwrite ctx route,
    openapiWriteSuccess fwrite ctx route,
    openapiWriteErrorResponses fwrite,
    openapiWriteText fwrite (lit "\x7d\x7d")]

/-- `openapi_input_valid`. -/
def openapiInputValid (ctx : Generator) : Bool :=
  ctx.types.length ≤ GENERATOR_MAX_TYPES ∧ ctx.routes.length ≤ GENERATOR_MAX_ROUTES
    ∧ ctx.errors = [] ∧ (∀ type ∈ ctx.types, type.fields.length ≤ GENERATOR_MAX_FIELDS)
    ∧ ∀ i ∈ List.range ctx.routes.length, ∀ route ∈ ctx.routes[i]?,
      (route.params.length ≤ GENERATOR_MAX_PARAMS ∧ route.collection ≤ 2
        ∧ openapiMethodName route.method ≠ none
        ∧ ¬ (route.url = lit "/openapi.json" ∧ route.method = lit "GET"))
      ∧ ∀ other ∈ ctx.routes.take i, route.functionName ≠ other.functionName
        ∧ ¬ (route.url = other.url ∧ route.method = other.method)

/-! ## The document -/

/-- The loop over the methods of a path, over the routes from its first one on. -/
def openapiWriteMethods (ctx : Generator) (url : Bytes) (routes : List ParsedRoute) : Action :=
  fun w => (countEach (fun _ route => route.url = url)
    (fun methods (route : ParsedRoute) =>
      seq [if methods ≠ 0 then openapiWriteText fwrite (lit ",") else id,
        openapiWriteQuoted fwrite ((openapiMethodName route.method).getD []),
        openapiWriteText fwrite (lit ":"),
        openapiWriteOperation fwrite ctx route])
    routes (w, 0)).1

/-- The loop over the paths: the routes from here on, and which of them are
    `emitted`. -/
def openapiWritePaths (ctx : Generator) : List ParsedRoute → List Bool → Action
  | route :: routes, emitted :: rest =>
      if emitted then openapiWritePaths ctx routes rest
      else
        seq [openapiWriteText fwrite (lit ","),
          openapiWriteQuoted fwrite route.url,
          openapiWriteText fwrite (lit ":\x7b"),
          openapiWriteMethods fwrite ctx route.url (route :: routes),
          openapiWriteText fwrite (lit "\x7d"),
          openapiWritePaths ctx routes
            (List.zipWith (fun other emitted => emitted || other.url = route.url) routes rest)]
  | _, _ => id

/-- `openapi_write_document`. -/
def openapiWriteDocument (ctx : Generator) : Action :=
  seq [
    openapiWriteText fwrite (lit "\x7b\"openapi\":\"3.1.1\",\"info\":\x7b\"title\":\"Gargantua API\","
      ++ lit "\"version\":\"1.0.0\"\x7d,\"paths\":\x7b"),
    openapiWriteQuoted fwrite (lit "/openapi.json"),
    openapiWriteText fwrite (lit ":\x7b\"get\":\x7b\"operationId\":\"gg.openapi\",\"responses\":\x7b\"200\":\x7b"
      ++ lit "\"description\":\"OpenAPI document\",\"content\":\x7b\"application/json\":\x7b"
      ++ lit "\"schema\":\x7b\"type\":\"object\"\x7d\x7d\x7d\x7d"),
    openapiWriteErrorResponses fwrite,
    openapiWriteText fwrite (lit "\x7d\x7d"),
    each ctx.routes fun route =>
      if route.url = lit "/openapi.json" then
        seq [openapiWriteText fwrite (lit ","),
          openapiWriteQuoted fwrite ((openapiMethodName route.method).getD []),
          openapiWriteText fwrite (lit ":"),
          openapiWriteOperation fwrite ctx route]
      else id,
    openapiWriteText fwrite (lit "\x7d"),
    openapiWritePaths fwrite ctx ctx.routes
      (ctx.routes.map fun route => route.url = lit "/openapi.json"),
    openapiWriteText fwrite (
      lit "\x7d,\"components\":\x7b\"securitySchemes\":\x7b\"BearerAuth\":\x7b\"type\":\"http\",\"scheme\":\"bearer\"\x7d\x7d,"
      ++ lit "\"responses\":\x7b\"GargantuaError\":\x7b\"description\":\"Request failed\","
      ++ lit "\"content\":\x7b\"application/"
      ++ lit "json\":\x7b\"schema\":\x7b\"type\":\"object\","
      ++ lit "\"required\":[\"status\",\"code\",\"error\",\"fields\",\"truncated\"],"
      ++ lit "\"properties\":\x7b\"status\":\x7b\"type\":\"integer\"\x7d,\"code\":\x7b\"type\":\"string\"\x7d,"
      ++ lit "\"error\":\x7b\"type\":\"string\"\x7d,\"truncated\":\x7b\"type\":\"boolean\"\x7d,"
      ++ lit "\"fields\":\x7b\"type\":\"array\",\"maxItems\":16,\"items\":\x7b"
      ++ lit "\"type\":\"object\",\"required\":[\"field\",\"code\",\"message\"],"
      ++ lit "\"properties\":\x7b\"field\":\x7b\"type\":\"string\"\x7d,\"code\":\x7b\"type\":\"string\"\x7d,"
      ++ lit "\"message\":\x7b\"type\":\"string\"\x7d\x7d\x7d\x7d\x7d\x7d\x7d\x7d\x7d\x7d,\"schemas\":\x7b"),
    each ctx.types.zipIdx fun (type, i) => seq [
      if i ≠ 0 then openapiWriteText fwrite (lit ",") else id,
      openapiWriteQuoted fwrite type.name,
      openapiWriteText fwrite (lit ":"),
      openapiWriteTypeSchema fwrite ctx 8 false type],
    openapiWriteText fwrite (lit "\x7d\x7d\x7d")]

end Write

/-! ## The array -/

/-- What the C library does with the temporary file and with `out`: whether each
    call succeeds, and how much `fwrite` writes. -/
structure Stdio where
  tmpfile : Bool
  fwrite : Bytes → Bytes → Nat
  rewind : Bool
  fgetc : Nat → Bool
  fputs : Bytes → Bytes → Bool
  fclose : Bool
  fflush : Bool

/-- `fputs(text, out)`: what `out` then holds. -/
def Stdio.put (io : Stdio) (out text : Bytes) : Option Bytes :=
  if io.fputs out text then some (out ++ text) else none

/-- What stands in front of the bytes of the document. -/
def arrayHeader : Bytes := lit "static const unsigned char openapi_write[] = \x7b\n"

/-- What stands behind them. -/
def arrayFooter : Bytes :=
  lit "0\n\x7d;\n\n"
  ++ lit "static int wrap_openapi(const RequestParams *params, char *body, size_t len, char *out, size_t cap)\n"
  ++ lit "\x7b\n"
  ++ lit "    (void)params;\n    (void)body;\n    (void)len;\n"
  ++ lit "    if ((out == NULL) || (cap < sizeof(openapi_write)))\n"
  ++ lit "    \x7b\n        if ((out != NULL) && (cap > 0u)) \x7b out[0] = '\\0'; \x7d\n        return -1;\n    \x7d\n"
  ++ lit "    memcpy(out, openapi_write, sizeof(openapi_write));\n"
  ++ lit "    return 0;\n\x7d\n\n"

/-- A byte of the document as an element of the array. -/
def byteText (i : Nat) (byte : Byte) : Bytes :=
  print byte.toNat ++ lit "," ++ if (i + 1) % 24 = 0 then lit "\n" else []

/-- The loop over the bytes of the file, from the `i`th one on, with the rounds
    left. -/
def openapiWriteBytes (io : Stdio) (file : Bytes) : Nat → Nat → Bytes → Option Bytes
  | 0, _, out => some out
  | n + 1, i, out =>
      match file[i]? with
      | none => none
      | some byte =>
          if io.fgetc i then
            (io.put out (byteText i byte)).bind (openapiWriteBytes io file n (i + 1))
          else none

/-- `generator_write_openapi`: what `out` then holds, if it returns `0`. -/
def generatorWriteOpenapi (io : Stdio) (ctx : Generator) (out : Bytes) : Option Bytes :=
  if openapiInputValid ctx = false ∨ io.tmpfile = false then none
  else
    let writer := openapiWriteDocument io.fwrite ctx {}
    if writer.failed ∨ io.rewind = false then none
    else do
      let out ← io.put out arrayHeader
      let out ← openapiWriteBytes io writer.file writer.size 0 out
      let out ← io.put out arrayFooter
      if io.fclose ∧ io.fflush then some out else none

end OpenapiWriter
