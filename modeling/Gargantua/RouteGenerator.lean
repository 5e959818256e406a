import Mathlib.Data.List.DropRight
import Gargantua.RouteRuntime

/-! # Routes in the generator (`src/generator/`)

    A route annotation is parsed and its path validated segment by segment; the
    parameters of the handler are bound to the placeholders of the path by
    name; all routes together are checked for clashes, and emitted as the table
    the server searches.

    A failed call is an error with the message it reported, if it reported
    one. -/

namespace RouteGenerator

open CString RouteRuntime

/-- `GENERATOR_MAX_LINE`, `GENERATOR_MAX_NAME`, `GENERATOR_MAX_ROUTES`,
    `GENERATOR_MAX_URL`, `GENERATOR_MAX_PARAMS` and
    `GENERATOR_MAX_ROUTE_SEGMENTS`. -/
abbrev GENERATOR_MAX_LINE : Nat := 512
abbrev GENERATOR_MAX_NAME : Nat := 64
abbrev GENERATOR_MAX_ROUTES : Nat := 512
abbrev GENERATOR_MAX_URL : Nat := 128
abbrev GENERATOR_MAX_PARAMS : Nat := 8
abbrev GENERATOR_MAX_ROUTE_SEGMENTS : Nat := 16

/-- The result of a call that returns `-1` when it fails. -/
abbrev Checked (α : Type) := Except (Option Bytes) α

/-- A failure that `generator_error` reports. -/
def report {α : Type} (message : Bytes) : Checked α := .error (some message)

/-- `ParsedParam`. -/
structure ParsedParam where
  type : Bytes
  name : Bytes
  isBody : Bool
  isQuery : Bool
  pathSlot : Int
  deriving Repr, DecidableEq

/-- `ParsedRoute`. -/
structure ParsedRoute where
  method : Bytes
  url : Bytes
  functionName : Bytes
  returnType : Bytes
  params : List ParsedParam
  line : Nat
  produces : Bytes
  deriving Repr, DecidableEq

/-! ## Text -/

/-- `isspace` in the C locale. -/
def isSpace (c : Byte) : Bool := c == 0x20 || (0x09 ≤ c && c ≤ 0x0D)

/-- `line_trim`. -/
def lineTrim (line : Bytes) : Bytes := (line.dropWhile isSpace).rdropWhile isSpace

/-- The blanks that `parse_route_url` skips. -/
def skipBlanks (p : Bytes) : Bytes := p.dropWhile fun c => c == 0x20 || c == 0x09

/-- `strstr(s, needle) != NULL`. -/
def strstr (needle : Bytes) : Bytes → Bool
  | [] => needle.isPrefixOf []
  | c :: s => needle.isPrefixOf (c :: s) || strstr needle s

/-- `is_c_keyword`. -/
def isCKeyword (name : Bytes) : Bool :=
  ["_Alignas", "_Alignof", "_Atomic", "_Bool", "_Complex", "_Generic", "_Imaginary",
    "_Noreturn", "_Static_assert", "_Thread_local", "auto", "break", "case", "char",
    "const", "continue", "default", "do", "double", "else", "enum",
    "extern", "float", "for", "goto", "if", "inline", "int",
    "long", "register", "restrict", "return", "short", "signed", "sizeof",
    "static", "struct", "switch", "typedef", "union", "unsigned", "void",
    "volatile", "while"].any fun word => name == lit word

def isAlpha (c : Byte) : Bool := (0x41 ≤ c && c ≤ 0x5A) || (0x61 ≤ c && c ≤ 0x7A)

def isAlnum (c : Byte) : Bool := isAlpha c || (0x30 ≤ c && c ≤ 0x39)

/-- `is_safe_identifier` of the generator. -/
def isSafeIdentifier (name : Bytes) : Bool :=
  if !isAlpha (name.headD 0) || (lit "wrap_").isPrefixOf name || isCKeyword name then false
  else name.length < GENERATOR_MAX_NAME && name.tail.all fun c => isAlnum c || c == 0x5F

/-- `http_method_from_word`. -/
def httpMethodFromWord (word : Bytes) : Option Bytes :=
  if word.length ≥ GENERATOR_MAX_NAME then none
  else if word = lit "$get" then some (lit "GET")
  else if word = lit "$post" then some (lit "POST")
  else if word = lit "$put" then some (lit "PUT")
  else if word = lit "$patch" then some (lit "PATCH")
  else if word = lit "$delete" then some (lit "DELETE")
  else none

/-! ## The path of a route -/

/-- A byte that `parse_route_url` refuses. -/
def isUnsafe (c : Byte) : Bool := c < 0x20 || c == 0x7F || c == backslash

/-- `parse_route_url`. -/
def parseRouteUrl (line word : Bytes) : Checked Bytes :=
  match line.dropWhile (· != 0x28) with
  | [] => .error none
  | _ :: p =>
      match skipBlanks p with
      | [] => report (word ++ lit " requires a quoted path")
      | q :: start =>
          if q ≠ 0x22 then report (word ++ lit " requires a quoted path")
          else
            let url := start.takeWhile (· != 0x22)
            if url.any isUnsafe then report (lit "the path contains an unsafe character")
            else
              match start.dropWhile (· != 0x22) with
              | [] => report (lit "the closing quote is missing")
              | _ :: p =>
                  if url.length = 0 ∨ url.length ≥ GENERATOR_MAX_URL then
                    report (lit "the path is missing or too long")
                  else
                    match skipBlanks p with
                    | [] => report (lit "close " ++ word ++ lit " with ')'")
                    | c :: p =>
                        if c ≠ 0x29 then report (lit "close " ++ word ++ lit " with ')'")
                        else if skipBlanks p ≠ [] then
                          report (lit "do not put other text after " ++ word
                            ++ lit "(\"...\")")
                        else .ok url

/-- `validate_placeholder`: the names seen, with this one. -/
def validatePlaceholder (url p : Bytes) (seen : List Bytes) : Checked (List Bytes) :=
  let name := (p.drop 1).take (p.length - 2)
  if p.length < 3 ∨ p.getLast? ≠ some closeBrace ∨ openBrace ∈ p.drop 1
      ∨ closeBrace ∈ name ∨ p.length - 2 ≥ GENERATOR_MAX_NAME
      ∨ seen.length ≥ GENERATOR_MAX_PARAMS then
    report (lit "invalid placeholder in path '" ++ url ++ lit "'")
  else if isSafeIdentifier name = false then
    report (lit "unsafe placeholder name '" ++ name ++ lit "'")
  else if name ∈ seen then
    report (lit "placeholder '" ++ name ++ lit "' appears twice")
  else .ok (seen ++ [name])

/-- `validate_route_segment`. -/
def validateRouteSegment (url p : Bytes) (seen : List Bytes) : Checked (List Bytes) :=
  if p.length = 0 then report (lit "path '" ++ url ++ lit "' has an empty segment")
  else if p = lit "." ∨ p = lit ".." then
    report (lit "path '" ++ url ++ lit "' contains a dot segment")
  else if p.head? = some openBrace then validatePlaceholder url p seen
  else if openBrace ∈ p ∨ closeBrace ∈ p then
    report (lit "'\x7b' and '\x7d' must cover a whole segment")
  else .ok seen

/-- `route_url_shape_valid`. -/
def routeUrlShapeValid (url : Bytes) : Checked Unit :=
  if url.head? ≠ some slash ∨ question ∈ url ∨ (0x23 : Byte) ∈ url ∨ backslash ∈ url then
    report (lit "path '" ++ url ++ lit "' must be a clean absolute path")
  else if url.tail ≠ [] ∧ url.getLast? = some slash then
    report (lit "path '" ++ url ++ lit "' must not end with '/'")
  else .ok ()

/-- The loop of `validate_route_url`, `left` being the segments still allowed. -/
def validateLoop (url : Bytes) : Nat → Bytes → List Bytes → Checked (List Bytes)
  | _, [], seen => .ok seen
  | 0, _ :: _, _ => report (lit "too many path segments")
  | left + 1, c :: p, seen =>
      match validateRouteSegment url ((c :: p).takeWhile (· != slash)) seen with
      | .error e => .error e
      | .ok seen =>
          match (c :: p).dropWhile (· != slash) with
          | [] => .ok seen
          | _ :: p => validateLoop url left p seen

/-- `validate_route_url`. -/
def validateRouteUrl (url : Bytes) : Checked Unit :=
  match routeUrlShapeValid url with
  | .error e => .error e
  | .ok () =>
      match validateLoop url GENERATOR_MAX_ROUTE_SEGMENTS url.tail [] with
      | .error e => .error e
      | .ok _ => .ok ()

/-- `arm_route_annotation`: `none` when the line is no route annotation, else the
    method and the path. -/
def armRouteAnnotation (line : Bytes) : Option (Checked (Bytes × Bytes)) :=
  let head := line.take (GENERATOR_MAX_LINE - 1)
  if (0x28 : Byte) ∉ head then none
  else
    let word := lineTrim (head.takeWhile (· != 0x28))
    match httpMethodFromWord word with
    | none => none
    | some method =>
        some <|
          match parseRouteUrl line word with
          | .error e => .error e
          | .ok url =>
              match validateRouteUrl url with
              | .error e => .error e
              | .ok () => .ok (method, url)

/-! ## Placeholders and parameters -/

/-- `url_has_param`. -/
def urlHasParam (url name : Bytes) : Bool := strstr (openBrace :: name ++ [closeBrace]) url

/-- The loop of `url_param_slot`; a round starts at most once for each byte. -/
def urlParamSlotLoop (name : Bytes) : Nat → Bytes → Nat → Int
  | _, [], _ => -1
  | 0, _ :: _, _ => -1
  | n + 1, c :: s, slot =>
      if c ≠ openBrace then urlParamSlotLoop name n s slot
      else
        match s.dropWhile (· != closeBrace) with
        | [] => -1
        | _ :: rest =>
            if name = s.takeWhile (· != closeBrace) then slot
            else urlParamSlotLoop name n rest (slot + 1)

/-- `url_param_slot`. -/
def urlParamSlot (url name : Bytes) : Int :=
  urlParamSlotLoop name GENERATOR_MAX_URL (url.take GENERATOR_MAX_URL) 0

/-- `count_url_params`. -/
def countUrlParams (url : Bytes) : Nat :=
  (url.take GENERATOR_MAX_URL).countP (· == openBrace)

/-- `classify_params`, for one parameter. -/
def classifyParam (url : Bytes) (p : ParsedParam) : ParsedParam :=
  if p.isBody then p
  else if urlHasParam url p.name then
    { p with isQuery := false, pathSlot := urlParamSlot url p.name }
  else { p with isQuery := true }

/-- `route_params_consistent`: the route with its parameters classified. -/
def routeParamsConsistent (r : ParsedRoute) : Checked ParsedRoute :=
  let bodies := r.params.countP fun p => p.isBody
  let paths := r.params.countP fun p => !p.isBody && urlHasParam r.url p.name
  let wanted := countUrlParams r.url
  if bodies > 1 then
    report (r.functionName ++ lit " takes " ++ lit (toString bodies)
      ++ lit " bodies; only one is allowed")
  else if wanted ≠ paths then
    report (lit "path '" ++ r.url ++ lit "' has " ++ lit (toString wanted)
      ++ lit " \x7b" ++ [0xE2, 0x80, 0xA6] ++ lit "\x7d segment(s) but " ++ r.functionName
      ++ lit " takes " ++ lit (toString paths) ++ lit " with a matching name")
  else .ok { r with params := r.params.map (classifyParam r.url) }

/-! ## All routes together -/

/-- The loop of `route_patterns_overlap`, `guard` being the rounds left. -/
def overlapLoop : Nat → Bytes → Bytes → Bool
  | 0, _, _ => false
  | guard + 1, pa, pb =>
      if pa = [] ∨ pb = [] then pa = [] ∧ pb = []
      else
        let a := pa.takeWhile (· != slash)
        let b := pb.takeWhile (· != slash)
        let dynamicA := pa.head? = some openBrace ∧ a.getLast? = some closeBrace
        let dynamicB := pb.head? = some openBrace ∧ b.getLast? = some closeBrace
        if ¬ dynamicA ∧ ¬ dynamicB ∧ a ≠ b then false
        else
          match pa.dropWhile (· != slash), pb.dropWhile (· != slash) with
          | [], [] => true
          | _ :: pa, _ :: pb => overlapLoop guard pa pb
          | _, _ => false

/-- `route_patterns_overlap`. -/
def routePatternsOverlap (a b : Bytes) : Bool :=
  overlapLoop GENERATOR_MAX_ROUTE_SEGMENTS a.tail b.tail

/-- A message of `generator_error` with its line. -/
structure GeneratorError where
  line : Nat
  message : Bytes
  deriving Repr, DecidableEq

/-- `service_type_exists`, `types` being the names of the declared ones. -/
def serviceTypeExists (types : List Bytes) (name : Bytes) (allowVoid : Bool) : Bool :=
  name = lit "int" ∨ name = lit "long" ∨ name = lit "double" ∨ name = lit "bool"
    ∨ name = lit "str" ∨ (allowVoid = true ∧ name = lit "void") ∨ name ∈ types

/-- `validate_route_types`. -/
def validateRouteTypes (types : List Bytes) (route : ParsedRoute) : List GeneratorError :=
  (if serviceTypeExists types route.returnType true = false then
    [⟨route.line, lit "return type '" ++ route.returnType
      ++ lit "' is not a declared $table"⟩]
  else [])
  ++ (route.params.take GENERATOR_MAX_PARAMS).flatMap fun param =>
    if param.isBody = true ∧ param.type ∉ types then
      [⟨route.line, lit "body type '" ++ param.type ++ lit "' is not a declared $table"⟩]
    else []

/-- The body of the loop of `validate_route_clashes`. -/
def validateRouteClash (route other : ParsedRoute) : List GeneratorError :=
  (if route.functionName = other.functionName then
    [⟨route.line, lit "handler '" ++ route.functionName
      ++ lit "' already has a route annotation"⟩]
  else [])
  ++ (if route.method = other.method ∧ countUrlParams route.url = countUrlParams other.url
      ∧ routePatternsOverlap route.url other.url = true then
    [⟨route.line, lit "route " ++ route.method ++ lit " " ++ route.url
      ++ lit " is ambiguous with " ++ other.url⟩]
  else [])

/-- `validate_route_clashes`, against the routes before. -/
def validateRouteClashes (prior : List ParsedRoute) (route : ParsedRoute) :
    List GeneratorError :=
  prior.flatMap (validateRouteClash route)

/-- The loop of `validate_routes`, with the routes behind it. -/
def validateRoutesLoop (types : List Bytes) (prior : List ParsedRoute) :
    List ParsedRoute → List GeneratorError
  | [] => []
  | route :: routes =>
      (if route.url = lit "/openapi.json" ∨ route.url = lit "/health/live"
          ∨ route.url = lit "/health/ready" then
        [⟨route.line, lit "/openapi.json is reserved for generated OpenAPI"⟩]
      else [])
      ++ validateRouteTypes types route ++ validateRouteClashes prior route
      ++ validateRoutesLoop types (prior ++ [route]) routes

/-- `validate_routes`: the errors it reports. -/
def validateRoutes (types : List Bytes) (routes : List ParsedRoute) : List GeneratorError :=
  validateRoutesLoop types [] (routes.take GENERATOR_MAX_ROUTES)

/-! ## The table -/

/-- `dynamic_segments`. -/
def dynamicSegments (url : Bytes) : Nat :=
  (url.take GENERATOR_MAX_URL).countP (· == openBrace)

/-- The inner loop of `emit_route_table`, over the routes from the `i`th on and
    whether they are emitted: the first one not emitted with the fewest
    placeholders. -/
def bestLoop : List (Bool × ParsedRoute) → Nat → Option Nat → Nat → Option Nat
  | [], _, best, _ => best
  | (emitted, r) :: rest, i, best, bestDynamic =>
      let dynamic := dynamicSegments r.url
      if emitted = false ∧ dynamic < bestDynamic then bestLoop rest (i + 1) (some i) dynamic
      else bestLoop rest (i + 1) best bestDynamic

/-- The outer loop of `emit_route_table`. -/
def emitLoop : Nat → List (Bool × ParsedRoute) → List ParsedRoute
  | 0, _ => []
  | n + 1, routes =>
      match bestLoop routes 0 none INT_MAX with
      | none => []
      | some i =>
          match routes[i]? with
          | none => []
          | some (_, r) => r :: emitLoop n (routes.set i (true, r))

/-- The line of the table for a route. -/
def emitRoute (r : ParsedRoute) : Route where
  method := r.method
  url := r.url
  contentType :=
    if r.produces ≠ [] then r.produces
    else if r.returnType = lit "str" then lit "text/plain; charset=utf-8"
    else lit "application/json; charset=utf-8"
  status :=
    if r.returnType = lit "void" then 204 else if r.method = lit "POST" then 201 else 200
  handler := some (lit "wrap_" ++ r.functionName)

/-- The line that stands in every table. -/
def openapiRoute : Route :=
  ⟨lit "GET", lit "/openapi.json", lit "application/json; charset=utf-8", 200,
    some (lit "wrap_openapi")⟩

/-- `emit_route_table`: what `route_table` then returns. -/
def emitRouteTable (routes : List ParsedRoute) : List Route :=
  let routes := routes.take GENERATOR_MAX_ROUTES
  openapiRoute :: (emitLoop routes.length (routes.map (false, ·))).map emitRoute

end RouteGenerator
