import Gargantua.GeneratorText

/-! # The source file, line by line (`src/generator/generator_source.c`, `generator_annotations.c`)

    A file is read one logical line after another: comments are stripped, and a
    signature that goes over several lines is put together.  At the top level a
    line is tried against the annotations in a fixed order; between `$table` and
    `};` it is a field or an annotation of the next field.  What an annotation
    says is pending until its declaration comes.

    A handler that returns `0` has changed nothing: it is `none` here. -/

namespace GeneratorSource

open CString RouteGenerator GeneratorText

/-- `GENERATOR_MAX_LINES`, `GENERATOR_MAX_TYPES`, `GENERATOR_MAX_FIELDS`,
    `GENERATOR_MAX_SERVICES`, `GENERATOR_MAX_STORES`, `SCHEDULER_MAX_TASKS` and
    `PAGE_MAX`. -/
abbrev GENERATOR_MAX_LINES : Nat := 65536
abbrev GENERATOR_MAX_TYPES : Nat := 256
abbrev GENERATOR_MAX_FIELDS : Nat := 64
abbrev GENERATOR_MAX_SERVICES : Nat := 256
abbrev GENERATOR_MAX_STORES : Nat := 16
abbrev SCHEDULER_MAX_TASKS : Nat := 16
abbrev PAGE_MAX : Nat := 100

/-! ## What is parsed -/

/-- The bits of `validation`. -/
structure Validation where
  min : Bool := false
  max : Bool := false
  size : Bool := false
  email : Bool := false
  deriving Repr, DecidableEq

/-- The part of `ParsedField` that validation annotations fill in. -/
structure Rules where
  validation : Validation := {}
  min : LongDouble := .finite 0
  max : LongDouble := .finite 0
  sizeMin : Nat := 0
  sizeMax : Nat := 0
  minArg : Bytes := []
  maxArg : Bytes := []
  minInt : Int := 0
  maxInt : Int := 0
  deriving Repr, DecidableEq

/-- `ParsedField`.  The kind of a field that `$pick` names is empty until
    `resolve_picks`. -/
structure ParsedField where
  name : Bytes
  cType : Bytes := []
  kind : Option FieldKind := none
  flags : FieldFlags := {}
  references : Bytes := []
  referenceKey : Bytes := []
  rules : Rules := {}
  deriving Repr, DecidableEq

/-- `ParsedType`. -/
structure ParsedType where
  name : Bytes
  fields : List ParsedField := []
  line : Nat
  fileIndex : Int
  jsonOnly : Bool
  sourceType : Bytes := []
  pickCount : Nat := 0
  deriving Repr, DecidableEq

/-- `ParsedRoute`. -/
structure ParsedRoute extends RouteGenerator.ParsedRoute where
  fileIndex : Int
  transactional : Bool := false
  collection : Nat
  authenticated : Bool := false
  publicRoute : Bool := false
  role : Bytes := []
  deriving Repr, DecidableEq

/-- `ParsedTask`. -/
structure ParsedTask where
  functionName : Bytes
  intervalMs : Int
  line : Nat
  fileIndex : Int
  deriving Repr, DecidableEq

/-- `ParsedStore`. -/
structure ParsedStore where
  type : Bytes
  capacity : Int
  line : Nat
  fileIndex : Int
  deriving Repr, DecidableEq

/-- `ParsedService`. -/
structure ParsedService where
  functionName : Bytes
  returnType : Bytes
  params : List ParsedParam
  line : Nat
  fileIndex : Int
  deriving Repr, DecidableEq

/-- `ParsedFunction`. -/
structure ParsedFunction where
  signature : Bytes
  name : Bytes
  returnType : Bytes
  fileIndex : Int
  line : Nat
  deriving Repr, DecidableEq

/-- `SourceFile`. -/
structure SourceFile where
  path : Bytes
  hasTable : Bool := false
  hasRoute : Bool := false
  hasService : Bool := false
  hasTask : Bool := false
  deriving Repr, DecidableEq

/-- `Generator`. -/
structure Generator where
  files : List SourceFile := []
  types : List ParsedType := []
  routes : List ParsedRoute := []
  functions : List ParsedFunction := []
  services : List ParsedService := []
  tasks : List ParsedTask := []
  stores : List ParsedStore := []
  errors : List GeneratorError := []
  deriving Repr, DecidableEq

/-- `ParseState`.  `current_type` is the index of the type. -/
structure ParseState where
  lineno : Nat := 0
  inStruct : Bool := false
  needOpen : Bool := false
  inBlockComment : Bool := false
  pending : FieldFlags := {}
  rules : Rules := {}
  pendingReferences : Bytes := []
  currentType : Option Nat := none
  routeArmed : Bool := false
  pendingTransactional : Bool := false
  pendingAuth : Bool := false
  pendingPublic : Bool := false
  pendingRole : Bytes := []
  braceDepth : Nat := 0
  taskArmed : Bool := false
  pendingIntervalMs : Int := 0
  pendingProduces : Bytes := []
  transactionBlockArmed : Bool := false
  transactionDepths : List Nat := []
  routeMethod : Bytes := []
  routeUrl : Bytes := []
  deriving Repr, DecidableEq

/-- What a handler works on. -/
structure Parser where
  ctx : Generator
  st : ParseState
  deriving Repr, DecidableEq

/-- `generator_error`, at the line of the parser. -/
def Parser.error (p : Parser) (message : Bytes) : Parser :=
  { p with ctx := { p.ctx with errors := p.ctx.errors ++ [⟨p.st.lineno, message⟩] } }

/-- Several messages, one after another. -/
def Parser.errors (p : Parser) (messages : List Bytes) : Parser := messages.foldl Parser.error p

/-- A call that failed. -/
def Parser.failed (p : Parser) : Option Bytes → Parser
  | none => p
  | some message => p.error message

/-- `ctx->file_count - 1`. -/
def Generator.fileIndex (ctx : Generator) : Int := ctx.files.length - 1

/-- A mark on the current file, if there is one. -/
def Generator.markFile (mark : SourceFile → SourceFile) (ctx : Generator) : Generator :=
  { ctx with files := ctx.files.modifyLast mark }

/-- The name of a limit in a message. -/
def limit (n : Nat) : Bytes := lit " (limit " ++ lit (toString n) ++ lit ")"

/-! ## Annotations of declarations -/

/-- `content_type_valid`. -/
def contentTypeValid (text : Bytes) : Bool :=
  text.length ≠ 0 ∧ text.length < GENERATOR_MAX_CONTENT_TYPE
    ∧ (text.all fun c => 0x20 ≤ c && c ≤ 0x7E && c != 0x22 && c != 0x5C)
    ∧ text.count 0x2F = 1

/-- `parse_interval`: the milliseconds. -/
def parseInterval (text : Bytes) : Option Int :=
  let number := strtol text
  if number.errno ∨ ¬ number.found ∨ number.value ≤ 0 ∨ number.value > 86400000 then none
  else
    let scale : Option Int :=
      if number.rest = lit "ms" then some 1
      else if number.rest = lit "s" then some 1000
      else if number.rest = lit "m" then some 60000
      else if number.rest = lit "h" then some 3600000
      else none
    match scale with
    | none => none
    | some scale =>
        if number.value > 86400000 / scale then none
        else
          let total := number.value * scale
          if total < 100 ∨ total > 86400000 then none else some total

/-- `store_capacity_valid`. -/
def storeCapacityValid (text : Bytes) : Option Int :=
  let number := strtol text
  if number.errno ∨ ¬ number.found ∨ number.rest ≠ [] ∨ number.value < 1
      ∨ number.value > PAGE_MAX then none
  else some number.value

/-- `split_store_arguments`. -/
def splitStoreArguments (work : Bytes) : Option (Bytes × Bytes) :=
  if endsWithClose work then
    (splitAt 0x2C work.dropLast).map fun r => (lineTrim r.1, lineTrim r.2)
  else none

/-- `parse_store_annotation`. -/
def parseStoreAnnotation (p : Parser) (line : Bytes) : Option Parser :=
  if (lit "$store(").isPrefixOf line = false then none
  else
    match splitStoreArguments (line.drop 7) with
    | none => some (p.error (lit "write $store(Type, count)"))
    | some (typeName, sizeText) =>
        if isSafeIdentifier typeName = false then
          some (p.error (lit "invalid type '" ++ typeName ++ lit "' in $store"))
        else
          match storeCapacityValid sizeText with
          | none =>
              some (p.error (lit "$store requires a count from 1 to " ++ lit (toString PAGE_MAX)
                ++ lit " (one page, so _store_list can hold it)"))
          | some capacity =>
              if typeName ∈ p.ctx.stores.map (·.type) then
                some (p.error (lit "type '" ++ typeName ++ lit "' already has $store"))
              else if p.ctx.stores.length ≥ GENERATOR_MAX_STORES then
                some (p.error (lit "too many stores" ++ limit GENERATOR_MAX_STORES))
              else
                let store : ParsedStore := ⟨typeName, capacity, p.st.lineno, p.ctx.fileIndex⟩
                some { p with ctx := { p.ctx with stores := p.ctx.stores ++ [store] } }

/-- `parse_produces_annotation`. -/
def parseProducesAnnotation (p : Parser) (line : Bytes) : Option Parser :=
  if (lit "$produces(").isPrefixOf line = false then none
  else
    match parseRouteUrl line (lit "$produces") with
    | .error e => some (p.failed e)
    | .ok value =>
        if contentTypeValid value = false then
          some (p.error (lit "invalid content type '" ++ value ++ lit "' in $produces"))
        else if p.st.pendingProduces ≠ [] then some (p.error (lit "duplicate $produces"))
        else if value.length ≥ GENERATOR_MAX_CONTENT_TYPE then
          some (p.error (lit "content type is longer than "
            ++ lit (toString (GENERATOR_MAX_CONTENT_TYPE - 1)) ++ lit " characters"))
        else some { p with st := { p.st with pendingProduces := value } }

/-- `parse_repeat_annotation`. -/
def parseRepeatAnnotation (p : Parser) (line : Bytes) : Option Parser :=
  if line = lit "$on_start" then
    if p.st.taskArmed then some (p.error (lit "duplicate $repeat/$on_start"))
    else some { p with st := { p.st with taskArmed := true, pendingIntervalMs := 0 } }
  else if (lit "$repeat(").isPrefixOf line = false then none
  else
    match parseRouteUrl line (lit "$repeat") with
    | .error e => some (p.failed e)
    | .ok value =>
        match parseInterval value with
        | none =>
            some (p.error (lit "$repeat requires an interval from 100ms to 24h, e.g. \"10s\" (got '"
              ++ value ++ lit "')"))
        | some interval =>
            if p.st.taskArmed then some (p.error (lit "duplicate $repeat/$on_start"))
            else
              some { p with st := { p.st with taskArmed := true, pendingIntervalMs := interval } }

/-- `parse_task`. -/
def parseTask (p : Parser) (line : Bytes) : Parser :=
  let p := { p with st := { p.st with taskArmed := false } }
  if p.ctx.tasks.length ≥ SCHEDULER_MAX_TASKS then
    p.error (lit "too many tasks" ++ limit SCHEDULER_MAX_TASKS)
  else
    match extractReturnType line, extractFunctionName line with
    | some returnType, some functionName =>
        if returnType ≠ lit "void" then
          p.error (lit "'" ++ functionName ++ lit "' must return void")
        else
          match extractParams line true with
          | .error e =>
              (p.failed e).error (lit "'" ++ functionName ++ lit "' takes no parameters")
          | .ok params =>
              if params ≠ [] then
                p.error (lit "'" ++ functionName ++ lit "' takes no parameters")
              else
                let task : ParsedTask :=
                  ⟨functionName, p.st.pendingIntervalMs, p.st.lineno, p.ctx.fileIndex⟩
                { p with
                  ctx := ({ p.ctx with tasks := p.ctx.tasks ++ [task] }).markFile
                    fun file => { file with hasTask := true } }
    | _, _ => p.error (lit "after $repeat expected 'void name(void)'")

/-- An annotation that says who may call a route. -/
inductive AuthAnnotation where
  | authenticated
  | isPublic
  | role (name : Bytes)
  deriving Repr, DecidableEq

/-- `parse_auth_annotation`: the annotation, if the line is one. -/
def authAnnotation (line : Bytes) : Option (Checked AuthAnnotation) :=
  if line = lit "$authenticated" then some (.ok .authenticated)
  else if line = lit "$public" then some (.ok .isPublic)
  else if (lit "$role(").isPrefixOf line = false then none
  else
    match parseRouteUrl line (lit "$role") with
    | .error e => some (.error e)
    | .ok role =>
        if role ≠ lit "admin" ∧ role ≠ lit "user" then
          some (report (lit "$role supports admin or user"))
        else some (.ok (.role role))

/-- The pending flags after an annotation. -/
def ParseState.pend (st : ParseState) : AuthAnnotation → ParseState
  | .authenticated => { st with pendingAuth := true }
  | .isPublic => { st with pendingPublic := true }
  | .role name => { st with pendingRole := name }

/-- `parse_auth_annotation`. -/
def parseAuthAnnotation (p : Parser) (line : Bytes) : Option Parser :=
  match authAnnotation line with
  | none => none
  | some (.error e) => some (p.failed e)
  | some (.ok a) => some { p with st := p.st.pend a }

/-- `parse_transactional_annotation`. -/
def parseTransactionalAnnotation (p : Parser) (line : Bytes) : Option Parser :=
  if line ≠ lit "$transactional" then none
  else if p.st.braceDepth ≠ 0 then
    some (p.error (lit "$transactional is allowed only before a function"))
  else if p.st.pendingTransactional then some (p.error (lit "duplicate $transactional"))
  else some { p with st := { p.st with pendingTransactional := true } }

/-- `arm_route_annotation`. -/
def parseRouteAnnotation (p : Parser) (line : Bytes) : Option Parser :=
  match armRouteAnnotation line with
  | none => none
  | some (.error e) => some (p.failed e)
  | some (.ok (method, url)) =>
      some { p with st := { p.st with routeMethod := method, routeUrl := url, routeArmed := true } }

/-- `open_type`. -/
def openType (p : Parser) (line : Bytes) : Parser :=
  match parseTableName line with
  | .error e => p.failed e
  | .ok name =>
      if name ∈ p.ctx.types.map (·.name) then
        p.error (lit "table '" ++ name ++ lit "' is already declared")
      else if p.ctx.types.length ≥ GENERATOR_MAX_TYPES then
        p.error (lit "too many tables" ++ limit GENERATOR_MAX_TYPES)
      else
        let type : ParsedType := {
          name := name
          jsonOnly := (lit "$json").isPrefixOf line
          line := p.st.lineno
          fileIndex := p.ctx.fileIndex }
        { ctx := ({ p.ctx with types := p.ctx.types ++ [type] }).markFile
            fun file => { file with hasTable := true }
          st := { p.st with
            currentType := some p.ctx.types.length
            inStruct := true
            needOpen := true
            pending := {} } }

/-- `drop_dangling_auth`, its first half. -/
def dropSecurity (p : Parser) : Parser :=
  if p.st.pendingAuth ∨ p.st.pendingPublic ∨ p.st.pendingRole ≠ [] then
    let p := p.error (lit "authentication annotation must precede a route")
    { p with st := { p.st with pendingAuth := false, pendingPublic := false, pendingRole := [] } }
  else p

/-- `drop_dangling_auth`, its second half. -/
def dropProduces (p : Parser) : Parser :=
  if p.st.pendingProduces ≠ [] then
    let p := p.error (lit "$produces must precede a route annotation")
    { p with st := { p.st with pendingProduces := [] } }
  else p

/-- `drop_dangling_auth`. -/
def dropDanglingAuth (p : Parser) : Parser := dropProduces (dropSecurity p)

/-- `report_removed_annotation`. -/
def reportRemovedAnnotation (p : Parser) (line : Bytes) : Option Parser :=
  if (lit "$entity").isPrefixOf line then
    some (p.error (lit "$entity was removed; use $table(Name)"))
  else if (lit "$dto").isPrefixOf line then
    some (p.error (lit "$dto was removed; use $json(Name)"))
  else none

/-! ## Functions -/

/-- `take_pending_annotations`: the route, and the state without them. -/
def takePendingAnnotations (p : Parser) (r : ParsedRoute) : Parser × ParsedRoute :=
  let r := { r with
    authenticated := p.st.pendingAuth
    publicRoute := p.st.pendingPublic
    role := p.st.pendingRole
    transactional := p.st.pendingTransactional
    produces := p.st.pendingProduces }
  let st := { p.st with
    pendingProduces := []
    pendingAuth := false
    pendingPublic := false
    pendingRole := []
    pendingTransactional := false }
  if r.publicRoute ∧ (r.authenticated ∨ r.role ≠ []) then
    ({ p.error (lit "$public cannot be combined with authentication") with st := st }, r)
  else ({ p with st := st }, r)

/-- `parse_route_signature`: the name and the return type. -/
def parseRouteSignature (st : ParseState) (line : Bytes) : Checked (Bytes × Bytes) :=
  let route := st.routeMethod ++ lit "(\"" ++ st.routeUrl ++ lit "\")"
  if endsWithClose line = false then
    report (lit "the handler signature must be alone on its line")
  else
    match extractReturnType line with
    | none => report (lit "after " ++ route ++ lit " expected 'type name(void)'")
    | some returnType =>
        match extractFunctionName line with
        | none => report (lit "after " ++ route ++ lit " expected a function signature")
        | some functionName => .ok (functionName, returnType)

/-- The route of a signature, without the pending annotations. -/
def routeOf (p : Parser) (line : Bytes) : Checked ParsedRoute := do
  let (functionName, returnType) ← parseRouteSignature p.st line
  let (returnType, collection) ← parseCollectionReturn returnType
  let params ← extractParams line false
  let r ← routeParamsConsistent {
    method := p.st.routeMethod
    url := p.st.routeUrl
    functionName := functionName
    returnType := returnType
    params := params
    line := p.st.lineno
    produces := [] }
  pure { toParsedRoute := r, fileIndex := p.ctx.fileIndex, collection := collection }

/-- `parse_route`. -/
def parseRoute (p : Parser) (line : Bytes) : Parser :=
  let p := { p with st := { p.st with routeArmed := false } }
  if p.ctx.routes.length ≥ GENERATOR_MAX_ROUTES then
    p.error (lit "too many routes" ++ limit GENERATOR_MAX_ROUTES)
  else
    match routeOf p line with
    | .error e => p.failed e
    | .ok r =>
        let (p, r) := takePendingAnnotations p r
        { p with
          ctx := ({ p.ctx with routes := p.ctx.routes ++ [r] }).markFile
            fun file => { file with hasRoute := true } }

/-- The service of a signature. -/
def serviceOf (p : Parser) (line : Bytes) : Checked ParsedService :=
  if endsWithClose line = false then
    report (lit "after $transactional expected a service signature alone on its line")
  else
    match extractReturnType line, extractFunctionName line with
    | some returnType, some functionName =>
        match extractParams line true with
        | .error e => .error e
        | .ok params => .ok ⟨functionName, returnType, params, p.st.lineno, p.ctx.fileIndex⟩
    | _, _ => report (lit "a transactional service requires a plain signature without pointers")

/-- `parse_service`, up to its end. -/
def takeService (p : Parser) (line : Bytes) : Parser :=
  if p.ctx.services.length ≥ GENERATOR_MAX_SERVICES then
    p.error (lit "too many transactional services" ++ limit GENERATOR_MAX_SERVICES)
  else
    match serviceOf p line with
    | .error e => p.failed e
    | .ok service =>
        { p with
          ctx := ({ p.ctx with services := p.ctx.services ++ [service] }).markFile
            fun file => { file with hasService := true } }

/-- `parse_service`: nothing is pending at its end, whatever it finds. -/
def parseService (p : Parser) (line : Bytes) : Parser :=
  let p := takeService p line
  { p with st := { p.st with pendingTransactional := false } }

/-- The text starts a signature that `collect_function` leaves alone. -/
def notCollected (st : ParseState) (line : Bytes) : Bool :=
  st.braceDepth ≠ 0 ∨ line.headD 0 = 0x23 ∨ line = []
    ∨ (line.headD 0 = 0x24 ∧ startsCollection line = false)
    ∨ (lit "static ").isPrefixOf line ∨ (lit "extern ").isPrefixOf line
    ∨ (0x3B : Byte) ∈ line ∨ (0x3D : Byte) ∈ line ∨ (0x7B : Byte) ∈ line

/-- `collect_function`. -/
def collectFunction (p : Parser) (line : Bytes) : Parser :=
  if notCollected p.st line ∨ endsWithClose line = false then p
  else
    match extractFunctionName line, extractReturnType line with
    | some name, some returnType =>
        if p.ctx.functions.length ≥ GENERATOR_MAX_SERVICES then
          p.error (lit "too many public functions")
        else if name ∈ p.ctx.functions.map (·.name) then
          p.error (lit "public function '" ++ name ++ lit "' is defined twice")
        else
          let f : ParsedFunction := ⟨line, name, returnType, p.ctx.fileIndex, p.st.lineno⟩
          { p with ctx := { p.ctx with functions := p.ctx.functions ++ [f] } }
    | _, _ => p

/-! ## Blocks -/

/-- Where `guard_transaction` is in a line. -/
inductive GuardMode where
  | code
  | quoted (quote : Byte)
  | escaped (quote : Byte)
  | word (text : Bytes)
  deriving Repr, DecidableEq

/-- A character of a word, `$` included. -/
def isGuardChar (c : Byte) : Bool := isWordChar c || c == 0x24

/-- `$transaction` arms the next block. -/
def armTransaction (p : Parser) (word : Bytes) : Parser :=
  if word = lit "$transaction" then
    { p with st := { p.st with transactionBlockArmed := true } }
  else p

/-- No `return` inside a transaction. -/
def guardReturn (p : Parser) (word : Bytes) : Parser :=
  if word = lit "return" ∧ p.st.transactionDepths ≠ [] then
    p.error (lit "do not use return inside $transaction; use $throw or $transactional")
  else p

/-- The end of a word. -/
def guardWord (p : Parser) (word : Bytes) : Parser := guardReturn (armTransaction p word) word

/-- An armed block opens. -/
def openTransaction (p : Parser) : Parser :=
  if p.st.transactionDepths.length ≥ 16 then p.error (lit "transaction nesting exceeds 16")
  else { p with st := { p.st with transactionDepths := p.st.braceDepth :: p.st.transactionDepths } }

/-- `{`. -/
def openBrace (p : Parser) : Parser :=
  let p := { p with st := { p.st with braceDepth := p.st.braceDepth + 1 } }
  if p.st.transactionBlockArmed then
    let p := openTransaction p
    { p with st := { p.st with transactionBlockArmed := false } }
  else p

/-- `}`. -/
def closeBrace (p : Parser) : Parser :=
  let depths :=
    if p.st.transactionDepths.head? = some p.st.braceDepth then p.st.transactionDepths.tail
    else p.st.transactionDepths
  { p with st := { p.st with transactionDepths := depths, braceDepth := p.st.braceDepth - 1 } }

/-- A character outside a word and a literal. -/
def guardCode (p : Parser) (c : Byte) : Parser × GuardMode :=
  if c = 0x22 ∨ c = 0x27 then (p, .quoted c)
  else if isAlpha c ∨ c = 0x5F ∨ c = 0x24 then (p, .word [c])
  else if c = 0x7B then (openBrace p, .code)
  else if c = 0x7D then (closeBrace p, .code)
  else (p, .code)

/-- The loop of `guard_transaction`: a word ends in front of the character that
    does not belong to it. -/
def guardLoop : Parser → GuardMode → Bytes → Parser
  | p, .word word, [] => guardWord p word
  | p, _, [] => p
  | p, .quoted quote, c :: line =>
      if c = 0x5C then guardLoop p (.escaped quote) line
      else guardLoop p (if c = quote then .code else .quoted quote) line
  | p, .escaped quote, _ :: line => guardLoop p (.quoted quote) line
  | p, .word word, c :: line =>
      if isGuardChar c then guardLoop p (.word (word ++ [c])) line
      else
        let r := guardCode (guardWord p word) c
        guardLoop r.1 r.2 line
  | p, .code, c :: line =>
      let r := guardCode p c
      guardLoop r.1 r.2 line

/-- `guard_transaction`. -/
def guardTransaction (p : Parser) (line : Bytes) : Parser := guardLoop p .code line

end GeneratorSource
