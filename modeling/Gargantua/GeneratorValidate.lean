import Gargantua.GeneratorFile

/-! # The model as a whole (`src/generator/generator_validate.c`, `generator_projection.c`)

    Once every file is parsed, `$pick` fields are copied from their tables and
    the types, routes, services, stores and tasks are checked against each
    other.  A check reports errors and changes nothing else, except that a
    reference learns the name of the key it refers to. -/

namespace GeneratorValidate

open CString RouteGenerator GeneratorText GeneratorSource GeneratorFile

/-- `type_index`. -/
def typeIndex (types : List ParsedType) (name : Bytes) : Option Nat :=
  types.findIdx? fun t => t.name = name

/-- The field is a nested object. -/
def isObject (f : ParsedField) : Bool := f.kind == some .object

/-! ## `resolve_picks` -/

/-- The field of a table, as a `$pick` has it. -/
def pickedField (f : ParsedField) : ParsedField :=
  { f with
    flags := { notNull := f.flags.notNull, nullable := f.flags.nullable }
    references := []
    referenceKey := [] }

/-- One field of `resolve_picks`. -/
def resolveField (target source : ParsedType) (f : ParsedField) :
    ParsedField × List GeneratorError :=
  match source.fields.find? fun g => g.name = f.name with
  | some g => (pickedField g, [])
  | none =>
      (f, [⟨target.line, lit "$pick: no field '" ++ f.name ++ lit "' in " ++ source.name⟩])

/-- `resolve_picks`, for the type at `i`.  A source is a table, which has no
    picks, so the loop does not change what it reads. -/
def resolvePick (types : List ParsedType) (i : Nat) (target : ParsedType) :
    ParsedType × List GeneratorError :=
  if target.pickCount = 0 then (target, [])
  else
    let missing : GeneratorError :=
      ⟨target.line, lit "$pick source '" ++ target.sourceType ++ lit "' must be a $table"⟩
    match typeIndex types target.sourceType with
    | none => (target, [missing])
    | some j =>
        match types[j]? with
        | none => (target, [missing])
        | some source =>
            if source.jsonOnly then (target, [missing])
            else
              let resolved := (target.fields.take target.pickCount).map (resolveField target source)
              ({ target with
                  fields := resolved.map (·.1) ++ target.fields.drop target.pickCount },
                (if source.fileIndex = target.fileIndex ∧ j ≥ i then
                  [⟨target.line, lit "declare the source table before its DTO in the same file"⟩]
                else []) ++ resolved.flatMap (·.2))

/-- `resolve_picks`. -/
def resolvePicks (ctx : Generator) : Generator :=
  let resolved := ctx.types.mapIdx fun i t => resolvePick ctx.types i t
  { ctx with
    types := resolved.map (·.1)
    errors := ctx.errors ++ resolved.flatMap (·.2) }

/-! ## Types -/

/-- `validate_nested_field`. -/
def validateNestedField (types : List ParsedType) (t : ParsedType) (slot : Nat)
    (f : ParsedField) : List GeneratorError :=
  let refused : List GeneratorError :=
    [⟨t.line, lit "nested field " ++ t.name ++ lit "." ++ f.name
      ++ lit " needs a declared type inside $json; only $not_null is allowed"⟩]
  match typeIndex types f.cType with
  | none => refused
  | some target =>
      if t.jsonOnly = false ∨ f.flags ≠ { notNull := f.flags.notNull } then refused
      else if (types[target]?.map (·.fileIndex)) = some t.fileIndex ∧ target ≥ slot then
        [⟨t.line, lit "declare nested type " ++ f.cType ++ lit " before " ++ t.name
          ++ lit " in the same file"⟩]
      else []

/-- The last key of a table. -/
def keyOf (t : ParsedType) : Option ParsedField := t.fields.reverse.find? (·.flags.id)

/-- `validate_reference_field`: the key, or the error. -/
def validateReferenceField (types : List ParsedType) (t : ParsedType) (f : ParsedField) :
    Except GeneratorError Bytes :=
  let refused : Except GeneratorError Bytes :=
    .error ⟨t.line, lit "$references requires an int field and a table with $id"⟩
  match (typeIndex types f.references).bind fun i => types[i]? with
  | none => refused
  | some target =>
      match keyOf target with
      | none => refused
      | some key =>
          if t.jsonOnly ∨ f.cType ≠ lit "int" ∨ target.jsonOnly then refused else .ok key.name

/-- `validate_type_fields`, for one field: the field, and the errors. -/
def validateField (types : List ParsedType) (t : ParsedType) (slot : Nat) (f : ParsedField) :
    ParsedField × List GeneratorError :=
  let nested := if isObject f then validateNestedField types t slot f else []
  let (f', reference) :=
    if f.references = [] then (f, [])
    else
      match validateReferenceField types t f with
      | .ok key => ({ f with referenceKey := key }, [])
      | .error e => (f, [e])
  let flags : List GeneratorError :=
    if t.jsonOnly ∧ (f.flags.id ∨ f.flags.unique) then
      [⟨t.line, lit "$id/$unique belong on $table fields"⟩]
    else []
  (f', nested ++ reference ++ flags)

/-- `validate_type_fields`, for one type. -/
def validateTypeFields (types : List ParsedType) (slot : Nat) (t : ParsedType) :
    ParsedType × List GeneratorError :=
  let fields := t.fields.map (validateField types t slot)
  ({ t with fields := fields.map (·.1) }, fields.flatMap (·.2))

/-- The loop over the fields in `validate_nesting_depth`: `0` as soon as a nested
    type has no depth yet. -/
def nestingValue (types : List ParsedType) (depth : List Nat) : Nat → List ParsedField → Nat
  | value, [] => value
  | value, f :: fields =>
      if isObject f then
        match typeIndex types f.cType with
        | none => 0
        | some k =>
            if depth.getD k 0 = 0 then 0
            else nestingValue types depth (max value (depth.getD k 0 + 1)) fields
      else nestingValue types depth value fields

/-- One type in a pass of `validate_nesting_depth`. -/
def depthStep (types : List ParsedType) (depth : List Nat) (i : Nat) : List Nat :=
  if depth.getD i 0 ≠ 0 then depth
  else
    match types[i]? with
    | none => depth
    | some t => depth.set i (nestingValue types depth 1 t.fields)

/-- One pass of `validate_nesting_depth`. -/
def depthPass (types : List ParsedType) (depth : List Nat) : List Nat :=
  (List.range types.length).foldl (depthStep types) depth

/-- The depths after all passes. -/
def nestingDepth (types : List ParsedType) : List Nat :=
  (List.range types.length).foldl (fun depth _ => depthPass types depth)
    (List.replicate types.length 0)

/-- `validate_nesting_depth`: the errors. -/
def validateNestingDepth (types : List ParsedType) : List GeneratorError :=
  (types.zip (nestingDepth types)).flatMap fun (t, depth) =>
    if depth = 0 ∨ depth > 8 then
      [⟨t.line, lit "nested type cycle or depth exceeds 8: " ++ t.name⟩]
    else []

/-- `validate_types`. -/
def validateTypes (ctx : Generator) : Generator :=
  let checked := ctx.types.mapIdx fun i t => validateTypeFields ctx.types i t
  let types := checked.map (·.1)
  { ctx with
    types := types
    errors := ctx.errors ++ checked.flatMap (·.2) ++ validateNestingDepth types }

/-! ## Services, stores, tasks and files -/

/-- What precedes each element of a list. -/
def withPrior {α : Type} (xs : List α) : List (List α × α) :=
  xs.mapIdx fun i x => (xs.take i, x)

/-- `validate_services`, for one service. -/
def validateService (ctx : Generator) (prior : List ParsedService) (s : ParsedService) :
    List GeneratorError :=
  let types := ctx.types.map (·.name)
  (if serviceTypeExists types s.returnType true = false then
    [⟨s.line, lit "service return type '" ++ s.returnType ++ lit "' is not supported"⟩]
  else [])
  ++ (s.params.flatMap fun param =>
    if serviceTypeExists types param.type false = false then
      [⟨s.line, lit "service parameter type '" ++ param.type ++ lit "' is not supported"⟩]
    else [])
  ++ (prior.flatMap fun other =>
    if s.functionName = other.functionName then
      [⟨s.line, lit "transactional service '" ++ s.functionName ++ lit "' is declared twice"⟩]
    else [])
  ++ ctx.routes.flatMap fun route =>
    if s.functionName = route.functionName then
      [⟨s.line, lit "'" ++ s.functionName ++ lit "' cannot be both a service and an endpoint"⟩]
    else []

/-- `validate_stores`, for one store. -/
def validateStore (types : List ParsedType) (store : ParsedStore) : List GeneratorError :=
  match (typeIndex types store.type).bind fun i => types[i]? with
  | none =>
      [⟨store.line, lit "$store type '" ++ store.type
        ++ lit "' is not a declared $table or $json"⟩]
  | some type =>
      type.fields.flatMap fun f =>
        if isObject f then
          [⟨store.line, lit "$store(" ++ store.type ++ lit ") requires flat fields; nested field '"
            ++ f.name ++ lit "' is unsupported"⟩]
        else []

/-- `validate_tasks`, for one task. -/
def validateTask (ctx : Generator) (prior : List ParsedTask) (task : ParsedTask) :
    List GeneratorError :=
  (prior.flatMap fun other =>
    if task.functionName = other.functionName then
      [⟨task.line, lit "task '" ++ task.functionName ++ lit "' is declared twice"⟩]
    else [])
  ++ ctx.routes.flatMap fun route =>
    if task.functionName = route.functionName then
      [⟨task.line, lit "'" ++ task.functionName ++ lit "' cannot be both a task and an endpoint"⟩]
    else []

/-- `validate_file_roles`, for the file at `i`. -/
def validateFileRole (ctx : Generator) (i : Nat) (file : SourceFile) : List GeneratorError :=
  (if file.hasTable then
    (ctx.functions.filter fun f => f.fileIndex = (i : Int)).map fun f =>
      ⟨f.line, lit "put functions in a separate service or controller file"⟩
  else [])
  ++ if file.hasService ∧ (file.hasTable ∨ file.hasRoute) then
    [⟨0, lit "put transactional services in a separate service file"⟩]
  else []

/-- The errors of `generator_validate_model` behind `validate_types`. -/
def modelErrors (ctx : Generator) : List GeneratorError :=
  validateRoutes (ctx.types.map (·.name)) (ctx.routes.map (·.toParsedRoute))
  ++ (withPrior ctx.services).flatMap (fun s => validateService ctx s.1 s.2)
  ++ ctx.stores.flatMap (validateStore ctx.types)
  ++ (withPrior ctx.tasks).flatMap (fun t => validateTask ctx t.1 t.2)
  ++ (ctx.files.mapIdx (validateFileRole ctx)).flatten

/-- `generator_validate_model`. -/
def generatorValidateModel (ctx : Generator) : Generator :=
  let ctx := validateTypes (resolvePicks ctx)
  { ctx with errors := ctx.errors ++ modelErrors ctx }

/-! ## Runs of the generator -/

/-- A file: its path and its text. -/
abbrev File := Bytes × Bytes

/-- The loop of `run_generator` over the files. -/
def parseFiles (strtold : Strtold) (files : List File) : Generator :=
  files.foldl (fun ctx file =>
    generatorParseSource strtold (generatorBeginFile ctx file.1) file.2) {}

/-- `run_generator`, up to the check of `ctx.errors`. -/
def runGenerator (strtold : Strtold) (files : List File) : Generator :=
  generatorValidateModel (parseFiles strtold files)

end GeneratorValidate
