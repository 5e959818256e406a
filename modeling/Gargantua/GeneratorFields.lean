import Gargantua.GeneratorSource

/-! # The fields of a type (`src/generator/generator_source.c`, `generator_parse.c`)

    Between `{` and `};` a line is an annotation of the next field, a `$pick`,
    or the field itself.  Validation bounds are kept as text too, and read again
    as integers once the field says that it is one. -/

namespace GeneratorFields

open CString RouteGenerator GeneratorText GeneratorSource

/-- The type that is open, changed. -/
def Parser.onType (p : Parser) (change : ParsedType → ParsedType) : Parser :=
  match p.st.currentType with
  | none => p
  | some i => { p with ctx := { p.ctx with types := p.ctx.types.modify i change } }

/-- The type that is open. -/
def Parser.openType (p : Parser) : Option ParsedType :=
  p.st.currentType.bind fun i => p.ctx.types[i]?

/-! ## Annotations of fields -/

/-- The annotations that `rule_annotation` knows. -/
inductive Rule where
  | min
  | max
  | size
  | email
  deriving Repr, DecidableEq

/-- `validation & flag`. -/
def Validation.has (v : Validation) : Rule → Bool
  | .min => v.min
  | .max => v.max
  | .size => v.size
  | .email => v.email

/-- `validation | flag`. -/
def Validation.add (v : Validation) : Rule → Validation
  | .min => { v with min := true }
  | .max => { v with max := true }
  | .size => { v with size := true }
  | .email => { v with email := true }

/-- The rule of a line, and the text of its arguments. -/
def ruleOf (line : Bytes) : Option (Rule × Option Bytes) :=
  if (lit "$min(").isPrefixOf line then some (.min, some (line.drop 5))
  else if (lit "$max(").isPrefixOf line then some (.max, some (line.drop 5))
  else if (lit "$size(").isPrefixOf line then some (.size, some (line.drop 6))
  else if line = lit "$email" then some (.email, none)
  else none

section Numbers

variable (strtold : Strtold)

/-- The bound of `$min` or `$max`, kept as text: whether it is too long. -/
def keepArgument (rule : Rule) (text : Bytes) (rules : Rules) : Rules × Bool :=
  match rule with
  | .min => if text.length ≥ GENERATOR_MAX_NAME then (rules, true)
            else ({ rules with minArg := text }, false)
  | .max => if text.length ≥ GENERATOR_MAX_NAME then (rules, true)
            else ({ rules with maxArg := text }, false)
  | _ => (rules, false)

/-- An unsigned integer that `$size` accepts as a bound. -/
def sizeBound : LongDouble → Option Nat
  | .finite q => if 0 ≤ q ∧ q ≤ 1048576 ∧ q.den = 1 then some q.num.toNat else none
  | _ => none

/-- The second bound of `$size`: the rules, whether they are invalid, and the
    text behind. -/
def sizeArguments (value : LongDouble) (rest : Bytes) (invalid : Bool) (rules : Rules) :
    Rules × Bool × Bytes :=
  match rest with
  | 0x2C :: second =>
      let number := strtold second
      let bounds : Option (Nat × Nat) :=
        match sizeBound value, sizeBound number.value with
        | some min, some max => if max < min then none else some (min, max)
        | _, _ => none
      let invalid := invalid || number.errno || !number.found || bounds.isNone
      let rules :=
        match bounds with
        | some (min, max) => if invalid then rules else { rules with sizeMin := min, sizeMax := max }
        | none => rules
      (rules, invalid, skipBlanks number.rest)
  | rest => (rules, true, rest)

/-- The arguments of a rule: the rules with them, and whether they are invalid. -/
def ruleArguments (rule : Rule) (args : Bytes) (invalid : Bool) (rules : Rules) : Rules × Bool :=
  let number := strtold args
  let invalid := invalid || number.errno || !number.found || !number.value.isFinite
  let (rules, tooLong) := keepArgument rule (args.take (args.length - number.rest.length)) rules
  let invalid := invalid || tooLong
  let rest := skipBlanks number.rest
  let (rules, invalid, rest) :=
    match rule with
    | .size => sizeArguments strtold number.value rest invalid rules
    | .min => ({ rules with min := number.value }, invalid, rest)
    | _ => ({ rules with max := number.value }, invalid, rest)
  (rules, invalid || rest != [0x29])

/-- What a line of a rule makes of the rules, and whether it is refused. -/
def takeRule (rule : Rule) (args : Option Bytes) (rules : Rules) : Rules × Bool :=
  let duplicate := Validation.has rules.validation rule
  match args with
  | none => (rules, duplicate)
  | some args => ruleArguments strtold rule args duplicate rules

/-- `rule_annotation`. -/
def ruleAnnotation (p : Parser) (line : Bytes) : Option Parser :=
  match ruleOf line with
  | none => none
  | some (rule, args) =>
      match takeRule strtold rule args p.st.rules with
      | (rules, true) =>
          let p := { p with st := { p.st with rules := rules } }
          some (p.error (lit "invalid or duplicate validation annotation: " ++ line))
      | (rules, false) =>
          let validation := Validation.add rules.validation rule
          some { p with st := { p.st with rules := { rules with validation := validation } } }

end Numbers

/-- The target of a `$references` line. -/
def referenceTarget (line : Bytes) : Bytes := (line.drop 12).dropLast

/-- `parse_references_annotation`. -/
def parseReferencesAnnotation (p : Parser) (line : Bytes) : Option Parser :=
  if (lit "$references(").isPrefixOf line = false then none
  else if line.length < 14 ∨ line.getLast? ≠ some 0x29
      ∨ line.length - 13 ≥ GENERATOR_MAX_NAME ∨ p.st.pendingReferences ≠ [] then
    some (p.error (lit "use one $references(Table) before an int field"))
  else if isSafeIdentifier (referenceTarget line) = false then
    some (p.error (lit "invalid reference target"))
  else some { p with st := { p.st with pendingReferences := referenceTarget line } }

/-- The text up to a comma, and what is behind the comma. -/
def pickText (cursor : Bytes) : Bytes × Option Bytes :=
  match splitAt 0x2C cursor with
  | none => (cursor, none)
  | some (text, rest) => (text, some rest)

/-- The fields of the type that is open. -/
def openFields (p : Parser) : List ParsedField := (Parser.openType p).elim [] (·.fields)

/-- One name of `$pick`: the table, which is the `first`, or a field. -/
def pickName (p : Parser) (first : Bool) (name : Bytes) : Except Bytes Parser :=
  if name.length ≥ GENERATOR_MAX_NAME ∨ isSafeIdentifier name = false then
    .error (lit "$pick requires plain table and field names")
  else if first then
    .ok (Parser.onType p fun type => { type with sourceType := name })
  else if name ∈ (openFields p).map (·.name) then
    .error (lit "$pick repeats field '" ++ name ++ lit "'")
  else
    .ok (Parser.onType p fun type =>
      { type with fields := type.fields ++ [{ name := name }], pickCount := type.pickCount + 1 })

/-- The loop of `parse_pick`, with the rounds left. -/
def pickLoop : Nat → Bool → Bytes → Parser → Parser
  | 0, _, _, p => p.error (lit "$pick exceeds the field limit")
  | n + 1, first, cursor, p =>
      match pickName p first (lineTrim (pickText cursor).1) with
      | .error message => p.error message
      | .ok p =>
          match (pickText cursor).2 with
          | some rest => pickLoop n false rest p
          | none =>
              if (Parser.openType p).elim 0 (·.pickCount) = 0 then
                p.error (lit "$pick needs at least one field")
              else p

/-- A `$pick` is allowed: it comes first in a `$json` type. -/
def pickReady (p : Parser) (line : Bytes) : Bool :=
  match Parser.openType p with
  | none => false
  | some type =>
      type.jsonOnly ∧ type.fields = [] ∧ p.st.pending = {} ∧ p.st.rules.validation = {}
        ∧ p.st.pendingReferences = [] ∧ line.length ≥ 9 ∧ line.getLast? = some 0x29

/-- `parse_pick`. -/
def parsePick (p : Parser) (line : Bytes) : Option Parser :=
  if (lit "$pick(").isPrefixOf line = false then none
  else if pickReady p line then
    some (pickLoop (GENERATOR_MAX_FIELDS + 1) true (line.drop 6).dropLast p)
  else some (p.error (lit "write one $pick(Table, field, ...) first inside $json"))

/-! ## Fields -/

/-- The annotations in front of a field, and the words behind them. -/
def leadingFlags : List Bytes → FieldFlags × List Bytes
  | [] => ({}, [])
  | word :: words =>
      match fieldFlagFromWord word with
      | none => ({}, word :: words)
      | some flag => (flag.union (leadingFlags words).1, (leadingFlags words).2)

/-- The type that `$nullable(...)` holds; `none` when it is not closed. -/
def nullableType (word : Bytes) : Option Bytes :=
  if word.length < 12 ∨ word.getLast? ≠ some 0x29 then none else some (word.drop 10).dropLast

/-- The field of a type and a name. -/
def fieldOf (flags : FieldFlags) (type name : Bytes) : Checked ParsedField :=
  let kind : Checked FieldKind :=
    match fieldKindFromCType type with
    | some kind => .ok kind
    | none =>
        if isSafeIdentifier type = false then
          report (lit "invalid field type '" ++ type ++ lit "'")
        else .ok .object
  match kind with
  | .error e => .error e
  | .ok kind =>
      if isSafeIdentifier name = false then
        report (lit "field '" ++ name ++ lit "' must be a plain, safe C identifier")
      else .ok { name := name, cType := type, kind := some kind, flags := flags }

/-- `parse_field`: no field for a line without words. -/
def parseField (line : Bytes) : Checked (Option ParsedField) :=
  match lineSplitWords line GENERATOR_MAX_TOKENS with
  | [] => .ok none
  | words =>
      match leadingFlags words with
      | (flags, [type, name]) =>
          if type.length ≥ GENERATOR_MAX_NAME ∨ name.length ≥ GENERATOR_MAX_NAME then
            report (lit "field type or name is too long")
          else if (lit "$nullable(").isPrefixOf type then
            match nullableType type with
            | none => .error none
            | some type =>
                if type ≠ lit "int" ∧ type ≠ lit "long" ∧ type ≠ lit "double"
                    ∧ type ≠ lit "bool" then
                  report (lit "$nullable supports int, long, double, bool")
                else (fieldOf { flags with nullable := true } type name).map some
          else (fieldOf flags type name).map some
      | _ => report (lit "could not parse the field. Expected 'type name;'")

/-- `apply_pending_rules`: the field. -/
def applyPendingRules (st : ParseState) (f : ParsedField) : ParsedField :=
  { f with flags := f.flags.union st.pending, rules := st.rules }

/-- `check_integral_bounds`, for one rule: the bound, and whether it is refused. -/
def integralBound (kind : Option FieldKind) (arg : Bytes) : Int × Bool :=
  let number := strtol arg
  (number.value, number.errno || !number.found || number.rest != []
    || (kind == some .int && (number.value < INT_MIN || number.value > INT_MAX)))

/-- `check_integral_bounds`: the bounds as integers, and the messages. -/
def checkIntegralBounds (kind : Option FieldKind) (rules : Rules) : Rules × List Bytes :=
  let v := rules.validation
  let min := integralBound kind rules.minArg
  let max := integralBound kind rules.maxArg
  let message := lit "integer validation needs a decimal integer within the field type range"
  ({ rules with
      minInt := if v.min then min.1 else rules.minInt
      maxInt := if v.max then max.1 else rules.maxInt },
    (if v.min ∧ min.2 then [message] else []) ++ (if v.max ∧ max.2 then [message] else [])
      ++ if v.min ∧ v.max ∧ min.1 > max.1 then [lit "Min exceeds Max"] else [])

/-- Outside the range of a `double`. -/
def beyondDouble (x : LongDouble) : Bool :=
  x.lt (.finite (-DBL_MAX)) || (LongDouble.finite DBL_MAX).lt x

/-- `check_validation`: the bounds as integers, and the messages. -/
def checkValidation (kind : Option FieldKind) (rules : Rules) : Rules × List Bytes :=
  let v := rules.validation
  let integral : Bool := kind = some .int ∨ kind = some .long
  let mismatch : List Bytes :=
    if ((v.min ∨ v.max) ∧ ¬ (integral ∨ kind = some .double))
        ∨ ((v.size ∨ v.email) ∧ kind ≠ some .str)
        ∨ (v.min ∧ v.max ∧ rules.max.lt rules.min) then
      [lit "validation does not match field type or Min exceeds Max"]
    else []
  if integral then
    let r := checkIntegralBounds kind rules
    (r.1, mismatch ++ r.2)
  else if (v.min ∧ beyondDouble rules.min) ∨ (v.max ∧ beyondDouble rules.max) then
    (rules, mismatch ++ [lit "validation bound is outside the field type range"])
  else (rules, mismatch)

/-- `field_conflicts`, with the fields in front: the message. -/
def fieldConflict (f : ParsedField) : List ParsedField → Option Bytes
  | [] => none
  | prev :: fields =>
      if prev.name = f.name then some (lit "field '" ++ f.name ++ lit "' is declared twice")
      else if prev.flags.id ∧ f.flags.id then some (lit "only one $id per table is allowed")
      else fieldConflict f fields

/-- `field_conflicts`. -/
def fieldConflicts (fields : List ParsedField) (f : ParsedField) : Option Bytes :=
  if f.flags.id ∧ (f.cType ≠ lit "int" ∨ f.flags.nullable) then
    some (lit "$id must be int for a safe auto-id")
  else fieldConflict f (fields.take GENERATOR_MAX_FIELDS)

/-- `field_line_ready`: the text of the field, if the line is one. -/
def fieldLineReady (p : Parser) (line : Bytes) : Parser × Option Bytes :=
  if line.getLast? ≠ some 0x3B then
    match lineOnlyAnnotations line with
    | some flags => ({ p with st := { p.st with pending := p.st.pending.union flags } }, none)
    | none => (p.error (lit "missing ';' at the end of the field"), none)
  else
    match Parser.openType p with
    | none => (p.error (lit "field outside a struct"), none)
    | some type =>
        if type.fields.length ≥ GENERATOR_MAX_FIELDS then
          let p := p.error (lit "too many fields" ++ limit GENERATOR_MAX_FIELDS)
          ({ p with st := { p.st with pending := {} } }, none)
        else (p, some line.dropLast)

/-- The field with everything that was pending for it. -/
def completeField (st : ParseState) (f : ParsedField) : ParsedField :=
  let f := applyPendingRules st f
  { f with
    rules := (checkValidation f.kind f.rules).1
    references := st.pendingReferences }

/-- The field that was parsed goes into the type that is open, unless it
    conflicts with the fields there. -/
def addField (p : Parser) (f : ParsedField) : Parser :=
  let p' := p.errors (checkValidation f.kind p.st.rules).2
  let p' := { p' with st := { p'.st with rules := {}, pendingReferences := [] } }
  match fieldConflicts (openFields p) (completeField p.st f) with
  | some message => p'.error message
  | none => Parser.onType p' fun type => { type with fields := type.fields ++ [completeField p.st f] }

/-- The text of a field line. -/
def takeField (p : Parser) (text : Bytes) : Parser :=
  match parseField text with
  | .error e => p.failed e
  | .ok none => p
  | .ok (some f) => addField p f

/-- `parse_type_body_line`. -/
def parseTypeBodyLine (strtold : Strtold) (p : Parser) (line : Bytes) : Parser :=
  match parsePick p line with
  | some p => p
  | none =>
  match ruleAnnotation strtold p line with
  | some p => p
  | none =>
  match parseReferencesAnnotation p line with
  | some p => p
  | none =>
  match fieldLineReady p line with
  | (p, none) => p
  | (p, some text) =>
      let p := takeField p text
      { p with st := { p.st with pending := {} } }

/-- The messages of `handle_close`. -/
def closeErrors (p : Parser) (line : Bytes) : List Bytes :=
  match Parser.openType p with
  | none => [lit "table closed without being opened"]
  | some type =>
      (if line ≠ lit "\x7d;" then [lit "close the table exactly with '\x7d;'"] else [])
      ++ (if p.st.pending ≠ ({} : FieldFlags) ∨ p.st.pendingReferences ≠ []
            ∨ p.st.rules.validation ≠ ({} : Validation) then
          [lit "field annotation with no field before '\x7d;'"]
        else [])
      ++ if type.fields = [] then [lit "the table has no fields"] else []

/-- `handle_close`. -/
def handleClose (p : Parser) (line : Bytes) : Parser :=
  let p := p.errors (closeErrors p line)
  { p with st := { p.st with inStruct := false, needOpen := false, currentType := none, pending := {} } }

end GeneratorFields
