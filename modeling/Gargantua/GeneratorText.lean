import Mathlib.Algebra.Order.Ring.Rat
import Mathlib.Data.List.SplitOn
import Gargantua.RouteGenerator

/-! # The text of a source file (`src/generator/generator_text.c`, `generator_parse.c`)

    The words of a line, the comments in it, and the signature of a function.
    Numbers are read by the C library: `strtol` is written out, and `strtold`
    is a parameter of what uses it, since the platform decides what a
    `long double` is. -/

namespace GeneratorText

open CString RouteGenerator
open RouteRuntime (backslash)

/-- `GENERATOR_MAX_TOKENS`, `GENERATOR_MAX_CONTENT_TYPE`. -/
abbrev GENERATOR_MAX_TOKENS : Nat := 8
abbrev GENERATOR_MAX_CONTENT_TYPE : Nat := 64

/-! ## Numbers -/

/-- `LONG_MIN` and `LONG_MAX`, `INT_MIN` and `INT_MAX`. -/
abbrev LONG_MIN : Int := -9223372036854775808
abbrev LONG_MAX : Int := 9223372036854775807
abbrev INT_MIN : Int := -2147483648
abbrev INT_MAX : Int := 2147483647

/-- What a reader of numbers gives back: the value, the text behind it, whether
    there was a number (`end != text`) and whether `errno` is set. -/
structure Number (α : Type) where
  value : α
  rest : Bytes
  found : Bool
  errno : Bool
  deriving Repr, DecidableEq

def isDigit (c : Byte) : Bool := 0x30 ≤ c && c ≤ 0x39

/-- The value of decimal digits. -/
def decimal (digits : Bytes) : Nat := digits.foldl (fun n c => 10 * n + (c.toNat - 0x30)) 0

/-- The sign in front of a number. -/
def sign : Bytes → Bool × Bytes
  | 0x2D :: s => (true, s)
  | 0x2B :: s => (false, s)
  | s => (false, s)

/-- `strtol(text, &end, 10)`. -/
def strtol (text : Bytes) : Number Int :=
  let (negative, s) := sign (text.dropWhile isSpace)
  let digits := s.takeWhile isDigit
  let value : Int := if negative then -(decimal digits : Int) else decimal digits
  if digits = [] then ⟨0, text, false, false⟩
  else if value < LONG_MIN then ⟨LONG_MIN, s.dropWhile isDigit, true, true⟩
  else if value > LONG_MAX then ⟨LONG_MAX, s.dropWhile isDigit, true, true⟩
  else ⟨value, s.dropWhile isDigit, true, false⟩

/-- A `long double`: what is finite is a rational. -/
inductive LongDouble where
  | finite (q : Rat)
  | infinite (negative : Bool)
  | nan
  deriving Repr, DecidableEq

/-- `isfinite`. -/
def LongDouble.isFinite : LongDouble → Bool
  | .finite _ => true
  | _ => false

/-- `x < y`. -/
def LongDouble.lt : LongDouble → LongDouble → Bool
  | .finite x, .finite y => x < y
  | .finite _, .infinite negative => !negative
  | .infinite negative, .finite _ => negative
  | .infinite x, .infinite y => x && !y
  | _, _ => false

/-- `DBL_MAX`. -/
def DBL_MAX : Rat := 2 ^ 1024 - 2 ^ 971

/-- `strtold`, of the C library. -/
abbrev Strtold := Bytes → Number LongDouble

/-! ## Words -/

/-- `line_split_words`. -/
def lineSplitWords (line : Bytes) (max : Nat) : List Bytes :=
  ((line.splitOnP isSpace).filter (· ≠ [])).take max

/-- `FieldKind`. -/
inductive FieldKind where
  | int
  | long
  | double
  | bool
  | str
  | object
  deriving Repr, DecidableEq

/-- `field_kind_from_c_type`. -/
def fieldKindFromCType (cType : Bytes) : Option FieldKind :=
  if cType.length ≥ GENERATOR_MAX_NAME then none
  else if cType = lit "int" then some .int
  else if cType = lit "long" then some .long
  else if cType = lit "double" then some .double
  else if cType = lit "bool" then some .bool
  else if cType = lit "str" then some .str
  else none

/-- The flags of a field: bits 1, 2, 4 and 8. -/
structure FieldFlags where
  id : Bool := false
  notNull : Bool := false
  unique : Bool := false
  nullable : Bool := false
  deriving Repr, DecidableEq

/-- `|` on flags. -/
def FieldFlags.union (a b : FieldFlags) : FieldFlags where
  id := a.id || b.id
  notNull := a.notNull || b.notNull
  unique := a.unique || b.unique
  nullable := a.nullable || b.nullable

/-- `field_flag_from_word`. -/
def fieldFlagFromWord (word : Bytes) : Option FieldFlags :=
  if word.length ≥ GENERATOR_MAX_NAME then none
  else if word = lit "$id" then some { id := true }
  else if word = lit "$not_null" then some { notNull := true }
  else if word = lit "$unique" then some { unique := true }
  else none

/-- The flags of words that are all annotations. -/
def allFlags : List Bytes → Option FieldFlags
  | [] => some {}
  | word :: words =>
      match fieldFlagFromWord word, allFlags words with
      | some flag, some flags => some (flag.union flags)
      | _, _ => none

/-- `line_only_annotations`: the flags it adds. -/
def lineOnlyAnnotations (line : Bytes) : Option FieldFlags :=
  match lineSplitWords line GENERATOR_MAX_TOKENS with
  | [] => none
  | words => allFlags words

/-! ## Comments -/

/-- `strip_comments`, inside a literal or not, and inside a block comment or
    not. -/
def stripComments : Option Byte → Bool → Bytes → Bytes × Bool
  | _, block, [] => ([], block)
  | _, true, c :: line =>
      match c, line with
      | 0x2A, 0x2F :: line => stripComments none false line
      | _, line => stripComments none true line
  | some quote, false, c :: line =>
      if c = backslash then
        match line with
        | [] => ([c], false)
        | d :: line =>
            let r := stripComments (some quote) false line
            (c :: d :: r.1, r.2)
      else
        let r := stripComments (if c = quote then none else some quote) false line
        (c :: r.1, r.2)
  | none, false, c :: line =>
      match c, line with
      | 0x2F, 0x2F :: _ => ([], false)
      | 0x2F, 0x2A :: line =>
          let r := stripComments none true line
          (0x20 :: r.1, r.2)
      | c, line =>
          let r := stripComments (if c = 0x27 ∨ c = 0x22 then some c else none) false line
          (c :: r.1, r.2)

/-! ## Signatures -/

/-- A character of a name. -/
def isWordChar (c : Byte) : Bool := isAlnum c || c == 0x5F

/-- The line starts with `$list(` or `$page(`. -/
def startsCollection (line : Bytes) : Bool :=
  (lit "$list(").isPrefixOf line || (lit "$page(").isPrefixOf line

/-- What stands before the first `c`, and what stands behind it. -/
def splitAt (c : Byte) (s : Bytes) : Option (Bytes × Bytes) :=
  match s.dropWhile (· != c) with
  | [] => none
  | _ :: rest => some (s.takeWhile (· != c), rest)

/-- `signature_open_paren`: the line before the parenthesis and behind it. -/
def signatureOpenParen (line : Bytes) : Option (Bytes × Bytes) :=
  if startsCollection line then
    match splitAt 0x29 line with
    | none => none
    | some (pre, start) =>
        (splitAt 0x28 start).map fun r => (pre ++ 0x29 :: r.1, r.2)
  else splitAt 0x28 line

/-- `extract_function_name`, with room for `GENERATOR_MAX_NAME`. -/
def extractFunctionName (line : Bytes) : Option Bytes :=
  match signatureOpenParen line with
  | none => none
  | some (head, _) =>
      let name := (head.rdropWhile isSpace).rtakeWhile isWordChar
      if name.length = 0 ∨ name.length ≥ GENERATOR_MAX_NAME then none
      else if isSafeIdentifier name then some name
      else none

/-- `extract_return_type`, with room for `GENERATOR_MAX_NAME`. -/
def extractReturnType (line : Bytes) : Option Bytes :=
  match signatureOpenParen line with
  | none => none
  | some (head, _) =>
      let work := (head.rdropWhile isSpace).rdropWhile isWordChar
      if work.length ≥ GENERATOR_MAX_LINE then none
      else
        let type := lineTrim work
        if type = [] ∨ type.length ≥ GENERATOR_MAX_NAME then none
        else if (0x2A : Byte) ∈ type then none
        else some type

/-- `signature_inner`. -/
def signatureInner (line : Bytes) : Option Bytes :=
  match signatureOpenParen line with
  | none => none
  | some (_, behind) =>
      if (0x29 : Byte) ∈ behind then
        let inner := (behind.rdropWhile (· != 0x29)).dropLast
        if inner.length ≥ GENERATOR_MAX_LINE then none else some inner
      else none

/-- The line ends with its last `)`. -/
def endsWithClose (line : Bytes) : Bool := line.getLast? == some 0x29

/-- `param_type_allowed`. -/
def paramTypeAllowed (type : Bytes) (service : Bool) : Bool :=
  type = lit "int" ∨ type = lit "str"
    ∨ (service ∧ (type = lit "long" ∨ type = lit "double" ∨ type = lit "bool"))
    ∨ isSafeIdentifier type

/-- `take_param`, behind the parameters `prior`. -/
def takeParam (prior : List ParsedParam) (text : Bytes) (service : Bool) :
    Checked ParsedParam :=
  match lineSplitWords (lineTrim text) GENERATOR_MAX_TOKENS with
  | [type, name] =>
      if paramTypeAllowed type service = false ∨ isSafeIdentifier name = false then
        report (lit "parameter type and name must be safe identifiers")
      else if name ∈ prior.map (·.name) then
        report (lit "parameter '" ++ name ++ lit "' is declared twice")
      else
        .ok {
          type := type
          name := name
          isBody := ¬ (type = lit "int" ∨ type = lit "str")
          isQuery := false
          pathSlot := 0 }
  | _ => report (lit "the parameter must be 'type name'")

/-- The loop of `extract_params`, with the rounds left. -/
def paramsLoop (service : Bool) : Nat → List ParsedParam → Bytes → Checked (List ParsedParam)
  | 0, _, _ =>
      report (lit "too many parameters (limit " ++ lit (toString GENERATOR_MAX_PARAMS) ++ lit ")")
  | n + 1, params, save =>
      match splitAt 0x2C save with
      | none =>
          match takeParam params save service with
          | .error e => .error e
          | .ok param => .ok (params ++ [param])
      | some (text, rest) =>
          match takeParam params text service with
          | .error e => .error e
          | .ok param => paramsLoop service n (params ++ [param]) rest

/-- `extract_params`. -/
def extractParams (line : Bytes) (service : Bool) : Checked (List ParsedParam) :=
  match signatureInner line with
  | none => .error none
  | some inner =>
      let body := lineTrim inner
      if body = [] ∨ body = lit "void" then .ok []
      else paramsLoop service GENERATOR_MAX_PARAMS [] body

/-- `parse_collection_return`: the type, and `1` for a list, `2` for a page. -/
def parseCollectionReturn (returnType : Bytes) : Checked (Bytes × Nat) :=
  if startsCollection returnType = false then .ok (returnType, 0)
  else if returnType.length < 8 ∨ returnType.getLast? ≠ some 0x29 then
    report (lit "use $list(Type) or $page(Type)")
  else
    let name := (returnType.drop 6).dropLast
    if isSafeIdentifier name = false then report (lit "invalid collection type")
    else .ok (name, if returnType.getD 1 0 = 0x6C then 1 else 2)

/-- `parse_table_name`. -/
def parseTableName (line : Bytes) : Checked Bytes :=
  if ¬ (lit "$table(").isPrefixOf line ∧ ¬ (lit "$json").isPrefixOf line then
    report (lit "write $table(Name)")
  else
    match splitAt 0x28 line with
    | none =>
        -- `open` is NULL and the search behind it undefined: such a file is not accepted
        report (lit "write $table(Name)")
    | some (_, behind) =>
        match splitAt 0x29 behind with
        | some (inner, []) =>
            if inner.length = 0 ∨ inner.length ≥ GENERATOR_MAX_NAME then
              report (lit "the table name is missing or too long")
            else
              let name := if lineTrim inner = [] then inner else lineTrim inner
              if isSafeIdentifier name = false then
                report (lit "table name '" ++ name ++ lit "' is not a valid C identifier")
              else .ok name
        | _ => report (lit "write $table(Name), with no other text")

end GeneratorText
