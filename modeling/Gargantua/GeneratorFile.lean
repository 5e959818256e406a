import Gargantua.Lib.Runs
import Gargantua.GeneratorFields

/-! # A whole source file (`src/generator/generator_source.c`)

    `generator_parse_source` takes the physical lines one after another.  What a
    line hands on is decided first (`takeLine`: nothing while a signature is
    still open), and then the logical line is parsed. -/

namespace GeneratorFile

open CString RouteGenerator GeneratorText GeneratorSource GeneratorFields

/-- The end of `parse_top_level_line`, behind the dangling annotations. -/
def parseDeclaration (p : Parser) (line : Bytes) : Parser :=
  if p.st.pendingTransactional then parseService p line
  else
    match reportRemovedAnnotation p line with
    | some p => p
    | none =>
        if (lit "$table").isPrefixOf line ∨ (lit "$json").isPrefixOf line then openType p line
        else p

/-- `parse_top_level_line`. -/
def parseTopLevelLine (p : Parser) (line : Bytes) : Parser :=
  if line = [] then p
  else
    match parseTransactionalAnnotation p line with
    | some p => p
    | none =>
    match parseAuthAnnotation p line with
    | some p => p
    | none =>
    match parseProducesAnnotation p line with
    | some p => p
    | none =>
    if p.st.routeArmed then parseRoute p line
    else
    match parseStoreAnnotation p line with
    | some p => p
    | none =>
    match parseRepeatAnnotation p line with
    | some p => p
    | none =>
    if p.st.taskArmed then parseTask p line
    else
    match parseRouteAnnotation p line with
    | some p => p
    | none => parseDeclaration (dropDanglingAuth p) line

section Lines

variable (strtold : Strtold)

/-- `parse_source_line`. -/
def parseSourceLine (p : Parser) (line : Bytes) : Parser :=
  if p.st.inStruct = false then
    parseTopLevelLine (guardTransaction (collectFunction p line) line) line
  else if line = [] then p
  else if p.st.needOpen then
    let p := p.errors <|
      if line ≠ lit "\x7b" then [lit "after $table(...) expected '\x7b' on its own"] else []
    { p with st := { p.st with needOpen := false } }
  else if line.head? = some 0x7D then handleClose p line
  else parseTypeBodyLine strtold p line

/-- `signature_balance`. -/
def signatureBalance (text : Bytes) : Int := (text.count 0x28 : Int) - text.count 0x29

/-- The line may start a signature. -/
def candidate (st : ParseState) (line : Bytes) : Bool :=
  !st.inStruct && st.braceDepth == 0 && line.headD 0 != 0x23
    && (line.headD 0 != 0x24 || startsCollection line)
    && line.contains 0x28 && !line.contains 0x3D && !line.contains 0x3B && !line.contains 0x7B

/-- What `generator_parse_source` keeps between lines: the signature that is
    open, and the line it started in. -/
structure Reader where
  parser : Parser
  signature : Bytes := []
  signatureLine : Nat := 0
  deriving Repr, DecidableEq

/-- `generator_error`. -/
def Reader.error (r : Reader) (message : Bytes) : Reader :=
  { r with parser := r.parser.error message }

/-- A physical line: the reader behind it, and the logical line it completes with
    the number of that line. -/
def takeLine (r : Reader) (text : Bytes) : Reader × Option (Nat × Bytes) :=
  let st := { r.parser.st with lineno := r.parser.st.lineno + 1 }
  let r := { r with parser := { r.parser with st := st } }
  if text.length ≥ GENERATOR_MAX_LINE then
    (r.error (lit "line longer than " ++ lit (toString (GENERATOR_MAX_LINE - 1)) ++ lit " bytes"),
      none)
  else
    let (work, block) := stripComments none st.inBlockComment text
    let st := { st with inBlockComment := block }
    let r := { r with parser := { r.parser with st := st } }
    let line := lineTrim work
    if r.signature ≠ [] ∨ (candidate st line ∧ signatureBalance line > 0) then
      if line.length + 1 ≥ GENERATOR_MAX_LINE - r.signature.length then
        ({ r.error (lit "function signature exceeds " ++ lit (toString (GENERATOR_MAX_LINE - 1))
            ++ lit " bytes") with signature := [] }, none)
      else
        let r :=
          if r.signature = [] then { r with signature := line, signatureLine := st.lineno }
          else { r with signature := r.signature ++ 0x20 :: line }
        if signatureBalance r.signature > 0 then (r, none)
        else ({ r with signature := [] }, some (r.signatureLine, r.signature))
    else (r, some (st.lineno, line))

/-- The loop body of `generator_parse_source`. -/
def readLine (r : Reader) (text : Bytes) : Reader :=
  match takeLine r text with
  | (r, none) => r
  | (r, some (lineno, line)) =>
      let physical := r.parser.st.lineno
      let p := parseSourceLine strtold
        { r.parser with st := { r.parser.st with lineno := lineno } } line
      { r with parser := { p with st := { p.st with lineno := physical } } }

/-- The physical lines of a text. -/
def sourceLines (src : Bytes) : List Bytes :=
  let lines := src.splitOnP (· == 0x0A)
  if lines.getLast? = some [] then lines.dropLast else lines

/-- The messages of `report_unfinished`, each with its condition. -/
def unfinished (st : ParseState) (truncated : Bool) : List (Bool × Bytes) :=
  [(truncated,
      lit "the file exceeds " ++ lit (toString GENERATOR_MAX_LINES) ++ lit " lines"),
    (st.inBlockComment, lit "the block comment was not closed"),
    (st.routeArmed, lit "the handler signature after the route annotation is missing"),
    (st.pendingAuth || st.pendingPublic || st.pendingRole != [],
      lit "authentication annotation without endpoint"),
    (st.pendingProduces != [], lit "$produces is not followed by a route"),
    (st.taskArmed, lit "$repeat/$on_start is not followed by a function"),
    (st.pendingTransactional,
      lit "$transactional at the end of the file is not followed by a service or an endpoint"),
    (st.inStruct,
      if st.needOpen then lit "the table's '\x7b' is missing"
      else lit "the table was not closed with '\x7d;'")]

/-- `report_unfinished`. -/
def reportUnfinished (p : Parser) (truncated : Bool) : Parser :=
  p.errors (((unfinished p.st truncated).filter (·.1)).map (·.2))

/-- The reader behind all lines of a file. -/
def readLines (ctx : Generator) (src : Bytes) : Reader :=
  ((sourceLines src).take GENERATOR_MAX_LINES).foldl (readLine strtold) { parser := ⟨ctx, {}⟩ }

/-- `generator_parse_source`. -/
def generatorParseSource (ctx : Generator) (src : Bytes) : Generator :=
  if (0 : Byte) ∈ src then
    { ctx with errors := ctx.errors ++ [⟨0, lit "the file contains a NUL byte"⟩] }
  else
    let r := readLines strtold ctx src
    let p :=
      if r.signature ≠ [] then
        let error : GeneratorError := ⟨r.signatureLine, lit "unfinished function signature"⟩
        { r.parser with ctx := { r.parser.ctx with errors := r.parser.ctx.errors ++ [error] } }
      else r.parser
    (reportUnfinished p ((sourceLines src).length > GENERATOR_MAX_LINES)).ctx

/-- `generator_begin_file`, for a path that it accepts. -/
def generatorBeginFile (ctx : Generator) (path : Bytes) : Generator :=
  { ctx with files := ctx.files ++ [{ path := path }] }

end Lines

end GeneratorFile
