import Gargantua.ObjectFields
import Gargantua.Lib.Bounded
import Gargantua.Lib.Decimal
import Gargantua.Lib.Entities
import Gargantua.Lib.Placeholders

/-! # Rendering templates (`src/http/template.c`, `src/runtime/runtime_api.c`)

    A template is read from below `templates.root`.  `write_row` writes a part of it
    and puts a text for each `{{name}}`; the part between `{{#each}}` and
    `{{/each}}` is written once for each row, with the fields of the row.  All
    of it goes to one bounded writer, and a page that does not fit is a failure
    of the request. -/

namespace TemplateRender

open CString Decimal GeneratorText GeneratorSource RuntimeTypes RuntimeError RuntimeObject Memory

/-- `TEMPLATE_MAX_PATH`, `TEMPLATE_MAX_BYTES`, `TEMPLATE_MAX_OUT`, `TEMPLATE_MAX_VALUE`
    and the size of the buffer for a name. -/
abbrev TEMPLATE_MAX_PATH : Nat := 1024
abbrev TEMPLATE_MAX_BYTES : Nat := 128 * 1024
abbrev TEMPLATE_MAX_OUT : Nat := 256 * 1024
abbrev TEMPLATE_MAX_VALUE : Nat := 1024
abbrev KEY_SIZE : Nat := 64

/-- The delimiters. -/
abbrev OPEN : Bytes := [0x7B, 0x7B]
abbrev CLOSE : Bytes := [0x7D, 0x7D]
abbrev EACH_OPEN : Bytes := lit "\x7b\x7b#each\x7d\x7d"
abbrev EACH_CLOSE : Bytes := lit "\x7b\x7b/each\x7d\x7d"

/-! ## The template -/

/-- The loop of `find_bytes`, from where it stands. -/
def findLoop (needle : Bytes) : Bytes → Option Nat
  | [] => none
  | c :: haystack =>
      if needle <+: c :: haystack then some 0 else (findLoop needle haystack).map (· + 1)

/-- `find_bytes`: how far the needle is into the haystack. -/
def findBytes (haystack needle : Bytes) : Option Nat :=
  if needle.length = 0 ∨ haystack.length < needle.length then none else findLoop needle haystack

/-- The characters that `name_safe` lets pass. -/
def nameByte (c : Byte) : Bool :=
  RouteGenerator.isAlnum c || c == 0x2E || c == 0x5F || c == 0x2D

/-- The loop of `name_safe`. -/
def nameSafeLoop : Bytes → Bool
  | [] => true
  | c :: name => nameByte c && !(c == 0x2E && name.headD 0 == 0x2E) && nameSafeLoop name

/-- `name_safe`. -/
def nameSafe (name : Bytes) : Bool :=
  name.length != 0 && name.length ≤ 128 && nameSafeLoop name

/-- What `fopen`, `fstat` and `fread` find: the file's kind, its size, and what is read
    of it. -/
structure File where
  regular : Bool
  size : Nat
  content : Bytes
  deriving Repr, DecidableEq

/-- The file system, as `load_template` sees it. -/
structure Files where
  realpath : Bytes → Option Bytes
  fopen : Bytes → Option File

/-- `load_template`, `root` being `g_root`. -/
def loadTemplate (files : Files) (root name : Bytes) (cap : Nat) : Option Bytes :=
  if root = [] ∨ nameSafe name = false then none
  else
    let candidate := root ++ lit "/" ++ name
    if candidate.length ≥ TEMPLATE_MAX_PATH then none
    else
      match files.realpath candidate with
      | none => none
      | some resolved =>
          if resolved.take root.length ≠ root ∨ (resolved.drop root.length).headD 0 ≠ 0x2F then none
          else
            match files.fopen resolved with
            | none => none
            | some file =>
                if file.regular = false ∨ file.size ≥ cap then none
                else
                  let got := file.content.take file.size
                  if got.length ≠ file.size then none else some got

/-! ## The writer -/

/-- `Writer`: the text up to `used`. -/
structure Writer where
  out : Bytes
  cap : Nat
  overflow : Bool
  deriving Repr, DecidableEq

/-- `write_raw`. -/
def writeRaw (writer : Writer) (text : Bytes) : Writer :=
  if writer.overflow then writer
  else if text.length ≥ writer.cap - writer.out.length then { writer with overflow := true }
  else { writer with out := writer.out ++ text }

/-- What `write_escaped` writes for a character. -/
def escapedChar (c : Byte) : Bytes :=
  if c = 0x26 then lit "&amp;"
  else if c = 0x3C then lit "&lt;"
  else if c = 0x3E then lit "&gt;"
  else if c = 0x22 then lit "&quot;"
  else if c = 0x27 then lit "&#39;"
  else [c]

/-- `write_escaped`. -/
def writeEscaped (writer : Writer) : Bytes → Writer
  | [] => writer
  | c :: text =>
      if c ≠ 0 ∧ writer.overflow = false then writeEscaped (writeRaw writer (escapedChar c)) text
      else writer

/-! ## Rows -/

/-- The fields of `RowList` that are rendered. -/
structure RowList where
  type : Option TypeInfo
  items : Option Object
  count : Int

section Rows

variable {abi : Abi} (nl : NullableLayout abi) (json : Bytes) (printG17 : LongDouble → Bytes)

/-- `snprintf(out, cap, ..)` of a text, unless it is cut. -/
def printed (cap : Nat) (text : Bytes) : Option Bytes := if text.length ≥ cap then none else some text

/-- The loop of `field_text` over the fields: the text, unless it returns `-1`. -/
def fieldTextLoop (row : Object) (base : Nat) (name : Bytes) (cap : Nat) : List FieldInfo → Option Bytes
  | [] => none
  | field :: fields =>
      if field.name ≠ name then fieldTextLoop row base name cap fields
      else if fieldIsNull abi field row base then some []
      else
        let field := fieldScalar nl field
        let offset := base + field.offset
        match field.kind with
        | .str => printed cap ((readStr abi row offset).elim [] (Ptr.text json))
        | .int => printed cap (printInt (readInt abi row offset))
        | .long => printed cap (printInt (readLong abi row offset))
        | .double => printed cap (cstr (printG17 (readDouble abi row offset)))
        | .bool => printed cap (if readBool abi row offset then lit "true" else lit "false")
        | .object => none

/-- `field_text`, for a row at `base` of the objects. -/
def fieldText (type : Option TypeInfo) (row : Option (Object × Nat)) (name : Bytes) (cap : Nat) :
    Option Bytes :=
  match type, row with
  | some type, some (row, base) =>
      if cap = 0 then none else fieldTextLoop nl json printG17 row base name cap type.fields
  | _, _ => none

/-- `key`: what the buffer holds of a name. -/
def keyOf (name : Bytes) : Bytes := cstr (name.take (KEY_SIZE - 1))

/-- The branch of `write_row` that fills a placeholder. -/
def writeValue (writer : Writer) (type : Option TypeInfo) (row : Option (Object × Nat)) (index total : Int)
    (key : Bytes) : Writer :=
  if key = lit "index" then writeEscaped writer (printInt index)
  else if key = lit "count" then writeEscaped writer (printInt total)
  else
    match fieldText nl json printG17 type row key TEMPLATE_MAX_VALUE with
    | some value => writeEscaped writer value
    | none => writer

/-- The loop of `write_row` over what is left of the block. -/
def writeRowLoop (type : Option TypeInfo) (row : Option (Object × Nat)) (index total : Int) :
    Nat → Writer → Bytes → Writer
  | 0, writer, _ => writer
  | guard + 1, writer, block =>
      if block = [] ∨ writer.overflow = true then writer
      else
        match findBytes block OPEN with
        | none => writeRaw writer block
        | some at_ =>
            let writer := writeRaw writer (block.take at_)
            let opened := block.drop at_
            match findBytes opened CLOSE with
            | none => writeRaw writer opened
            | some close =>
                let name := (opened.drop 2).take (close - 2)
                let writer := writeValue nl json printG17 writer type row index total (keyOf name)
                writeRowLoop type row index total guard writer (opened.drop (close + 2))

/-- `write_row`. -/
def writeRow (writer : Writer) (block : Bytes) (type : Option TypeInfo) (row : Option (Object × Nat))
    (index total : Int) : Writer :=
  writeRowLoop nl json printG17 type row index total (block.length + 1) writer block

/-- `finish`. -/
def finish (writer : Writer) : Except Bytes Bytes :=
  if writer.overflow then .error (lit "rendered page exceeds the response limit")
  else .ok (cstr writer.out)

/-- The rows that the loop of `render_template` goes over. -/
def shownRows (rows : RowList) : List Nat :=
  if rows.type.isSome ∧ rows.items.isSome then List.range (min rows.count.toNat PAGE_MAX) else []

/-- A row of the list. -/
def rowAt (rows : RowList) (i : Nat) : Option (Object × Nat) :=
  rows.type.bind fun type => rows.items.map fun items => (items, i * type.size)

/-- `render_template` behind the template: the page. -/
def renderSource (source : Bytes) (rows : RowList) : Except Bytes Bytes :=
  let writer : Writer := ⟨[], TEMPLATE_MAX_OUT, false⟩
  let plain (writer : Writer) (part : Bytes) : Writer :=
    writeRow nl json printG17 writer part rows.type none 0 rows.count
  match findBytes source EACH_OPEN, findBytes source EACH_CLOSE with
  | some eachOpen, some eachClose =>
      if eachClose < eachOpen then finish (plain writer source)
      else
        let block := (source.drop (eachOpen + 9)).take (eachClose - (eachOpen + 9))
        let writer := plain writer (source.take eachOpen)
        let writer := (shownRows rows).foldl (fun writer i =>
          writeRow nl json printG17 writer block rows.type (rowAt rows i) i rows.count) writer
        finish (plain writer (source.drop (eachClose + 9)))
  | _, _ => finish (plain writer source)

/-- `render_template`: the page, or the message of `request_fail(500, ..)`.  `memory` is
    what `request_alloc` has. -/
def renderTemplate (files : Files) (root : Bytes) (memory : Bool) (name : Option Bytes) (rows : RowList) :
    Except Bytes Bytes :=
  match name with
  | none => .error (lit "template name missing")
  | some name =>
      match loadTemplate files root name TEMPLATE_MAX_BYTES with
      | none => .error (lit "template not found or too large")
      | some source =>
          if memory = false then .error (lit "request allocation failed")
          else renderSource nl json printG17 source rows

/-- The page and the failure of the request behind `render_template`. -/
def renderRequest (files : Files) (root : Bytes) (memory : Bool) (name : Option Bytes) (rows : RowList)
    (fail : Failure) : Bytes × Failure :=
  match renderTemplate nl json printG17 files root memory name rows with
  | .ok page => (page, fail)
  | .error message => ([], requestFail fail 500 (some message))

end Rows

end TemplateRender
