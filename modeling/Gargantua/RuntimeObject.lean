import Gargantua.Lib.Memory
import Gargantua.GeneratorEmit
import Gargantua.RuntimeError

/-! # Objects at run time (`src/core/nullable.c`, `src/runtime/runtime_ddl.c`)

    An object is a struct that a descriptor describes.  Fields are read and
    written through their offset in it, a nullable field as a flag with a value
    behind it; `validate_struct` checks every field of an object against its
    rules, and the objects in it. -/

namespace RuntimeObject

open CString RouteGenerator GeneratorText GeneratorSource GeneratorEmit RuntimeTypes RuntimeError
  Memory

/-! ## Values -/

/-- A string pointer that is not `NULL`: into the text of the body, or to a
    string elsewhere. -/
inductive Ptr where
  | body (start : Nat)
  | elsewhere (text : Bytes)
  deriving DecidableEq

/-- The C string at a pointer, `json` being the text of the body. -/
def Ptr.text (json : Bytes) : Ptr → Bytes
  | .body start => cstr (json.drop start)
  | .elsewhere text => cstr text

/-- A value that a field stores.  A `double` is what it is as a `long double`. -/
inductive Scalar where
  | int (n : Int)
  | long (n : Int)
  | double (x : LongDouble)
  | bool (b : Bool)
  | str (p : Ptr)
  deriving DecidableEq

abbrev Object := Mem Scalar

/-- Where a C compiler puts the value in `Nullable_T`: behind the flag. -/
structure NullableLayout (abi : Abi) where
  valueOffset : FieldKind → Nat
  behind : ∀ kind, kind ≠ .str → kind ≠ .object → abi.sizeOf .bool ≤ valueOffset kind
  inside : ∀ kind, kind ≠ .str → kind ≠ .object →
    valueOffset kind + abi.sizeOf kind ≤ abi.sizeOfNullable kind

section Access

variable {abi : Abi} (nl : NullableLayout abi)

/-- `value_offset`. -/
def valueOffset : FieldKind → Nat
  | .int => nl.valueOffset .int
  | .long => nl.valueOffset .long
  | .double => nl.valueOffset .double
  | .bool => nl.valueOffset .bool
  | .str => 0
  | .object => 0

/-- `field_scalar`. -/
def fieldScalar (field : FieldInfo) : FieldInfo :=
  if field.flags.nullable then
    { field with
      offset := ushort (field.offset + valueOffset nl field.kind)
      flags := { field.flags with nullable := false }
      size := ushort (fieldStorageSize abi field.kind false) }
  else field

end Access

/-! Bytes that are not those of one value of the type have no meaning in C; they
are read as zero here. -/

section Read

variable (abi : Abi) (obj : Object) (offset : Nat)

/-- `read_int`. -/
def readInt : Int :=
  match load obj offset (abi.sizeOf .int) with
  | .value (.int n) => n
  | _ => 0

/-- `read_long`. -/
def readLong : Int :=
  match load obj offset (abi.sizeOf .long) with
  | .value (.long n) => n
  | _ => 0

/-- `read_double`. -/
def readDouble : LongDouble :=
  match load obj offset (abi.sizeOf .double) with
  | .value (.double x) => x
  | _ => .finite 0

/-- `read_bool`. -/
def readBool : Bool :=
  match load obj offset (abi.sizeOf .bool) with
  | .value (.bool b) => b
  | _ => false

/-- `read_str`, `none` being `NULL`. -/
def readStr : Option Ptr :=
  match load obj offset (abi.sizeOf .str) with
  | .value (.str p) => some p
  | _ => none

end Read

/-! `base` is where the object of a field starts in the whole object. -/

/-- `field_is_null`. -/
def fieldIsNull (abi : Abi) (field : FieldInfo) (obj : Object) (base : Nat) : Bool :=
  if field.flags.nullable then !readBool abi obj (base + field.offset)
  else if field.kind = .str then (readStr abi obj (base + field.offset)).isNone
  else false

/-- `field_set_present`. -/
def fieldSetPresent (abi : Abi) (field : FieldInfo) (obj : Object) (base : Nat) : Object :=
  if field.flags.nullable then
    store obj (base + field.offset) (abi.sizeOf .bool) (.bool true)
  else obj

/-! ## Rules -/

/-- The characters of the local part, besides letters and digits.  `strchr` also
    finds its terminator. -/
def emailPunctuation : Bytes := lit ".!#$%&'*+-/=?^_\x60\x7b|\x7d~"

/-- The loop over the local part, in front of the `@`. -/
def localPartValid : Bytes → Bool
  | [] => true
  | c :: p =>
      if !(isAlnum c || strchr emailPunctuation c) then false
      else if c == 0x2E && p.head? == some 0x2E then false
      else localPartValid p

/-- The loop over the domain: the character before, the length of the label so
    far and whether there was a dot; at the end, what the last line asks. -/
def domainValid : Byte → Nat → Bool → Bytes → Bool
  | last, label, dot, [] => dot && label != 0 && last != 0x2D
  | last, label, dot, c :: domain =>
      if c = 0x2E then
        if label = 0 || last == 0x2D then false else domainValid c 0 true domain
      else if !(isAlnum c || c == 0x2D) || (label = 0 && c == 0x2D) || label + 1 > 63 then false
      else domainValid c (label + 1) dot domain

/-- `email_valid`. -/
def emailValid (text : Bytes) : Bool :=
  if text.length > 254 then false
  else
    let local_ := text.takeWhile (· != 0x40)
    let domain := (text.dropWhile (· != 0x40)).tail
    if !text.contains 0x40 || local_ == [] || local_.length > 64 || domain.contains 0x40 then
      false
    else if local_.head? == some 0x2E || local_.getLast? == some 0x2E then false
    else localPartValid local_ && domainValid 0 0 false domain

/-- The Unicode code points that the size rule counts. -/
def codePoints (text : Bytes) : Nat :=
  ((text.take RUNTIME_MAX_TEXT).filter fun c => c &&& 0xC0 != 0x80).length

/-- The bounds of `$min` and `$max` on an integer: the code and the message of
    the error. -/
def integerRules (r : FieldRules) (value : Int) : Option (Bytes × Bytes) :=
  if r.flags.min && value < r.minInt then
    some (lit "min", lit "must be at least " ++ lit (toString r.minInt))
  else if r.flags.max && value > r.maxInt then
    some (lit "max", lit "must not exceed " ++ lit (toString r.maxInt))
  else none

section Validate

/-! How the C library prints a bound (`%.21Lg`) only shows in a message. -/

variable (abi : Abi) (nl : NullableLayout abi) (printLg : LongDouble → Bytes)

/-- The bounds of `$min` and `$max` on a `long double`. -/
def floatRules (r : FieldRules) (value : LongDouble) : Option (Bytes × Bytes) :=
  if !value.isFinite || (r.flags.min && value.lt r.min) then
    some (lit "min", lit "must be at least " ++ printLg r.min)
  else if r.flags.max && r.max.lt value then
    some (lit "max", lit "must not exceed " ++ printLg r.max)
  else none

/-- The rules of a string. -/
def stringRules (r : FieldRules) (text : Bytes) : Option (Bytes × Bytes) :=
  if r.flags.size && (codePoints text < r.sizeMin || codePoints text > r.sizeMax) then
    some (lit "size", lit "length must be between " ++ lit (toString r.sizeMin) ++ lit " and "
      ++ lit (toString r.sizeMax) ++ lit " Unicode code points")
  else if r.flags.email && !emailValid text then
    some (lit "email", lit "must be a valid email address")
  else none

/-- The error of a field that must not be null. -/
def notNull (field : FieldInfo) : Option (Bytes × Bytes) :=
  if field.flags.notNull then some (lit "not_null", lit "must not be null") else none

/-- `field_validate`: the code and the message of the error, if there is one. -/
def fieldCheck (json : Bytes) (field : FieldInfo) (obj : Object) (base : Nat) :
    Option (Bytes × Bytes) :=
  if fieldIsNull abi field obj base then notNull field
  else
    let f := fieldScalar nl field
    let r := f.rules
    match f.kind with
    | .str =>
        match readStr abi obj (base + f.offset) with
        | none => notNull f
        | some p => stringRules r (p.text json)
    | .int =>
        if r.flags.min || r.flags.max then integerRules r (readInt abi obj (base + f.offset))
        else none
    | .long =>
        if r.flags.min || r.flags.max then integerRules r (readLong abi obj (base + f.offset))
        else none
    | .double =>
        if r.flags.min || r.flags.max then
          floatRules printLg r (readDouble abi obj (base + f.offset))
        else none
    | .bool => if r.flags.min || r.flags.max then floatRules printLg r (.finite 0) else none
    | .object => if r.flags.min || r.flags.max then floatRules printLg r (.finite 0) else none

/-- `field_validate`: whether it fails, and the failure of the request. -/
def fieldValidate (json : Bytes) (field : FieldInfo) (obj : Object) (base : Nat) (path : Bytes)
    (fail : Failure) : Bool × Failure :=
  match fieldCheck abi nl printLg json field obj base with
  | none => (false, fail)
  | some (code, message) => (true, fieldErrorAdd fail path code message)

/-- `%s%s%s` of a path, a dot and a name. -/
def joinPath (path name : Bytes) : Bytes :=
  path ++ (if path = [] then [] else lit ".") ++ name

variable (ds : Descriptors) (json : Bytes) (obj : Object)

/-- The loop of `validate_nested`, with the call for a nested object. -/
def validateFields (nested : Option Nat → Nat → Bytes → Failure → Bool × Failure) (base : Nat)
    (path : Bytes) : List FieldInfo → Bool → Failure → Bool × Failure
  | [], failed, fail => (failed, fail)
  | f :: fields, failed, fail =>
      let name := joinPath path f.name
      if name.length ≥ FIELD_PATH_LEN then (true, fail)
      else
        let result := if f.kind = .object then nested f.nested (base + f.offset) name fail
          else fieldValidate abi nl printLg json f obj base name fail
        validateFields nested base path fields (failed || result.1) result.2

/-- `validate_nested`, with `NEST_DEPTH_MAX - depth` levels to go: whether it
    fails.  The name of the last bad field is left out, nothing reads it. -/
def validateNested : Nat → Option Nat → Nat → Bytes → Failure → Bool × Failure
  | 0, _, _, _, fail => (true, fail)
  | levels + 1, type, base, path, fail =>
      match deref ds type with
      | none => (true, fail)
      | some info =>
          validateFields abi nl printLg json obj (validateNested levels) base path info.fields
            false fail

/-- `validate_struct`. -/
def validateStruct (type : Option Nat) (fail : Failure) : Bool × Failure :=
  if typeValid abi ds type then validateNested abi nl printLg ds json obj NEST_DEPTH_MAX type 0 [] fail
  else (true, fail)

end Validate

end RuntimeObject
