import Gargantua.GeneratorSource

/-! # Type descriptors at run time (`src/runtime/runtime.c`, `src/core/nullable.c`)

    A `TypeInfo` describes a struct: its fields with their kinds, offsets and
    sizes, and for a nested object a pointer to its own descriptor.  Nothing a
    program hands over is trusted: `type_valid` walks the descriptor and every
    nested one before it is used, and counts them on the way. -/

namespace RuntimeTypes

open CString RouteGenerator GeneratorText GeneratorSource

/-- `RUNTIME_MAX_FIELDS`, `RUNTIME_MAX_TYPES`, `RUNTIME_MAX_TEXT` and `NEST_DEPTH_MAX`. -/
abbrev RUNTIME_MAX_FIELDS : Nat := 64
abbrev RUNTIME_MAX_TYPES : Nat := 4096
abbrev RUNTIME_MAX_TEXT : Nat := 1024 * 1024
abbrev NEST_DEPTH_MAX : Nat := 8

/-- `FieldRules`: the rules that apply, and their bounds. -/
structure FieldRules where
  flags : Validation := {}
  min : LongDouble := .finite 0
  max : LongDouble := .finite 0
  sizeMin : Nat := 0
  sizeMax : Nat := 0
  minInt : Int := 0
  maxInt : Int := 0
  deriving Repr, DecidableEq

/-- `FieldInfo`.  A pointer is an address, `none` being `NULL`. -/
structure FieldInfo where
  name : Bytes
  kind : FieldKind
  offset : Nat
  size : Nat
  flags : FieldFlags := {}
  nested : Option Nat := none
  references : Option Bytes := none
  referenceKey : Option Bytes := none
  rules : FieldRules := {}
  deriving Repr, DecidableEq

/-- `TypeInfo`. -/
structure TypeInfo where
  name : Bytes
  size : Nat
  fields : List FieldInfo
  deriving Repr, DecidableEq

/-- The descriptors of a program, by address. -/
abbrev Descriptors := Nat → Option TypeInfo

/-- The descriptor that a pointer points to. -/
def deref (ds : Descriptors) (type : Option Nat) : Option TypeInfo := type.bind ds

/-- What the platform decides: `sizeof` of the type of a field, on its own and
    wrapped as `Nullable_T`.  No type is empty. -/
structure Abi where
  sizeOf : FieldKind → Nat
  sizeOfNullable : FieldKind → Nat
  sizeOf_pos : ∀ kind, 0 < sizeOf kind
  sizeOfNullable_pos : ∀ kind, 0 < sizeOfNullable kind

/-- `field_storage_size`. -/
def fieldStorageSize (abi : Abi) (kind : FieldKind) (nullable : Bool) : Nat :=
  match kind with
  | .int => if nullable then abi.sizeOfNullable .int else abi.sizeOf .int
  | .long => if nullable then abi.sizeOfNullable .long else abi.sizeOf .long
  | .double => if nullable then abi.sizeOfNullable .double else abi.sizeOf .double
  | .bool => if nullable then abi.sizeOfNullable .bool else abi.sizeOf .bool
  | .str => if nullable then 0 else abi.sizeOf .str
  | .object => 0

/-- `is_safe_identifier`, as the runtime has it. -/
def isSafeIdentifier (name : Bytes) : Bool :=
  (isAlpha (name.headD 0) || name.headD 0 == 0x5F)
    && (name.tail.all fun c => isAlnum c || c == 0x5F) && name.length < RUNTIME_MAX_TEXT

/-- The checks of a descriptor on its own. -/
def headerValid (type : TypeInfo) : Bool :=
  isSafeIdentifier type.name && type.fields.length != 0
    && type.fields.length ≤ RUNTIME_MAX_FIELDS && type.size != 0

/-- The checks of a field that should take `expected` bytes. -/
def fieldFits (type : TypeInfo) (field : FieldInfo) (expected : Nat) : Bool :=
  isSafeIdentifier field.name && expected != 0 && field.size == expected
    && field.offset ≤ type.size && expected ≤ type.size - field.offset

/-- The loop of `type_valid_nested` over the fields, with the call for a nested
    descriptor: what is left of `remaining`. -/
def fieldsValid (abi : Abi) (ds : Descriptors) (nestedValid : Option Nat → Nat → Option Nat)
    (type : TypeInfo) : List FieldInfo → Nat → Option Nat
  | [], remaining => some remaining
  | field :: fields, remaining =>
      if field.kind = .object then
        match nestedValid field.nested remaining with
        | none => none
        | some remaining =>
            if fieldFits type field ((deref ds field.nested).elim 0 (·.size)) then
              fieldsValid abi ds nestedValid type fields remaining
            else none
      else if fieldFits type field (fieldStorageSize abi field.kind field.flags.nullable) then
        fieldsValid abi ds nestedValid type fields remaining
      else none

/-- `type_valid_nested`, with `NEST_DEPTH_MAX - depth` levels to go: what is left
    of `remaining`. -/
def typeValidNested (abi : Abi) (ds : Descriptors) : Nat → Option Nat → Nat → Option Nat
  | 0, _, _ => none
  | _ + 1, _, 0 => none
  | levels + 1, type, remaining + 1 =>
      match deref ds type with
      | none => none
      | some info =>
          if headerValid info then
            fieldsValid abi ds (typeValidNested abi ds levels) info info.fields remaining
          else none

/-- `type_valid`. -/
def typeValid (abi : Abi) (ds : Descriptors) (type : Option Nat) : Bool :=
  (typeValidNested abi ds NEST_DEPTH_MAX type RUNTIME_MAX_TYPES).isSome

end RuntimeTypes
