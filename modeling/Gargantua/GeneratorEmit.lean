import Gargantua.GeneratorValidate
import Gargantua.RuntimeTypes

/-! # The descriptors that are emitted (`src/generator/generator_emit.c`)

    For each type the generator writes a table of `FieldInfo` and a `TypeInfo`.
    Offsets and sizes are left to the C compiler (`offsetof`, `sizeof`), and
    static assertions say that they fit an `unsigned short`.  The address of a
    descriptor is the place of its type among the types. -/

namespace GeneratorEmit

open CString RouteGenerator GeneratorText GeneratorSource GeneratorValidate RuntimeTypes

/-- `USHRT_MAX`. -/
abbrev USHRT_MAX : Nat := 65535

/-- `(unsigned short)n`. -/
def ushort (n : Nat) : Nat := n % (USHRT_MAX + 1)

/-- `sizeof(((T *)0)->f)`, when `size` is that of the types. -/
def memberSize (abi : Abi) (types : List ParsedType) (size : Nat → Nat) (f : ParsedField) : Nat :=
  match f.kind with
  | none => 0
  | some .object => (typeIndex types f.cType).elim 0 size
  | some kind => fieldStorageSize abi kind f.flags.nullable

/-- How a C compiler lays out the structs: each has a size, and a member lies
    inside its struct.  Order and padding are the compiler's. -/
structure Layout (abi : Abi) (types : List ParsedType) where
  size : Nat → Nat
  offset : Nat → Nat → Nat
  size_pos : ∀ (i : Nat) (hi : i < types.length), types[i].fields ≠ [] → 0 < size i
  inside : ∀ (i : Nat) (hi : i < types.length) (j : Nat) (hj : j < types[i].fields.length),
    offset i j + memberSize abi types size types[i].fields[j] ≤ size i

section Types

variable {abi : Abi} {types : List ParsedType} (layout : Layout abi types)

/-- The static assertions of `emit_fields` hold for every type. -/
def SizesFit : Prop :=
  ∀ (i : Nat) (hi : i < types.length), layout.size i ≤ USHRT_MAX
    ∧ ∀ (j : Nat) (hj : j < types[i].fields.length), layout.offset i j ≤ USHRT_MAX
        ∧ memberSize abi types layout.size types[i].fields[j] ≤ USHRT_MAX

instance : Decidable (SizesFit layout) :=
  inferInstanceAs (Decidable (∀ (i : Nat) (hi : i < types.length), layout.size i ≤ USHRT_MAX
    ∧ ∀ (j : Nat) (hj : j < types[i].fields.length), layout.offset i j ≤ USHRT_MAX
        ∧ memberSize abi types layout.size types[i].fields[j] ≤ USHRT_MAX))

/-- The validation of a field, as it is written out. -/
def emitRules (rules : Rules) : FieldRules where
  flags := rules.validation
  min := rules.min
  max := rules.max
  sizeMin := rules.sizeMin
  sizeMax := rules.sizeMax
  minInt := rules.minInt
  maxInt := rules.maxInt

/-- `emit_fields`, for the field at `j` of the type at `i`.  What is written for a
    field without a kind is no C. -/
def emitField (i j : Nat) (f : ParsedField) : Option FieldInfo :=
  f.kind.map fun kind => {
    name := f.name
    kind := kind
    offset := ushort (layout.offset i j)
    size := ushort (memberSize abi types layout.size f)
    flags := f.flags
    nested := if kind = .object then typeIndex types f.cType else none
    references := if f.references ≠ [] then some f.references else none
    referenceKey := if f.references ≠ [] then some f.referenceKey else none
    rules := emitRules f.rules }

/-- `emit_fields`, from the field at `j` on. -/
def emitFields (i : Nat) : Nat → List ParsedField → Option (List FieldInfo)
  | _, [] => some []
  | j, f :: fields =>
      match emitField layout i j f, emitFields i (j + 1) fields with
      | some info, some infos => some (info :: infos)
      | _, _ => none

/-- `emit_type`, with the fields. -/
def emitType (i : Nat) (t : ParsedType) : Option TypeInfo :=
  (emitFields layout i 0 (t.fields.take GENERATOR_MAX_FIELDS)).map fun fields => {
    name := t.name
    size := ushort (layout.size i)
    fields := fields }

/-- The descriptors of a model. -/
def descriptors : Descriptors := fun i => types[i]?.bind (emitType layout i)

end Types

end GeneratorEmit
