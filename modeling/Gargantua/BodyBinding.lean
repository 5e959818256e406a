import Gargantua.BodyTree
import Gargantua.ObjectFields

/-! # What a body must be to be read

    The rules of the body reader on the derivation of a body, with no token, no
    offset and no text: which names an object may have, which value a field
    takes, and what is required. -/

namespace BodyBinding

open CString JsonParse JsonGrammar JsonDecode JsonLexical JsonAccess GeneratorText GeneratorSource
  RuntimeTypes RuntimeError RuntimeObject RuntimeBody BodyTree ObjectFields

/-! ## Objects as lists of members -/

/-- The member that a label and a value make, in an object. -/
def labelPairs : {k : Kind} → Label k → Json .value → List (Str × Json .value)
  | _, .item _, _ => []
  | _, .member _ key _ _, v => [(key, v)]

/-- The names and values of the elements. -/
def pairs : {c : Cat} → Json c → List (Str × Json .value)
  | _, .prim _ => []
  | _, .str _ => []
  | _, .empty _ _ => []
  | _, .full _ _ => []
  | _, .last _ l v _ => labelPairs l v
  | _, .more _ l v _ es => labelPairs l v ++ pairs es

/-- The names and values of an object. -/
def objectPairs : Json .value → Option (List (Str × Json .value))
  | .prim _ => none
  | .str _ => none
  | .empty .arr _ => none
  | .empty .obj _ => some []
  | .full .arr _ => none
  | .full .obj es => some (pairs es)

/-- The value of the first member with the name. -/
def find (ps : List (Str × Json .value)) (name : Bytes) : Option (Json .value) :=
  (ps.find? fun p => cstr p.1.decode == name).map (·.2)

/-- A member without its places. -/
def Member.pair (m : Member) : Str × Json .value := (m.key, m.value)

theorem labelMembers_pairs {k : Kind} (l : Label k) (v : Json .value) (position index : Nat) :
    (labelMembers l v position index).map Member.pair = labelPairs l v := by
  cases l <;> rfl

theorem members_pairs {c : Cat} (t : Json c) :
    ∀ position index : Nat, (members t position index).map Member.pair = pairs t := by
  induction t with
  | prim p => exact fun _ _ => rfl
  | str s => exact fun _ _ => rfl
  | empty k w => exact fun _ _ => rfl
  | full k es ih => exact fun _ _ => rfl
  | last k l v w ih => exact fun position index => labelMembers_pairs l v position index
  | more k l v w es ihv ihes =>
      intro position index
      rw [members, List.map_append, labelMembers_pairs, ihes]
      rfl

theorem objectMembers_pairs (v : Json .value) (position index : Nat) :
    (objectMembers v position index).map (List.map Member.pair) = objectPairs v := by
  match v with
  | .prim _ => rfl
  | .str _ => rfl
  | .empty .arr _ => rfl
  | .empty .obj _ => rfl
  | .full .arr _ => rfl
  | .full .obj es => exact congrArg some (members_pairs es _ _)

theorem lookup_pairs (ms : List Member) (name : Bytes) :
    find (ms.map Member.pair) name = (lookup ms name).map (·.value) := by
  rw [find, lookup, List.find?_map, Option.map_map]
  rfl

/-! ## Values -/

/-- The literal `null`. -/
def isNullValue : Json .value → Bool
  | .prim .null => true
  | _ => false

/-- The integer that the text of a number stands for, in the range of `long`. -/
def checkedLong (text : Bytes) : Option Int :=
  if text.length ≥ 128 then none
  else if (strtol text).errno ∨ (strtol text).found = false ∨ (strtol text).rest ≠ [] then none
  else some (strtol text).value

/-- The finite number that the text of a number stands for. -/
def checkedDouble (strtod : Strtod) (text : Bytes) : Option LongDouble :=
  if text.length ≥ 128 then none
  else if (strtod text).errno ∨ (strtod text).found = false ∨ (strtod text).rest ≠ []
      ∨ (strtod text).value.isFinite = false then none
  else some (strtod text).value

/-- The value that a field of the kind takes from a value of the body. -/
def readContent (strtod : Strtod) : FieldKind → Json .value → Option Scalar
  | .str, .str s => if (0 : Byte) ∈ s.decode then none else some (.str (.elsewhere s.decode))
  | .int, .prim p =>
      match checkedLong p.render with
      | none => none
      | some n => if n > 2147483647 ∨ n < -2147483648 then none else some (.int n)
  | .long, .prim p => (checkedLong p.render).map .long
  | .double, .prim p => (checkedDouble strtod p.render).map .double
  | .bool, .prim .true_ => some (.bool true)
  | .bool, .prim .false_ => some (.bool false)
  | _, _ => none

/-- The value that the field ends up with: `null` is no value. -/
def decodedValue (strtod : Strtod) (kind : FieldKind) (v : Json .value) : Option Scalar :=
  if isNullValue v then none else readContent strtod kind v

/-- The field does not take `null`. -/
def refusesNull (f : FieldInfo) : Bool :=
  f.flags.notNull || (f.kind ≠ .str && !f.flags.nullable)

/-! ## Bodies -/

section Rules

variable (strtod : Strtod) (printLg : LongDouble → Bytes) (ds : Descriptors) (isPartial : Bool)

/-- A field that is no object takes the value. -/
def leafOk (f : FieldInfo) (v : Json .value) : Bool :=
  if isNullValue v then !refusesNull f
  else
    match readContent strtod f.kind v with
    | none => false
    | some c => (scalarRules printLg f.rules [] c).isNone

/-- A field takes what the object has for it, if it has something. -/
def fieldOk (nested : Option Nat → Bytes → Json .value → Bool) (path : Bytes) (f : FieldInfo) :
    Option (Json .value) → Bool
  | none => isPartial || !f.flags.notNull
  | some v =>
      if f.kind = .object then nested f.nested (joinPath path f.name) v
      else leafOk strtod printLg f v

/-- A name that the type declares. -/
def knownKey (info : TypeInfo) (key : Str) : Bool :=
  !key.decode.contains 0 && info.fields.any fun f => f.name == key.decode

/-- A value is an object that the type describes. -/
def objectOk : Nat → Option Nat → Bytes → Json .value → Bool
  | 0, _, _, _ => false
  | levels + 1, type, path, v =>
      match deref ds type, objectPairs v with
      | some info, some ps =>
          (ps.all fun p => knownKey info p.1)
            && info.fields.all fun f =>
                (joinPath path f.name).length < FIELD_PATH_LEN
                  && fieldOk strtod printLg isPartial (objectOk levels) path f (find ps f.name)
      | _, _ => false

end Rules

theorem knownKey_iff (info : TypeInfo) (m : Member) :
    knownKey info m.key = true ↔ KnownKey info m := by
  rw [knownKey, KnownKey, Bool.and_eq_true, any_name_iff, Bool.not_eq_true', ← Bool.not_eq_true,
    List.contains_iff_mem]

/-- A value that a field takes is of its kind. -/
theorem readContent_kind {strtod : Strtod} {kind : FieldKind} {v : Json .value} {c : Scalar}
    (h : readContent strtod kind v = some c) : Scalar.kind c = kind := by
  match kind, v with
  | .str, .str s =>
      rw [readContent] at h
      split_ifs at h
      rw [← Option.some.inj h]
      rfl
  | .int, .prim p =>
      rw [readContent] at h
      cases hlong : checkedLong p.render with
      | none => rw [hlong] at h; exact nomatch h
      | some n =>
          rw [hlong] at h
          dsimp only at h
          split_ifs at h
          rw [← Option.some.inj h]
          rfl
  | .long, .prim p =>
      obtain ⟨n, -, rfl⟩ := Option.map_eq_some_iff.mp h
      rfl
  | .double, .prim p =>
      obtain ⟨x, -, rfl⟩ := Option.map_eq_some_iff.mp h
      rfl
  | .bool, .prim .true_ => rw [← Option.some.inj h]; rfl
  | .bool, .prim .false_ => rw [← Option.some.inj h]; rfl

end BodyBinding
