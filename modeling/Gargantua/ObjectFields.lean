import Gargantua.RuntimeObject

/-! # The value of a field

    Behind offsets, flags and cells a field that is no object holds a value or
    null.  This file says what the accessors of the runtime do in these terms:
    the value depends on the bytes of the field alone, a cleared field is null or
    zero, a written field holds what was written, and `field_validate` judges the
    value. -/

namespace ObjectFields

open CString GeneratorText GeneratorSource GeneratorEmit RuntimeTypes RuntimeError RuntimeObject
  Memory

/-- The kind of field that stores the value. -/
def Scalar.kind : Scalar → FieldKind
  | .int _ => .int
  | .long _ => .long
  | .double _ => .double
  | .bool _ => .bool
  | .str _ => .str

/-- A field that the checks of `type_valid` let pass. -/
structure Placed (abi : Abi) (f : FieldInfo) : Prop where
  scalar : f.kind ≠ .object
  size : f.size = fieldStorageSize abi f.kind f.flags.nullable
  size_pos : 0 < f.size
  inside : f.offset + f.size ≤ USHRT_MAX

section Value

variable {abi : Abi} (nl : NullableLayout abi)

/-- The value of a field of the object at `base`, null being `none`. -/
def fieldValue (f : FieldInfo) (obj : Object) (base : Nat) : Option Scalar :=
  if fieldIsNull abi f obj base then none
  else
    let offset := base + (fieldScalar nl f).offset
    match f.kind with
    | .str => (readStr abi obj offset).map .str
    | .int => some (.int (readInt abi obj offset))
    | .long => some (.long (readLong abi obj offset))
    | .double => some (.double (readDouble abi obj offset))
    | .bool => some (.bool (readBool abi obj offset))
    | .object => none

/-- Write a value, with its flag if the field is nullable. -/
def writeField (f : FieldInfo) (v : Scalar) (obj : Object) (base : Nat) : Object :=
  fieldSetPresent abi f
    (store obj (base + (fieldScalar nl f).offset) (abi.sizeOf f.kind) v) base

/-- What a cleared field holds. -/
def zeroValue (f : FieldInfo) : Option Scalar :=
  if f.flags.nullable then none
  else
    match f.kind with
    | .str => none
    | .int => some (.int 0)
    | .long => some (.long 0)
    | .double => some (.double (.finite 0))
    | .bool => some (.bool false)
    | .object => none

/-- The rules on a value. -/
def scalarRules (printLg : LongDouble → Bytes) (r : FieldRules) (json : Bytes) :
    Scalar → Option (Bytes × Bytes)
  | .str p => stringRules r (p.text json)
  | .int n => if r.flags.min || r.flags.max then integerRules r n else none
  | .long n => if r.flags.min || r.flags.max then integerRules r n else none
  | .double x => if r.flags.min || r.flags.max then floatRules printLg r x else none
  | .bool _ => if r.flags.min || r.flags.max then floatRules printLg r (.finite 0) else none

/-- What `field_validate` says about the value of a field. -/
def valueCheck (printLg : LongDouble → Bytes) (f : FieldInfo) (json : Bytes) :
    Option Scalar → Option (Bytes × Bytes)
  | none => notNull f
  | some v => scalarRules printLg f.rules json v

/-- A `double` lies between its smallest and its largest number. -/
def IsDouble : LongDouble → Prop
  | .finite q => q = 0 ∨ ((2 : Rat) ^ (-1074 : Int) ≤ |q| ∧ |q| < 2 ^ (1024 : Int))
  | _ => True

/-- The numbers of a C struct are in the ranges of their types. -/
def InRange : Scalar → Prop
  | .int n => INT_MIN ≤ n ∧ n ≤ INT_MAX
  | .long n => LONG_MIN ≤ n ∧ n ≤ LONG_MAX
  | .double x => IsDouble x
  | _ => True

/-- A value without the text that it points into. -/
def Scalar.content (json : Bytes) : Scalar → Scalar
  | .str p => .str (.elsewhere (p.text json))
  | v => v

theorem Ptr.text_no_nul (p : Ptr) (json : Bytes) : (0 : Byte) ∉ p.text json := by
  cases p with
  | body start => exact cstr_no_nul _
  | elsewhere text => exact cstr_no_nul _

theorem Ptr.text_elsewhere (json json' : Bytes) (p : Ptr) :
    (Ptr.elsewhere (p.text json)).text json' = p.text json :=
  cstr_eq_self (Ptr.text_no_nul p json)

/-- The rules judge the content. -/
theorem valueCheck_content (printLg : LongDouble → Bytes) (f : FieldInfo) (json : Bytes)
    (x : Option Scalar) :
    valueCheck printLg f [] (x.map (Scalar.content json)) = valueCheck printLg f json x := by
  cases x with
  | none => rfl
  | some v =>
      cases v with
      | str p =>
          show stringRules f.rules ((Ptr.elsewhere (p.text json)).text [])
            = stringRules f.rules (p.text json)
          rw [Ptr.text_elsewhere]
      | int n => rfl
      | long n => rfl
      | double x => rfl
      | bool b => rfl

/-- A value of a field is of its kind. -/
theorem fieldValue_kind {f : FieldInfo} {obj : Object} {base : Nat} {c : Scalar}
    (hx : fieldValue nl f obj base = some c) : Scalar.kind c = f.kind := by
  rw [fieldValue] at hx
  split_ifs at hx
  dsimp only at hx
  cases hk : f.kind with
  | str =>
      rw [hk] at hx
      obtain ⟨p, -, rfl⟩ := Option.map_eq_some_iff.mp hx
      rfl
  | object => rw [hk] at hx; cases hx
  | int => rw [hk] at hx; rw [← Option.some.inj hx]; rfl
  | long => rw [hk] at hx; rw [← Option.some.inj hx]; rfl
  | double => rw [hk] at hx; rw [← Option.some.inj hx]; rfl
  | bool => rw [hk] at hx; rw [← Option.some.inj hx]; rfl

theorem fieldScalar_kind (f : FieldInfo) : (fieldScalar nl f).kind = f.kind := by
  rw [fieldScalar]
  split_ifs <;> rfl

theorem fieldScalar_rules (f : FieldInfo) : (fieldScalar nl f).rules = f.rules := by
  rw [fieldScalar]
  split_ifs <;> rfl

theorem fieldScalar_notNull (f : FieldInfo) :
    (fieldScalar nl f).flags.notNull = f.flags.notNull := by
  rw [fieldScalar]
  split_ifs <;> rfl

/-- **`field_validate` judges the value of the field.** -/
theorem fieldCheck_eq (printLg : LongDouble → Bytes) (json : Bytes) {f : FieldInfo}
    (hf : f.kind ≠ .object) (obj : Object) (base : Nat) :
    fieldCheck abi nl printLg json f obj base
      = valueCheck printLg f json (fieldValue nl f obj base) := by
  rw [fieldCheck, fieldValue]
  cases hnull : fieldIsNull abi f obj base with
  | true => rw [if_pos rfl, if_pos rfl, valueCheck]
  | false =>
      rw [if_neg Bool.false_ne_true, if_neg Bool.false_ne_true]
      dsimp only
      rw [fieldScalar_kind, fieldScalar_rules]
      have hnot : notNull (fieldScalar nl f) = notNull f := by
        rw [notNull, notNull, fieldScalar_notNull]
      cases hkind : f.kind with
      | str =>
          dsimp only
          rw [hnot]
          cases readStr abi obj (base + (fieldScalar nl f).offset) <;> rfl
      | int => rfl
      | long => rfl
      | double => rfl
      | bool => rfl
      | object => exact absurd hkind hf

end Value

/-! ## Where the parts of a field are -/

section Parts

variable {abi : Abi} (nl : NullableLayout abi) {f : FieldInfo}

theorem Placed.not_str (h : Placed abi f) (hn : f.flags.nullable = true) : f.kind ≠ .str := by
  intro hk
  have hs := h.size
  have hp := h.size_pos
  rw [hk, hn] at hs
  have hz : fieldStorageSize abi .str true = 0 := rfl
  omega

theorem Placed.size_nullable (h : Placed abi f) (hn : f.flags.nullable = true) :
    f.size = abi.sizeOfNullable f.kind := by
  have hs := h.size
  have hstr := h.not_str hn
  rw [hn] at hs
  cases hk : f.kind with
  | str => exact absurd hk hstr
  | object => exact absurd hk h.scalar
  | int => rw [hk] at hs; exact hs
  | long => rw [hk] at hs; exact hs
  | double => rw [hk] at hs; exact hs
  | bool => rw [hk] at hs; exact hs

theorem Placed.size_plain (h : Placed abi f) (hn : f.flags.nullable = false) :
    f.size = abi.sizeOf f.kind := by
  have hs := h.size
  rw [hn] at hs
  cases hk : f.kind with
  | object => exact absurd hk h.scalar
  | str => rw [hk] at hs; exact hs
  | int => rw [hk] at hs; exact hs
  | long => rw [hk] at hs; exact hs
  | double => rw [hk] at hs; exact hs
  | bool => rw [hk] at hs; exact hs

theorem valueOffset_eq (hstr : f.kind ≠ .str) (hobj : f.kind ≠ .object) :
    valueOffset nl f.kind = nl.valueOffset f.kind := by
  cases hk : f.kind with
  | str => exact absurd hk hstr
  | object => exact absurd hk hobj
  | int => rfl
  | long => rfl
  | double => rfl
  | bool => rfl

/-- The value of a nullable field stands behind its flag, inside the field. -/
theorem Placed.value_offset (h : Placed abi f) (hn : f.flags.nullable = true) :
    (fieldScalar nl f).offset = f.offset + nl.valueOffset f.kind
      ∧ abi.sizeOf .bool ≤ nl.valueOffset f.kind
      ∧ nl.valueOffset f.kind + abi.sizeOf f.kind ≤ f.size := by
  have hstr := h.not_str hn
  have hin := nl.inside f.kind hstr h.scalar
  have hsize := h.size_nullable hn
  have hmax := h.inside
  refine ⟨?_, nl.behind f.kind hstr h.scalar, by omega⟩
  rw [fieldScalar, if_pos hn, valueOffset_eq nl hstr h.scalar]
  exact Nat.mod_eq_of_lt (by omega)

theorem fieldScalar_plain (hn : f.flags.nullable = false) : fieldScalar nl f = f := by
  rw [fieldScalar, if_neg (by rw [hn]; exact Bool.false_ne_true)]

/-- The value of a field stands inside it. -/
theorem Placed.scalar_inside (h : Placed abi f) :
    f.offset ≤ (fieldScalar nl f).offset
      ∧ (fieldScalar nl f).offset + abi.sizeOf f.kind ≤ f.offset + f.size := by
  cases hn : f.flags.nullable with
  | true =>
      obtain ⟨h1, -, h3⟩ := h.value_offset nl hn
      omega
  | false =>
      have hs := h.size_plain hn
      rw [fieldScalar_plain nl hn]
      omega

/-! ## The accessors -/

/-- A nullable field has its flag in front of its value. -/
theorem Placed.bool_inside (nl : NullableLayout abi) (h : Placed abi f) (hn : f.flags.nullable = true) :
    abi.sizeOf .bool ≤ f.size := by
  obtain ⟨-, h2, h3⟩ := h.value_offset nl hn
  omega

/-- **The value of a field depends on its own bytes.** -/
theorem fieldValue_congr (h : Placed abi f) {obj obj' : Object} {base : Nat}
    (hagree : AgreeOn obj obj' (base + f.offset) f.size) :
    fieldValue nl f obj base = fieldValue nl f obj' base := by
  have hin := h.scalar_inside nl
  have hvalue : AgreeOn obj obj' (base + (fieldScalar nl f).offset) (abi.sizeOf f.kind) :=
    hagree.mono (by omega)
  have hload := load_congr hvalue (abi.sizeOf_pos f.kind)
  have hnull : fieldIsNull abi f obj base = fieldIsNull abi f obj' base := by
    rw [fieldIsNull, fieldIsNull]
    cases hn : f.flags.nullable with
    | true =>
        have hflag : AgreeOn obj obj' (base + f.offset) (abi.sizeOf .bool) :=
          hagree.mono ⟨Nat.le_refl _, Nat.add_le_add_left (h.bool_inside nl hn) _⟩
        rw [if_pos rfl, if_pos rfl, readBool, readBool, load_congr hflag (abi.sizeOf_pos .bool)]
    | false =>
        rw [fieldScalar_plain nl hn] at hload
        rw [if_neg Bool.false_ne_true, if_neg Bool.false_ne_true]
        by_cases hk : f.kind = .str
        · rw [if_pos hk, if_pos hk, readStr, readStr]
          rw [hk] at hload
          rw [hload]
        · rw [if_neg hk, if_neg hk]
  rw [fieldValue, fieldValue, hnull]
  cases hk : f.kind with
  | str => rw [hk] at hload; dsimp only; rw [readStr, readStr, hload]
  | int => rw [hk] at hload; dsimp only; rw [readInt, readInt, hload]
  | long => rw [hk] at hload; dsimp only; rw [readLong, readLong, hload]
  | double => rw [hk] at hload; dsimp only; rw [readDouble, readDouble, hload]
  | bool => rw [hk] at hload; dsimp only; rw [readBool, readBool, hload]
  | object => exact absurd hk h.scalar

/-- A cleared struct holds null or zero. -/
theorem fieldValue_zeroed (h : Placed abi f) (base : Nat) :
    fieldValue nl f (zeroed : Object) base = zeroValue f := by
  rw [fieldValue, zeroValue, fieldIsNull]
  cases hn : f.flags.nullable with
  | true =>
      rw [if_pos rfl, if_pos rfl, readBool, load_zeroed]
      exact if_pos rfl
  | false =>
      rw [if_neg Bool.false_ne_true, if_neg Bool.false_ne_true, fieldScalar_plain nl hn]
      cases hk : f.kind with
      | str =>
          rw [if_pos rfl, readStr, load_zeroed]
          exact if_pos rfl
      | int =>
          rw [if_neg (show ¬ FieldKind.int = .str from fun e => nomatch e),
            if_neg Bool.false_ne_true]
          dsimp only
          rw [readInt, load_zeroed]
      | long =>
          rw [if_neg (show ¬ FieldKind.long = .str from fun e => nomatch e),
            if_neg Bool.false_ne_true]
          dsimp only
          rw [readLong, load_zeroed]
      | double =>
          rw [if_neg (show ¬ FieldKind.double = .str from fun e => nomatch e),
            if_neg Bool.false_ne_true]
          dsimp only
          rw [readDouble, load_zeroed]
      | bool =>
          rw [if_neg (show ¬ FieldKind.bool = .str from fun e => nomatch e),
            if_neg Bool.false_ne_true]
          dsimp only
          rw [readBool, load_zeroed]
      | object => exact absurd hk h.scalar

/-- A cleared field is null or zero. -/
theorem fieldValue_clear (h : Placed abi f) (obj : Object) (base : Nat) :
    fieldValue nl f (clear obj (base + f.offset) f.size) base = zeroValue f := by
  rw [fieldValue_congr nl h (clear_same obj (base + f.offset) f.size), fieldValue_zeroed nl h]

/-- A write stays inside the field. -/
theorem writeField_apart (h : Placed abi f) (v : Scalar) (obj : Object) (base : Nat)
    {o size : Nat} (hapart : Apart (base + f.offset) f.size o size) :
    AgreeOn (writeField nl f v obj base) obj o size := by
  have hin := h.scalar_inside nl
  have hstore : AgreeOn (store obj (base + (fieldScalar nl f).offset) (abi.sizeOf f.kind) v) obj
      o size :=
    store_apart obj v (hapart.mono (by omega) ⟨Nat.le_refl _, Nat.le_refl _⟩)
  rw [writeField, fieldSetPresent]
  cases hn : f.flags.nullable with
  | true =>
      have hb := h.bool_inside nl hn
      rw [if_pos rfl]
      exact (store_apart _ _ (hapart.mono (by omega) ⟨Nat.le_refl _, Nat.le_refl _⟩)).trans hstore
  | false =>
      rw [if_neg Bool.false_ne_true]
      exact hstore

/-- The value that was written is there. -/
theorem load_writeField (h : Placed abi f) (v : Scalar) (obj : Object) (base : Nat) :
    load (writeField nl f v obj base) (base + (fieldScalar nl f).offset) (abi.sizeOf f.kind)
      = .value v := by
  have hsame : AgreeOn (writeField nl f v obj base)
      (store obj (base + (fieldScalar nl f).offset) (abi.sizeOf f.kind) v)
      (base + (fieldScalar nl f).offset) (abi.sizeOf f.kind) := by
    rw [writeField, fieldSetPresent]
    cases hn : f.flags.nullable with
    | true =>
        obtain ⟨h1, h2, -⟩ := h.value_offset nl hn
        rw [if_pos rfl]
        exact store_apart _ _ (Or.inl (by omega))
    | false =>
        rw [if_neg Bool.false_ne_true]
        exact fun a _ => rfl
  rw [load_congr hsame (abi.sizeOf_pos f.kind), load_store _ _ (abi.sizeOf_pos f.kind)]

/-- **What is written to a field is its value.** -/
theorem fieldValue_writeField (h : Placed abi f) {v : Scalar} (hv : Scalar.kind v = f.kind)
    (obj : Object) (base : Nat) :
    fieldValue nl f (writeField nl f v obj base) base = some v := by
  have hload := load_writeField nl h v obj base
  have hnull : fieldIsNull abi f (writeField nl f v obj base) base = false := by
    rw [fieldIsNull]
    cases hn : f.flags.nullable with
    | true =>
        rw [if_pos rfl, readBool, writeField, fieldSetPresent, if_pos hn,
          load_store _ _ (abi.sizeOf_pos .bool)]
        rfl
    | false =>
        rw [if_neg Bool.false_ne_true]
        by_cases hk : f.kind = .str
        · rw [if_pos hk, readStr]
          rw [fieldScalar_plain nl hn, hk] at hload
          rw [hload]
          cases v with
          | str p => rfl
          | int n => exact nomatch hv.trans hk
          | long n => exact nomatch hv.trans hk
          | double x => exact nomatch hv.trans hk
          | bool b => exact nomatch hv.trans hk
        · rw [if_neg hk]
  rw [fieldValue, hnull, if_neg Bool.false_ne_true]
  rw [← hv] at hload ⊢
  cases v with
  | str p => dsimp only [Scalar.kind] at hload ⊢; rw [readStr, hload]; rfl
  | int n => dsimp only [Scalar.kind] at hload ⊢; rw [readInt, hload]
  | long n => dsimp only [Scalar.kind] at hload ⊢; rw [readLong, hload]
  | double x => dsimp only [Scalar.kind] at hload ⊢; rw [readDouble, hload]
  | bool b => dsimp only [Scalar.kind] at hload ⊢; rw [readBool, hload]

end Parts

end ObjectFields
