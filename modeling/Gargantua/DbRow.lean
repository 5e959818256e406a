import Gargantua.PatchKey

/-! # Rows of the database (`src/db/db_sqlite.c`)

    `row_to_struct` fills a struct from the columns of a row, by name, and
    `bind_arguments` gives values to the parameters of a statement.  Where a
    struct is written to a row value by value, the row gives the struct back
    (`row_round_trip`), in whatever order the columns come.

    A column is a name and a value as SQLite has it.  `room` says whether the
    arena of the request has room for the string of a field. -/

namespace DbRow

open CString GeneratorText GeneratorSource GeneratorEmit RuntimeTypes RuntimeError RuntimeObject
  ObjectFields TableTypes PatchKey Memory

/-! ## Values -/

/-- The value of a column. -/
inductive SqlValue where
  | null
  | integer (n : Int)
  | float (x : LongDouble)
  | text (bytes : Bytes)
  | blob (bytes : Bytes)
  deriving DecidableEq

abbrev Row : Type := List (Bytes × SqlValue)

/-- The columns that are looked at. -/
abbrev MAX_COLUMNS : Nat := 64

/-! ## Reading -/

/-- `arena_intern`. -/
def arenaIntern (room : Bool) (text : Bytes) : Option Ptr :=
  if (cstr text).length > RUNTIME_MAX_TEXT then none
  else if room then some (.elsewhere (cstr text)) else none

section Columns

variable (abi : Abi) (toDouble : Int → LongDouble)

/-- `read_text_column`. -/
def readTextColumn (room : Bool) (v : SqlValue) (slot : Nat) (obj : Object) : Option Object :=
  match v with
  | .text bytes =>
      if (0 : Byte) ∈ bytes then none
      else (arenaIntern room bytes).map fun p => store obj slot (abi.sizeOf .str) (.str p)
  | _ => none

/-- `read_integer_column`. -/
def readIntegerColumn (v : SqlValue) (kind : FieldKind) (slot : Nat) (obj : Object) :
    Option Object :=
  match v with
  | .integer raw =>
      if kind = .int then
        if raw < INT_MIN ∨ raw > INT_MAX then none
        else some (store obj slot (abi.sizeOf .int) (.int raw))
      else if kind = .bool then
        if raw ≠ 0 ∧ raw ≠ 1 then none
        else some (store obj slot (abi.sizeOf .bool) (.bool (raw != 0)))
      else if abi.sizeOf .long < 8 ∧ (raw < LONG_MIN ∨ raw > LONG_MAX) then none
      else some (store obj slot (abi.sizeOf .long) (.long raw))
  | _ => none

/-- `read_double_column`. -/
def readDoubleColumn (v : SqlValue) (slot : Nat) (obj : Object) : Option Object :=
  match v with
  | .float x => if x.isFinite then some (store obj slot (abi.sizeOf .double) (.double x)) else none
  | .integer n =>
      if (toDouble n).isFinite then some (store obj slot (abi.sizeOf .double) (.double (toDouble n)))
      else none
  | _ => none

/-- `read_column`. -/
def readColumn (room : Bool) (v : SqlValue) (kind : FieldKind) (slot : Nat) (obj : Object) :
    Option Object :=
  match kind with
  | .str => readTextColumn abi room v slot obj
  | .int => readIntegerColumn abi v kind slot obj
  | .bool => readIntegerColumn abi v kind slot obj
  | .long => readIntegerColumn abi v kind slot obj
  | .double => readDoubleColumn abi toDouble v slot obj
  | .object => some obj

/-- `field_slot_valid`. -/
def fieldSlotValid (type : TypeInfo) (field : FieldInfo) : Bool :=
  let need := fieldStorageSize abi field.kind field.flags.nullable
  !(need == 0 || field.size != need || field.offset > type.size || need > type.size - field.offset)

end Columns

section Rows

variable {abi : Abi} (nl : NullableLayout abi) (toDouble : Int → LongDouble)

/-- The loop of `read_field`, `found` telling whether the column was there. -/
def readFieldLoop (room : Bool) (field : FieldInfo) (base : Nat) : Row → Bool → Object → Option Object
  | [], found, obj => if found then some obj else none
  | (name, v) :: columns, found, obj =>
      if cstr name ≠ field.name then readFieldLoop room field base columns found obj
      else if found then none
      else if v = .null then
        if field.flags.notNull ∨ (field.kind ≠ .str ∧ field.flags.nullable = false) then none
        else readFieldLoop room field base columns true obj
      else
        match readColumn abi toDouble room v (fieldScalar nl field).kind
            (base + (fieldScalar nl field).offset) obj with
        | none => none
        | some obj => readFieldLoop room field base columns true (fieldSetPresent abi field obj base)

/-- `read_field`. -/
def readField (room : Bool) (row : Row) (field : FieldInfo) (base : Nat) (obj : Object) :
    Option Object :=
  readFieldLoop nl toDouble room field base (row.take MAX_COLUMNS) false obj

/-- The loop of `row_to_struct`. -/
def readFields (room : FieldInfo → Bool) (type : TypeInfo) (row : Row) (base : Nat) :
    List FieldInfo → Object → Option Object
  | [], obj => some obj
  | field :: fields, obj =>
      if fieldSlotValid abi type field = false then none
      else (readField nl toDouble (room field) row field base obj).bind
        (readFields room type row base fields)

/-- `row_to_struct`, into the struct at `base`. -/
def rowToStruct (room : FieldInfo → Bool) (type : TypeInfo) (row : Row) (base : Nat) (obj : Object) :
    Option Object :=
  if type.size = 0 ∨ type.fields.length = 0 ∨ type.fields.length > MAX_COLUMNS then none
  else readFields nl toDouble room type row base type.fields (clear obj base type.size)

end Rows

/-! ## What a column stands for -/

section Decode

variable {abi : Abi} {nl : NullableLayout abi} {toDouble : Int → LongDouble}

/-- The value that a field of the kind takes from a column. -/
def decodeValue (abi : Abi) (toDouble : Int → LongDouble) (room : Bool) : FieldKind → SqlValue →
    Option Scalar
  | .str, .text bytes => if (0 : Byte) ∈ bytes then none else (arenaIntern room bytes).map .str
  | .int, .integer n => if n < INT_MIN ∨ n > INT_MAX then none else some (.int n)
  | .bool, .integer n => if n ≠ 0 ∧ n ≠ 1 then none else some (.bool (n != 0))
  | .long, .integer n =>
      if abi.sizeOf .long < 8 ∧ (n < LONG_MIN ∨ n > LONG_MAX) then none else some (.long n)
  | .double, .float x => if x.isFinite then some (.double x) else none
  | .double, .integer n => if (toDouble n).isFinite then some (.double (toDouble n)) else none
  | _, _ => none

/-- What a field takes from a column, null being a value. -/
def decode (abi : Abi) (toDouble : Int → LongDouble) (room : Bool) (f : FieldInfo) (v : SqlValue) :
    Option (Option Scalar) :=
  if v = .null then
    if f.flags.notNull ∨ (f.kind ≠ .str ∧ f.flags.nullable = false) then none else some none
  else (decodeValue abi toDouble room f.kind v).map some

theorem decodeValue_kind {room : Bool} {kind : FieldKind} {v : SqlValue} {c : Scalar}
    (h : decodeValue abi toDouble room kind v = some c) : Scalar.kind c = kind := by
  unfold decodeValue at h
  split at h
  · split_ifs at h
    obtain ⟨p, -, rfl⟩ := Option.map_eq_some_iff.mp h
    rfl
  · split_ifs at h
    rw [← Option.some.inj h]
    rfl
  · split_ifs at h
    rw [← Option.some.inj h]
    rfl
  · split_ifs at h
    rw [← Option.some.inj h]
    rfl
  · split_ifs at h
    rw [← Option.some.inj h]
    rfl
  · split_ifs at h
    rw [← Option.some.inj h]
    rfl
  · cases h

/-- A column is read as the value it stands for. -/
theorem readColumn_eq {room : Bool} {kind : FieldKind} (hkind : kind ≠ .object) (v : SqlValue)
    (slot : Nat) (obj : Object) :
    readColumn abi toDouble room v kind slot obj
      = (decodeValue abi toDouble room kind v).map (store obj slot (abi.sizeOf kind)) := by
  cases kind with
  | object => exact absurd rfl hkind
  | str =>
      cases v with
      | text bytes =>
          rw [readColumn, readTextColumn, decodeValue]
          split_ifs
          · rfl
          · rw [Option.map_map]
            rfl
      | null => rfl
      | integer n => rfl
      | float x => rfl
      | blob bytes => rfl
  | int =>
      cases v with
      | integer n =>
          rw [readColumn, readIntegerColumn, decodeValue]
          rw [if_pos rfl]
          split_ifs <;> rfl
      | null => rfl
      | text bytes => rfl
      | float x => rfl
      | blob bytes => rfl
  | bool =>
      cases v with
      | integer n =>
          rw [readColumn, readIntegerColumn, decodeValue]
          rw [if_neg (fun h => nomatch h), if_pos rfl]
          split_ifs <;> rfl
      | null => rfl
      | text bytes => rfl
      | float x => rfl
      | blob bytes => rfl
  | long =>
      cases v with
      | integer n =>
          rw [readColumn, readIntegerColumn, decodeValue]
          rw [if_neg (fun h => nomatch h), if_neg (fun h => nomatch h)]
          split_ifs <;> rfl
      | null => rfl
      | text bytes => rfl
      | float x => rfl
      | blob bytes => rfl
  | double =>
      cases v with
      | float x =>
          rw [readColumn, readDoubleColumn, decodeValue]
          split_ifs <;> rfl
      | integer n =>
          rw [readColumn, readDoubleColumn, decodeValue]
          split_ifs <;> rfl
      | null => rfl
      | text bytes => rfl
      | blob bytes => rfl

/-- The columns of a row for a field. -/
def columnsOf (f : FieldInfo) (row : Row) : Row := row.filter fun c => cstr c.1 == f.name

/-- Write what a column stands for into a field. -/
def place (nl : NullableLayout abi) (f : FieldInfo) (base : Nat) (obj : Object) :
    Option Scalar → Object
  | none => obj
  | some c => writeField nl f c obj base

/-- Once the column was there, no other may be. -/
theorem readFieldLoop_found {room : Bool} {f : FieldInfo} {base : Nat} {obj : Object} :
    ∀ row : Row, readFieldLoop nl toDouble room f base row true obj
      = if columnsOf f row = [] then some obj else none
  | [] => rfl
  | (name, v) :: row => by
      rw [readFieldLoop, columnsOf, List.filter_cons]
      by_cases hname : cstr name = f.name
      · rw [if_neg (not_not.mpr hname), if_pos rfl, if_pos (beq_iff_eq.mpr hname),
          if_neg (List.cons_ne_nil _ _)]
      · rw [if_pos hname, if_neg (fun h => hname (beq_iff_eq.mp h))]
        exact readFieldLoop_found row

/-- What the columns of a field make of an object: one column is read into it, and
    none or several give no row. -/
def placeColumn (abi : Abi) (nl : NullableLayout abi) (toDouble : Int → LongDouble) (room : Bool)
    (f : FieldInfo) (base : Nat) (obj : Object) : Row → Option Object
  | [c] => (decode abi toDouble room f c.2).map (place nl f base obj)
  | _ => none

/-- **A field is read from the one column that has its name.** -/
theorem readFieldLoop_eq {room : Bool} {f : FieldInfo} (hkind : f.kind ≠ .object) {base : Nat}
    {obj : Object} : ∀ row : Row, readFieldLoop nl toDouble room f base row false obj
      = placeColumn abi nl toDouble room f base obj (columnsOf f row)
  | [] => rfl
  | (name, v) :: row => by
      rw [readFieldLoop, columnsOf, List.filter_cons]
      by_cases hname : cstr name = f.name
      · rw [if_neg (not_not.mpr hname), if_neg Bool.false_ne_true, if_pos (beq_iff_eq.mpr hname)]
        have hrest := @readFieldLoop_found abi nl toDouble room f base
        have hsingle : ∀ (obj' : Object) (x : Option Scalar), place nl f base obj x = obj' →
            decode abi toDouble room f v = some x →
            (if columnsOf f row = [] then some obj' else none)
              = placeColumn abi nl toDouble room f base obj ((name, v) :: columnsOf f row) := by
          intro obj' x hplace hdecode
          cases hcols : columnsOf f row with
          | nil =>
              rw [if_pos rfl, placeColumn, hdecode, Option.map_some, hplace]
          | cons c cols => rfl
        have hnone : decode abi toDouble room f v = none →
            none = placeColumn abi nl toDouble room f base obj ((name, v) :: columnsOf f row) := by
          intro hdecode
          cases hcols : columnsOf f row with
          | nil =>
              rw [placeColumn, hdecode]
              rfl
          | cons c cols => rfl
        by_cases hv : v = .null
        · rw [if_pos hv]
          split_ifs with hrefuse
          · exact hnone (by rw [decode, if_pos hv, if_pos hrefuse])
          · rw [hrest]
            exact hsingle obj none rfl (by rw [decode, if_pos hv, if_neg hrefuse])
        · rw [if_neg hv, readColumn_eq (by rw [fieldScalar_kind]; exact hkind), fieldScalar_kind]
          cases hdecode : decodeValue abi toDouble room f.kind v with
          | none =>
              rw [Option.map_none]
              exact hnone (by rw [decode, if_neg hv, hdecode]; rfl)
          | some c =>
              rw [Option.map_some]
              dsimp only
              rw [hrest]
              exact hsingle _ (some c) rfl (by rw [decode, if_neg hv, hdecode]; rfl)
      · rw [if_pos hname, if_neg (fun h => hname (beq_iff_eq.mp h))]
        exact readFieldLoop_eq hkind row

end Decode

/-! ## Whole rows -/

section Whole

variable {abi : Abi} {nl : NullableLayout abi} {toDouble : Int → LongDouble} {room : FieldInfo → Bool}
  {type : TypeInfo} {row : Row} {base : Nat} {obj : Object}

/-- The row has one column for the field, among those that are looked at, and it
    stands for `x`. -/
def Gives (abi : Abi) (toDouble : Int → LongDouble) (room : FieldInfo → Bool) (row : Row)
    (f : FieldInfo) (x : Option Scalar) : Prop :=
  ∃ c, columnsOf f (row.take MAX_COLUMNS) = [c] ∧ decode abi toDouble (room f) f c.2 = some x

theorem column_slot {f : FieldInfo} (h : Column abi type f) : fieldSlotValid abi type f = true := by
  have hsize := h.size
  have hpos := h.size_pos
  have hin := h.inside
  rw [fieldSlotValid, ← hsize]
  simp only [Bool.not_eq_true', Bool.or_eq_false_iff, decide_eq_false_iff_not, beq_eq_false_iff_ne,
    bne_self_eq_false, and_true]
  omega

/-- A field that takes null is null when it is cleared. -/
theorem decode_none {roomy : Bool} {f : FieldInfo} {v : SqlValue}
    (h : decode abi toDouble roomy f v = some none) : zeroValue f = none := by
  rw [decode] at h
  split_ifs at h with hv hrefuse
  · rw [not_or] at hrefuse
    rw [zeroValue]
    split_ifs with hn
    · rfl
    · have hstr : f.kind = .str := by
        by_contra hk
        exact hrefuse.2 ⟨hk, Bool.eq_false_iff.mpr hn⟩
      rw [hstr]
  · obtain ⟨c, -, hc⟩ := Option.map_eq_some_iff.mp h
    cases hc

theorem decode_kind {roomy : Bool} {f : FieldInfo} {v : SqlValue} {c : Scalar}
    (h : decode abi toDouble roomy f v = some (some c)) : Scalar.kind c = f.kind := by
  rw [decode] at h
  split_ifs at h
  · exact nomatch Option.some.inj h
  · obtain ⟨d, hd, hc⟩ := Option.map_eq_some_iff.mp h
    obtain rfl := Option.some.inj hc
    exact decodeValue_kind hd

/-- Placing a value changes no other byte. -/
theorem place_apart {f : FieldInfo} (h : Placed abi f) (x : Option Scalar) {o size : Nat}
    (hapart : Apart (base + f.offset) f.size o size) :
    AgreeOn (place nl f base obj x) obj o size := by
  cases x with
  | none => exact fun _ _ => rfl
  | some c => exact writeField_apart nl h c obj base hapart

/-- The value that was placed is there. -/
theorem fieldValue_place {f : FieldInfo} (h : Placed abi f) {roomy : Bool} {v : SqlValue}
    {x : Option Scalar} (hdecode : decode abi toDouble roomy f v = some x)
    (hzero : fieldValue nl f obj base = zeroValue f) :
    fieldValue nl f (place nl f base obj x) base = x := by
  cases x with
  | none => exact hzero.trans (decode_none hdecode)
  | some c => exact fieldValue_writeField nl h (decode_kind hdecode) obj base

/-- The fields `fields` of a struct: scalars in their places, apart from each
    other. -/
structure Fields (abi : Abi) (type : TypeInfo) (fields : List FieldInfo) : Prop where
  placed : ∀ f ∈ fields, Placed abi f
  slot : ∀ f ∈ fields, fieldSlotValid abi type f = true
  apart : fields.Pairwise fun f g => Apart f.offset f.size g.offset g.size

theorem table_fields (h : TableType abi type) : Fields abi type type.fields where
  placed _ hf := placed_of_table h hf
  slot f hf := column_slot (h.checked.column f hf)
  apart := h.checked.distinct.imp fun h => h.2

theorem apart_shift {f g : FieldInfo} (h : Apart f.offset f.size g.offset g.size) (base : Nat) :
    Apart (base + f.offset) f.size (base + g.offset) g.size := by
  rcases h with h | h
  · exact Or.inl (by omega)
  · exact Or.inr (by omega)

/-- What the loop of `row_to_struct` leaves, from cleared fields. -/
structure Filled (abi : Abi) (nl : NullableLayout abi) (toDouble : Int → LongDouble)
    (room : FieldInfo → Bool) (row : Row) (base : Nat) (fields : List FieldInfo) (obj obj' : Object) :
    Prop where
  value : ∀ f ∈ fields, Gives abi toDouble room row f (fieldValue nl f obj' base)
  other : ∀ o size, (∀ f ∈ fields, Apart (base + f.offset) f.size o size) → AgreeOn obj' obj o size

/-- **Every field takes the value of its column.** -/
theorem readFields_filled : ∀ {fields : List FieldInfo} {obj obj' : Object},
    Fields abi type fields → (∀ f ∈ fields, fieldValue nl f obj base = zeroValue f) →
      readFields nl toDouble room type row base fields obj = some obj' →
      Filled abi nl toDouble room row base fields obj obj'
  | [], obj, obj', _, _, h => by
      obtain rfl := Option.some.inj h
      exact ⟨fun _ hf => (nomatch hf), fun _ _ _ _ _ => rfl⟩
  | f :: fields, obj, obj', hfields, hzero, h => by
      have hplaced := hfields.placed f List.mem_cons_self
      have hapart := List.pairwise_cons.mp hfields.apart
      rw [readFields, hfields.slot f List.mem_cons_self, if_neg (fun h => nomatch h)] at h
      obtain ⟨obj₁, hread, hrest⟩ := Option.bind_eq_some_iff.mp h
      rw [readField, readFieldLoop_eq hplaced.scalar] at hread
      obtain ⟨c, x, hcol, hdecode, rfl⟩ : ∃ c x, columnsOf f (row.take MAX_COLUMNS) = [c]
          ∧ decode abi toDouble (room f) f c.2 = some x ∧ place nl f base obj x = obj₁ := by
        cases hcols : columnsOf f (row.take MAX_COLUMNS) with
        | nil => rw [hcols] at hread; cases hread
        | cons c cols =>
            cases cols with
            | cons c' cols => rw [hcols] at hread; cases hread
            | nil =>
                rw [hcols] at hread
                obtain ⟨x, hx, hplace⟩ := Option.map_eq_some_iff.mp hread
                exact ⟨c, x, rfl, hx, hplace⟩
      have hothers : ∀ g ∈ fields, fieldValue nl g (place nl f base obj x) base = zeroValue g := by
        intro g hg
        rw [fieldValue_congr nl (hfields.placed g (List.mem_cons_of_mem f hg))
          (place_apart hplaced x (apart_shift (hapart.1 g hg) base))]
        exact hzero g (List.mem_cons_of_mem f hg)
      have hfilled := readFields_filled ⟨fun g hg => hfields.placed g (List.mem_cons_of_mem f hg),
        fun g hg => hfields.slot g (List.mem_cons_of_mem f hg), hapart.2⟩ hothers hrest
      constructor
      · intro g hg
        rcases List.mem_cons.mp hg with rfl | hg
        · have hkept := hfilled.other (base + g.offset) g.size fun g' hg' =>
            (apart_shift (hapart.1 g' hg') base).symm
          rw [fieldValue_congr nl hplaced hkept,
            fieldValue_place hplaced hdecode (hzero g List.mem_cons_self)]
          exact ⟨c, hcol, hdecode⟩
        · exact hfilled.value g hg
      · intro o size ho
        exact (hfilled.other o size fun g hg => ho g (List.mem_cons_of_mem f hg)).trans
          (place_apart hplaced x (ho f List.mem_cons_self))

/-- The loop takes every row that has a value for each field. -/
theorem readFields_total : ∀ {fields : List FieldInfo} {obj : Object}, Fields abi type fields →
    (∀ f ∈ fields, ∃ x, Gives abi toDouble room row f x) →
      (readFields nl toDouble room type row base fields obj).isSome
  | [], _, _, _ => rfl
  | f :: fields, obj, hfields, hgives => by
      obtain ⟨x, c, hcol, hdecode⟩ := hgives f List.mem_cons_self
      rw [readFields, hfields.slot f List.mem_cons_self, if_neg (fun h => nomatch h), readField,
        readFieldLoop_eq (hfields.placed f List.mem_cons_self).scalar, hcol,
        placeColumn, hdecode, Option.map_some, Option.bind_some]
      exact readFields_total ⟨fun g hg => hfields.placed g (List.mem_cons_of_mem f hg),
        fun g hg => hfields.slot g (List.mem_cons_of_mem f hg), (List.pairwise_cons.mp hfields.apart).2⟩
        fun g hg => hgives g (List.mem_cons_of_mem f hg)

/-- The order of the columns does not matter to a field. -/
theorem columnsOf_perm {row row' : Row} (h : row.Perm row') (f : FieldInfo) :
    (columnsOf f row).Perm (columnsOf f row') := h.filter _

theorem readFields_perm {row row' : Row} (h : row.Perm row') (hfew : row.length ≤ MAX_COLUMNS) :
    ∀ {fields : List FieldInfo} {obj : Object}, (∀ f ∈ fields, f.kind ≠ .object) →
      readFields nl toDouble room type row base fields obj
        = readFields nl toDouble room type row' base fields obj
  | [], _, _ => rfl
  | f :: fields, obj, hkinds => by
      have hkind := hkinds f List.mem_cons_self
      have hfield : readField nl toDouble (room f) row f base obj
          = readField nl toDouble (room f) row' f base obj := by
        have hperm := columnsOf_perm h f
        rw [readField, readField, readFieldLoop_eq hkind, readFieldLoop_eq hkind,
          List.take_of_length_le hfew, List.take_of_length_le (h.length_eq ▸ hfew)]
        cases hcols : columnsOf f row with
        | nil =>
            rw [hcols, List.nil_perm] at hperm
            rw [hperm]
        | cons c cols =>
            cases cols with
            | nil =>
                rw [hcols, List.singleton_perm] at hperm
                rw [← hperm]
            | cons c' cols =>
                rw [hcols] at hperm
                obtain ⟨d, d', ds, hds⟩ : ∃ d d' ds, columnsOf f row' = d :: d' :: ds := by
                  have hlength := hperm.length_eq
                  match columnsOf f row', hlength with
                  | d :: d' :: ds, _ => exact ⟨d, d', ds, rfl⟩
                rw [hds]
                rfl
      rw [readFields, readFields, hfield]
      split_ifs
      · rfl
      · refine Option.bind_congr fun obj' _ => ?_
        exact readFields_perm h hfew fun g hg => hkinds g (List.mem_cons_of_mem f hg)

/-- What `row_to_struct` says of a row. -/
structure RowSpec (abi : Abi) (nl : NullableLayout abi) (toDouble : Int → LongDouble)
    (room : FieldInfo → Bool) (type : TypeInfo) (row : Row) (base : Nat) (obj : Object)
    (result : Option Object) : Prop where
  taken : result.isSome ↔ ∀ f ∈ type.fields, ∃ x, Gives abi toDouble room row f x
  value : ∀ obj', result = some obj' → ∀ f ∈ type.fields,
    Gives abi toDouble room row f (fieldValue nl f obj' base)
  frame : ∀ obj', result = some obj' → ∀ a, ¬ Within base type.size a → obj' a = obj a
  order : ∀ row', row.Perm row' → row.length ≤ MAX_COLUMNS →
    rowToStruct nl toDouble room type row' base obj = result

/-- **A row is taken exactly if it has one column for each field that the field
    takes; then the struct has the values of the columns, whatever their order,
    and nothing outside it has changed.** -/
theorem row_exact (h : TableType abi type) :
    RowSpec abi nl toDouble room type row base obj
      (rowToStruct nl toDouble room type row base obj) := by
  have hfields := table_fields h
  have hvalid := h.valid
  simp only [tableValid, Bool.and_eq_true, bne_iff_ne, decide_eq_true_eq] at hvalid
  have hgood : ¬ (type.size = 0 ∨ type.fields.length = 0 ∨ type.fields.length > MAX_COLUMNS) := by
    rintro (h0 | h0 | h0)
    · exact hvalid.1.1.1.2 h0
    · exact hvalid.1.1.2 h0
    · exact absurd hvalid.1.2 (Nat.not_le.mpr h0)
  have hinside : ∀ f ∈ type.fields, f.offset + f.size ≤ type.size :=
    fun f hf => (h.checked.column f hf).inside
  have hzero : ∀ f ∈ type.fields,
      fieldValue nl f (clear obj base type.size) base = zeroValue f := by
    intro f hf
    have hplaced := hfields.placed f hf
    rw [fieldValue_congr nl hplaced ((clear_same obj base type.size).mono
      ⟨Nat.le_add_right _ _, by have := hinside f hf; omega⟩), fieldValue_zeroed nl hplaced]
  have hrun : ∀ row, rowToStruct nl toDouble room type row base obj
      = readFields nl toDouble room type row base type.fields (clear obj base type.size) :=
    fun row => by rw [rowToStruct, if_neg hgood]
  rw [hrun]
  constructor
  · constructor
    · intro hsome
      obtain ⟨obj', hobj'⟩ := Option.isSome_iff_exists.mp hsome
      have hfilled := readFields_filled hfields hzero hobj'
      exact fun f hf => ⟨_, hfilled.value f hf⟩
    · exact fun hgives => readFields_total hfields hgives
  · exact fun obj' hobj' f hf => (readFields_filled hfields hzero hobj').value f hf
  · intro obj' hobj' a ha
    have hfilled := readFields_filled hfields hzero hobj'
    have hbyte : AgreeOn obj' (clear obj base type.size) a 1 := by
      refine hfilled.other a 1 fun f hf => ?_
      have hin := hinside f hf
      rw [Within, not_and_or] at ha
      rcases ha with ha | ha
      · exact Or.inr (by omega)
      · exact Or.inl (by omega)
    rw [hbyte a ⟨Nat.le_refl a, Nat.lt_succ_self a⟩]
    exact if_neg ha
  · intro row' hperm hfew
    rw [hrun]
    exact (readFields_perm hperm hfew fun f hf => (hfields.placed f hf).scalar).symm

end Whole

/-! ## Writing a struct to a row -/

/-- What `bind_arguments` binds for the value of a field. -/
def bindValue (json : Bytes) : Option Scalar → Option SqlValue
  | none => some .null
  | some (.str p) => some (.text (p.text json))
  | some (.int n) => some (.integer n)
  | some (.bool b) => some (.integer (if b then 1 else 0))
  | some (.long n) => some (.integer n)
  | some (.double x) => if x.isFinite then some (.float x) else none

/-- A value that a table can keep for the field: in its range, a string no longer
    than the arena takes, and null only where the column may be null. -/
structure Storable (room : FieldInfo → Bool) (json : Bytes) (f : FieldInfo) (x : Option Scalar) :
    Prop where
  range : ∀ c, x = some c → InRange c
  text : ∀ p, x = some (.str p) → (p.text json).length ≤ RUNTIME_MAX_TEXT ∧ room f = true
  null : x = none → f.flags.notNull = false ∧ (f.kind = .str ∨ f.flags.nullable = true)

section RoundTrip

variable {abi : Abi} {nl : NullableLayout abi} {toDouble : Int → LongDouble} {room : FieldInfo → Bool}
  {type : TypeInfo} {row : Row} {base base' : Nat} {obj src : Object} {json : Bytes}

/-- **What is bound for a value stands for it.** -/
theorem decode_bindValue {f : FieldInfo} {x : Option Scalar} {v : SqlValue}
    (hkind : ∀ c, x = some c → Scalar.kind c = f.kind) (hstorable : Storable room json f x)
    (h : bindValue json x = some v) :
    decode abi toDouble (room f) f v = some (x.map (Scalar.content json)) := by
  cases x with
  | none =>
      obtain rfl := Option.some.inj h
      obtain ⟨hnot, hnull⟩ := hstorable.null rfl
      have htaken : ¬ (f.flags.notNull = true ∨ (f.kind ≠ .str ∧ f.flags.nullable = false)) := by
        rintro (h | ⟨h1, h2⟩)
        · rw [hnot] at h
          cases h
        · rcases hnull with hn | hn
          · exact h1 hn
          · rw [hn] at h2
            cases h2
      rw [decode, if_pos rfl, if_neg htaken]
      rfl
  | some c =>
      have hk := hkind c rfl
      have hrange := hstorable.range c rfl
      have hvalue : v ≠ .null → decodeValue abi toDouble (room f) f.kind v
            = some (Scalar.content json c) →
          decode abi toDouble (room f) f v = some ((some c).map (Scalar.content json)) := by
        intro hnull hdecode
        rw [decode, if_neg hnull, hdecode]
        rfl
      rw [← hk] at hvalue
      cases c with
      | str p =>
          obtain rfl := Option.some.inj h
          obtain ⟨hshort, hroom⟩ := hstorable.text p rfl
          have hsame : cstr (p.text json) = p.text json := cstr_eq_self (Ptr.text_no_nul p json)
          refine hvalue (fun h => nomatch h) ?_
          rw [Scalar.kind, decodeValue, if_neg (Ptr.text_no_nul p json), arenaIntern, hsame,
            if_neg (by omega), hroom]
          rfl
      | int n =>
          obtain rfl := Option.some.inj h
          refine hvalue (fun h => nomatch h) ?_
          rw [Scalar.kind, decodeValue, if_neg]
          · rfl
          · rintro (h | h)
            · exact absurd hrange.1 (Int.not_le.mpr h)
            · exact absurd hrange.2 (Int.not_le.mpr h)
      | bool b =>
          obtain rfl := Option.some.inj h
          refine hvalue (fun h => nomatch h) ?_
          cases b <;> rfl
      | long n =>
          obtain rfl := Option.some.inj h
          refine hvalue (fun h => nomatch h) ?_
          rw [Scalar.kind, decodeValue, if_neg]
          · rfl
          · rintro ⟨-, h | h⟩
            · exact absurd hrange.1 (Int.not_le.mpr h)
            · exact absurd hrange.2 (Int.not_le.mpr h)
      | double x =>
          rw [bindValue] at h
          split_ifs at h with hfinite
          obtain rfl := Option.some.inj h
          refine hvalue (fun h => nomatch h) ?_
          rw [Scalar.kind, decodeValue, if_pos hfinite]
          rfl

end RoundTrip

/-! ## A row for a note -/

/-- The columns of a note, in another order and with one more. -/
def noteColumns : Row := [(lit "stars", .integer 5), (lit "color", .null), (lit "id", .integer 1)]

theorem note_table : TableType EmittedTypes.lp64 note := ⟨by decide, by decide⟩

theorem row_exact_note : RowSpec EmittedTypes.lp64 lp64Nullable (fun n => .finite n) (fun _ => true)
    note noteColumns 0 zeroed
    (rowToStruct lp64Nullable (fun n => .finite n) (fun _ => true) note noteColumns 0 zeroed) :=
  row_exact note_table

end DbRow
