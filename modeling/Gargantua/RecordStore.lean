import Mathlib.Data.List.Forall2
import Gargantua.Lib.Memory
import Gargantua.Lib.TextArea
import Gargantua.RuntimeTypes

/-! # The in-memory store (`src/db/store.c`)

    A store keeps records of a flat type in an array of rows.  A string of a
    record is copied into the text area of the store, where each row has one
    slot for each of its string fields, and the pointer of the row is set to the
    slot.  Who reads a record gets strings of his own. -/

namespace RecordStore

open CString GeneratorSource RouteGenerator RuntimeTypes Memory TextArea

abbrev STORE_TEXT_LEN : Nat := 256
abbrev STORE_MAX_ROWS : Nat := 256
abbrev STORE_MAX_FIELDS : Nat := 64

/-- A `str` that is not `NULL`: it points into the text area of the store, or to
    a string elsewhere. -/
inductive Pointer where
  | text (o : Nat)
  | other (content : Bytes)
  deriving DecidableEq

/-- A value that a field stores.  What is not a pointer is only ever copied. -/
inductive Datum where
  | scalar (n : Int)
  | pointer (p : Pointer)
  deriving DecidableEq

/-- `Store`, with its arrays in place and its lock free. -/
structure Store where
  type : TypeInfo
  rows : Mem Datum
  text : Area
  capacity : Nat
  count : Nat
  textFields : Nat

/-! ## Types and stores that are accepted -/

/-- The fields overlap. -/
def overlaps (field prior : FieldInfo) (size : Nat) : Bool :=
  field.offset < prior.offset + prior.size && prior.offset < field.offset + size

/-- The loop of `store_type_valid`, behind the fields `priors`. -/
def fieldsFlat (abi : Abi) (type : TypeInfo) : List FieldInfo → List FieldInfo → Bool
  | _, [] => true
  | priors, field :: fields =>
      let size := fieldStorageSize abi field.kind field.flags.nullable
      if size = 0 ∨ field.size ≠ size ∨ field.nested ≠ none ∨ field.offset > type.size
          ∨ size > type.size - field.offset then false
      else if priors.any fun prior => overlaps field prior size then false
      else fieldsFlat abi type (priors ++ [field]) fields

/-- `store_type_valid`. -/
def storeTypeValid (abi : Abi) (type : TypeInfo) : Bool :=
  if type.size = 0 ∨ type.fields.length = 0 ∨ type.fields.length > STORE_MAX_FIELDS then false
  else fieldsFlat abi type [] type.fields

/-- The string fields of a list of fields. -/
def countTexts (fields : List FieldInfo) : Nat := fields.countP fun field => field.kind = .str

/-- `store_text_fields`. -/
def storeTextFields (abi : Abi) (type : TypeInfo) : Nat :=
  if storeTypeValid abi type then countTexts type.fields else 0

/-- `store_valid`. -/
def storeValid (abi : Abi) (store : Store) : Bool :=
  if storeTypeValid abi store.type = false ∨ store.capacity < 1
      ∨ store.capacity > STORE_MAX_ROWS then false
  else storeTextFields abi store.type = store.textFields

/-- `store_count_valid`. -/
def storeCountValid (store : Store) : Bool := store.count ≤ store.capacity

/-! ## Strings -/

/-- The bytes that the text area has. -/
def Store.textSize (store : Store) : Nat := store.capacity * store.textFields * STORE_TEXT_LEN

/-- Where the slot of a row's string field starts. -/
def Store.slotAt (store : Store) (index slot : Nat) : Nat :=
  (index * store.textFields + slot) * STORE_TEXT_LEN

/-- Where a row starts. -/
def Store.rowAt (store : Store) (index : Nat) : Nat := index * store.type.size

/-- The C string at a pointer. -/
def Store.stringAt (store : Store) : Pointer → Bytes
  | .text o => cstr (window store.text o (store.textSize - o))
  | .other content => cstr content

/-- `strnlen(_, STORE_TEXT_LEN)`. -/
def Store.strnlen (store : Store) (source : Pointer) : Nat :=
  min (store.stringAt source).length STORE_TEXT_LEN

/-- `memcpy(&text, m + o, sizeof(text))`. -/
def loadPointer (abi : Abi) (m : Mem Datum) (o : Nat) : Option Pointer :=
  match load m o (abi.sizeOf .str) with
  | .value (.pointer p) => some p
  | _ => none

/-- `memcpy(m + o, &text, sizeof(text))`. -/
def storePointer (abi : Abi) (m : Mem Datum) (o : Nat) : Option Pointer → Mem Datum
  | none => clear m o (abi.sizeOf .str)
  | some p => store m o (abi.sizeOf .str) (.pointer p)

/-- `store_value_valid`. -/
def storeValueValid (abi : Abi) (store : Store) (value : Mem Datum) : Bool :=
  store.type.fields.all fun field =>
    if field.kind = .str then
      match loadPointer abi value field.offset with
      | none => true
      | some text => store.strnlen text < STORE_TEXT_LEN
    else true

/-! ## Copying a record in and out -/

/-- The body of the loop of `store_copy_value`: the string field at `offset`. -/
def copyText (abi : Abi) (store : Store) (index slot offset : Nat) : Store :=
  let row := store.rowAt index
  let target := store.slotAt index slot
  match loadPointer abi store.rows (row + offset) with
  | some source =>
      let length := store.strnlen source
      { store with
        text := write store.text target ((store.stringAt source ++ [0]).take (length + 1))
        rows := storePointer abi store.rows (row + offset) (some (.text target)) }
  | none =>
      { store with
        text := write store.text target [0]
        rows := storePointer abi store.rows (row + offset) none }

/-- The loop of `store_copy_value`. -/
def copyTexts (abi : Abi) (index : Nat) : List FieldInfo → Nat → Store → Store
  | [], _, store => store
  | field :: fields, slot, store =>
      if field.kind ≠ .str then copyTexts abi index fields slot store
      else copyTexts abi index fields (slot + 1) (copyText abi store index slot field.offset)

/-- `store_copy_value`. -/
def storeCopyValue (abi : Abi) (store : Store) (index : Nat) (value : Mem Datum) : Store :=
  copyTexts abi index store.type.fields 0
    { store with rows := transfer store.rows (store.rowAt index) value 0 store.type.size }

/-- `arena_intern`, `room` telling whether the arena has room. -/
def arenaIntern (room : Bool) (text : Bytes) : Option Pointer :=
  if text.length > RUNTIME_MAX_TEXT then none
  else if room then some (.other text)
  else none

/-- The loop of `store_copy_row`, from field `i` on, the copy standing at `base`
    of `out`: the copy, and whether every string was copied. -/
def copyStrings (abi : Abi) (store : Store) (index : Nat) (room : Nat → Bool) (base : Nat) :
    List FieldInfo → Nat → Mem Datum → Bool → Mem Datum × Bool
  | [], _, out, result => (out, result)
  | field :: fields, i, out, result =>
      if field.kind ≠ .str then copyStrings abi store index room base fields (i + 1) out result
      else
        match loadPointer abi store.rows (store.rowAt index + field.offset) with
        | none =>
            copyStrings abi store index room base fields (i + 1)
              (storePointer abi out (base + field.offset) none) result
        | some source =>
            let copy := arenaIntern (room i) (store.stringAt source)
            copyStrings abi store index room base fields (i + 1)
              (storePointer abi out (base + field.offset) copy) (result && copy.isSome)

/-- `store_copy_row`: the copy, and whether the function returns 0. -/
def storeCopyRow (abi : Abi) (store : Store) (index : Nat) (room : Nat → Bool) (out : Mem Datum)
    (base : Nat) : Mem Datum × Bool :=
  let copied := copyStrings abi store index room base store.type.fields 0
    (transfer out base store.rows (store.rowAt index) store.type.size) true
  if copied.2 then copied else (clear copied.1 base store.type.size, false)

/-! ## The operations -/

/-- `store_count`. -/
def storeCount (abi : Abi) (store : Store) : Nat :=
  if storeValid abi store then if storeCountValid store then store.count else 0
  else 0

/-- `store_write`, a `value` of `none` being `NULL`. -/
def storeWrite (abi : Abi) (store : Store) (index : Int) (value : Option (Mem Datum))
    (append : Bool) : Store × Int :=
  match value with
  | none => (store, -1)
  | some value =>
      if storeValid abi store then
        let index := if append then (store.count : Int) else index
        if storeCountValid store ∧ index ≥ 0 ∧ index < store.capacity
            ∧ (append ∨ index < store.count) ∧ storeValueValid abi store value then
          let copied := storeCopyValue abi store index.toNat value
          (if append then { copied with count := copied.count + 1 } else copied, index)
        else (store, -1)
      else (store, -1)

/-- `store_add`. -/
def storeAdd (abi : Abi) (store : Store) (value : Option (Mem Datum)) : Store × Int :=
  storeWrite abi store 0 value true

/-- `store_put`. -/
def storePut (abi : Abi) (store : Store) (index : Int) (value : Option (Mem Datum)) :
    Store × Int :=
  let written := storeWrite abi store index value false
  (written.1, if written.2 ≥ 0 then 0 else -1)

/-- `store_get`, which fills `out`: what stands there afterwards, and the result. -/
def storeGet (abi : Abi) (store : Store) (index : Int) (room : Nat → Bool)
    (out : Option (Mem Datum)) : Option (Mem Datum) × Int :=
  match out with
  | none => (none, -1)
  | some out =>
      if storeValid abi store then
        let cleared := clear out 0 store.type.size
        if storeCountValid store ∧ index ≥ 0 ∧ index < store.count then
          let copied := storeCopyRow abi store index.toNat room cleared 0
          (some copied.1, if copied.2 then 0 else -1)
        else (some cleared, -1)
      else (some out, -1)

/-- The members of a `RowList` that `store_list` sets. -/
structure RowList where
  type : Option TypeInfo := none
  items : Mem Datum := zeroed
  count : Nat := 0
  size : Nat := 0

/-- The loop of `store_list` over `n` rows from row `i` on: the rows copied, and
    whether no copy failed. -/
def copyRows (abi : Abi) (store : Store) (room : Nat → Nat → Bool) :
    Nat → Nat → Mem Datum → Mem Datum × Bool
  | 0, _, rows => (rows, true)
  | n + 1, i, rows =>
      let copied := storeCopyRow abi store i (room i) rows (i * store.type.size)
      if copied.2 then copyRows abi store room n (i + 1) copied.1 else (copied.1, false)

/-- `store_list`, `alloc` telling whether `request_alloc` gives the array of the
    rows, which holds `fresh`: the list, and the message of `request_fail`. -/
def storeList (abi : Abi) (store : Store) (alloc : Bool) (fresh : Mem Datum)
    (room : Nat → Nat → Bool) : RowList × Option Bytes :=
  if storeValid abi store = false then ({}, some (lit "invalid store"))
  else if storeCountValid store = false ∨ store.count > PAGE_MAX then
    ({}, some (lit "store exceeds collection limit"))
  else if store.count > 0 ∧ alloc = false then
    ({}, some (lit "store snapshot allocation failed"))
  else
    let copied := copyRows abi store room store.count 0 fresh
    if copied.2 then
      ({ type := some store.type, items := copied.1, count := store.count,
         size := if store.count > 0 then store.count else 20 }, none)
    else ({}, some (lit "store snapshot allocation failed"))

/-- `store_clear`. -/
def storeClear (abi : Abi) (store : Store) : Store :=
  if storeValid abi store then
    { store with
      rows := clear store.rows 0 (store.capacity * store.type.size)
      text := write store.text 0 (List.replicate store.textSize 0)
      count := 0 }
  else store

/-! ## Records

    What a row says: the bytes of its fields and the contents of its strings. -/

/-- What a field says. -/
inductive Field where
  | data (bytes : List (MByte Datum))
  | text (content : Option Bytes)
  deriving DecidableEq

abbrev Record := List Field

/-- What the field at `o` says, `string` giving the string at a pointer. -/
def fieldAt (abi : Abi) (string : Pointer → Bytes) (m : Mem Datum) (o : Nat) (field : FieldInfo) :
    Field :=
  if field.kind = .str then .text ((loadPointer abi m o).map string)
  else .data (bytesAt m o field.size)

/-- What the fields of the row at `base` say. -/
def recordAt (abi : Abi) (string : Pointer → Bytes) (fields : List FieldInfo) (m : Mem Datum)
    (base : Nat) : Record :=
  fields.map fun field => fieldAt abi string m (base + field.offset) field

/-- The records that a store holds. -/
def Store.records (abi : Abi) (store : Store) : List Record :=
  (List.range store.count).map fun i =>
    recordAt abi store.stringAt store.type.fields store.rows (store.rowAt i)

/-- A pointer of someone who uses the store. -/
def elsewhere : Pointer → Bytes
  | .text _ => []
  | .other content => cstr content

/-- A field whose string is `NULL` or no string of the store says `v`. -/
def FieldShows (abi : Abi) (m : Mem Datum) (o : Nat) (field : FieldInfo) : Field → Prop
  | .data bytes => field.kind ≠ .str ∧ bytesAt m o field.size = bytes
  | .text none => field.kind = .str ∧ load m o (abi.sizeOf .str) = .zero
  | .text (some text) =>
      field.kind = .str ∧ ∃ content,
        load m o (abi.sizeOf .str) = .value (.pointer (.other content)) ∧ cstr content = text

/-- A struct with no string of the store says `record`. -/
def Shows (abi : Abi) (m : Mem Datum) (base : Nat) (fields : List FieldInfo) (record : Record) :
    Prop :=
  List.Forall₂ (fun field v => FieldShows abi m (base + field.offset) field v) fields record

/-- A string fits into a slot. -/
def fitsSlot : Field → Bool
  | .text (some text) => text.length < STORE_TEXT_LEN
  | _ => true

/-- Every string of the record fits into a slot. -/
def Storable (record : Record) : Prop := ∀ v ∈ record, fitsSlot v = true

instance (record : Record) : Decidable (Storable record) :=
  inferInstanceAs (Decidable (∀ v ∈ record, fitsSlot v = true))

/-- Field `i` of a row of the store says `v`: a string stands in its own slot. -/
def FieldHolds (abi : Abi) (store : Store) (index slot : Nat) (field : FieldInfo) : Field → Prop
  | .data bytes =>
      field.kind ≠ .str ∧ bytesAt store.rows (store.rowAt index + field.offset) field.size = bytes
  | .text none =>
      field.kind = .str
        ∧ load store.rows (store.rowAt index + field.offset) (abi.sizeOf .str) = .zero
  | .text (some text) =>
      field.kind = .str
        ∧ load store.rows (store.rowAt index + field.offset) (abi.sizeOf .str)
            = .value (.pointer (.text (store.slotAt index slot)))
        ∧ Holds store.text (store.slotAt index slot) text ∧ text.length < STORE_TEXT_LEN

/-- The slot behind a field. -/
def slotBehind (field : FieldInfo) (slot : Nat) : Nat :=
  if field.kind = .str then slot + 1 else slot

/-- The row of the store says `record`, its strings being numbered from `slot`. -/
def RowHolds (abi : Abi) (store : Store) (index : Nat) : List FieldInfo → Nat → Record → Prop
  | [], _, [] => True
  | field :: fields, slot, v :: record =>
      FieldHolds abi store index slot field v
        ∧ RowHolds abi store index fields (slotBehind field slot) record
  | _, _, _ => False

/-! ## Flat types -/

/-- A field of a flat type. -/
structure FlatField (abi : Abi) (type : TypeInfo) (field : FieldInfo) : Prop where
  pos : 0 < field.size
  size : field.size = fieldStorageSize abi field.kind field.flags.nullable
  inside : field.offset + field.size ≤ type.size

/-- The fields take bytes of their own. -/
def FieldsApart (fields : List FieldInfo) : Prop :=
  fields.Pairwise fun f g => Apart f.offset f.size g.offset g.size

theorem FlatField.text {abi : Abi} {type : TypeInfo} {field : FieldInfo}
    (h : FlatField abi type field) (hkind : field.kind = .str) : field.size = abi.sizeOf .str := by
  have hsize := h.size
  rw [hkind, fieldStorageSize] at hsize
  split at hsize
  · exact absurd hsize (Nat.pos_iff_ne_zero.mp h.pos)
  · exact hsize

theorem overlaps_eq_false {field prior : FieldInfo} {size : Nat}
    (h : overlaps field prior size = false) :
    Apart prior.offset prior.size field.offset size := by
  rw [overlaps, Bool.and_eq_false_iff, decide_eq_false_iff_not, decide_eq_false_iff_not] at h
  rcases h with h | h
  · exact Or.inl (Nat.le_of_not_lt h)
  · exact Or.inr (Nat.le_of_not_lt h)

/-- What the loop of `store_type_valid` checks. -/
theorem fieldsFlat_spec {abi : Abi} {type : TypeInfo} {fields : List FieldInfo} :
    ∀ {priors : List FieldInfo}, fieldsFlat abi type priors fields = true →
      (∀ field ∈ fields, FlatField abi type field) ∧ FieldsApart fields
        ∧ ∀ prior ∈ priors, ∀ field ∈ fields,
            Apart prior.offset prior.size field.offset field.size := by
  induction fields with
  | nil =>
      exact fun _ => ⟨fun _ hf => (nomatch hf), List.Pairwise.nil, fun _ _ _ hf => (nomatch hf)⟩
  | cons field fields ih =>
      intro priors h
      rw [fieldsFlat] at h
      split at h
      · exact nomatch h
      split at h
      · exact nomatch h
      rename_i hfield hprior
      push Not at hfield
      obtain ⟨hpos, hsize, -, hoffset, hinside⟩ := hfield
      obtain ⟨hfields, hapart, hpriors⟩ := ih h
      have hflat : FlatField abi type field :=
        ⟨by omega, hsize, by omega⟩
      have hbefore : ∀ prior ∈ priors, Apart prior.offset prior.size field.offset field.size := by
        intro prior hmem
        have hno : overlaps field prior
            (fieldStorageSize abi field.kind field.flags.nullable) = false :=
          Bool.eq_false_iff.mpr fun hyes => hprior (List.any_eq_true.mpr ⟨prior, hmem, hyes⟩)
        rw [← hsize] at hno
        exact overlaps_eq_false hno
      refine ⟨List.forall_mem_cons.mpr ⟨hflat, hfields⟩, List.pairwise_cons.mpr ⟨?_, hapart⟩, ?_⟩
      · exact hpriors field (List.mem_append_right priors List.mem_cons_self)
      · intro prior hmem
        exact List.forall_mem_cons.mpr
          ⟨hbefore prior hmem, hpriors prior (List.mem_append_left [field] hmem)⟩

/-- **Flat types**: the fields of an accepted type lie inside it, apart from each
    other. -/
theorem storeTypeValid_spec {abi : Abi} {type : TypeInfo} (h : storeTypeValid abi type = true) :
    0 < type.size ∧ (∀ field ∈ type.fields, FlatField abi type field) ∧ FieldsApart type.fields := by
  rw [storeTypeValid] at h
  split at h
  · exact nomatch h
  rename_i hheader
  push Not at hheader
  obtain ⟨hfields, hapart, -⟩ := fieldsFlat_spec h
  exact ⟨Nat.pos_iff_ne_zero.mpr hheader.1, hfields, hapart⟩

/-! ## Slots -/

theorem countTexts_cons (field : FieldInfo) (fields : List FieldInfo) (slot : Nat) :
    slotBehind field slot + countTexts fields = slot + countTexts (field :: fields) := by
  rw [slotBehind, countTexts, countTexts, List.countP_cons]
  by_cases hkind : field.kind = .str
  · rw [if_pos hkind, if_pos (decide_eq_true hkind), Nat.add_assoc, Nat.add_comm 1]
  · rw [if_neg hkind, if_neg (by rwa [decide_eq_true_iff]), Nat.add_zero]

theorem le_slotBehind (field : FieldInfo) (slot : Nat) : slot ≤ slotBehind field slot := by
  rw [slotBehind]
  split
  · exact Nat.le_succ slot
  · exact Nat.le_refl slot

theorem Store.slotAt_succ (store : Store) (index slot : Nat) :
    store.slotAt index (slot + 1) = store.slotAt index slot + STORE_TEXT_LEN := by
  rw [Store.slotAt, Store.slotAt, ← Nat.add_assoc, Nat.add_mul _ 1, Nat.one_mul]

theorem Store.slotAt_le (store : Store) (index : Nat) {slot slot' : Nat} (h : slot ≤ slot') :
    store.slotAt index slot ≤ store.slotAt index slot' :=
  Nat.mul_le_mul_right STORE_TEXT_LEN (Nat.add_le_add_left h _)

/-- The slot of a string field is one of those that the fields take. -/
theorem Store.slotAt_first (store : Store) (index slot : Nat) {field : FieldInfo}
    (hkind : field.kind = .str) (fields : List FieldInfo) :
    store.slotAt index slot + STORE_TEXT_LEN
      ≤ store.slotAt index (slot + countTexts (field :: fields)) := by
  have hcount := countTexts_cons field fields slot
  rw [slotBehind, if_pos hkind] at hcount
  rw [← hcount, ← store.slotAt_succ]
  exact store.slotAt_le index (Nat.le_add_right (slot + 1) (countTexts fields))

/-! ## Fields keep what they say -/

section Keep

variable {abi : Abi}

theorem FieldShows.congr {m m' : Mem Datum} {o o' : Nat} {field : FieldInfo} {v : Field}
    {type : TypeInfo} (hflat : FlatField abi type field)
    (hsame : ∀ i < field.size, m' (o' + i) = m (o + i)) (h : FieldShows abi m o field v) :
    FieldShows abi m' o' field v := by
  have hload : field.kind = .str →
      load m' o' (abi.sizeOf .str) = load m o (abi.sizeOf .str) := by
    intro hkind
    rw [← hflat.text hkind]
    exact load_bytes hsame hflat.pos
  match v, h with
  | .data bytes, ⟨hkind, hbytes⟩ => exact ⟨hkind, (bytesAt_congr hsame).trans hbytes⟩
  | .text none, ⟨hkind, hzero⟩ => exact ⟨hkind, (hload hkind).trans hzero⟩
  | .text (some text), ⟨hkind, content, hvalue, htext⟩ =>
      exact ⟨hkind, content, (hload hkind).trans hvalue, htext⟩

/-- What a struct says depends on the bytes of its fields, wherever it stands. -/
theorem Shows.congr {m m' : Mem Datum} {base base' : Nat} {fields : List FieldInfo}
    {record : Record} {type : TypeInfo} (hflat : ∀ field ∈ fields, FlatField abi type field)
    (hsame : ∀ field ∈ fields, ∀ i < field.size,
      m' (base' + field.offset + i) = m (base + field.offset + i))
    (h : Shows abi m base fields record) : Shows abi m' base' fields record := by
  have hboth := (List.forall₂_and_left fields record).mpr
    ⟨fun f hf => And.intro (hflat f hf) (hsame f hf), h⟩
  exact List.Forall₂.imp (fun _ _ h => h.2.congr h.1.1 h.1.2) hboth

/-- What a field of the store says depends on its bytes and on its slot. -/
theorem FieldHolds.congr {store store' : Store} {index slot : Nat} {field : FieldInfo} {v : Field}
    {type : TypeInfo} (h : FieldHolds abi store index slot field v)
    (hflat : FlatField abi type field) (hrow : store'.rowAt index = store.rowAt index)
    (hslot : store'.slotAt index slot = store.slotAt index slot)
    (hrows : AgreeOn store'.rows store.rows (store.rowAt index + field.offset) field.size)
    (htext : field.kind = .str → ∀ a, store.slotAt index slot ≤ a →
      a < store.slotAt index slot + STORE_TEXT_LEN → store'.text a = store.text a) :
    FieldHolds abi store' index slot field v := by
  have hload : field.kind = .str →
      load store'.rows (store'.rowAt index + field.offset) (abi.sizeOf .str)
        = load store.rows (store.rowAt index + field.offset) (abi.sizeOf .str) := by
    intro hkind
    rw [← hflat.text hkind, hrow]
    exact load_congr hrows hflat.pos
  match v, h with
  | .data bytes, ⟨hkind, hbytes⟩ =>
      rw [← hrow] at hrows hbytes
      exact ⟨hkind, (bytesAt_congr hrows.byte).trans hbytes⟩
  | .text none, ⟨hkind, hzero⟩ => exact ⟨hkind, (hload hkind).trans hzero⟩
  | .text (some text), ⟨hkind, hvalue, hholds, hlength⟩ =>
      refine ⟨hkind, (hload hkind).trans (by rw [hslot]; exact hvalue), ?_, hlength⟩
      rw [hslot]
      exact hholds.congr fun a h1 h2 =>
        htext hkind a h1 (Nat.lt_of_lt_of_le h2 (Nat.add_le_add_left hlength _))

/-- A row depends on its own bytes and on its slots. -/
theorem RowHolds.congr (store store' : Store) {index : Nat} {type : TypeInfo}
    (hrow : store'.rowAt index = store.rowAt index)
    (hslots : ∀ slot, store'.slotAt index slot = store.slotAt index slot) {fields : List FieldInfo} :
    ∀ {slot : Nat} {record : Record}, (∀ field ∈ fields, FlatField abi type field) →
      (∀ field ∈ fields,
        AgreeOn store'.rows store.rows (store.rowAt index + field.offset) field.size) →
      (∀ a, store.slotAt index slot ≤ a → a < store.slotAt index (slot + countTexts fields) →
        store'.text a = store.text a) →
      RowHolds abi store index fields slot record → RowHolds abi store' index fields slot record := by
  induction fields with
  | nil =>
      intro slot record _ _ _ h
      cases record with
      | nil => trivial
      | cons v record => exact nomatch h
  | cons field fields ih =>
      intro slot record hflat hrows htext h
      cases record with
      | nil => exact nomatch h
      | cons v record =>
          obtain ⟨hfirst, hrest⟩ := h
          obtain ⟨hflat1, hflat2⟩ := List.forall_mem_cons.mp hflat
          obtain ⟨hrows1, hrows2⟩ := List.forall_mem_cons.mp hrows
          refine ⟨hfirst.congr hflat1 hrow (hslots slot) hrows1 ?_, ih hflat2 hrows2 ?_ hrest⟩
          · intro hkind a h1 h2
            exact htext a h1 (Nat.lt_of_lt_of_le h2 (store.slotAt_first index slot hkind fields))
          · intro a h1 h2
            rw [countTexts_cons] at h2
            exact htext a (Nat.le_trans (store.slotAt_le index (le_slotBehind field slot)) h1) h2

end Keep

/-! ## Copying a record into the store -/

section CopyIn

variable {abi : Abi} {type : TypeInfo}

theorem loadPointer_zero {m : Mem Datum} {o : Nat} (h : load m o (abi.sizeOf .str) = .zero) :
    loadPointer abi m o = none := by
  rw [loadPointer, h]

theorem loadPointer_value {m : Mem Datum} {o : Nat} {p : Pointer}
    (h : load m o (abi.sizeOf .str) = .value (.pointer p)) : loadPointer abi m o = some p := by
  rw [loadPointer, h]

/-- Copying one string: it stands in its slot, and only its pointer and its slot
    are written. -/
theorem copyText_spec {store : Store} {index : Nat} (slot : Nat) {field : FieldInfo}
    {content : Option Bytes} (hflat : FlatField abi type field)
    (hshows : FieldShows abi store.rows (store.rowAt index + field.offset) field (.text content))
    (hstorable : fitsSlot (.text content) = true) :
    ∃ rows text, copyText abi store index slot field.offset
        = { store with rows := rows, text := text }
      ∧ FieldHolds abi { store with rows := rows, text := text } index slot field (.text content)
      ∧ (∀ {o size : Nat}, Apart (store.rowAt index + field.offset) field.size o size →
          AgreeOn rows store.rows o size)
      ∧ ∀ a, a < store.slotAt index slot ∨ store.slotAt index slot + STORE_TEXT_LEN ≤ a →
          text a = store.text a := by
  have hpos : 0 < abi.sizeOf .str := abi.sizeOf_pos .str
  cases content with
  | none =>
      obtain ⟨hkind, hzero⟩ := hshows
      rw [hflat.text hkind]
      refine ⟨storePointer abi store.rows (store.rowAt index + field.offset) none,
        write store.text (store.slotAt index slot) [0], ?_, ?_, ?_, ?_⟩
      · rw [copyText, loadPointer_zero hzero]
      · exact ⟨hkind, load_clear _ _ _⟩
      · exact fun h => clear_apart store.rows h
      · exact fun a ha => write_outside store.text [0] (ha.imp_right (Nat.le_trans (by
          exact Nat.add_le_add_left (by decide) _)))
  | some text =>
      obtain ⟨hkind, content, hvalue, rfl⟩ := hshows
      have hlength : (cstr content).length < STORE_TEXT_LEN := of_decide_eq_true hstorable
      rw [hflat.text hkind]
      refine ⟨storePointer abi store.rows (store.rowAt index + field.offset)
          (some (.text (store.slotAt index slot))),
        write store.text (store.slotAt index slot) (cstr content ++ [0]), ?_, ?_, ?_, ?_⟩
      · have hstrnlen : store.strnlen (.other content) = (cstr content).length :=
          Nat.min_eq_left (Nat.le_of_lt hlength)
        have htake : (cstr content ++ [0]).take ((cstr content).length + 1) = cstr content ++ [0] :=
          List.take_of_length_le (by rw [List.length_append, List.length_singleton])
        rw [copyText, loadPointer_value hvalue]
        dsimp only
        rw [hstrnlen, Store.stringAt, htake]
      · exact ⟨hkind, load_store _ _ hpos, holds_write _ _ (cstr_no_nul content), hlength⟩
      · exact fun h => store_apart store.rows _ h
      · intro a ha
        refine write_outside store.text _ (ha.imp_right (Nat.le_trans ?_))
        rw [List.length_append, List.length_singleton]
        exact Nat.add_le_add_left hlength _

/-- The loop over the fields: the row says what it said before with its strings
    in their slots, and only their pointers and slots are written. -/
theorem copyTexts_spec {index : Nat} {fields : List FieldInfo} :
    ∀ (store : Store) (slot : Nat) {record : Record},
      (∀ field ∈ fields, FlatField abi type field) → FieldsApart fields →
      Shows abi store.rows (store.rowAt index) fields record → Storable record →
      ∃ rows text, copyTexts abi index fields slot store
          = { store with rows := rows, text := text }
        ∧ RowHolds abi { store with rows := rows, text := text } index fields slot record
        ∧ (∀ {o size : Nat},
            (∀ field ∈ fields, Apart (store.rowAt index + field.offset) field.size o size) →
            AgreeOn rows store.rows o size)
        ∧ ∀ a, a < store.slotAt index slot ∨ store.slotAt index (slot + countTexts fields) ≤ a →
            text a = store.text a := by
  induction fields with
  | nil =>
      intro store slot record _ _ hshows _
      cases hshows
      exact ⟨store.rows, store.text, rfl, trivial, fun _ _ _ => rfl, fun _ _ => rfl⟩
  | cons field fields ih =>
      intro store slot record hflat hapart hshows hstorable
      cases hshows with
      | cons hfirst hrest =>
          rename_i v record
          obtain ⟨hflat1, hflat2⟩ := List.forall_mem_cons.mp hflat
          obtain ⟨hapart1, hapart2⟩ := List.pairwise_cons.mp hapart
          obtain ⟨hstorable1, hstorable2⟩ := List.forall_mem_cons.mp hstorable
          have haway : ∀ f ∈ fields, Apart (store.rowAt index + f.offset) f.size
              (store.rowAt index + field.offset) field.size := by
            intro f hf
            rcases hapart1 f hf with h | h
            · exact Or.inr (by omega)
            · exact Or.inl (by omega)
          cases v with
          | data bytes =>
              obtain ⟨rows, text, heq, hholds, hrows, htext⟩ :=
                ih store slot hflat2 hapart2 hrest hstorable2
              have hbehind : slotBehind field slot = slot := if_neg hfirst.1
              refine ⟨rows, text, ?_, ⟨⟨hfirst.1, ?_⟩, ?_⟩, ?_, ?_⟩
              · rw [copyTexts, if_pos hfirst.1, heq]
              · exact (bytesAt_congr (hrows haway).byte).trans hfirst.2
              · rw [hbehind]
                exact hholds
              · exact fun h => hrows fun f hf => h f (List.mem_cons_of_mem field hf)
              · rw [← countTexts_cons, hbehind]
                exact htext
          | text content =>
              have hkind : field.kind = .str := by
                cases content with
                | none => exact hfirst.1
                | some text => exact hfirst.1
              obtain ⟨rows1, text1, heq1, hholds1, hrows1, htext1⟩ :=
                copyText_spec slot hflat1 hfirst hstorable1
              -- the other fields of the row are not touched by the first
              have hrest1 : Shows abi rows1 (store.rowAt index) fields record :=
                Shows.congr hflat2 (fun f hf => (hrows1 (Apart.symm (haway f hf))).byte) hrest
              obtain ⟨rows, text, heq, hholds, hrows, htext⟩ :=
                ih { store with rows := rows1, text := text1 } (slot + 1) hflat2 hapart2 hrest1
                  hstorable2
              have hbehind : slotBehind field slot = slot + 1 := if_pos hkind
              have hslot : store.slotAt index slot + STORE_TEXT_LEN = store.slotAt index (slot + 1) :=
                (store.slotAt_succ index slot).symm
              refine ⟨rows, text, ?_, ⟨?_, ?_⟩, ?_, ?_⟩
              · rw [copyTexts, if_neg (not_not_intro hkind), heq1, heq]
              · refine hholds1.congr hflat1 rfl rfl (hrows haway) fun _ a _ h => ?_
                exact htext a (Or.inl (Nat.lt_of_lt_of_le h (Nat.le_of_eq hslot)))
              · rw [hbehind]
                exact hholds
              · intro o size h
                exact (hrows fun f hf => h f (List.mem_cons_of_mem field hf)).trans
                  (hrows1 (h field List.mem_cons_self))
              · intro a ha
                rw [← countTexts_cons, hbehind] at ha
                have hle : store.slotAt index (slot + 1)
                    ≤ store.slotAt index (slot + 1 + countTexts fields) :=
                  store.slotAt_le index (Nat.le_add_right _ _)
                refine (htext a (ha.imp_left fun h => ?_)).trans (htext1 a (ha.imp_right fun h => ?_))
                · exact Nat.lt_of_lt_of_le h (store.slotAt_le index (Nat.le_succ slot))
                · exact Nat.le_trans (Nat.le_of_eq hslot) (Nat.le_trans hle h)

/-- The bytes of different rows, and of different rows' slots. -/
theorem blocks_apart {i j : Nat} (h : i ≠ j) (size : Nat) :
    Apart (i * size) size (j * size) size := by
  rcases Nat.lt_or_gt_of_ne h with h | h
  · exact Or.inl (by rw [← Nat.succ_mul]; exact Nat.mul_le_mul_right size h)
  · exact Or.inr (by rw [← Nat.succ_mul]; exact Nat.mul_le_mul_right size h)

theorem Store.rowAt_field (store : Store) (index : Nat) {field : FieldInfo}
    (h : FlatField abi store.type field) :
    store.rowAt index ≤ store.rowAt index + field.offset
      ∧ store.rowAt index + field.offset + field.size ≤ store.rowAt index + store.type.size :=
  ⟨Nat.le_add_right _ _, by have := h.inside; omega⟩

/-- **Writing a row**: it says what the value says, and what is outside of the
    row and its slots stays. -/
theorem storeCopyValue_spec {store : Store} (index : Nat) {value : Mem Datum} {record : Record}
    (htype : storeTypeValid abi store.type = true)
    (hshows : Shows abi value 0 store.type.fields record) (hstorable : Storable record) :
    ∃ rows text, storeCopyValue abi store index value = { store with rows := rows, text := text }
      ∧ RowHolds abi { store with rows := rows, text := text } index store.type.fields 0 record
      ∧ (∀ {o size : Nat}, Apart (store.rowAt index) store.type.size o size →
          AgreeOn rows store.rows o size)
      ∧ ∀ a, a < store.slotAt index 0
          ∨ store.slotAt index (countTexts store.type.fields) ≤ a → text a = store.text a := by
  obtain ⟨-, hflat, hapart⟩ := storeTypeValid_spec htype
  let moved := transfer store.rows (store.rowAt index) value 0 store.type.size
  have hmoved : Shows abi moved (store.rowAt index) store.type.fields record := by
    refine Shows.congr hflat (fun field hf i hi => ?_) hshows
    have hinside := (hflat field hf).inside
    rw [Nat.add_assoc, Nat.add_assoc]
    exact transfer_same store.rows value (store.rowAt index) 0 (by omega)
  obtain ⟨rows, text, heq, hholds, hrows, htext⟩ :=
    copyTexts_spec { store with rows := moved } 0 hflat hapart hmoved hstorable
  rw [Nat.zero_add] at htext
  refine ⟨rows, text, heq, hholds, fun h => ?_, htext⟩
  have hfields : ∀ field ∈ store.type.fields,
      Apart (store.rowAt index + field.offset) field.size _ _ :=
    fun field hf => h.mono (store.rowAt_field index (hflat field hf)) ⟨Nat.le_refl _, Nat.le_refl _⟩
  exact (hrows hfields).trans (transfer_apart store.rows value 0 h)

end CopyIn

/-! ## Copying a record out of the store -/

/-- The arena has room for each string of the record, from field `i` on. -/
def Fits (room : Nat → Bool) : Nat → Record → Bool
  | _, [] => true
  | i, .text (some _) :: record => room i && Fits room (i + 1) record
  | i, _ :: record => Fits room (i + 1) record

section CopyOut

variable {abi : Abi} {type : TypeInfo}

theorem arenaIntern_short {text : Bytes} (h : text.length < STORE_TEXT_LEN) (room : Bool) :
    arenaIntern room text = if room then some (.other text) else none :=
  if_neg (Nat.not_lt_of_le (Nat.le_trans (Nat.le_of_lt h) (by decide)))

/-- What a string of the store is read as. -/
theorem stringAt_slot {store : Store} {index slot : Nat} {text : Bytes}
    (hholds : Holds store.text (store.slotAt index slot) text) (hlength : text.length < STORE_TEXT_LEN)
    (hinside : store.slotAt index slot + STORE_TEXT_LEN ≤ store.textSize) :
    store.stringAt (.text (store.slotAt index slot)) = text :=
  hholds.cstr (Nat.le_trans hlength (by omega))

theorem storePointer_apart (m : Mem Datum) (copy : Option Pointer) {o o' size' : Nat}
    (h : Apart o (abi.sizeOf .str) o' size') : AgreeOn (storePointer abi m o copy) m o' size' := by
  cases copy with
  | none => exact clear_apart m h
  | some p => exact store_apart m _ h

/-- Copying one string: a pointer is stored, to a copy if there is room. -/
theorem copyStrings_text {store : Store} {index slot : Nat} (room : Nat → Bool) (base : Nat)
    {field : FieldInfo} (fields : List FieldInfo) (i : Nat) {content : Option Bytes}
    (out : Mem Datum) (result : Bool) (hfirst : FieldHolds abi store index slot field (.text content))
    (hinside : store.slotAt index slot + STORE_TEXT_LEN ≤ store.textSize) :
    ∃ copy found, copyStrings abi store index room base (field :: fields) i out result
        = copyStrings abi store index room base fields (i + 1)
            (storePointer abi out (base + field.offset) copy) (result && found)
      ∧ (∀ record, Fits room i (.text content :: record) = (found && Fits room (i + 1) record))
      ∧ (found = true → FieldShows abi (storePointer abi out (base + field.offset) copy)
          (base + field.offset) field (.text content)) := by
  cases content with
  | none =>
      obtain ⟨hkind, hzero⟩ := hfirst
      refine ⟨none, true, ?_, fun _ => rfl, fun _ => ⟨hkind, load_clear _ _ _⟩⟩
      rw [copyStrings, if_neg (not_not_intro hkind), loadPointer_zero hzero, Bool.and_true]
  | some text =>
      obtain ⟨hkind, hvalue, hholds, hlength⟩ := hfirst
      have hcopy : arenaIntern (room i) (store.stringAt (.text (store.slotAt index slot)))
          = if room i then some (.other text) else none := by
        rw [stringAt_slot hholds hlength hinside, arenaIntern_short hlength]
      refine ⟨if room i then some (.other text) else none, room i, ?_, fun _ => rfl, ?_⟩
      · rw [copyStrings, if_neg (not_not_intro hkind), loadPointer_value hvalue]
        dsimp only
        rw [hcopy]
        cases room i with
        | true => rfl
        | false => rfl
      · intro hroom
        rw [if_pos hroom]
        exact ⟨hkind, text, load_store _ _ (abi.sizeOf_pos .str), cstr_eq_self hholds.1⟩

/-- The loop over the fields: the copy says what the row says. -/
theorem copyStrings_spec {store : Store} {index base : Nat} (room : Nat → Bool)
    {fields : List FieldInfo} :
    ∀ {slot : Nat} (i : Nat) {record : Record} {out : Mem Datum} (result : Bool),
      (∀ field ∈ fields, FlatField abi type field) → FieldsApart fields →
      store.slotAt index (slot + countTexts fields) ≤ store.textSize →
      (∀ field ∈ fields, ∀ k < field.size,
        out (base + field.offset + k) = store.rows (store.rowAt index + field.offset + k)) →
      RowHolds abi store index fields slot record →
      ∃ out', copyStrings abi store index room base fields i out result
          = (out', result && Fits room i record)
        ∧ (Fits room i record = true → Shows abi out' base fields record)
        ∧ ∀ {o size : Nat}, (∀ field ∈ fields, Apart (base + field.offset) field.size o size) →
            AgreeOn out' out o size := by
  induction fields with
  | nil =>
      intro slot i record out result _ _ _ _ hholds
      cases record with
      | nil =>
          exact ⟨out, by rw [copyStrings, Fits, Bool.and_true], fun _ => List.Forall₂.nil,
            fun _ _ _ => rfl⟩
      | cons v record => exact nomatch hholds
  | cons field fields ih =>
      intro slot i record out result hflat hapart hinside hout hholds
      cases record with
      | nil => exact nomatch hholds
      | cons v record =>
          obtain ⟨hfirst, hrest⟩ := hholds
          obtain ⟨hflat1, hflat2⟩ := List.forall_mem_cons.mp hflat
          obtain ⟨hout1, hout2⟩ := List.forall_mem_cons.mp hout
          obtain ⟨hapart1, hapart2⟩ := List.pairwise_cons.mp hapart
          -- the other fields of the row are out of reach of what is written here
          have haway : ∀ f ∈ fields, Apart (base + field.offset) field.size
              (base + f.offset) f.size := by
            intro f hf
            rcases hapart1 f hf with h | h
            · exact Or.inl (by omega)
            · exact Or.inr (by omega)
          rw [← countTexts_cons] at hinside
          cases v with
          | data bytes =>
              obtain ⟨out', heq, hshows, hframe⟩ :=
                ih (i + 1) result hflat2 hapart2 hinside hout2 hrest
              refine ⟨out', ?_, fun hfits => List.Forall₂.cons ⟨hfirst.1, ?_⟩ (hshows hfits), ?_⟩
              · rw [copyStrings, if_pos hfirst.1, heq, Fits]
                exact fun _ h => nomatch h
              · have hkept := (hframe fun f hf => Apart.symm (haway f hf)).byte
                exact (bytesAt_congr fun k hk => (hkept k hk).trans (hout1 k hk)).trans hfirst.2
              · exact fun h => hframe fun f hf => h f (List.mem_cons_of_mem field hf)
          | text content =>
              have hkind : field.kind = .str := by
                cases content with
                | none => exact hfirst.1
                | some text => exact hfirst.1
              have hbehind : slotBehind field slot = slot + 1 := if_pos hkind
              have hslot : store.slotAt index slot + STORE_TEXT_LEN ≤ store.textSize := by
                rw [← store.slotAt_succ, ← hbehind]
                exact Nat.le_trans (store.slotAt_le index (Nat.le_add_right _ _)) hinside
              obtain ⟨copy, found, heq1, hfits, hshows1⟩ :=
                copyStrings_text room base fields i out result hfirst hslot
              -- a string is copied elsewhere: the field only gets its pointer
              have hstored : ∀ {o size : Nat}, Apart (base + field.offset) field.size o size →
                  AgreeOn (storePointer abi out (base + field.offset) copy) out o size :=
                fun h => storePointer_apart out copy (by rwa [hflat1.text hkind] at h)
              have hout1 : ∀ f ∈ fields, ∀ k < f.size,
                  storePointer abi out (base + field.offset) copy (base + f.offset + k)
                    = store.rows (store.rowAt index + f.offset + k) :=
                fun f hf k hk => ((hstored (haway f hf)).byte k hk).trans (hout2 f hf k hk)
              obtain ⟨out', heq, hshows, hframe⟩ :=
                ih (i + 1) (result && found) hflat2 hapart2 hinside hout1 hrest
              refine ⟨out', ?_, fun hall => ?_, fun h => ?_⟩
              · rw [heq1, heq, hfits, Bool.and_assoc]
              · rw [hfits, Bool.and_eq_true] at hall
                have hkept := (hframe fun f hf => Apart.symm (haway f hf)).byte
                exact List.Forall₂.cons ((hshows1 hall.1).congr hflat1 hkept) (hshows hall.2)
              · exact (hframe fun f hf => h f (List.mem_cons_of_mem field hf)).trans
                  (hstored (h field List.mem_cons_self))

/-- **Reading a row**: the copy says what the row says if there is room for its
    strings, and only the copy is written. -/
theorem storeCopyRow_spec {store : Store} {index base : Nat} {room : Nat → Bool} {out : Mem Datum}
    {record : Record} (htype : storeTypeValid abi store.type = true)
    (hinside : store.slotAt index (countTexts store.type.fields) ≤ store.textSize)
    (hholds : RowHolds abi store index store.type.fields 0 record) :
    ∃ out', storeCopyRow abi store index room out base = (out', Fits room 0 record)
      ∧ (if Fits room 0 record then Shows abi out' base store.type.fields record
          else AgreeOn out' zeroed base store.type.size)
      ∧ ∀ {o size : Nat}, Apart base store.type.size o size → AgreeOn out' out o size := by
  obtain ⟨-, hflat, hapart⟩ := storeTypeValid_spec htype
  let moved := transfer out base store.rows (store.rowAt index) store.type.size
  have hmoved : ∀ field ∈ store.type.fields, ∀ k < field.size,
      moved (base + field.offset + k) = store.rows (store.rowAt index + field.offset + k) := by
    intro field hf k hk
    have hfield := (hflat field hf).inside
    rw [Nat.add_assoc, Nat.add_assoc]
    exact transfer_same out store.rows base (store.rowAt index) (by omega)
  rw [← Nat.zero_add (countTexts store.type.fields)] at hinside
  obtain ⟨out', heq, hshows, hframe⟩ :=
    copyStrings_spec room 0 true hflat hapart hinside hmoved hholds
  have hout : ∀ {o size : Nat}, Apart base store.type.size o size → AgreeOn out' out o size := by
    intro o size h
    have hfields : ∀ field ∈ store.type.fields,
        Apart (base + field.offset) field.size o size :=
      fun field hf => h.mono ⟨Nat.le_add_right _ _, by have := (hflat field hf).inside; omega⟩
        ⟨Nat.le_refl _, Nat.le_refl _⟩
    exact (hframe hfields).trans (transfer_apart out store.rows (store.rowAt index) h)
  rw [storeCopyRow, heq, Bool.true_and]
  cases hfits : Fits room 0 record with
  | true => exact ⟨out', rfl, hshows hfits, hout⟩
  | false =>
      exact ⟨clear out' base store.type.size, rfl, clear_same out' base store.type.size,
        fun h => (clear_apart out' h).trans (hout h)⟩

end CopyOut

end RecordStore
