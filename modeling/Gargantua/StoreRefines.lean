import Gargantua.Lib.Runs
import Gargantua.EmittedTypes
import Gargantua.RecordStore

/-! # The store is a bounded list of records

    The reference has no rows and no slots: it is a list of records and a bound.
    The store answers every sequence of calls as the reference does, and what
    its rows say is the list. -/

namespace StoreRefines

open CString GeneratorSource RuntimeTypes EmittedTypes Memory TextArea Runs RecordStore

/-! ## Calls and replies -/

/-- A value that is handed over: its strings are `NULL` or stand elsewhere than
    in the store, whose arrays are its own. -/
structure Value (abi : Abi) (type : TypeInfo) where
  bytes : Mem Datum
  strings : ∀ field ∈ type.fields, field.kind = .str →
    load bytes field.offset (abi.sizeOf .str) = .zero
      ∨ ∃ content, load bytes field.offset (abi.sizeOf .str) = .value (.pointer (.other content))

/-- What a value says. -/
def Value.record {abi : Abi} {type : TypeInfo} (value : Value abi type) : Record :=
  recordAt abi elsewhere type.fields value.bytes 0

/-- A call, with what the arena answers in it. -/
inductive Call (V : Type) where
  | add (value : Option V)
  | put (index : Int) (value : Option V)
  | get (index : Int) (room : Nat → Bool) (out : Option (Mem Datum))
  | list (alloc : Bool) (fresh : Mem Datum) (room : Nat → Nat → Bool)
  | clear
  | count

/-- The same call with other values. -/
def Call.map {V W : Type} (f : V → W) : Call V → Call W
  | .add value => .add (value.map f)
  | .put index value => .put index (value.map f)
  | .get index room out => .get index room out
  | .list alloc fresh room => .list alloc fresh room
  | .clear => .clear
  | .count => .count

/-- What a call gives. -/
inductive Reply where
  | result (n : Int)
  | got (out : Option (Mem Datum)) (n : Int)
  | listed (list : RowList) (failure : Option Bytes)
  | cleared
  | counted (n : Nat)

/-- One call, under the lock. -/
def perform (abi : Abi) (type : TypeInfo) (store : Store) : Call (Value abi type) → Store × Reply
  | .add value =>
      let added := storeAdd abi store (value.map Value.bytes)
      (added.1, .result added.2)
  | .put index value =>
      let written := storePut abi store index (value.map Value.bytes)
      (written.1, .result written.2)
  | .get index room out =>
      let got := storeGet abi store index room out
      (store, .got got.1 got.2)
  | .list alloc fresh room =>
      let listed := storeList abi store alloc fresh room
      (store, .listed listed.1 listed.2)
  | .clear => (storeClear abi store, .cleared)
  | .count => (store, .counted (storeCount abi store))

/-! ## The reference -/

/-- What the reference gives. -/
inductive Answer where
  | result (n : Int)
  | record (record : Option Record)
  | records (records : Option (List Record))
  | cleared
  | counted (n : Nat)

/-- The arena has room for all strings of the records. -/
def AllFit (room : Nat → Nat → Bool) : Nat → List Record → Bool
  | _, [] => true
  | i, record :: records => Fits (room i) 0 record && AllFit room (i + 1) records

/-- The record at an index. -/
def recordOf (records : List Record) (index : Int) : Option Record :=
  if index ≥ 0 then records[index.toNat]? else none

/-- A list of at most `capacity` records. -/
def reference (capacity : Nat) (records : List Record) : Call Record → List Record × Answer
  | .add none => (records, .result (-1))
  | .add (some record) =>
      if records.length < capacity ∧ Storable record then
        (records ++ [record], .result records.length)
      else (records, .result (-1))
  | .put _ none => (records, .result (-1))
  | .put index (some record) =>
      if 0 ≤ index ∧ index < records.length ∧ Storable record then
        (records.set index.toNat record, .result 0)
      else (records, .result (-1))
  | .get _ _ none => (records, .record none)
  | .get index room (some _) =>
      (records, .record ((recordOf records index).filter (Fits room 0)))
  | .list alloc _ room =>
      if records.length ≤ PAGE_MAX ∧ (records = [] ∨ alloc) ∧ AllFit room 0 records then
        (records, .records (some records))
      else (records, .records none)
  | .clear => ([], .cleared)
  | .count => (records, .counted records.length)

/-- The reply says what the reference answers. -/
def Says (abi : Abi) (type : TypeInfo) : Reply → Answer → Prop
  | .result n, .result m => n = m
  | .got out n, .record (some record) =>
      n = 0 ∧ ∃ m, out = some m ∧ Shows abi m 0 type.fields record
  | .got out n, .record none => n = -1 ∧ ∀ m, out = some m → AgreeOn m zeroed 0 type.size
  | .listed list none, .records (some records) =>
      list.type = some type ∧ list.count = records.length
        ∧ ∀ i record, records[i]? = some record →
            Shows abi list.items (i * type.size) type.fields record
  | .listed list (some _), .records none => list.type = none ∧ list.count = 0
  | .cleared, .cleared => True
  | .counted n, .counted m => n = m
  | _, _ => False

/-- The rows of the store say `records`, each string in a slot of its own. -/
structure Refines (abi : Abi) (type : TypeInfo) (capacity : Nat) (store : Store)
    (records : List Record) : Prop where
  type_eq : store.type = type
  capacity_eq : store.capacity = capacity
  valid : storeValid abi store = true
  count : store.count = records.length
  bounded : records.length ≤ capacity
  rows : ∀ i record, records[i]? = some record →
    RowHolds abi store i store.type.fields 0 record

section Refinement

variable {abi : Abi} {type : TypeInfo} {capacity : Nat} {store : Store} {records : List Record}

theorem Value.shows (value : Value abi type) :
    Shows abi value.bytes 0 type.fields value.record := by
  refine List.forall₂_map_right_iff.mpr (List.forall₂_same.mpr fun field hf => ?_)
  rw [fieldAt, Nat.zero_add]
  by_cases hkind : field.kind = .str
  · rw [if_pos hkind]
    rcases value.strings field hf hkind with h | ⟨content, h⟩
    · rw [loadPointer_zero h]
      exact ⟨hkind, h⟩
    · rw [loadPointer_value h]
      exact ⟨hkind, content, h, rfl⟩
  · rw [if_neg hkind]
    exact ⟨hkind, rfl⟩

/-- `store_value_valid` looks at the strings of the value. -/
theorem storeValueValid_iff {value : Mem Datum} {record : Record}
    (h : Shows abi value 0 store.type.fields record) :
    storeValueValid abi store value = true ↔ Storable record := by
  rw [storeValueValid, List.all_eq_true]
  generalize store.type.fields = fields at h
  induction h with
  | nil => exact ⟨fun _ _ hv => (nomatch hv), fun _ _ hf => (nomatch hf)⟩
  | cons hfirst hrest ih =>
      rename_i field v fields record
      rw [Storable, List.forall_mem_cons, List.forall_mem_cons, ih, ← Storable]
      refine and_congr_left' ?_
      rw [Nat.zero_add] at hfirst
      match v, hfirst with
      | .data bytes, ⟨hkind, _⟩ => rw [if_neg hkind]; exact Iff.rfl
      | .text none, ⟨hkind, hzero⟩ => rw [if_pos hkind, loadPointer_zero hzero]; exact Iff.rfl
      | .text (some text), ⟨hkind, content, hvalue, htext⟩ =>
          rw [if_pos hkind, loadPointer_value hvalue, fitsSlot, decide_eq_true_iff,
            decide_eq_true_iff, Store.strnlen, Store.stringAt, htext, min_lt_iff]
          exact or_iff_left (Nat.lt_irrefl STORE_TEXT_LEN)

/-! ## What an accepted store is -/

theorem storeValid_spec (h : storeValid abi store = true) :
    storeTypeValid abi store.type = true ∧ store.textFields = countTexts store.type.fields := by
  rw [storeValid] at h
  split at h
  · exact nomatch h
  rename_i hheader
  push Not at hheader
  have htype : storeTypeValid abi store.type = true := Bool.eq_true_of_not_eq_false hheader.1
  have htexts := of_decide_eq_true h
  rw [storeTextFields, if_pos htype] at htexts
  exact ⟨htype, htexts.symm⟩

/-- The slots of different rows. -/
theorem slots_apart (store : Store) {i j : Nat} (h : i ≠ j) :
    store.slotAt i store.textFields ≤ store.slotAt j 0
      ∨ store.slotAt j store.textFields ≤ store.slotAt i 0 := by
  rcases blocks_apart h store.textFields with hlt | hlt
  · exact Or.inl (Nat.mul_le_mul_right STORE_TEXT_LEN hlt)
  · exact Or.inr (Nat.mul_le_mul_right STORE_TEXT_LEN hlt)

/-- The slots of a row lie in the text area. -/
theorem slots_inside (store : Store) {i : Nat} (h : i < store.capacity) :
    store.slotAt i store.textFields ≤ store.textSize := by
  refine Nat.mul_le_mul_right STORE_TEXT_LEN ?_
  rw [← Nat.succ_mul]
  exact Nat.mul_le_mul_right store.textFields h

/-! ## Each call -/

/-- Rows are not mixed up: writing one of them leaves what the others say. -/
theorem write_row (h : Refines abi type capacity store records) (index : Nat)
    {value : Value abi type} (hstorable : Storable value.record) :
    ∃ rows text, storeCopyValue abi store index value.bytes
        = { store with rows := rows, text := text }
      ∧ RowHolds abi { store with rows := rows, text := text } index store.type.fields 0
          value.record
      ∧ ∀ i record, i ≠ index → records[i]? = some record →
          RowHolds abi { store with rows := rows, text := text } i store.type.fields 0 record := by
  obtain ⟨htype, htexts⟩ := storeValid_spec h.valid
  obtain ⟨-, hflat, -⟩ := storeTypeValid_spec htype
  have hshows : Shows abi value.bytes 0 store.type.fields value.record := by
    rw [h.type_eq]
    exact value.shows
  obtain ⟨rows, text, heq, hholds, hrows, htext⟩ :=
    storeCopyValue_spec index htype hshows hstorable
  refine ⟨rows, text, heq, hholds, fun i record hne hi => ?_⟩
  have hrow : AgreeOn rows store.rows (store.rowAt i) store.type.size :=
    hrows (blocks_apart (Ne.symm hne) store.type.size)
  refine RowHolds.congr store { store with rows := rows, text := text } rfl (fun _ => rfl) hflat
    (fun field hf => hrow.mono (store.rowAt_field i (hflat field hf))) (fun a h1 h2 => ?_)
    (h.rows i record hi)
  rw [Nat.zero_add] at h2
  rw [← htexts] at h2 htext
  refine htext a ?_
  rcases slots_apart store hne with hlt | hlt
  · exact Or.inl (Nat.lt_of_lt_of_le h2 hlt)
  · exact Or.inr (Nat.le_trans hlt h1)

/-- The store with new rows. -/
theorem Refines.withRows (h : Refines abi type capacity store records) {rows : Mem Datum}
    {text : Area} {records' : List Record} (hbounded : records'.length ≤ capacity)
    (hrows : ∀ i record, records'[i]? = some record →
      RowHolds abi { store with rows := rows, text := text } i store.type.fields 0 record) :
    Refines abi type capacity
      { store with rows := rows, text := text, count := records'.length } records' := by
  obtain ⟨htype, -⟩ := storeValid_spec h.valid
  obtain ⟨-, hflat, -⟩ := storeTypeValid_spec htype
  refine ⟨h.type_eq, h.capacity_eq, h.valid, rfl, hbounded, fun i record hi => ?_⟩
  exact RowHolds.congr { store with rows := rows, text := text }
    { store with rows := rows, text := text, count := records'.length } rfl (fun _ => rfl) hflat
    (fun _ _ _ _ => rfl) (fun _ _ _ => rfl) (hrows i record hi)

theorem Refines.count_valid (h : Refines abi type capacity store records) :
    storeCountValid store = true := by
  rw [storeCountValid, h.count, h.capacity_eq]
  exact decide_eq_true h.bounded

theorem Refines.shows (h : Refines abi type capacity store records) (value : Value abi type) :
    Shows abi value.bytes 0 store.type.fields value.record := by
  rw [h.type_eq]
  exact value.shows

/-- `store_add` writes behind the last row. -/
theorem storeAdd_eq (h : Refines abi type capacity store records) (value : Value abi type) :
    storeAdd abi store (some value.bytes)
      = if records.length < capacity ∧ Storable value.record then
          let copied := storeCopyValue abi store records.length value.bytes
          ({ copied with count := copied.count + 1 }, (records.length : Int))
        else (store, -1) := by
  rw [storeAdd, storeWrite, if_pos h.valid]
  simp only [if_true, h.count, h.capacity_eq, Int.toNat_natCast]
  refine if_congr ?_ rfl rfl
  rw [storeValueValid_iff (h.shows value)]
  constructor
  · rintro ⟨-, -, hfree, -, hstorable⟩
    exact ⟨Int.ofNat_lt.mp hfree, hstorable⟩
  · rintro ⟨hfree, hstorable⟩
    exact ⟨h.count_valid, Int.natCast_nonneg _, Int.ofNat_lt.mpr hfree, Or.inl trivial, hstorable⟩

/-- `store_put` writes a row that is there. -/
theorem storePut_eq (h : Refines abi type capacity store records) (value : Value abi type)
    (index : Int) :
    storePut abi store index (some value.bytes)
      = if 0 ≤ index ∧ index < records.length ∧ Storable value.record then
          (storeCopyValue abi store index.toNat value.bytes, 0)
        else (store, -1) := by
  rw [storePut, storeWrite, if_pos h.valid]
  simp only [Bool.false_eq_true, if_false, false_or, h.count, h.capacity_eq,
    storeValueValid_iff (h.shows value), h.count_valid, true_and]
  have hbounded := h.bounded
  by_cases hthere : 0 ≤ index ∧ index < records.length ∧ Storable value.record
  · have hcond : index ≥ 0 ∧ index < capacity ∧ index < records.length ∧ Storable value.record :=
      ⟨hthere.1, by omega, hthere.2⟩
    rw [if_pos hcond, if_pos hthere]
    dsimp only
    rw [if_pos hthere.1]
  · have hcond : ¬ (index ≥ 0 ∧ index < capacity ∧ index < records.length
        ∧ Storable value.record) :=
      fun ⟨hpos, _, hlt, hstorable⟩ => hthere ⟨hpos, hlt, hstorable⟩
    rw [if_neg hcond, if_neg hthere]
    rfl

theorem perform_add (h : Refines abi type capacity store records)
    (value : Option (Value abi type)) :
    Refines abi type capacity (perform abi type store (.add value)).1
        (reference capacity records (.add (value.map Value.record))).1
      ∧ Says abi type (perform abi type store (.add value)).2
        (reference capacity records (.add (value.map Value.record))).2 := by
  cases value with
  | none => exact ⟨h, rfl⟩
  | some value =>
      rw [perform, Option.map_some, Option.map_some, storeAdd_eq h, reference]
      by_cases hfree : records.length < capacity ∧ Storable value.record
      · rw [if_pos hfree, if_pos hfree]
        obtain ⟨rows, text, heq, hholds, hothers⟩ := write_row h records.length hfree.2
        rw [heq]
        dsimp only
        have hlength : (records ++ [value.record]).length = store.count + 1 := by
          rw [List.length_append, List.length_singleton, h.count]
        rw [← hlength]
        refine ⟨h.withRows (by rw [hlength, h.count]; exact hfree.1) fun i record hi => ?_, rfl⟩
        by_cases hlast : i = records.length
        · subst hlast
          rw [List.getElem?_concat_length] at hi
          obtain rfl := Option.some.inj hi
          exact hholds
        · have hlt : i < records.length := by
            have hi' := (List.getElem?_eq_some_iff.mp hi).1
            rw [List.length_append, List.length_singleton] at hi'
            omega
          rw [List.getElem?_append_left hlt] at hi
          exact hothers i record hlast hi
      · rw [if_neg hfree, if_neg hfree]
        exact ⟨h, rfl⟩

theorem perform_put (h : Refines abi type capacity store records) (index : Int)
    (value : Option (Value abi type)) :
    Refines abi type capacity (perform abi type store (.put index value)).1
        (reference capacity records (.put index (value.map Value.record))).1
      ∧ Says abi type (perform abi type store (.put index value)).2
        (reference capacity records (.put index (value.map Value.record))).2 := by
  cases value with
  | none => exact ⟨h, rfl⟩
  | some value =>
      rw [perform, Option.map_some, Option.map_some, storePut_eq h, reference]
      by_cases hthere : 0 ≤ index ∧ index < records.length ∧ Storable value.record
      · rw [if_pos hthere, if_pos hthere]
        obtain ⟨rows, text, heq, hholds, hothers⟩ := write_row h index.toNat hthere.2.2
        rw [heq]
        dsimp only
        have hlength : (records.set index.toNat value.record).length = records.length :=
          List.length_set
        have hcount : store.count = (records.set index.toNat value.record).length := by
          rw [hlength, h.count]
        rw [hcount]
        refine ⟨h.withRows (by rw [hlength]; exact h.bounded) fun i record hi => ?_, rfl⟩
        by_cases hsame : i = index.toNat
        · subst hsame
          have hlt : index.toNat < records.length := by omega
          rw [List.getElem?_set_self hlt] at hi
          obtain rfl := Option.some.inj hi
          exact hholds
        · rw [List.getElem?_set_ne (Ne.symm hsame)] at hi
          exact hothers i record hsame hi
      · rw [if_neg hthere, if_neg hthere]
        exact ⟨h, rfl⟩

/-- A row that is there can be read. -/
theorem Refines.copyRow (h : Refines abi type capacity store records) {i : Nat} {record : Record}
    (hi : records[i]? = some record) (room : Nat → Bool) (out : Mem Datum) (base : Nat) :
    ∃ out', storeCopyRow abi store i room out base = (out', Fits room 0 record)
      ∧ (if Fits room 0 record then Shows abi out' base store.type.fields record
          else AgreeOn out' zeroed base store.type.size)
      ∧ ∀ {o size : Nat}, Apart base store.type.size o size → AgreeOn out' out o size := by
  obtain ⟨htype, htexts⟩ := storeValid_spec h.valid
  have hi' : i < store.capacity := by
    have hlt := (List.getElem?_eq_some_iff.mp hi).1
    have hbounded := h.bounded
    rw [h.capacity_eq]
    omega
  have hinside := slots_inside store hi'
  rw [htexts] at hinside
  exact storeCopyRow_spec htype hinside (h.rows i record hi)

theorem perform_get (h : Refines abi type capacity store records) (index : Int)
    (room : Nat → Bool) (out : Option (Mem Datum)) :
    Says abi type (perform abi type store (.get index room out)).2
      (reference capacity records (.get index room out)).2 := by
  cases out with
  | none => exact ⟨rfl, fun _ hm => nomatch hm⟩
  | some out =>
      rw [perform, storeGet, if_pos h.valid, reference]
      simp only [h.count_valid, h.count, true_and, recordOf]
      by_cases hthere : index ≥ 0 ∧ index < records.length
      · obtain ⟨record, hrecord⟩ : ∃ record, records[index.toNat]? = some record :=
          ⟨_, List.getElem?_eq_getElem (by omega)⟩
        obtain ⟨out', heq, hout, -⟩ :=
          h.copyRow hrecord room (clear out 0 store.type.size) 0
        rw [if_pos hthere, if_pos hthere.1, hrecord, heq, Option.filter_some]
        cases hfits : Fits room 0 record with
        | true =>
            rw [hfits, if_pos rfl, h.type_eq] at hout
            exact ⟨rfl, out', rfl, hout⟩
        | false =>
            rw [hfits, if_neg Bool.false_ne_true, h.type_eq] at hout
            exact ⟨rfl, fun m hm => Option.some.inj hm ▸ hout⟩
      · have hnone : (if index ≥ 0 then records[index.toNat]? else none) = none := by
          split
          · exact List.getElem?_eq_none (by omega)
          · rfl
        rw [if_neg hthere, hnone]
        refine ⟨rfl, fun m hm => ?_⟩
        obtain rfl := Option.some.inj hm
        rw [h.type_eq]
        exact clear_same out 0 type.size

/-- The loop of `store_list`: the rows copied say what the records do, and the
    rows before them stay. -/
theorem copyRows_spec (h : Refines abi type capacity store records) (room : Nat → Nat → Bool)
    {rest : List Record} :
    ∀ (i : Nat) (rows : Mem Datum),
      (∀ k record, rest[k]? = some record → records[i + k]? = some record) →
      ∃ rows', copyRows abi store room rest.length i rows = (rows', AllFit room i rest)
        ∧ (AllFit room i rest = true → ∀ k record, rest[k]? = some record →
            Shows abi rows' ((i + k) * store.type.size) store.type.fields record)
        ∧ ∀ {o size : Nat}, o + size ≤ i * store.type.size → AgreeOn rows' rows o size := by
  obtain ⟨htype, -⟩ := storeValid_spec h.valid
  obtain ⟨-, hflat, -⟩ := storeTypeValid_spec htype
  induction rest with
  | nil =>
      exact fun _ rows _ => ⟨rows, rfl, fun _ _ _ hk => (nomatch hk), fun _ _ _ => rfl⟩
  | cons record rest ih =>
      intro i rows hrest
      obtain ⟨copied, heq, hcopied, hframe⟩ :=
        h.copyRow (hrest 0 record rfl) (room i) rows (i * store.type.size)
      rw [List.length_cons, copyRows, Nat.add_zero] at *
      rw [heq]
      cases hfits : Fits (room i) 0 record with
      | false =>
          have hall : AllFit room i (record :: rest) = false := by rw [AllFit, hfits]; rfl
          rw [hall]
          exact ⟨copied, rfl, fun hno => (nomatch hno), fun hle => hframe (Or.inr hle)⟩
      | true =>
          rw [hfits, if_pos rfl] at hcopied
          have hall : AllFit room i (record :: rest) = AllFit room (i + 1) rest := by
            rw [AllFit, hfits, Bool.true_and]
          obtain ⟨rows', heq', hshows, hframe'⟩ := ih (i + 1) copied
            fun k r hk => by
              have hnext := hrest (k + 1) r hk
              rwa [← Nat.add_assoc, Nat.add_right_comm] at hnext
          have hnext : i * store.type.size + store.type.size = (i + 1) * store.type.size :=
            (Nat.succ_mul i store.type.size).symm
          rw [hall]
          refine ⟨rows', heq', fun hfit k r hk => ?_, fun hle => ?_⟩
          · cases k with
            | zero =>
                obtain rfl := Option.some.inj hk
                have hkept : AgreeOn rows' copied (i * store.type.size) store.type.size :=
                  hframe' (Nat.le_of_eq hnext)
                exact Shows.congr hflat (fun field hf =>
                  (hkept.mono ⟨Nat.le_add_right _ _, by
                    have := (hflat field hf).inside; omega⟩).byte) hcopied
            | succ k =>
                rw [← Nat.add_assoc, Nat.add_right_comm]
                exact hshows hfit k r hk
          · exact (hframe' (by omega)).trans (hframe (Or.inr hle))

theorem perform_list (h : Refines abi type capacity store records) (alloc : Bool)
    (fresh : Mem Datum) (room : Nat → Nat → Bool) :
    Says abi type (perform abi type store (.list alloc fresh room)).2
      (reference capacity records (.list alloc fresh room)).2 := by
  rw [perform, storeList, if_neg (Bool.not_eq_false _ ▸ h.valid), h.count_valid, h.count,
    reference]
  obtain ⟨rows, heq, hshows, -⟩ :=
    copyRows_spec h room 0 fresh fun k r (hk : records[k]? = some r) => by rwa [Nat.zero_add]
  rw [heq]
  simp only [Bool.true_eq_false, false_or]
  by_cases hmany : records.length > PAGE_MAX
  · rw [if_pos hmany, if_neg fun hok => Nat.not_lt_of_le hok.1 hmany]
    exact ⟨rfl, rfl⟩
  rw [if_neg hmany]
  by_cases hfail : records.length > 0 ∧ alloc = false
  · have hno : ¬ (records.length ≤ PAGE_MAX ∧ (records = [] ∨ alloc) ∧ AllFit room 0 records) := by
      rintro ⟨-, rfl | halloc, -⟩
      · exact Nat.lt_irrefl 0 hfail.1
      · exact Bool.noConfusion (halloc.symm.trans hfail.2)
    rw [if_pos hfail, if_neg hno]
    exact ⟨rfl, rfl⟩
  have halloc : records = [] ∨ alloc := by
    rcases Nat.eq_zero_or_pos records.length with hnil | hpos
    · exact Or.inl (List.length_eq_zero_iff.mp hnil)
    · exact Or.inr (Bool.eq_true_of_not_eq_false fun hno => hfail ⟨hpos, hno⟩)
  rw [if_neg hfail]
  cases hfits : AllFit room 0 records with
  | false =>
      have hno : ¬ (records.length ≤ PAGE_MAX ∧ (records = [] ∨ alloc) ∧ false = true) :=
        fun hok => Bool.false_ne_true hok.2.2
      rw [if_neg Bool.false_ne_true, if_neg hno]
      exact ⟨rfl, rfl⟩
  | true =>
      have hok : records.length ≤ PAGE_MAX ∧ (records = [] ∨ alloc) ∧ true = true :=
        ⟨Nat.le_of_not_lt hmany, halloc, rfl⟩
      rw [if_pos rfl, if_pos hok]
      refine ⟨congrArg some h.type_eq, rfl, fun i record hi => ?_⟩
      have hrow := hshows hfits i record hi
      rwa [Nat.zero_add, h.type_eq] at hrow

/-- **One call**: the store and the reference do the same. -/
theorem perform_spec (h : Refines abi type capacity store records) (call : Call (Value abi type)) :
    Refines abi type capacity (perform abi type store call).1
        (reference capacity records (call.map Value.record)).1
      ∧ Says abi type (perform abi type store call).2
        (reference capacity records (call.map Value.record)).2 := by
  cases call with
  | add value => exact perform_add h value
  | put index value => exact perform_put h index value
  | get index room out =>
      refine ⟨?_, perform_get h index room out⟩
      cases out with
      | none => exact h
      | some out => exact h
  | list alloc fresh room =>
      refine ⟨?_, perform_list h alloc fresh room⟩
      rw [Call.map, reference]
      split
      · exact h
      · exact h
  | clear =>
      refine ⟨?_, trivial⟩
      rw [perform, storeClear, if_pos h.valid]
      have hempty : ([] : List Record).length ≤ capacity := Nat.zero_le capacity
      exact h.withRows hempty fun _ _ hi => nomatch hi
  | count =>
      refine ⟨h, ?_⟩
      rw [perform, storeCount, if_pos h.valid, if_pos h.count_valid]
      exact h.count

/-! ## What the store holds -/

/-- A row says its record. -/
theorem RowHolds.recordAt {index : Nat} {fields : List FieldInfo} :
    ∀ {slot : Nat} {record : Record},
      store.slotAt index (slot + countTexts fields) ≤ store.textSize →
      RowHolds abi store index fields slot record →
      recordAt abi store.stringAt fields store.rows (store.rowAt index) = record := by
  induction fields with
  | nil =>
      intro slot record _ h
      cases record with
      | nil => rfl
      | cons v record => exact nomatch h
  | cons field fields ih =>
      intro slot record hinside h
      cases record with
      | nil => exact nomatch h
      | cons v record =>
          obtain ⟨hfirst, hrest⟩ := h
          have hslot : field.kind = .str →
              store.slotAt index slot + STORE_TEXT_LEN ≤ store.textSize :=
            fun hkind => Nat.le_trans (store.slotAt_first index slot hkind fields) hinside
          rw [← countTexts_cons] at hinside
          rw [RecordStore.recordAt, List.map_cons, ← RecordStore.recordAt, ih hinside hrest,
            fieldAt]
          refine congrArg (· :: record) ?_
          match v, hfirst with
          | .data bytes, ⟨hkind, hbytes⟩ => rw [if_neg hkind, hbytes]
          | .text none, ⟨hkind, hzero⟩ => rw [if_pos hkind, loadPointer_zero hzero]; rfl
          | .text (some text), ⟨hkind, hvalue, hholds, hlength⟩ =>
              rw [if_pos hkind, loadPointer_value hvalue, Option.map_some,
                stringAt_slot hholds hlength (hslot hkind)]

/-- What the rows say is the list. -/
theorem Refines.records_eq (h : Refines abi type capacity store records) :
    store.records abi = records := by
  obtain ⟨-, htexts⟩ := storeValid_spec h.valid
  refine List.ext_getElem? fun i => ?_
  rw [Store.records, List.getElem?_map, h.count]
  by_cases hi : i < records.length
  · have hrow := h.rows i records[i] (List.getElem?_eq_getElem hi)
    have hinside := slots_inside store (h.capacity_eq ▸ Nat.lt_of_lt_of_le hi h.bounded)
    rw [htexts] at hinside
    rw [List.getElem?_range hi, Option.map_some, List.getElem?_eq_getElem hi,
      RowHolds.recordAt (by rwa [Nat.zero_add]) hrow]
  · rw [List.getElem?_eq_none (Nat.le_of_not_lt hi), List.getElem?_eq_none]
    · rfl
    · rw [List.length_range]
      exact Nat.le_of_not_lt hi

/-! ## Runs -/

/-- A store as a program starts with it. -/
def emptyStore (abi : Abi) (type : TypeInfo) (capacity : Nat) (rows : Mem Datum) (text : Area) :
    Store :=
  { type, rows, text, capacity, count := 0, textFields := storeTextFields abi type }

theorem emptyStore_refines (htype : storeTypeValid abi type = true)
    (hcapacity : 1 ≤ capacity ∧ capacity ≤ STORE_MAX_ROWS) (rows : Mem Datum) (text : Area) :
    Refines abi type capacity (emptyStore abi type capacity rows text) [] := by
  have hheader : ¬ (storeTypeValid abi type = false ∨ capacity < 1 ∨ capacity > STORE_MAX_ROWS) := by
    rw [htype]
    rintro (h | h | h)
    · exact nomatch h
    · exact Nat.not_lt_of_le hcapacity.1 h
    · exact Nat.not_lt_of_le hcapacity.2 h
  refine ⟨rfl, rfl, ?_, rfl, Nat.zero_le capacity, fun _ _ hi => nomatch hi⟩
  exact (if_neg hheader).trans (decide_eq_true rfl)

end Refinement

/-- The call reports a failure. -/
def Reply.failed : Reply → Prop
  | .result n => n < 0
  | .got _ n => n < 0
  | .listed _ failure => failure ≠ none
  | .cleared => False
  | .counted _ => False

/-- The reference reports a failure. -/
def Answer.failed : Answer → Prop
  | .result n => n < 0
  | .record given => given = none
  | .records given => given = none
  | .cleared => False
  | .counted _ => False

/-- The call is not meant to write record `i`. -/
def Call.Leaves {V : Type} (i : Nat) : Call V → Prop
  | .put index _ => index ≠ i
  | .clear => False
  | _ => True

theorem Call.leaves_map {V W : Type} (f : V → W) (i : Nat) (call : Call V) :
    (call.map f).Leaves i ↔ call.Leaves i := by
  cases call <;> rfl

theorem Says.failed {abi : Abi} {type : TypeInfo} :
    ∀ {reply : Reply} {answer : Answer}, Says abi type reply answer → reply.failed → answer.failed
  | .result _, .result _, h, hfailed => h ▸ hfailed
  | .got _ _, .record (some _), h, hfailed => absurd hfailed (h.1 ▸ Int.lt_irrefl 0)
  | .got _ _, .record none, _, _ => rfl
  | .listed _ none, .records (some _), _, hfailed => absurd rfl hfailed
  | .listed _ (some _), .records none, _, _ => rfl
  | .cleared, .cleared, _, hfailed => hfailed
  | .counted _, .counted _, _, hfailed => hfailed

section Reference

variable {capacity : Nat} {records : List Record} {call : Call Record}

/-- A call that fails changes nothing. -/
theorem reference_failed (h : (reference capacity records call).2.failed) :
    (reference capacity records call).1 = records := by
  cases call with
  | add value =>
      cases value with
      | none => rfl
      | some record =>
          rw [reference] at h ⊢
          split at h
          · exact absurd h (Int.not_lt.mpr (Int.natCast_nonneg _))
          · rename_i hfull
            rw [if_neg hfull]
  | put index value =>
      cases value with
      | none => rfl
      | some record =>
          rw [reference] at h ⊢
          split at h
          · exact absurd h (Int.lt_irrefl 0)
          · rename_i hno
            rw [if_neg hno]
  | get index room out => cases out <;> rfl
  | list alloc fresh room => rw [reference]; split <;> rfl
  | clear => exact False.elim h
  | count => rfl

/-- A call changes the record it is meant to write. -/
theorem reference_leaves {i : Nat} (hi : i < records.length) (h : call.Leaves i) :
    (reference capacity records call).1[i]? = records[i]? := by
  cases call with
  | add value =>
      cases value with
      | none => rfl
      | some record =>
          rw [reference]
          split
          · exact List.getElem?_append_left hi
          · rfl
  | put index value =>
      cases value with
      | none => rfl
      | some record =>
          rw [reference]
          split
          · rename_i hthere
            have hne : index ≠ i := h
            exact List.getElem?_set_ne (by omega)
          · rfl
  | get index room out => cases out <;> rfl
  | list alloc fresh room => rw [reference]; split <;> rfl
  | clear => exact False.elim h
  | count => rfl

end Reference

/-- **The store is a bounded list of records**: for every flat type, every
    capacity and every sequence of calls, the store gives what the list gives,
    its rows say the list, a call that fails leaves every record and a call that
    writes one record leaves the others. -/
theorem store_is_bounded_list (abi : Abi) (type : TypeInfo) (htype : storeTypeValid abi type = true)
    (capacity : Nat) (hcapacity : 1 ≤ capacity ∧ capacity ≤ STORE_MAX_ROWS) (rows : Mem Datum)
    (text : Area) (calls : List (Call (Value abi type))) :
    let empty := emptyStore abi type capacity rows text
    let store := final (perform abi type) empty calls
    let expected := final (reference capacity) [] (calls.map (Call.map Value.record))
    List.Forall₂ (Says abi type) (replies (perform abi type) empty calls)
        (replies (reference capacity) [] (calls.map (Call.map Value.record)))
      ∧ store.records abi = expected ∧ expected.length ≤ capacity
      ∧ ∀ call, ((perform abi type store call).2.failed →
            (perform abi type store call).1.records abi = store.records abi)
          ∧ ∀ i < expected.length, call.Leaves i →
            ((perform abi type store call).1.records abi)[i]? = (store.records abi)[i]? := by
  intro empty store expected
  have hstep : ∀ (s : Store) (records : List Record) (call : Call (Value abi type)),
      Refines abi type capacity s records →
      Refines abi type capacity (perform abi type s call).1
          (reference capacity records (call.map Value.record)).1
        ∧ Says abi type (perform abi type s call).2
          (reference capacity records (call.map Value.record)).2 :=
    fun _ _ call h => perform_spec h call
  have hempty : Refines abi type capacity empty [] := emptyStore_refines htype hcapacity rows text
  obtain ⟨hreplies, hstore⟩ := run_refines hstep calls hempty
  refine ⟨hreplies, hstore.records_eq, hstore.bounded, fun call => ?_⟩
  obtain ⟨hnext, hreply⟩ := perform_spec hstore call
  rw [hnext.records_eq, hstore.records_eq]
  exact ⟨fun hfailed => reference_failed (hreply.failed hfailed),
    fun i hi hleaves => reference_leaves hi ((Call.leaves_map _ i call).mpr hleaves)⟩

/-- A type with one string. -/
def noteType : TypeInfo :=
  { name := lit "Note", size := 8,
    fields := [{ name := lit "text", kind := .str, offset := 0, size := 8 }] }

/-- A note. -/
def note (text : Bytes) : Value lp64 noteType where
  bytes := store zeroed 0 8 (.pointer (.other text))
  strings := by
    intro field hf _
    obtain rfl := List.mem_singleton.mp hf
    exact Or.inr ⟨text, load_store _ _ (by decide)⟩

theorem store_is_bounded_list_one :
    storeTypeValid lp64 noteType = true ∧ (1 ≤ 2 ∧ 2 ≤ STORE_MAX_ROWS)
      ∧ (final (perform lp64 noteType) (emptyStore lp64 noteType 2 zeroed fun _ => 0)
          [.add (some (note (lit "a")))]).records lp64 = [[.text (some (lit "a"))]] :=
  ⟨by decide, by decide,
    (store_is_bounded_list lp64 noteType (by decide) 2 (by decide) zeroed (fun _ => 0)
      [.add (some (note (lit "a")))]).2.1.trans (by decide)⟩

/-- A store of 256 rows takes 101 records, and gives none of them as a list; a
    record that is there is not written when a string does not fit. -/
theorem list_beyond_page_refused :
    let full := final (perform lp64 noteType) (emptyStore lp64 noteType 256 zeroed fun _ => 0)
      (List.replicate 101 (.add (some (note (lit "a")))))
    full.count = 101
      ∧ (storeList lp64 full true zeroed fun _ _ => true).2
        = some (lit "store exceeds collection limit")
      ∧ (storePut lp64 full 0 (some (note (List.replicate 256 0x61)).bytes)).2 = -1 := by
  decide +kernel

end StoreRefines
