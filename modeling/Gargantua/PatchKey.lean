import Gargantua.BodyLeaves
import Gargantua.EmittedTypes
import Gargantua.TableTypes

/-! # The key of a patched row (`src/runtime/runtime_body.c`)

    `patch_apply` copies every field that the body has a value for, and the key
    of a table is a field like the others.  So the row keeps its key exactly if
    the body has no value for it, or the value that is there already
    (`patch_key_kept_iff`). -/

namespace PatchKey

open CString JsonParse JsonGrammar JsonDecode JsonMachine JsonAccess GeneratorText GeneratorSource
  RuntimeTypes RuntimeError RuntimeObject RuntimeBody BodyTree ObjectFields BodyBinding BodyRead
  BodyLeaves TableTypes Memory

/-- `$T_apply`, as it is emitted for a type: the row that comes back, and `none`
    where the request is raised instead. -/
def apply {abi : Abi} (nl : NullableLayout abi) (printLg : LongDouble → Bytes) (ds : Descriptors)
    (table : BodyTable) (type : Option Nat) (json : Bytes) (current changes : Object)
    (fail : Failure) : Option Object :=
  match patchApply nl printLg ds table type json current changes fail with
  | (true, _, _) => none
  | (false, row, _) => some row

/-! ## Copying fields -/

section Copy

variable {changes : Object}

/-- The fields of the table, copied one after the other. -/
def copyAll (changes : Object) (fields : List BodyField) (target : Object) : Object :=
  fields.foldl (fun target state => copy target changes state.offset state.field.size) target

/-- The loop of `patch_apply` over fields that lie inside the struct. -/
theorem patchLoop_eq {size : Nat} : ∀ (fields : List BodyField) (target : Object),
    (∀ state ∈ fields, state.field.kind ≠ .object ∧ state.offset + state.field.size ≤ size) →
      patchLoop size changes fields target = (false, copyAll changes fields target)
  | [], _, _ => rfl
  | state :: fields, target, h => by
      obtain ⟨hkind, hin⟩ := h state List.mem_cons_self
      rw [patchLoop, if_neg hkind, if_neg (by omega)]
      exact patchLoop_eq fields _ fun s hs => h s (List.mem_cons_of_mem state hs)

theorem copyAll_apart {o n : Nat} : ∀ (fields : List BodyField) (target : Object),
    (∀ state ∈ fields, Apart state.offset state.field.size o n) →
      AgreeOn (copyAll changes fields target) target o n
  | [], _, _ => fun _ _ => rfl
  | state :: fields, target, h =>
      (copyAll_apart fields _ fun s hs => h s (List.mem_cons_of_mem state hs)).trans
        (copy_apart target changes (h state List.mem_cons_self))

/-- Bytes that are those of the changes stay so. -/
theorem copyAll_keeps {o n : Nat} : ∀ (fields : List BodyField) {target : Object},
    AgreeOn target changes o n → AgreeOn (copyAll changes fields target) changes o n
  | [], _, h => h
  | state :: fields, target, h => by
      refine copyAll_keeps fields fun a ha => ?_
      by_cases hin : Within state.offset state.field.size a
      · exact if_pos hin
      · exact (if_neg hin).trans (h a ha)

/-- A field of the table has the bytes of the changes. -/
theorem copyAll_mem {state : BodyField} {fields : List BodyField} (h : state ∈ fields) :
    ∀ target : Object,
      AgreeOn (copyAll changes fields target) changes state.offset state.field.size := by
  induction fields with
  | nil => exact nomatch h
  | cons s fields ih =>
      intro target
      rcases List.mem_cons.mp h with rfl | h
      · exact copyAll_keeps fields (copy_same target changes _ _)
      · exact ih h _

end Copy

/-! ## What the reader writes -/

section Write

variable {abi : Abi} {nl : NullableLayout abi} {strtod : Strtod}

theorem leafWrite_apart {f : FieldInfo} (h : Placed abi f) (v : Json .value) (position : Nat)
    (obj : Object) (base : Nat) {o n : Nat} (hapart : Apart (base + f.offset) f.size o n) :
    AgreeOn (leafWrite nl strtod f v position obj base) obj o n := by
  rw [leafWrite]
  cases decodedValue strtod f.kind v with
  | none => exact clear_apart obj hapart
  | some c => exact writeField_apart nl h _ obj base hapart

theorem leafWrite_value {f : FieldInfo} (h : Placed abi f) {v : Json .value} {c : Scalar}
    (hc : decodedValue strtod f.kind v = some c) (position : Nat) (obj : Object) (base : Nat) :
    fieldValue nl f (leafWrite nl strtod f v position obj base) base
      = some (stored position c) := by
  have hnull : isNullValue v = false := by
    rw [decodedValue] at hc
    split_ifs at hc with hn
    exact Bool.eq_false_iff.mpr hn
  have hread : readContent strtod f.kind v = some c := by
    rw [decodedValue, hnull, if_neg Bool.false_ne_true] at hc
    exact hc
  rw [leafWrite, hc]
  exact fieldValue_writeField nl h ((stored_kind position c).trans (readContent_kind hread)) obj
    base

theorem apply_obj {e : Entry} (h : e.field.kind ≠ .object) (st : Reader) :
    (Entry.apply nl strtod st e).obj
      = leafWrite nl strtod e.field e.value e.position st.obj e.base := by
  rw [Entry.apply, if_neg h]

/-- The range of the field that an entry is for. -/
def Entry.Clear (e : Entry) (o n : Nat) : Prop := Apart (e.base + e.field.offset) e.field.size o n

theorem foldl_obj_apart {o n : Nat} : ∀ (es : List Entry) (st : Reader),
    (∀ e ∈ es, Placed abi e.field ∧ Entry.Clear e o n) →
      AgreeOn (es.foldl (Entry.apply nl strtod) st).obj st.obj o n
  | [], _, _ => fun _ _ => rfl
  | e :: es, st, h => by
      obtain ⟨hplaced, hclear⟩ := h e List.mem_cons_self
      have hrest := foldl_obj_apart es (Entry.apply nl strtod st e)
        fun e' he' => h e' (List.mem_cons_of_mem e he')
      rw [List.foldl_cons]
      rw [apply_obj hplaced.scalar] at hrest
      exact hrest.trans (leafWrite_apart hplaced _ _ _ _ hclear)

/-- The field of an entry holds its value when all are read. -/
theorem foldl_obj_value {e : Entry} {c : Scalar} {es : List Entry}
    (hplaced : ∀ e' ∈ es, Placed abi e'.field)
    (hapart : es.Pairwise fun e e' => Entry.Clear e' (e.base + e.field.offset) e.field.size)
    (he : e ∈ es) (hc : decodedValue strtod e.field.kind e.value = some c) :
    ∀ st : Reader, fieldValue nl e.field (es.foldl (Entry.apply nl strtod) st).obj e.base
      = some (stored e.position c) := by
  induction es with
  | nil => exact nomatch he
  | cons e' es ih =>
      intro st
      have hrest : ∀ e'' ∈ es, Placed abi e''.field :=
        fun e'' he'' => hplaced e'' (List.mem_cons_of_mem e' he'')
      obtain ⟨hhead, htail⟩ := List.pairwise_cons.mp hapart
      rw [List.foldl_cons]
      rcases List.mem_cons.mp he with rfl | he
      · have hp := hplaced e List.mem_cons_self
        have hagree := @foldl_obj_apart abi nl strtod (e.base + e.field.offset) e.field.size es
          (Entry.apply nl strtod st e) fun e'' he'' => ⟨hrest e'' he'', hhead e'' he''⟩
        rw [fieldValue_congr nl hp hagree, apply_obj hp.scalar]
        exact leafWrite_value hp hc _ _ _
      · exact ih hrest htail he _

end Write

/-! ## The body of a table -/

section Table

variable {abi : Abi} {info : TypeInfo} {ds : Descriptors} {type : Option Nat}

theorem placed_of_table (h : TableType abi info) {f : FieldInfo} (hf : f ∈ info.fields) :
    Placed abi f := by
  have hcolumn := h.checked.column f hf
  exact ⟨hcolumn.scalar, hcolumn.size, hcolumn.size_pos, Nat.le_trans hcolumn.inside h.size⟩

theorem readable_of_table (h : TableType abi info) : Readable abi info :=
  ⟨fun _ hf _ => placed_of_table h hf,
    List.pairwise_map.mpr (h.checked.distinct.imp fun hfg => hfg.1)⟩

theorem everyStruct_of_table (h : TableType abi info) (htype : deref ds type = some info)
    (levels : Nat) : EveryStruct ds (Readable abi) (levels + 1) type :=
  ⟨info, htype, readable_of_table h,
    fun f hf hkind => absurd hkind (h.checked.column f hf).scalar⟩

/-- Two fields of a table are apart. -/
theorem table_apart (h : TableType abi info) {f g : FieldInfo} (hf : f ∈ info.fields)
    (hg : g ∈ info.fields) (hne : f ≠ g) : Apart f.offset f.size g.offset g.size := by
  have hpair : info.fields.Pairwise fun f g => Apart f.offset f.size g.offset g.size :=
    h.checked.distinct.imp fun hfg => hfg.2
  have hsymm : Std.Symm fun f g : FieldInfo => Apart f.offset f.size g.offset g.size :=
    ⟨fun _ _ h => h.symm⟩
  exact hpair.forall hf hg hne

/-- The entry of a field of a table, if the body has a value for it. -/
def rowEntry (ms : List Member) (f : FieldInfo) : Option Entry :=
  (lookup ms f.name).map fun m => ⟨joinPath [] f.name, 0, f, m.value, m.valueAt⟩

theorem mem_rowEntries {ms : List Member} {fields : List FieldInfo} {e : Entry}
    (h : e ∈ fields.filterMap (rowEntry ms)) :
    e.field ∈ fields ∧ e.base = 0 ∧ ∃ m, lookup ms e.field.name = some m ∧ e.value = m.value := by
  obtain ⟨f, hf, he⟩ := List.mem_filterMap.mp h
  obtain ⟨m, hm, rfl⟩ := Option.map_eq_some_iff.mp he
  exact ⟨hf, rfl, m, hm, rfl⟩

/-- A table has no entries but those of its own fields. -/
theorem entries_table (h : TableType abi info) (htype : deref ds type = some info)
    {v : Json .value} {position index : Nat} {ms : List Member}
    (hms : objectMembers v position index = some ms) (levels : Nat) :
    entries ds (levels + 1) type [] 0 v position index = info.fields.filterMap (rowEntry ms) := by
  rw [entries, htype, hms]
  dsimp only
  rw [List.filterMap_eq_flatMap_toList]
  refine List.flatMap_congr fun f hf => ?_
  rw [fieldEntries, rowEntry]
  cases lookup ms f.name with
  | none => rfl
  | some m =>
      dsimp only
      rw [if_neg (h.checked.column f hf).scalar]
      rfl

/-- The entries of a table write apart. -/
theorem rowEntries_apart (h : TableType abi info) (ms : List Member) :
    (info.fields.filterMap (rowEntry ms)).Pairwise fun e e' =>
      Entry.Clear e' (e.base + e.field.offset) e.field.size := by
  refine List.pairwise_filterMap.mpr (h.checked.distinct.imp fun {f g} hfg e he e' he' => ?_)
  obtain ⟨m, -, rfl⟩ := Option.map_eq_some_iff.mp he
  obtain ⟨m', -, rfl⟩ := Option.map_eq_some_iff.mp he'
  rw [Entry.Clear, Nat.zero_add, Nat.zero_add]
  exact hfg.2.symm

theorem rowEntries_length (h : TableType abi info) (ms : List Member) :
    (info.fields.filterMap (rowEntry ms)).length ≤ JSON_MAX_TOKENS :=
  Nat.le_trans (List.length_filterMap_le _ _) (Nat.le_trans h.length_le (by decide))

end Table

/-! ## Bodies that are accepted -/

section Read

variable {abi : Abi} {nl : NullableLayout abi} {strtod : Strtod} {printLg : LongDouble → Bytes}
  {ds : Descriptors} {type : Option Nat} {info : TypeInfo}

/-- What an accepted body of a table is, and what it leaves. -/
structure ReadRow (nl : NullableLayout abi) (strtod : Strtod) (printLg : LongDouble → Bytes)
    (ds : Descriptors) (type : Option Nat) (info : TypeInfo) (obj : Object) (json : Bytes)
    (fail : Failure) (d : Document) (ms : List Member) : Prop where
  text : Accepted json JSON_MAX_TOKENS d
  members : objectMembers d.value d.before.bytes.length 0 = some ms
  fields : ∀ f ∈ info.fields, fieldOk strtod printLg true
    (objectOk strtod printLg ds true 7) [] f ((lookup ms f.name).map (·.value)) = true
  struct : (jsonReadMode nl strtod printLg ds type obj json true fail).obj
    = ((info.fields.filterMap (rowEntry ms)).foldl (Entry.apply nl strtod)
        ⟨json, obj, [], fail⟩).obj
  table : (jsonReadMode nl strtod printLg ds type obj json true fail).table
    = ⟨(info.fields.filterMap (rowEntry ms)).map Entry.state, type, true⟩

theorem read_row (htable : TableType abi info) (htype : deref ds type = some info) {obj : Object}
    {json : Bytes} {fail : Failure}
    (hread : (jsonReadMode nl strtod printLg ds type obj json true fail).failed = false) :
    ∃ d ms, ReadRow nl strtod printLg ds type info obj json fail d ms := by
  by_cases hbad : json = [] ∨ typeValid abi ds type = false
  · rw [jsonReadMode, if_pos hbad] at hread
    cases hread
  cases hparse : jsonParse json JSON_MAX_TOKENS with
  | none =>
      rw [jsonReadMode, if_neg hbad, hparse] at hread
      cases hread
  | some toks =>
      obtain ⟨-, d, hd, rfl⟩ := jsonParse_iff.mp hparse
      have hstands : Stands (Document.tokens d) json d.value d.before.bytes.length 0 (-1) :=
        ⟨⟨[], (List.append_nil _).symm, fun t ht => (by cases ht)⟩,
          ⟨d.before.bytes, d.after.bytes, hd.text, rfl⟩, hd.names, by decide⟩
      have hroom : ([] : List BodyField).length
          + (entries ds NEST_DEPTH_MAX type [] 0 d.value d.before.bytes.length 0).length
            ≤ JSON_MAX_TOKENS := by
        cases hms : objectMembers d.value d.before.bytes.length 0 with
        | none =>
            rw [entries, htype, hms]
            exact Nat.zero_le _
        | some ms =>
            rw [entries_table htable htype hms, List.length_nil, Nat.zero_add]
            exact rowEntries_length htable ms
      obtain ⟨hyes, hno⟩ := @agrees abi nl strtod printLg ds (Document.tokens d) true
        NEST_DEPTH_MAX type [] 0 d.value d.before.bytes.length 0 (-1) ⟨json, obj, [], fail⟩
        (everyStruct_of_table htable htype 7) hstands hroom
      have hhead : ¬ ((Document.tokens d).head?.map (·.type)) ≠ some .obj := by
        intro hne
        rw [jsonReadMode, if_neg hbad, hparse] at hread
        dsimp only at hread
        rw [if_pos hne] at hread
        cases hread
      have hdone : (jsonReadNested nl strtod printLg ds (Document.tokens d) true NEST_DEPTH_MAX type
          0 [] 0 ⟨json, obj, [], fail⟩).1 = false := by
        rw [jsonReadMode, if_neg hbad, hparse] at hread
        dsimp only at hread
        rw [if_neg hhead, if_pos (Bool.or_true _)] at hread
        exact hread
      have hok : objectOk strtod printLg ds true NEST_DEPTH_MAX type [] d.value = true := by
        cases hcase : objectOk strtod printLg ds true NEST_DEPTH_MAX type [] d.value with
        | true => rfl
        | false => exact absurd (hno hcase) (by rw [hdone]; exact Bool.false_ne_true)
      have hnested := hyes hok
      have hpairs := objectMembers_pairs d.value d.before.bytes.length 0
      obtain ⟨ps, hps⟩ := objectOk_object hok
      rw [hps] at hpairs
      obtain ⟨ms, hms, rfl⟩ := Option.map_eq_some_iff.mp hpairs
      rw [entries_table htable htype hms] at hnested
      refine ⟨d, ms, hd, hms, fun f hf => ?_, ?_, ?_⟩
      · rw [objectOk, htype, hps] at hok
        dsimp only at hok
        rw [Bool.and_eq_true] at hok
        have hfield := List.all_eq_true.mp hok.2 f hf
        rw [Bool.and_eq_true, lookup_pairs] at hfield
        exact hfield.2
      · rw [jsonReadMode, if_neg hbad, hparse]
        dsimp only
        rw [if_neg hhead, hnested]
      · rw [jsonReadMode, if_neg hbad, hparse]
        dsimp only
        rw [if_neg hhead, hnested, if_pos (Bool.or_true _)]
        dsimp only
        rw [if_neg Bool.false_ne_true, foldl_body, List.nil_append]

end Read

/-! ## The key -/

section Key

variable {abi : Abi} {nl : NullableLayout abi} {strtod : Strtod} {printLg : LongDouble → Bytes}
  {ds : Descriptors} {type : Option Nat} {info : TypeInfo} {f : FieldInfo}

/-- The key of a table holds a number. -/
theorem key_value (htable : TableType abi info) (hf : f ∈ info.fields) (hid : f.flags.id = true)
    (obj : Object) : fieldValue nl f obj 0 = some (.int (readInt abi obj f.offset)) := by
  obtain ⟨hkind, hnull⟩ := (htable.checked.column f hf).key hid
  have hpresent : fieldIsNull abi f obj 0 = false := by
    rw [fieldIsNull, if_neg (by rw [hnull]; exact Bool.false_ne_true),
      if_neg (by rw [hkind]; exact FieldKind.noConfusion)]
  rw [fieldValue, hpresent, if_neg Bool.false_ne_true, fieldScalar_plain nl hnull, hkind,
    Nat.zero_add]

/-- A key takes no `null`: its value in an accepted body is a number. -/
theorem key_decoded (htable : TableType abi info) (hf : f ∈ info.fields)
    (hid : f.flags.id = true) {nested : Option Nat → Bytes → Json .value → Bool}
    {v : Json .value} (hok : fieldOk strtod printLg true nested [] f (some v) = true) :
    ∃ n, decodedValue strtod f.kind v = some (.int n) := by
  obtain ⟨hkind, hnull⟩ := (htable.checked.column f hf).key hid
  have hint : f.kind ≠ .object := by
    rw [hkind]
    exact FieldKind.noConfusion
  have hrefuse : refusesNull f = true := by
    rw [refusesNull, hkind, hnull, Bool.or_eq_true]
    exact Or.inr rfl
  rw [fieldOk, if_neg hint, leafOk] at hok
  rw [decodedValue]
  split_ifs at hok ⊢ with hv
  · rw [hrefuse] at hok
    cases hok
  · cases hc : readContent strtod f.kind v with
    | none =>
        rw [hc] at hok
        cases hok
    | some c =>
        have hk := readContent_kind hc
        rw [hkind] at hk
        cases c with
        | int n => exact ⟨n, rfl⟩
        | long n => cases hk
        | double x => cases hk
        | bool b => cases hk
        | str p => cases hk

/-- The row that `$T_apply` returns is the current one with the fields of the
    table copied into it. -/
theorem apply_copies {table : BodyTable} {json : Bytes} {current changes row : Object}
    {fail : Failure} (htype : deref ds type = some info)
    (hin : ∀ state ∈ table.fields,
      state.field.kind ≠ .object ∧ state.offset + state.field.size ≤ info.size)
    (h : apply nl printLg ds table type json current changes fail = some row) :
    row = copyAll changes table.fields current := by
  by_cases hrefused : table.isPartial = false ∨ type ≠ table.type ∨ requestFailed fail = true
  · rw [apply, patchApply, if_pos hrefused] at h
    exact nomatch h
  · have hpatch : patchApply nl printLg ds table type json current changes fail
        = ((validateStruct abi nl printLg ds json (copyAll changes table.fields current) type
            fail).1, copyAll changes table.fields current,
          (validateStruct abi nl printLg ds json (copyAll changes table.fields current) type
            fail).2) := by
      rw [patchApply, if_neg hrefused, htype]
      dsimp only [Option.elim]
      rw [patchLoop_eq _ _ hin, if_neg Bool.false_ne_true]
    rw [apply, hpatch] at h
    cases hvalid : (validateStruct abi nl printLg ds json (copyAll changes table.fields current)
        type fail).1 with
    | true =>
        rw [hvalid] at h
        exact nomatch h
    | false =>
        rw [hvalid] at h
        exact (Option.some.inj h).symm

/-- **A patched row keeps its key exactly if the body leaves the key alone**: it
    has no member of its name, or the number of the row under it. -/
theorem patch_key_kept_iff (htable : TableType abi info) (htype : deref ds type = some info)
    (hf : f ∈ info.fields) (hid : f.flags.id = true) {obj current row : Object} {json : Bytes}
    {fail fail' : Failure} {outcome : Outcome}
    (hread : jsonReadMode nl strtod printLg ds type obj json true fail = outcome)
    (hok : outcome.failed = false)
    (hrow : apply nl printLg ds outcome.table type outcome.json current outcome.obj fail'
      = some row) :
    ∃ d, Accepted json JSON_MAX_TOKENS d
      ∧ (readInt abi row f.offset = readInt abi current f.offset
          ↔ ∀ v, child d.value f.name = some v →
              decodedValue strtod .int v = some (.int (readInt abi current f.offset))) := by
  subst hread
  obtain ⟨d, ms, hbody⟩ := read_row htable htype hok
  refine ⟨d, hbody.text, ?_⟩
  have hkind := ((htable.checked.column f hf).key hid).1
  have hplaced := placed_of_table htable hf
  have hchild : child d.value f.name = (lookup ms f.name).map (·.value) := by
    rw [child, ← objectMembers_pairs d.value d.before.bytes.length 0, hbody.members]
    exact lookup_pairs ms f.name
  have hstates : ∀ state ∈ (info.fields.filterMap (rowEntry ms)).map Entry.state,
      ∃ g ∈ info.fields, state.field = g ∧ state.offset = g.offset
        ∧ ∃ m, lookup ms g.name = some m := by
    intro state hstate
    obtain ⟨e, he, rfl⟩ := List.mem_map.mp hstate
    obtain ⟨hg, hbase, m, hm, -⟩ := mem_rowEntries he
    refine ⟨e.field, hg, rfl, ?_, m, hm⟩
    rw [Entry.state, hbase]
    exact Nat.zero_add _
  have hcopied := apply_copies htype (by
    rw [hbody.table]
    intro state hstate
    obtain ⟨g, hg, hfield, hoffset, -⟩ := hstates state hstate
    have hcolumn := htable.checked.column g hg
    rw [hfield, hoffset]
    exact ⟨hcolumn.scalar, hcolumn.inside⟩) hrow
  rw [hbody.table] at hcopied
  dsimp only at hcopied
  cases hfind : lookup ms f.name with
  | none =>
      -- nothing that is copied touches the key
      have hkept : AgreeOn row current (0 + f.offset) f.size := by
        rw [hcopied, Nat.zero_add]
        refine copyAll_apart _ _ fun state hstate => ?_
        obtain ⟨g, hg, hfield, hoffset, m, hm⟩ := hstates state hstate
        rw [hfield, hoffset]
        refine table_apart htable hg hf ?_
        rintro rfl
        rw [hfind] at hm
        cases hm
      have hsame := fieldValue_congr nl hplaced hkept
      rw [key_value htable hf hid, key_value htable hf hid] at hsame
      rw [hfind] at hchild
      refine ⟨fun _ v hv => ?_, fun _ => Scalar.int.inj (Option.some.inj hsame)⟩
      rw [hchild] at hv
      cases hv
  | some m =>
      have hmem : (⟨joinPath [] f.name, 0, f, m.value, m.valueAt⟩ : Entry)
          ∈ info.fields.filterMap (rowEntry ms) :=
        List.mem_filterMap.mpr ⟨f, hf, by rw [rowEntry, hfind]; rfl⟩
      obtain ⟨n, hn⟩ := key_decoded htable hf hid (by
        have hfield := hbody.fields f hf
        rw [hfind] at hfield
        exact hfield)
      have hwritten : fieldValue nl f
          (jsonReadMode nl strtod printLg ds type obj json true fail).obj 0 = some (.int n) := by
        rw [hbody.struct]
        exact foldl_obj_value
          (fun e he => placed_of_table htable (mem_rowEntries he).1) (rowEntries_apart htable ms)
          hmem hn _
      have htaken : AgreeOn row (jsonReadMode nl strtod printLg ds type obj json true fail).obj
          (0 + f.offset) f.size := by
        rw [hcopied]
        exact copyAll_mem (List.mem_map_of_mem hmem) current
      have hsame := fieldValue_congr nl hplaced htaken
      rw [hwritten, key_value htable hf hid] at hsame
      have hnumber : readInt abi row f.offset = n := Scalar.int.inj (Option.some.inj hsame)
      rw [hfind] at hchild
      rw [hkind] at hn
      rw [hnumber, hchild]
      constructor
      · rintro rfl v hv
        rw [← Option.some.inj hv]
        exact hn
      · intro h
        have hv := h m.value rfl
        rw [hn] at hv
        exact Scalar.int.inj (Option.some.inj hv)

end Key

/-! ## A body that names the key -/

/-- Where a nullable value stands behind its flag. -/
def lp64Nullable : NullableLayout EmittedTypes.lp64 where
  valueOffset kind := EmittedTypes.lp64.sizeOf kind
  behind kind := by cases kind <;> decide
  inside kind := by cases kind <;> decide

/-- `struct Note { int id; int stars; }`, `id` being the key. -/
def note : TypeInfo where
  name := lit "Note"
  size := 8
  fields := [{ name := lit "id", kind := .int, offset := 0, size := 4, flags := { id := true } },
    { name := lit "stars", kind := .int, offset := 4, size := 4 }]

def noteTypes : Descriptors := fun _ => some note

/-- The row with the key 1. -/
def noteRow : Object := store (store zeroed 0 4 (.int 1)) 4 4 (.int 5)

/-- `json_read_mode` on a body for a note, no field of which is a `double`. -/
def readNote (body : Bytes) : Outcome :=
  jsonReadMode lp64Nullable (fun text => ⟨.finite 0, text, false, false⟩) (fun _ => []) noteTypes
    (some 0) zeroed body true {}

/-- The key of the row that `$Note_apply` returns for a body. -/
def patchedKey (body : Bytes) : Option Int :=
  (apply lp64Nullable (fun _ => []) noteTypes (readNote body).table (some 0) (readNote body).json
    noteRow (readNote body).obj {}).map fun row => readInt EmittedTypes.lp64 row 0

theorem note_table : TableType EmittedTypes.lp64 note := ⟨by decide, by decide⟩

/-- A body that changes the stars. -/
def starsBody : Bytes := lit "\x7b\"stars\":3\x7d"

/-- The row that it makes. -/
theorem patch_key_kept_stars :
    ∃ row, apply lp64Nullable (fun _ => []) noteTypes (readNote starsBody).table (some 0)
        (readNote starsBody).json noteRow (readNote starsBody).obj {} = some row
      ∧ ∃ d, Accepted starsBody JSON_MAX_TOKENS d
        ∧ (readInt EmittedTypes.lp64 row 0 = readInt EmittedTypes.lp64 noteRow 0
            ↔ ∀ v, child d.value (lit "id") = some v →
                decodedValue (fun text => ⟨.finite 0, text, false, false⟩) .int v
                  = some (.int (readInt EmittedTypes.lp64 noteRow 0))) := by
  have hrow : (apply lp64Nullable (fun _ => []) noteTypes (readNote starsBody).table (some 0)
      (readNote starsBody).json noteRow (readNote starsBody).obj {}).isSome = true := by decide
  obtain ⟨row, hrow⟩ := Option.isSome_iff_exists.mp hrow
  exact ⟨row, hrow, patch_key_kept_iff note_table rfl List.mem_cons_self rfl rfl (by decide) hrow⟩

/-- The body moves the row with the key 1 to the key 2. -/
theorem patch_moves_key :
    TableType EmittedTypes.lp64 note ∧ (readNote (lit "\x7b\"id\":2\x7d")).failed = false
      ∧ readInt EmittedTypes.lp64 noteRow 0 = 1
      ∧ patchedKey (lit "\x7b\"id\":2\x7d") = some 2 := by
  exact ⟨note_table, by decide, by decide, by decide⟩

end PatchKey
