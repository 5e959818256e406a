import Mathlib.Algebra.Order.BigOperators.Group.List
import Mathlib.Algebra.BigOperators.Group.List.Basic
import Mathlib.Data.List.Nodup
import Gargantua.PatchKey

/-! # A body is read exactly (`src/runtime/runtime_body.c`, `src/runtime/runtime_ddl.c`)

    For every type that `type_valid` accepts, structs in structs included, a body
    is taken exactly if it is a JSON text whose value keeps the rules of the type
    at every level, and then the struct holds what the body says, leaf by leaf,
    and the table answers for every path of the body (`read_exact`).

    A patch merges: the leaves that the body has a value for are replaced, the
    others stay, and the row is returned exactly if the merged one is valid
    (`patch_merges`). -/

namespace BodyExact

open CString JsonParse JsonGrammar JsonDecode JsonMachine JsonAccess GeneratorText GeneratorSource
  GeneratorEmit RuntimeTypes RuntimeError RuntimeObject RuntimeBody BodyTree ObjectFields BodyBinding BodyRead
  BodyLeaves PatchKey Memory
open RouteGenerator (isAlnum)

/-! ## Types that are laid out -/

/-- A struct as a compiler lays it out, of distinct fields. -/
structure Laid (info : TypeInfo) : Prop where
  size : info.size ≤ USHRT_MAX
  names : (info.fields.map (·.name)).Nodup
  apart : NoOverlap info

/-- What `type_valid` finds of one struct. -/
structure Checked (abi : Abi) (ds : Descriptors) (info : TypeInfo) : Prop where
  header : headerValid info = true
  scalar : ∀ f ∈ info.fields, f.kind ≠ .object →
    fieldFits info f (fieldStorageSize abi f.kind f.flags.nullable) = true
  nested : ∀ f ∈ info.fields, f.kind = .object →
    fieldFits info f ((deref ds f.nested).elim 0 (·.size)) = true

section Types

variable {abi : Abi} {ds : Descriptors}

/-- The loop of `type_valid_nested` checks every field. -/
theorem fieldsValid_each {nestedValid : Option Nat → Nat → Option Nat} {info : TypeInfo} :
    ∀ {fields : List FieldInfo} {remaining left : Nat},
      fieldsValid abi ds nestedValid info fields remaining = some left →
      ∀ f ∈ fields,
        (f.kind ≠ .object →
            fieldFits info f (fieldStorageSize abi f.kind f.flags.nullable) = true)
          ∧ (f.kind = .object →
            fieldFits info f ((deref ds f.nested).elim 0 (·.size)) = true
              ∧ ∃ before after, nestedValid f.nested before = some after) := by
  intro fields
  induction fields with
  | nil => exact fun _ _ hf => (nomatch hf)
  | cons g fields ih =>
      intro remaining left h f hf
      rw [fieldsValid] at h
      by_cases hkind : g.kind = .object
      · rw [if_pos hkind] at h
        cases hnested : nestedValid g.nested remaining with
        | none => rw [hnested] at h; cases h
        | some after =>
            rw [hnested] at h
            dsimp only at h
            split_ifs at h with hfits
            rcases List.mem_cons.mp hf with rfl | hf
            · exact ⟨fun hno => absurd hkind hno, fun _ => ⟨hfits, remaining, after, hnested⟩⟩
            · exact ih h f hf
      · rw [if_neg hkind] at h
        split_ifs at h with hfits
        rcases List.mem_cons.mp hf with rfl | hf
        · exact ⟨fun _ => hfits, fun hyes => absurd hyes hkind⟩
        · exact ih h f hf

/-- Every struct of an accepted type is checked. -/
theorem everyStruct_of_valid : ∀ {levels : Nat} {type : Option Nat} {remaining left : Nat},
    typeValidNested abi ds levels type remaining = some left →
      EveryStruct ds (Checked abi ds) levels type := by
  intro levels
  induction levels with
  | zero => intro type remaining left h; rw [typeValidNested] at h; cases h
  | succ levels ih =>
      intro type remaining left h
      cases remaining with
      | zero => rw [typeValidNested] at h; cases h
      | succ remaining =>
          rw [typeValidNested] at h
          cases hinfo : deref ds type with
          | none => rw [hinfo] at h; cases h
          | some info =>
              rw [hinfo] at h
              dsimp only at h
              split_ifs at h with hheader
              have heach := fieldsValid_each h
              refine ⟨info, hinfo, ⟨hheader, fun f hf hk => (heach f hf).1 hk,
                fun f hf hk => ((heach f hf).2 hk).1⟩, fun f hf hk => ?_⟩
              obtain ⟨before, after, hnested⟩ := ((heach f hf).2 hk).2
              exact ih hnested

/-- The descriptors of a program: each is laid out. -/
def LaidOut (ds : Descriptors) : Prop := ∀ type info, deref ds type = some info → Laid info

theorem EveryStruct.laid (hlaid : LaidOut ds) {P : TypeInfo → Prop} :
    ∀ {levels : Nat} {type : Option Nat}, EveryStruct ds P levels type →
      EveryStruct ds (fun info => P info ∧ Laid info) levels type := by
  intro levels
  induction levels with
  | zero => exact fun h => h
  | succ levels ih =>
      rintro type ⟨info, hinfo, hp, hnested⟩
      exact ⟨info, hinfo, ⟨hp, hlaid type info hinfo⟩, fun f hf hk => ih (hnested f hf hk)⟩

/-- A field that fits is inside its struct. -/
theorem fieldFits_spec {info : TypeInfo} {f : FieldInfo} {expected : Nat}
    (h : fieldFits info f expected = true) :
    isSafeIdentifier f.name = true ∧ 0 < expected ∧ f.size = expected
      ∧ f.offset + f.size ≤ info.size := by
  simp only [fieldFits, Bool.and_eq_true, bne_iff_ne, ne_eq, beq_iff_eq, decide_eq_true_eq] at h
  obtain ⟨⟨⟨⟨hname, hpos⟩, hsize⟩, hoffset⟩, hroom⟩ := h
  exact ⟨hname, Nat.pos_of_ne_zero hpos, hsize, by omega⟩

/-- The name of a field is an identifier. -/
theorem Checked.name {info : TypeInfo} (h : Checked abi ds info) {f : FieldInfo}
    (hf : f ∈ info.fields) : isSafeIdentifier f.name = true := by
  by_cases hk : f.kind = .object
  · exact (fieldFits_spec (h.nested f hf hk)).1
  · exact (fieldFits_spec (h.scalar f hf hk)).1

theorem Checked.placed {info : TypeInfo} (h : Checked abi ds info) (hlaid : Laid info)
    {f : FieldInfo} (hf : f ∈ info.fields) (hk : f.kind ≠ .object) : Placed abi f := by
  obtain ⟨-, hpos, hsize, hinside⟩ := fieldFits_spec (h.scalar f hf hk)
  have hmax := hlaid.size
  exact ⟨hk, hsize, by omega, by omega⟩

theorem Checked.readable {info : TypeInfo} (h : Checked abi ds info) (hlaid : Laid info) :
    Readable abi info :=
  ⟨fun _ hf hk => h.placed hlaid hf hk, hlaid.names⟩

theorem Checked.fits {info : TypeInfo} (h : Checked abi ds info) : Fits ds info := by
  refine ⟨fun f hf => ?_, fun f hf hk => ?_⟩
  · by_cases hk : f.kind = .object
    · exact (fieldFits_spec (h.nested f hf hk)).2.2.2
    · exact (fieldFits_spec (h.scalar f hf hk)).2.2.2
  · obtain ⟨-, hpos, hsize, -⟩ := fieldFits_spec (h.nested f hf hk)
    cases hinner : deref ds f.nested with
    | none => rw [hinner] at hpos; exact absurd hpos (Nat.lt_irrefl 0)
    | some inner => rw [hinner] at hsize; exact ⟨inner, rfl, hsize⟩

end Types

/-! ## The table has room -/

section Room

variable {abi : Abi} {ds : Descriptors}

/-- The tokens of the values of an object are among its own. -/
theorem members_tokenCount : ∀ (es : Json (.elements .obj)) (position index : Nat),
    ((members es position index).map fun m => m.value.tokenCount).sum ≤ es.tokenCount
  | .last _ (.member _ _ _ _) v _, _, _ => Nat.le_add_left _ _
  | .more _ (.member _ _ _ _) v _ es, _, _ => by
      rw [members, List.map_append, List.sum_append]
      exact Nat.add_le_add (Nat.le_add_left _ _) (members_tokenCount es _ _)

theorem objectMembers_tokenCount {v : Json .value} {position index : Nat} {ms : List Member}
    (h : objectMembers v position index = some ms) :
    (ms.map fun m => m.value.tokenCount).sum < v.tokenCount := by
  match v with
  | .empty .obj w =>
      obtain rfl := Option.some.inj h
      exact Nat.one_pos
  | .full .obj es =>
      obtain rfl := Option.some.inj h
      exact Nat.lt_succ_of_le (members_tokenCount es _ _)

/-- The members that distinct names find are distinct. -/
theorem lookups_nodup {ms : List Member} {names : List Bytes} (h : names.Nodup) :
    (names.filterMap (lookup ms)).Nodup := by
  refine List.Nodup.filterMap (fun name name' m hm hm' => ?_) h
  exact (lookup_some hm).2.symm.trans (lookup_some hm').2

/-- What distinct names find is not more than there is. -/
theorem lookups_sum_le (weight : Member → Nat) {ms : List Member} {names : List Bytes}
    (h : names.Nodup) :
    ((names.filterMap (lookup ms)).map weight).sum ≤ (ms.map weight).sum := by
  have hsub : names.filterMap (lookup ms) ⊆ ms := by
    intro m hm
    obtain ⟨name, -, hname⟩ := List.mem_filterMap.mp hm
    exact (lookup_some hname).1
  obtain ⟨found, hperm, hfound⟩ := List.subperm_of_subset (lookups_nodup h) hsub
  calc ((names.filterMap (lookup ms)).map weight).sum
      = (found.map weight).sum := ((hperm.map weight).sum_eq).symm
    _ ≤ (ms.map weight).sum := (hfound.map weight).sum_le_sum fun _ _ => Nat.zero_le _

/-- The entries of the fields are not more than the tokens of their values. -/
theorem fieldEntries_length
    {nested : Option Nat → Bytes → Nat → Json .value → Nat → Nat → List Entry} {path : Bytes}
    {base : Nat} {ms : List Member} {fields : List FieldInfo}
    (hnested : ∀ f ∈ fields, f.kind = .object → ∀ (path : Bytes) (base : Nat) (v : Json .value)
      (position index : Nat), (nested f.nested path base v position index).length < v.tokenCount) :
    (fields.flatMap (fieldEntries nested path base ms)).length
      ≤ (((fields.map (·.name)).filterMap (lookup ms)).map fun m => m.value.tokenCount).sum := by
  induction fields with
  | nil => exact Nat.le_refl _
  | cons f fields ih =>
      have hrest := ih fun g hg => hnested g (List.mem_cons_of_mem f hg)
      rw [List.flatMap_cons, List.length_append, List.map_cons]
      cases hfind : lookup ms f.name with
      | none =>
          rw [fieldEntries_none hfind, List.filterMap_cons_none hfind, List.length_nil,
            Nat.zero_add]
          exact hrest
      | some m =>
          rw [List.filterMap_cons_some hfind, List.map_cons, List.sum_cons, fieldEntries, hfind]
          refine Nat.add_le_add ?_ hrest
          dsimp only
          rw [List.length_cons]
          split_ifs with hkind
          · exact hnested f List.mem_cons_self hkind _ _ _ _ _
          · exact Json.tokenCount_pos m.value

/-- **There are fewer entries than tokens.** -/
theorem entries_length {levels : Nat} : ∀ {type : Option Nat} {path : Bytes} {base : Nat}
    {v : Json .value} {position index : Nat}, EveryStruct ds (Readable abi) levels type →
      (entries ds levels type path base v position index).length < v.tokenCount := by
  induction levels with
  | zero => exact fun h => h.elim
  | succ levels ih =>
      intro type path base v position index h
      obtain ⟨info, hinfo, hread, hnested⟩ := h
      rw [entries, hinfo]
      cases hms : objectMembers v position index with
      | none => exact Json.tokenCount_pos v
      | some ms =>
          dsimp only
          refine Nat.lt_of_le_of_lt ?_ (objectMembers_tokenCount hms)
          exact Nat.le_trans
            (fieldEntries_length fun f hf hk _ _ _ _ _ => ih (hnested f hf hk))
            (lookups_sum_le (fun m => m.value.tokenCount) hread.names)

end Room

/-! ## What a run of entries leaves -/

section Leave

variable {abi : Abi} {nl : NullableLayout abi} {strtod : Strtod}

/-- The entries that write something. -/
def scalars (es : List Entry) : List Entry := es.filter fun e => e.field.kind ≠ .object

theorem mem_scalars {es : List Entry} {e : Entry} :
    e ∈ scalars es ↔ e ∈ es ∧ e.field.kind ≠ .object := by
  rw [scalars, List.mem_filter, decide_eq_true_eq]

/-- The struct and the text after entries, as those that write leave them. -/
theorem foldl_scalars (es : List Entry) : ∀ st st' : Reader, st.obj = st'.obj → st.json = st'.json →
    (es.foldl (Entry.apply nl strtod) st).obj
        = ((scalars es).foldl (Entry.apply nl strtod) st').obj
      ∧ (es.foldl (Entry.apply nl strtod) st).json
        = ((scalars es).foldl (Entry.apply nl strtod) st').json := by
  induction es with
  | nil => exact fun _ _ hobj hjson => ⟨hobj, hjson⟩
  | cons e es ih =>
      intro st st' hobj hjson
      rw [List.foldl_cons, scalars]
      by_cases hkind : e.field.kind = .object
      · rw [List.filter_cons, if_neg (by rw [decide_eq_true_eq, not_not]; exact hkind)]
        refine ih _ st' ?_ ?_
        · rw [Entry.apply, if_pos hkind]
          exact hobj
        · rw [Entry.apply, if_pos hkind]
          exact hjson
      · have hkeep : decide (e.field.kind ≠ .object) = true := decide_eq_true hkind
        rw [List.filter_cons, if_pos hkeep, List.foldl_cons]
        refine ih _ _ ?_ ?_
        · rw [Entry.apply, if_neg hkind, Entry.apply, if_neg hkind, hobj]
        · rw [Entry.apply, if_neg hkind, Entry.apply, if_neg hkind, hjson]

/-- A field that was written as null holds null. -/
theorem foldl_obj_null {e : Entry} {es : List Entry} (hplaced : ∀ e' ∈ es, Placed abi e'.field)
    (hapart : es.Pairwise fun e e' => Entry.Clear e' (e.base + e.field.offset) e.field.size)
    (he : e ∈ es) (hnull : decodedValue strtod e.field.kind e.value = none) :
    ∀ st : Reader, fieldValue nl e.field (es.foldl (Entry.apply nl strtod) st).obj e.base
      = zeroValue e.field := by
  induction es with
  | nil => exact nomatch he
  | cons e' es ih =>
      intro st
      have hrest : ∀ e'' ∈ es, Placed abi e''.field :=
        fun e'' he'' => hplaced e'' (List.mem_cons_of_mem e' he'')
      obtain ⟨hhead, htail⟩ := List.pairwise_cons.mp hapart
      rw [List.foldl_cons]
      rcases List.mem_cons.mp he with rfl | he
      · have hp := hplaced e List.mem_cons_self
        have hagree := @foldl_obj_apart abi nl strtod (e.base + e.field.offset) e.field.size es
          (Entry.apply nl strtod st e) fun e'' he'' => ⟨hrest e'' he'', hhead e'' he''⟩
        rw [fieldValue_congr nl hp hagree, apply_obj hp.scalar, leafWrite, hnull]
        exact fieldValue_clear nl hp _ _
      · exact ih hrest htail he _

/-- A byte outside the values that are read stays. -/
theorem foldl_byte {k : Nat} (es : List Entry) : ∀ st : Reader,
    (∀ e ∈ es, e.position + e.value.render.length ≤ st.json.length
      ∧ (k < e.position ∨ e.position + e.value.render.length ≤ k)) →
      (es.foldl (Entry.apply nl strtod) st).json.length = st.json.length
        ∧ (es.foldl (Entry.apply nl strtod) st).json[k]? = st.json[k]? := by
  induction es with
  | nil => exact fun _ _ => ⟨rfl, rfl⟩
  | cons e es ih =>
      intro st h
      obtain ⟨hin, hout⟩ := h e List.mem_cons_self
      have hsame := @Entry.apply_sameOutside abi nl strtod st e hin
      obtain ⟨hlen, hbyte⟩ := ih (Entry.apply nl strtod st e) fun e' he' => by
        rw [hsame.1]
        exact h e' (List.mem_cons_of_mem e he')
      exact ⟨hlen.trans hsame.1, hbyte.trans (hsame.2 k hout)⟩

theorem foldl_length (es : List Entry) (st : Reader)
    (h : ∀ e ∈ es, e.position + e.value.render.length ≤ st.json.length) :
    (es.foldl (Entry.apply nl strtod) st).json.length = st.json.length :=
  (foldl_sameOutside es (fun e he => ⟨Nat.zero_le _, h e he⟩) st (Nat.le_refl _)).1

/-- A string that was read stays where it was decoded. -/
theorem foldl_text {e : Entry} {s : Str} {es : List Entry}
    (hscalar : ∀ e' ∈ es, e'.field.kind ≠ .object) (hapart : es.Pairwise Entry.TextApart)
    (he : e ∈ es) (hs : e.value = .str s) :
    ∀ st : Reader, (∀ e' ∈ es, e'.position + e'.value.render.length ≤ st.json.length) →
      TextAt (es.foldl (Entry.apply nl strtod) st).json (e.position + 1) (s.decode ++ [0]) := by
  induction es with
  | nil => exact nomatch he
  | cons e' es ih =>
      intro st hin
      have hsame := @Entry.apply_sameOutside abi nl strtod st e' (hin e' List.mem_cons_self)
      have hrest : ∀ e'' ∈ es, e''.field.kind ≠ .object :=
        fun e'' he'' => hscalar e'' (List.mem_cons_of_mem e' he'')
      have hinside : ∀ e'' ∈ es, e''.position + e''.value.render.length
          ≤ (Entry.apply nl strtod st e').json.length := by
        intro e'' he''
        rw [hsame.1]
        exact hin e'' (List.mem_cons_of_mem e' he'')
      obtain ⟨hhead, htail⟩ := List.pairwise_cons.mp hapart
      rw [List.foldl_cons]
      rcases List.mem_cons.mp he with rfl | he
      · have hkind := hscalar e List.mem_cons_self
        have hlen := hin e List.mem_cons_self
        have hrender : e.value.render.length = s.render.length + 2 := by
          rw [hs]
          show (Str.quoted s).length = _
          rw [Str.quoted, List.length_cons, List.length_append, List.length_singleton]
        have hdec := Str.decode_length s
        have hstart : e.position + 1 ≤ st.json.length := by omega
        have hwritten : TextAt (Entry.apply nl strtod st e).json (e.position + 1)
            (s.decode ++ [0]) := by
          rw [Entry.apply, if_neg hkind, hs]
          show TextAt (decodeInPlace (.str s) e.position st.json) _ _
          exact decodeInPlace_textAt hstart
        -- the values that are read later stand elsewhere
        refine hwritten.of_agree (foldl_length es _ hinside) fun k hlo hhi => ?_
        rw [List.length_append, List.length_singleton] at hhi
        refine (foldl_byte es _ fun e'' he'' => ⟨hinside e'' he'', ?_⟩).2
        rcases hhead e'' he'' hkind (hrest e'' he'') with h | h
        · exact Or.inl (by omega)
        · exact Or.inr (by omega)
      · exact ih hrest htail he _ hinside

end Leave

/-! ## Leaves of an accepted body -/

section Accepted

variable {abi : Abi} {nl : NullableLayout abi} {strtod : Strtod} {printLg : LongDouble → Bytes}
  {ds : Descriptors} {isPartial : Bool}

/-- What the rules say about the fields of an object. -/
theorem objectOk_fields {levels : Nat} {type : Option Nat} {path : Bytes} {v : Json .value}
    (h : objectOk strtod printLg ds isPartial (levels + 1) type path v = true) :
    ∃ info ps, deref ds type = some info ∧ objectPairs v = some ps
      ∧ (∀ p ∈ ps, knownKey info p.1 = true)
      ∧ ∀ f ∈ info.fields, (joinPath path f.name).length < FIELD_PATH_LEN
        ∧ fieldOk strtod printLg isPartial (objectOk strtod printLg ds isPartial levels) path f
            (child v f.name) = true := by
  rw [objectOk] at h
  cases hinfo : deref ds type with
  | none => rw [hinfo] at h; cases h
  | some info =>
      cases hps : objectPairs v with
      | none => rw [hinfo, hps] at h; cases h
      | some ps =>
          rw [hinfo, hps] at h
          dsimp only at h
          rw [Bool.and_eq_true] at h
          refine ⟨info, ps, rfl, rfl, List.all_eq_true.mp h.1, fun f hf => ?_⟩
          have hf := List.all_eq_true.mp h.2 f hf
          rw [Bool.and_eq_true, decide_eq_true_eq] at hf
          rw [child, hps]
          exact hf

/-- The value of a leaf is one that its field takes. -/
theorem objectOk_leaf {levels : Nat} : ∀ {type : Option Nat} {path : Bytes} {base : Nat}
    {v : Json .value}, objectOk strtod printLg ds isPartial levels type path v = true →
      ∀ l ∈ leaves ds levels type base, ∀ w, bodyValue l.path v = some w →
        leafOk strtod printLg l.field w = true := by
  induction levels with
  | zero => exact fun h => (nomatch h)
  | succ levels ih =>
      intro type path base v h l hl w hw
      obtain ⟨info, ps, hinfo, -, -, hfields⟩ := objectOk_fields h
      obtain ⟨info', hinfo', f, hf, hl⟩ := mem_leaves.mp hl
      obtain rfl := Option.some.inj (hinfo.symm.trans hinfo')
      have hok := (hfields f hf).2
      rcases mem_fieldLeaves.mp hl with ⟨hkind, l', hl', rfl⟩ | ⟨hkind, rfl⟩
      · obtain ⟨inner, hinner, hw⟩ := Option.bind_eq_some_iff.mp hw
        rw [hinner, fieldOk, if_pos hkind] at hok
        exact ih hok l' hl' w hw
      · obtain ⟨inner, hinner, hw⟩ := Option.bind_eq_some_iff.mp hw
        obtain rfl := Option.some.inj hw
        rw [hinner, fieldOk, if_neg hkind] at hok
        exact hok

/-- A value that a field takes, as the field has it. -/
theorem leafOk_spec {f : FieldInfo} {w : Json .value} (h : leafOk strtod printLg f w = true) :
    valueCheck printLg f [] (decodedValue strtod f.kind w) = none
      ∧ (decodedValue strtod f.kind w = none → zeroValue f = none) := by
  rw [leafOk] at h
  rw [decodedValue]
  split_ifs at h ⊢ with hnull
  · have hrefuse : refusesNull f = false := by rw [← Bool.not_eq_true']; exact h
    obtain ⟨hzero, hnot⟩ := zeroValue_of_null hrefuse
    exact ⟨by rw [valueCheck, notNull, if_neg (by rw [hnot]; exact Bool.false_ne_true)],
      fun _ => hzero⟩
  · cases hread : readContent strtod f.kind w with
    | none => rw [hread] at h; cases h
    | some c =>
        rw [hread] at h
        exact ⟨Option.isNone_iff_eq_none.mp h, fun hno => by cases hno⟩

end Accepted

/-! ## Leaves that were read -/

section Leaf

variable {abi : Abi} {nl : NullableLayout abi} {strtod : Strtod} {printLg : LongDouble → Bytes}
  {ds : Descriptors} {levels base position index : Nat} {type : Option Nat} {path : Bytes}
  {v : Json .value}

/-- A leaf with a value is one of the entries that write, and such an entry is a
    leaf with a value. -/
theorem mem_scalars_entries {b : Nat} {f : FieldInfo} {w : Json .value} :
    (∃ e ∈ scalars (entries ds levels type path base v position index),
        e.base = b ∧ e.field = f ∧ e.value = w)
      ↔ ∃ l ∈ leaves ds levels type base, l.base = b ∧ l.field = f
        ∧ bodyValue l.path v = some w := by
  have hmem : ((b, f, w) ∈ (entries ds levels type path base v position index).filterMap
      Entry.leaf) ↔ (b, f, w) ∈ (leaves ds levels type base).filterMap (Leaf.withValue v) := by
    rw [entries_leaves]
  rw [List.mem_filterMap, List.mem_filterMap] at hmem
  constructor
  · rintro ⟨e, he, rfl, rfl, rfl⟩
    obtain ⟨he, hkind⟩ := mem_scalars.mp he
    obtain ⟨l, hl, hw⟩ := hmem.mp ⟨e, he, if_neg hkind⟩
    obtain ⟨w, hw, heq⟩ := Option.map_eq_some_iff.mp hw
    obtain ⟨hb, hf, hv⟩ := Prod.mk.inj heq |>.imp_right Prod.mk.inj
    exact ⟨l, hl, hb, hf, hv ▸ hw⟩
  · rintro ⟨l, hl, rfl, rfl, hw⟩
    obtain ⟨e, he, hleaf⟩ := hmem.mpr ⟨l, hl, by rw [Leaf.withValue, hw]; rfl⟩
    rw [Entry.leaf] at hleaf
    split_ifs at hleaf with hkind
    have heq := Option.some.inj hleaf
    exact ⟨e, mem_scalars.mpr ⟨he, hkind⟩, congrArg (·.1) heq, congrArg (·.2.1) heq,
      congrArg (·.2.2) heq⟩

/-- The entries that write do so in different places. -/
theorem scalars_apart
    (h : EveryStruct ds (fun info => Fits ds info ∧ NoOverlap info) levels type) :
    (scalars (entries ds levels type path base v position index)).Pairwise fun e e' =>
      Entry.Clear e' (e.base + e.field.offset) e.field.size := by
  have hpair : ((entries ds levels type path base v position index).filterMap
      Entry.leaf).Pairwise fun a b => Apart (b.1 + b.2.1.offset) b.2.1.size
        (a.1 + a.2.1.offset) a.2.1.size := by
    rw [entries_leaves]
    refine List.pairwise_filterMap.mpr ((leaves_apart h).imp fun {l l'} hl a ha b hb => ?_)
    obtain ⟨w, -, rfl⟩ := Option.map_eq_some_iff.mp ha
    obtain ⟨w', -, rfl⟩ := Option.map_eq_some_iff.mp hb
    exact hl.symm
  refine List.pairwise_filter.mpr ((List.pairwise_filterMap.mp hpair).imp fun hee hk hk' => ?_)
  rw [decide_eq_true_eq] at hk hk'
  exact hee _ (if_neg hk) _ (if_neg hk')

/-- What is stored is what was read, once the string it points to is there. -/
theorem content_stored {kind : FieldKind} {w : Json .value} {c : Scalar} {js : Bytes} {pos : Nat}
    (hread : readContent strtod kind w = some c)
    (htext : ∀ s, w = .str s → TextAt js (pos + 1) (s.decode ++ [0])) :
    Scalar.content js (stored pos c) = c := by
  match kind, w with
  | .str, .str s =>
      rw [readContent] at hread
      split_ifs at hread with hnul
      rw [← Option.some.inj hread]
      show Scalar.str (.elsewhere (cstr (js.drop (pos + 1)))) = _
      rw [cstr_textAt (htext s rfl) hnul]
  | .int, .prim p =>
      have hk := readContent_kind hread
      cases c with
      | int n => rfl
      | long n => cases hk
      | double x => cases hk
      | bool b => cases hk
      | str p => cases hk
  | .long, .prim p =>
      obtain ⟨n, -, rfl⟩ := Option.map_eq_some_iff.mp hread
      rfl
  | .double, .prim p =>
      obtain ⟨x, -, rfl⟩ := Option.map_eq_some_iff.mp hread
      rfl
  | .bool, .prim .true_ => rw [← Option.some.inj hread]; rfl
  | .bool, .prim .false_ => rw [← Option.some.inj hread]; rfl

/-- The reader behind the entries of a value. -/
def left (nl : NullableLayout abi) (strtod : Strtod) (ds : Descriptors) (levels : Nat)
    (type : Option Nat) (path : Bytes) (base : Nat) (v : Json .value) (position index : Nat)
    (st : Reader) : Reader :=
  (entries ds levels type path base v position index).foldl (Entry.apply nl strtod) st

/-- What the structs of a type are known to be. -/
structure Struct (abi : Abi) (ds : Descriptors) (info : TypeInfo) : Prop where
  checked : Checked abi ds info
  laid : Laid info

theorem Struct.readable {info : TypeInfo} (h : Struct abi ds info) : Readable abi info :=
  h.checked.readable h.laid

theorem Struct.apart {info : TypeInfo} (h : Struct abi ds info) :
    Fits ds info ∧ NoOverlap info :=
  ⟨h.checked.fits, h.laid.apart⟩

theorem leaf_placed (hstruct : EveryStruct ds (Struct abi ds) levels type) :
    ∀ l ∈ leaves ds levels type base, Placed abi l.field :=
  leaves_induction (fun _ h _ hf hk => h.checked.placed h.laid hf hk) hstruct

theorem scalars_placed (hstruct : EveryStruct ds (Struct abi ds) levels type) :
    ∀ e ∈ scalars (entries ds levels type path base v position index), Placed abi e.field := by
  intro e he
  obtain ⟨l, hl, -, hf, -⟩ := mem_scalars_entries.mp ⟨e, he, rfl, rfl, rfl⟩
  exact hf ▸ leaf_placed hstruct l hl

/-- A leaf that the body has no value for keeps what it holds. -/
theorem leaf_kept (hstruct : EveryStruct ds (Struct abi ds) levels type) {l : Leaf}
    (hl : l ∈ leaves ds levels type base) (hnone : bodyValue l.path v = none) (st : Reader) :
    AgreeOn (left nl strtod ds levels type path base v position index st).obj st.obj
      (l.base + l.field.offset) l.field.size := by
  rw [left, (foldl_scalars _ st st rfl rfl).1]
  refine foldl_obj_apart _ st fun e he => ⟨scalars_placed hstruct e he, ?_⟩
  obtain ⟨l', hl', hb, hf, hw⟩ := mem_scalars_entries.mp ⟨e, he, rfl, rfl, rfl⟩
  have hne : l' ≠ l := by
    rintro rfl
    rw [hnone] at hw
    cases hw
  have happart := apart_of_ne (leaves_apart (EveryStruct.imp (fun _ h => h.apart) hstruct)) hl' hl
    hne
  rw [Entry.Clear, ← hb, ← hf]
  exact happart

/-- **A leaf that the body has a value for holds it.** -/
theorem leaf_read (hstruct : EveryStruct ds (Struct abi ds) levels type) {l : Leaf}
    (hl : l ∈ leaves ds levels type base) {w : Json .value} (hw : bodyValue l.path v = some w)
    (hnull : decodedValue strtod l.field.kind w = none → zeroValue l.field = none) {st : Reader}
    (hlen : position + v.render.length ≤ st.json.length) :
    (fieldValue nl l.field (left nl strtod ds levels type path base v position index st).obj
        l.base).map
        (Scalar.content (left nl strtod ds levels type path base v position index st).json)
      = decodedValue strtod l.field.kind w := by
  obtain ⟨e, he, hb, hf, hv⟩ := (@mem_scalars_entries ds levels base position index type path v
    _ _ _).mpr ⟨l, hl, rfl, rfl, hw⟩
  have hplaced := @scalars_placed abi ds levels base position index type path v hstruct
  have hpair := @scalars_apart ds levels base position index type path v
    (EveryStruct.imp (fun _ h => h.apart) hstruct)
  obtain ⟨hobj, hjson⟩ := @foldl_scalars abi nl strtod
    (entries ds levels type path base v position index) st st rfl rfl
  rw [left, hobj, hjson, ← hb, ← hf]
  rw [← hf, ← hv] at hnull
  rw [← hv]
  cases hc : decodedValue strtod e.field.kind e.value with
  | none => rw [foldl_obj_null hplaced hpair he hc, hnull hc]; rfl
  | some c =>
      have hread : readContent strtod e.field.kind e.value = some c := by
        rw [decodedValue] at hc
        split_ifs at hc
        exact hc
      rw [foldl_obj_value hplaced hpair he hc]
      refine congrArg some (content_stored hread fun s hs => ?_)
      have htexts : (scalars (entries ds levels type path base v position index)).Pairwise
          Entry.TextApart :=
        (entries_textApart levels type path base v position index
          (EveryStruct.imp (fun _ h => h.readable) hstruct)).sublist List.filter_sublist
      refine foldl_text (fun e' he' => (mem_scalars.mp he').2) htexts he hs st fun e' he' => ?_
      have hwithin := entries_within levels type path base v position index e'
        (mem_scalars.mp he').1
      omega

end Leaf

/-! ## Validation, leaf by leaf -/

section Validate

variable {abi : Abi} {nl : NullableLayout abi} {printLg : LongDouble → Bytes} {ds : Descriptors}
  {json : Bytes} {obj : Object}

/-- A leaf that the validation lets pass, under a path. -/
def LeafPasses (nl : NullableLayout abi) (printLg : LongDouble → Bytes) (json : Bytes)
    (obj : Object) (path : Bytes) (l : Leaf) : Prop :=
  (l.path.foldl joinPath path).length < FIELD_PATH_LEN
    ∧ valueCheck printLg l.field json (fieldValue nl l.field obj l.base) = none

/-- What the validation of a struct finds: nothing, if all its leaves pass, and
    else a failure. -/
def Validates (nl : NullableLayout abi) (printLg : LongDouble → Bytes) (ds : Descriptors)
    (json : Bytes) (obj : Object) (levels : Nat) (type : Option Nat) (base : Nat) (path : Bytes)
    (fail : Failure) : Prop :=
  ((∀ l ∈ leaves ds levels type base, LeafPasses nl printLg json obj path l) →
      validateNested abi nl printLg ds json obj levels type base path fail = (false, fail))
    ∧ ((validateNested abi nl printLg ds json obj levels type base path fail).1 = false →
      ∀ l ∈ leaves ds levels type base, LeafPasses nl printLg json obj path l)

theorem joinPath_length (path name : Bytes) : path.length ≤ (joinPath path name).length := by
  rw [joinPath, List.length_append, List.length_append]
  omega

theorem foldl_joinPath_length (names : List Bytes) : ∀ path : Bytes,
    path.length ≤ (names.foldl joinPath path).length := by
  induction names with
  | nil => exact fun _ => Nat.le_refl _
  | cons name names ih => exact fun path => Nat.le_trans (joinPath_length path name) (ih _)

/-- Once the loop of the validation has failed it fails. -/
theorem validateFields_sticky
    {nested : Option Nat → Nat → Bytes → Failure → Bool × Failure} {base : Nat} {path : Bytes}
    (fields : List FieldInfo) : ∀ fail : Failure,
      (validateFields abi nl printLg json obj nested base path fields true fail).1 = true := by
  induction fields with
  | nil => exact fun _ => rfl
  | cons f fields ih =>
      intro fail
      rw [validateFields]
      dsimp only
      split_ifs
      · rfl
      · exact ih _
      · exact ih _

/-- A struct has a leaf. -/
theorem leaves_nonempty {levels : Nat} : ∀ {type : Option Nat} {base : Nat},
    EveryStruct ds (Struct abi ds) levels type → leaves ds levels type base ≠ [] := by
  induction levels with
  | zero => exact fun h => h.elim
  | succ levels ih =>
      intro type base h
      obtain ⟨info, hinfo, hs, hnested⟩ := h
      have hheader := hs.checked.header
      simp only [headerValid, Bool.and_eq_true, bne_iff_ne, ne_eq] at hheader
      obtain ⟨f, hf⟩ := List.exists_mem_of_length_pos (Nat.pos_of_ne_zero hheader.1.1.2)
      have hleaf : ∃ l, l ∈ fieldLeaves (leaves ds levels) base f := by
        by_cases hkind : f.kind = .object
        · obtain ⟨l, hl⟩ := List.exists_mem_of_ne_nil _ (@ih f.nested (base + f.offset)
            (hnested f hf hkind))
          exact ⟨_, mem_fieldLeaves.mpr (Or.inl ⟨hkind, l, hl, rfl⟩)⟩
        · exact ⟨_, mem_fieldLeaves.mpr (Or.inr ⟨hkind, rfl⟩)⟩
      obtain ⟨l, hl⟩ := hleaf
      exact List.ne_nil_of_mem (mem_leaves.mpr ⟨info, hinfo, f, hf, hl⟩)

/-- The leaves of a field, judged as the loop judges the field. -/
theorem validateFields_spec {levels : Nat} {base : Nat} {path : Bytes}
    (hnested : ∀ (type : Option Nat) (base : Nat) (path : Bytes) (fail : Failure),
      EveryStruct ds (Struct abi ds) levels type →
        Validates nl printLg ds json obj levels type base path fail) :
    ∀ {fields : List FieldInfo}, (∀ f ∈ fields, f.kind = .object →
        EveryStruct ds (Struct abi ds) levels f.nested) → ∀ fail : Failure,
      ((∀ f ∈ fields, ∀ l ∈ fieldLeaves (leaves ds levels) base f,
            LeafPasses nl printLg json obj path l) →
          validateFields abi nl printLg json obj (validateNested abi nl printLg ds json obj levels)
            base path fields false fail = (false, fail))
        ∧ ((validateFields abi nl printLg json obj
              (validateNested abi nl printLg ds json obj levels) base path fields false fail).1
              = false →
          ∀ f ∈ fields, ∀ l ∈ fieldLeaves (leaves ds levels) base f,
            LeafPasses nl printLg json obj path l) := by
  intro fields
  induction fields with
  | nil => exact fun _ fail => ⟨fun _ => rfl, fun _ f hf => (List.not_mem_nil hf).elim⟩
  | cons f fields ih =>
      intro hstruct fail
      obtain ⟨hrest, hback⟩ := ih (fun g hg => hstruct g (List.mem_cons_of_mem f hg)) fail
      rw [validateFields]
      dsimp only
      by_cases hkind : f.kind = .object
      · have hs := hstruct f List.mem_cons_self hkind
        obtain ⟨h1, h2⟩ := hnested f.nested (base + f.offset) (joinPath path f.name) fail hs
        have hlift : (∀ l ∈ fieldLeaves (leaves ds levels) base f,
            LeafPasses nl printLg json obj path l)
            ↔ ∀ l ∈ leaves ds levels f.nested (base + f.offset),
              LeafPasses nl printLg json obj (joinPath path f.name) l := by
          rw [fieldLeaves, if_pos hkind, List.forall_mem_map]
          exact Iff.rfl
        by_cases hlong : (joinPath path f.name).length ≥ FIELD_PATH_LEN
        · rw [if_pos hlong]
          refine ⟨fun hall => ?_, fun h => by cases h⟩
          obtain ⟨l, hl⟩ := List.exists_mem_of_ne_nil _
            (@leaves_nonempty abi ds levels f.nested (base + f.offset) hs)
          have hshort := (hlift.mp (hall f List.mem_cons_self) l hl).1
          have hle := foldl_joinPath_length l.path (joinPath path f.name)
          exact absurd hshort (by omega)
        · rw [if_neg hlong, if_pos hkind, Bool.false_or]
          constructor
          · intro hall
            rw [h1 (hlift.mp (hall f List.mem_cons_self))]
            exact hrest fun g hg => hall g (List.mem_cons_of_mem f hg)
          · intro hdone
            cases hresult : validateNested abi nl printLg ds json obj levels f.nested
                (base + f.offset) (joinPath path f.name) fail with
            | mk failed fail' =>
                rw [hresult] at hdone h1 h2
                cases failed with
                | true => rw [validateFields_sticky] at hdone; cases hdone
                | false =>
                    have hpass := h2 rfl
                    have hsame : fail' = fail := congrArg Prod.snd (h1 hpass)
                    rw [hsame] at hdone
                    rintro g (_ | ⟨_, hg⟩)
                    · exact hlift.mpr hpass
                    · exact hback hdone g hg
      · have hlift : (∀ l ∈ fieldLeaves (leaves ds levels) base f,
            LeafPasses nl printLg json obj path l)
            ↔ (joinPath path f.name).length < FIELD_PATH_LEN
              ∧ valueCheck printLg f json (fieldValue nl f obj base) = none := by
          rw [fieldLeaves, if_neg hkind, List.forall_mem_singleton]
          exact Iff.rfl
        by_cases hlong : (joinPath path f.name).length ≥ FIELD_PATH_LEN
        · rw [if_pos hlong]
          refine ⟨fun hall => ?_, fun h => by cases h⟩
          exact absurd (hlift.mp (hall f List.mem_cons_self)).1 (Nat.not_lt.mpr hlong)
        · rw [if_neg hlong, if_neg hkind, Bool.false_or, fieldValidate,
            fieldCheck_eq nl printLg json hkind]
          constructor
          · intro hall
            rw [(hlift.mp (hall f List.mem_cons_self)).2]
            exact hrest fun g hg => hall g (List.mem_cons_of_mem f hg)
          · intro hdone
            cases hcheck : valueCheck printLg f json (fieldValue nl f obj base) with
            | some e => rw [hcheck] at hdone; dsimp only at hdone; rw [validateFields_sticky] at hdone; cases hdone
            | none =>
                rw [hcheck] at hdone
                rintro g (_ | ⟨_, hg⟩)
                · exact hlift.mpr ⟨Nat.not_le.mp hlong, hcheck⟩
                · exact hback hdone g hg

/-- **A struct is valid exactly if all its leaves are.** -/
theorem validates (levels : Nat) : ∀ (type : Option Nat) (base : Nat) (path : Bytes)
    (fail : Failure), EveryStruct ds (Struct abi ds) levels type →
      Validates nl printLg ds json obj levels type base path fail := by
  induction levels with
  | zero => exact fun _ _ _ _ h => h.elim
  | succ levels ih =>
      intro type base path fail h
      obtain ⟨info, hinfo, hs, hnested⟩ := h
      obtain ⟨h1, h2⟩ := @validateFields_spec abi nl printLg ds json obj levels base path ih
        info.fields hnested fail
      have hall : (∀ l ∈ leaves ds (levels + 1) type base, LeafPasses nl printLg json obj path l)
          ↔ ∀ f ∈ info.fields, ∀ l ∈ fieldLeaves (leaves ds levels) base f,
            LeafPasses nl printLg json obj path l := by
        rw [leaves, hinfo, List.forall_mem_flatMap]
      rw [Validates, validateNested, hinfo, hall]
      exact ⟨h1, h2⟩

end Validate

/-! ## Paths of the body -/

/-- `'.'` -/
abbrev DOT : Byte := 0x2E

/-- A path as the table has it. -/
def dotted (names : List Bytes) : Bytes := names.foldl joinPath []

theorem foldl_joinPath (names : List Bytes) : ∀ {path : Bytes}, path ≠ [] →
    names.foldl joinPath path = path ++ names.flatMap (DOT :: ·) := by
  induction names with
  | nil => exact fun _ => (List.append_nil _).symm
  | cons name names ih =>
      intro path hpath
      have hjoin : joinPath path name = path ++ DOT :: name := by
        rw [joinPath, if_neg hpath, List.append_assoc]
        rfl
      rw [List.foldl_cons, ih (by rw [hjoin]; exact List.append_ne_nil_of_left_ne_nil hpath _),
        hjoin, List.flatMap_cons, List.append_assoc]

theorem intercalate_cons (name : Bytes) (names : List Bytes) :
    [DOT].intercalate (name :: names) = name ++ names.flatMap (DOT :: ·) := by
  induction names generalizing name with
  | nil => rw [List.intercalate_singleton, List.flatMap_nil, List.append_nil]
  | cons next names ih =>
      rw [List.intercalate_cons_of_ne_nil (List.cons_ne_nil _ _), ih, List.flatMap_cons,
        List.append_assoc]
      rfl

/-- What the names on the way to a field are. -/
def Named (names : List Bytes) : Prop := names ≠ [] ∧ ∀ name ∈ names, isSafeIdentifier name = true

theorem identifier_ne_nil {name : Bytes} (h : isSafeIdentifier name = true) : name ≠ [] := by
  rintro rfl
  exact absurd h (by decide)

/-- An identifier has no character but letters, digits and `_`. -/
theorem identifier_char {name : Bytes} (h : isSafeIdentifier name = true) :
    ∀ c ∈ name, (isAlnum c || c == 0x5F) = true := by
  rw [isSafeIdentifier, Bool.and_eq_true, Bool.and_eq_true] at h
  obtain ⟨⟨hhead, htail⟩, -⟩ := h
  intro c hc
  cases name with
  | nil => cases hc
  | cons d name =>
      rcases List.mem_cons.mp hc with rfl | hc
      · rw [isAlnum]
        rw [List.headD_cons] at hhead
        rcases Bool.or_eq_true_iff.mp hhead with hd | hd
        · rw [hd]; rfl
        · rw [hd, Bool.or_true]
      · exact List.all_eq_true.mp htail c hc

theorem identifier_no_dot {name : Bytes} (h : isSafeIdentifier name = true) : DOT ∉ name :=
  fun hc => absurd (identifier_char h DOT hc) (by decide)

theorem identifier_no_nul {name : Bytes} (h : isSafeIdentifier name = true) : (0 : Byte) ∉ name :=
  fun hc => absurd (identifier_char h 0 hc) (by decide)

theorem dotted_eq {names : List Bytes} (h : Named names) : dotted names = [DOT].intercalate names := by
  obtain ⟨hne, hnames⟩ := h
  cases names with
  | nil => exact absurd rfl hne
  | cons name names =>
      rw [dotted, List.foldl_cons, intercalate_cons]
      exact foldl_joinPath names (identifier_ne_nil (hnames name List.mem_cons_self))

/-- **A path names one field.** -/
theorem dotted_inj {names names' : List Bytes} (h : Named names) (h' : Named names')
    (heq : dotted names = dotted names') : names = names' := by
  rw [dotted_eq h, dotted_eq h'] at heq
  have h1 := List.splitOn_intercalate DOT (fun n hn => identifier_no_dot (h.2 n hn)) h.1
  have h2 := List.splitOn_intercalate DOT (fun n hn => identifier_no_dot (h'.2 n hn)) h'.1
  rw [← h1, heq, h2]

theorem dotted_no_nul {names : List Bytes} (h : Named names) : (0 : Byte) ∉ dotted names := by
  rw [dotted_eq h]
  cases hnames : names with
  | nil => exact fun hc => (nomatch hc)
  | cons name rest =>
      rw [hnames] at h
      rw [intercalate_cons, List.mem_append, List.mem_flatMap]
      rintro (hc | ⟨n, hn, hc⟩)
      · exact identifier_no_nul (h.2 name List.mem_cons_self) hc
      · rcases List.mem_cons.mp hc with hc | hc
        · exact absurd hc (by decide)
        · exact identifier_no_nul (h.2 n (List.mem_cons_of_mem name hn)) hc

section Paths

variable {abi : Abi} {strtod : Strtod} {printLg : LongDouble → Bytes} {ds : Descriptors}
  {isPartial : Bool}

/-- An entry is for a path of the body. -/
theorem entry_path {levels : Nat} : ∀ {type : Option Nat} {path : Bytes} {base : Nat}
    {v : Json .value} {position index : Nat}, EveryStruct ds (Struct abi ds) levels type →
      objectOk strtod printLg ds isPartial levels type path v = true →
      ∀ e ∈ entries ds levels type path base v position index,
        ∃ names, Named names ∧ e.path = names.foldl joinPath path
          ∧ e.path.length < FIELD_PATH_LEN ∧ bodyValue names v = some e.value := by
  induction levels with
  | zero => exact fun h => h.elim
  | succ levels ih =>
      intro type path base v position index hstruct hok e he
      obtain ⟨info, hinfo, hs, hnested⟩ := hstruct
      obtain ⟨info', ps, hinfo', -, -, hfields⟩ := objectOk_fields hok
      obtain rfl := Option.some.inj (hinfo.symm.trans hinfo')
      rw [entries, hinfo] at he
      have hpairs := objectMembers_pairs v position index
      cases hms : objectMembers v position index with
      | none => rw [hms] at he; cases he
      | some ms =>
          rw [hms] at he hpairs
          dsimp only at he
          obtain ⟨f, hf, he⟩ := List.mem_flatMap.mp he
          obtain ⟨hlen, hfield⟩ := hfields f hf
          have hchild : child v f.name = (lookup ms f.name).map (·.value) := by
            rw [child, ← hpairs]
            exact lookup_pairs ms f.name
          cases hfind : lookup ms f.name with
          | none => rw [fieldEntries_none hfind] at he; cases he
          | some m =>
              rw [hfind] at hchild
              rw [hchild, Option.map_some, fieldOk] at hfield
              rw [fieldEntries, hfind] at he
              have hsafe := hs.checked.name hf
              rcases List.mem_cons.mp he with rfl | he
              · refine ⟨[f.name], ⟨List.cons_ne_nil _ _, fun n hn => ?_⟩, rfl, hlen, ?_⟩
                · rw [List.mem_singleton.mp hn]
                  exact hsafe
                · rw [bodyValue, hchild]
                  rfl
              · split_ifs at he with hkind
                · rw [if_pos hkind] at hfield
                  obtain ⟨names, hnames, hpath, hshort, hvalue⟩ := ih (hnested f hf hkind) hfield e
                    he
                  refine ⟨f.name :: names, ⟨List.cons_ne_nil _ _, fun n hn => ?_⟩, hpath, hshort,
                    ?_⟩
                  · rcases List.mem_cons.mp hn with rfl | hn
                    · exact hsafe
                    · exact hnames.2 n hn
                  · rw [bodyValue, hchild]
                    exact hvalue
                · cases he

/-- What a field that is no object takes is no object. -/
theorem leafOk_pairs {f : FieldInfo} {w : Json .value} (h : leafOk strtod printLg f w = true) :
    objectPairs w = none := by
  cases w with
  | prim p => rfl
  | str s => rfl
  | empty k ws =>
      have hnull : isNullValue (.empty k ws) = false := rfl
      rw [leafOk, hnull, if_neg Bool.false_ne_true] at h
      cases hk : f.kind <;> rw [hk] at h <;> cases h
  | full k es =>
      have hnull : isNullValue (.full k es) = false := rfl
      rw [leafOk, hnull, if_neg Bool.false_ne_true] at h
      cases hk : f.kind <;> rw [hk] at h <;> cases h

theorem leafOk_child {f : FieldInfo} {w : Json .value} (h : leafOk strtod printLg f w = true)
    (name : Bytes) : child w name = none := by
  rw [child, leafOk_pairs h]
  rfl

/-- **Every path of an accepted body has its entry.** -/
theorem path_entry {levels : Nat} : ∀ {type : Option Nat} {path : Bytes} {base : Nat}
    {v : Json .value} {position index : Nat}, EveryStruct ds (Struct abi ds) levels type →
      objectOk strtod printLg ds isPartial levels type path v = true →
      ∀ names : List Bytes, names ≠ [] → ∀ w, bodyValue names v = some w →
        Named names ∧ ∃ e ∈ entries ds levels type path base v position index,
          e.path = names.foldl joinPath path ∧ e.value = w := by
  induction levels with
  | zero => exact fun h => h.elim
  | succ levels ih =>
      intro type path base v position index hstruct hok names hne w hw
      cases names with
      | nil => exact absurd rfl hne
      | cons name names =>
      obtain ⟨info, hinfo, hs, hnested⟩ := hstruct
      obtain ⟨info', ps, hinfo', hps, hknown, hfields⟩ := objectOk_fields hok
      obtain rfl := Option.some.inj (hinfo.symm.trans hinfo')
      have hpairs := objectMembers_pairs v position index
      rw [hps] at hpairs
      obtain ⟨ms, hms, hpairs⟩ := Option.map_eq_some_iff.mp hpairs
      obtain ⟨inner, hinner, hrest⟩ := Option.bind_eq_some_iff.mp hw
      have hchild : ∀ name, child v name = (lookup ms name).map (·.value) := by
        intro name
        rw [child, hps, ← hpairs]
        exact lookup_pairs ms name
      obtain ⟨m, hfind, hvalue⟩ := Option.map_eq_some_iff.mp ((hchild name).symm.trans hinner)
      -- the name is that of a field, since the body is accepted
      have hmember : KnownKey info m := (knownKey_iff info m).mp (hknown (Member.pair m) (by
        rw [← hpairs]
        exact List.mem_map_of_mem (lookup_some hfind).1))
      obtain ⟨hnul, f, hf, hname⟩ := hmember
      have hfname : f.name = name := by
        rw [← (lookup_some hfind).2, cstr_eq_self hnul]
        exact hname
      subst hfname
      obtain ⟨-, hfield⟩ := hfields f hf
      rw [hinner] at hfield
      rw [entries, hinfo, hms]
      dsimp only
      have hsafe := hs.checked.name hf
      cases names with
      | nil =>
          refine ⟨⟨List.cons_ne_nil _ _, fun n hn => ?_⟩, ⟨joinPath path f.name, base, f, m.value,
            m.valueAt⟩, List.mem_flatMap.mpr ⟨f, hf, ?_⟩, rfl, ?_⟩
          · rw [List.mem_singleton.mp hn]
            exact hsafe
          · rw [fieldEntries, hfind]
            exact List.mem_cons_self
          · exact hvalue.trans (Option.some.inj hrest)
      | cons next names =>
          have hkind : f.kind = .object := by
            by_contra hkind
            rw [fieldOk, if_neg hkind] at hfield
            rw [bodyValue, leafOk_child hfield] at hrest
            cases hrest
          rw [fieldOk, if_pos hkind] at hfield
          obtain ⟨hnamed, e, he, hpath, hev⟩ := @ih f.nested (joinPath path f.name)
            (base + f.offset) inner m.valueAt m.index (hnested f hf hkind) hfield (next :: names)
            (List.cons_ne_nil _ _) w hrest
          refine ⟨⟨List.cons_ne_nil _ _, fun n hn => ?_⟩, e, List.mem_flatMap.mpr ⟨f, hf, ?_⟩,
            hpath, hev⟩
          · rcases List.mem_cons.mp hn with rfl | hn
            · exact hsafe
            · exact hnamed.2 n hn
          · rw [fieldEntries, hfind]
            dsimp only
            rw [if_pos hkind, hvalue]
            exact List.mem_cons_of_mem _ he

end Paths

/-! ## Whole bodies -/

section Whole

variable {abi : Abi} {nl : NullableLayout abi} {strtod : Strtod} {printLg : LongDouble → Bytes}
  {ds : Descriptors} {type : Option Nat} {isPartial : Bool} {obj : Object} {json : Bytes}
  {fail : Failure} {d : Document}

theorem struct_of_valid (hlaid : LaidOut ds) (hvalid : typeValid abi ds type = true) :
    EveryStruct ds (Struct abi ds) NEST_DEPTH_MAX type := by
  obtain ⟨remaining, hremaining⟩ := Option.isSome_iff_exists.mp hvalid
  exact EveryStruct.imp (fun _ h => ⟨h.1, h.2⟩) (EveryStruct.laid hlaid
    (everyStruct_of_valid hremaining))

/-- The reader behind the entries of a body. -/
def leftBy (nl : NullableLayout abi) (strtod : Strtod) (ds : Descriptors) (type : Option Nat)
    (d : Document) (st : Reader) : Reader :=
  left nl strtod ds NEST_DEPTH_MAX type [] 0 d.value d.before.bytes.length 0 st

/-- What the validation behind the reader says. -/
def checkedBy (nl : NullableLayout abi) (printLg : LongDouble → Bytes) (ds : Descriptors)
    (type : Option Nat) (isPartial : Bool) (st : Reader) : Bool × Failure :=
  if isPartial then (false, st.fail)
  else validateStruct abi nl printLg ds st.json st.obj type st.fail

theorem document_ne_nil (d : Document) : d.render ≠ [] := by
  obtain ⟨c, t, heq, -⟩ := Json.render_cons d.value
  rw [Document.render, heq]
  simp only [ne_eq, List.append_eq_nil_iff, List.cons_append, reduceCtorEq, and_false,
    not_false_eq_true]

/-- `json_read_mode` on a text of the grammar. -/
theorem readMode_accepted (hlaid : LaidOut ds) (hvalid : typeValid abi ds type = true)
    (hsize : json.length ≤ JsonParse.INT_MAX) (hd : Accepted json JSON_MAX_TOKENS d) :
    (objectOk strtod printLg ds isPartial NEST_DEPTH_MAX type [] d.value = true →
        jsonReadMode nl strtod printLg ds type obj json isPartial fail
          = let st := leftBy nl strtod ds type d ⟨json, obj, [], fail⟩
            let checked := checkedBy nl printLg ds type isPartial st
            { failed := checked.1, obj := st.obj, json := st.json
              table := if checked.1 then {} else ⟨st.body, type, isPartial⟩
              fail := checked.2 })
      ∧ (objectOk strtod printLg ds isPartial NEST_DEPTH_MAX type [] d.value = false →
        (jsonReadMode nl strtod printLg ds type obj json isPartial fail).failed = true) := by
  have hstruct := struct_of_valid hlaid hvalid
  have hgood : ¬ (json = [] ∨ typeValid abi ds type = false) := by
    rw [hvalid, hd.text]
    rintro (h | h)
    · exact document_ne_nil d h
    · exact nomatch h
  have hparse : jsonParse json JSON_MAX_TOKENS = some (Document.tokens d) :=
    jsonParse_iff.mpr ⟨hsize, d, hd, rfl⟩
  have hstands : Stands (Document.tokens d) json d.value d.before.bytes.length 0 (-1) :=
    ⟨⟨[], (List.append_nil _).symm, fun t ht => (by cases ht)⟩,
      ⟨d.before.bytes, d.after.bytes, hd.text, rfl⟩, hd.names, by decide⟩
  have hroom : ([] : List BodyField).length
      + (entries ds NEST_DEPTH_MAX type [] 0 d.value d.before.bytes.length 0).length
        ≤ JSON_MAX_TOKENS := by
    have hfew := @entries_length abi ds NEST_DEPTH_MAX type [] 0 d.value d.before.bytes.length 0
      (EveryStruct.imp (fun _ h => h.readable) hstruct)
    have hcount := hd.count
    rw [List.length_nil]
    omega
  obtain ⟨hyes, hno⟩ := @agrees abi nl strtod printLg ds (Document.tokens d) isPartial
    NEST_DEPTH_MAX type [] 0 d.value d.before.bytes.length 0 (-1) ⟨json, obj, [], fail⟩
    (EveryStruct.imp (fun _ h => h.readable) hstruct) hstands hroom
  rw [jsonReadMode, if_neg hgood, hparse]
  dsimp only
  constructor
  · intro hok
    obtain ⟨ps, hps⟩ := objectOk_object hok
    have hhead : ¬ ((Document.tokens d).head?.map (·.type)) ≠ some .obj := by
      obtain ⟨tok, hget, htok⟩ := hstands.head
      have htype := (head_object htok).mpr ⟨ps, hps⟩
      rw [Document.tokens, htok, Option.map_some, htype, not_not]
    rw [if_neg hhead, hyes hok, leftBy, left, checkedBy]
    cases isPartial with
    | true => rfl
    | false => rfl
  · intro hok
    by_cases hhead : ((Document.tokens d).head?.map (·.type)) ≠ some .obj
    · rw [if_pos hhead]
    · rw [if_neg hhead, hno hok, Bool.true_or, if_pos rfl]

/-- What is read is read from a text of the grammar. -/
theorem readMode_done
    (hdone : (jsonReadMode nl strtod printLg ds type obj json isPartial fail).failed = false) :
    typeValid abi ds type = true ∧ json.length ≤ JsonParse.INT_MAX
      ∧ ∃ d, Accepted json JSON_MAX_TOKENS d := by
  by_cases hbad : json = [] ∨ typeValid abi ds type = false
  · rw [jsonReadMode, if_pos hbad] at hdone
    cases hdone
  cases hparse : jsonParse json JSON_MAX_TOKENS with
  | none => rw [jsonReadMode, if_neg hbad, hparse] at hdone; cases hdone
  | some toks =>
      obtain ⟨hsize, d, hd, -⟩ := jsonParse_iff.mp hparse
      exact ⟨Bool.eq_true_of_not_eq_false fun h => hbad (Or.inr h), hsize, d, hd⟩

/-- What a leaf of a cleared struct holds when a body has been read. -/
def leafValue (strtod : Strtod) (v : Json .value) (l : Leaf) : Option Scalar :=
  match bodyValue l.path v with
  | none => zeroValue l.field
  | some w => decodedValue strtod l.field.kind w

/-- The rules of a type on the leaves of a whole struct, `value` being what each
    of them holds. -/
def LeavesPass (printLg : LongDouble → Bytes) (ds : Descriptors) (type : Option Nat)
    (value : Leaf → Option Scalar) : Prop :=
  ∀ l ∈ leaves ds NEST_DEPTH_MAX type 0, (dotted l.path).length < FIELD_PATH_LEN
    ∧ valueCheck printLg l.field [] (value l) = none

theorem content_zeroValue (f : FieldInfo) (js : Bytes) :
    (zeroValue f).map (Scalar.content js) = zeroValue f := by
  rw [zeroValue]
  split_ifs
  · rfl
  · cases f.kind <;> rfl

/-- The leaves that a body leaves in a cleared struct. -/
theorem left_leaf (hstruct : EveryStruct ds (Struct abi ds) NEST_DEPTH_MAX type)
    (hd : Accepted json JSON_MAX_TOKENS d)
    (hok : objectOk strtod printLg ds isPartial NEST_DEPTH_MAX type [] d.value = true) {l : Leaf}
    (hl : l ∈ leaves ds NEST_DEPTH_MAX type 0) :
    (fieldValue nl l.field (leftBy nl strtod ds type d ⟨json, zeroed, [], fail⟩).obj l.base).map
        (Scalar.content (leftBy nl strtod ds type d ⟨json, zeroed, [], fail⟩).json)
      = leafValue strtod d.value l := by
  have hlen : d.before.bytes.length + d.value.render.length ≤ json.length :=
    TextAt.length_le ⟨d.before.bytes, d.after.bytes, hd.text, rfl⟩
  rw [leafValue]
  cases hw : bodyValue l.path d.value with
  | none =>
      have hp := leaf_placed hstruct l hl
      rw [leftBy, fieldValue_congr nl hp (leaf_kept hstruct hl hw _), fieldValue_zeroed nl hp,
        content_zeroValue]
  | some w =>
      exact leaf_read hstruct hl hw (leafOk_spec (objectOk_leaf hok l hl w hw)).2 hlen

/-- The validation of a struct whose leaves are known. -/
theorem validateStruct_leaves (hstruct : EveryStruct ds (Struct abi ds) NEST_DEPTH_MAX type)
    (hvalid : typeValid abi ds type = true) {js : Bytes} {row : Object}
    {value : Leaf → Option Scalar} (hvalue : ∀ l ∈ leaves ds NEST_DEPTH_MAX type 0,
      (fieldValue nl l.field row l.base).map (Scalar.content js) = value l) :
    (LeavesPass printLg ds type value →
        validateStruct abi nl printLg ds js row type fail = (false, fail))
      ∧ ((validateStruct abi nl printLg ds js row type fail).1 = false →
        LeavesPass printLg ds type value) := by
  obtain ⟨h1, h2⟩ := @validates abi nl printLg ds js row NEST_DEPTH_MAX type 0 [] fail hstruct
  have hpasses : (∀ l ∈ leaves ds NEST_DEPTH_MAX type 0, LeafPasses nl printLg js row [] l)
      ↔ LeavesPass printLg ds type value := by
    refine forall₂_congr fun l hl => ?_
    rw [LeafPasses, ← hvalue l hl, valueCheck_content, dotted]
  rw [validateStruct, if_pos hvalid]
  exact ⟨fun h => h1 (hpasses.mpr h), fun h => hpasses.mp (h2 h)⟩

/-- The row of an entry has its path whole. -/
theorem state_path {names : List Bytes} {e : Entry} (hnamed : Named names)
    (hpath : e.path = dotted names) (hshort : e.path.length < FIELD_PATH_LEN) :
    (Entry.state e).path = dotted names := by
  show snprintf FIELD_PATH_LEN e.path = _
  rw [hpath] at hshort ⊢
  rw [snprintf, cstr_eq_self (dotted_no_nul hnamed)]
  exact List.take_of_length_le (by omega)

/-- The table behind an accepted body answers for the paths of the body. -/
theorem left_table (hstruct : EveryStruct ds (Struct abi ds) NEST_DEPTH_MAX type)
    (hok : objectOk strtod printLg ds isPartial NEST_DEPTH_MAX type [] d.value = true)
    {table : BodyTable}
    (htable : table.fields = (leftBy nl strtod ds type d ⟨json, obj, [], fail⟩).body)
    (path : Bytes) :
    (bodyHasKey table path = true ↔ ∃ names, names ≠ [] ∧ dotted names = path
        ∧ (bodyValue names d.value).isSome)
      ∧ (bodyIsNull table path = true ↔ ∃ names w, names ≠ [] ∧ dotted names = path
        ∧ bodyValue names d.value = some w ∧ isNullValue w = true) := by
  have hfields : table.fields
      = (entries ds NEST_DEPTH_MAX type [] 0 d.value d.before.bytes.length 0).map Entry.state := by
    rw [htable, leftBy, left, foldl_body, List.nil_append]
  -- a row of the table is for a path of the body
  have hrow : ∀ state ∈ table.fields, ∃ names w, Named names ∧ dotted names = state.path
      ∧ bodyValue names d.value = some w ∧ state.isNull = isNullValue w := by
    intro state hstate
    rw [hfields] at hstate
    obtain ⟨e, he, rfl⟩ := List.mem_map.mp hstate
    obtain ⟨names, hnamed, hpath, hshort, hvalue⟩ := entry_path hstruct hok e he
    exact ⟨names, e.value, hnamed, (state_path hnamed hpath hshort).symm, hvalue, rfl⟩
  -- and every path of the body has its row
  have hpath : ∀ names w, names ≠ [] → bodyValue names d.value = some w →
      Named names ∧ ∃ state ∈ table.fields, state.path = dotted names := by
    intro names w hne hw
    obtain ⟨hnamed, e, he, hep, hev⟩ := @path_entry abi strtod printLg ds isPartial NEST_DEPTH_MAX
      type [] 0 d.value d.before.bytes.length 0 hstruct hok names hne w hw
    obtain ⟨-, -, -, hshort, -⟩ := entry_path hstruct hok e he
    refine ⟨hnamed, Entry.state e, ?_, state_path hnamed hep hshort⟩
    rw [hfields]
    exact List.mem_map_of_mem he
  constructor
  · rw [bodyHasKey, List.any_eq_true]
    constructor
    · rintro ⟨state, hstate, heq⟩
      obtain ⟨names, w, hnamed, hdotted, hw, -⟩ := hrow state hstate
      exact ⟨names, hnamed.1, hdotted.trans (eq_of_beq heq), by rw [hw]; rfl⟩
    · rintro ⟨names, hne, rfl, hsome⟩
      obtain ⟨w, hw⟩ := Option.isSome_iff_exists.mp hsome
      obtain ⟨-, state, hstate, hdotted⟩ := hpath names w hne hw
      exact ⟨state, hstate, beq_iff_eq.mpr hdotted⟩
  · rw [bodyIsNull]
    constructor
    · intro h
      cases hfind : table.fields.find? fun state => state.path == path with
      | none => rw [hfind] at h; cases h
      | some state =>
          rw [hfind] at h
          obtain ⟨names, w, hnamed, hdotted, hw, hnull⟩ := hrow state (List.mem_of_find?_eq_some
            hfind)
          have hhit := List.find?_some hfind
          refine ⟨names, w, hnamed.1, hdotted.trans (eq_of_beq hhit), hw, ?_⟩
          rw [← hnull]
          exact h
    · rintro ⟨names, w, hne, rfl, hw, hnull⟩
      obtain ⟨hnamed, state, hstate, hdotted⟩ := hpath names w hne hw
      cases hfind : table.fields.find? fun state => state.path == dotted names with
      | none =>
          have hnone := List.find?_eq_none.mp hfind state hstate
          rw [hdotted, beq_self_eq_true] at hnone
          exact absurd rfl hnone
      | some state' =>
          obtain ⟨names', w', hnamed', hdotted', hw', hnull'⟩ := hrow state'
            (List.mem_of_find?_eq_some hfind)
          have hhit := List.find?_some hfind
          obtain rfl := dotted_inj hnamed' hnamed (hdotted'.trans (eq_of_beq hhit))
          rw [Option.map_some, Option.getD_some, hnull', ← hnull]
          exact congrArg isNullValue (Option.some.inj (hw'.symm.trans hw))

/-- What an accepted body leaves: the value of the text, the struct leaf by leaf
    and the table path by path. -/
structure Bound (nl : NullableLayout abi) (strtod : Strtod) (printLg : LongDouble → Bytes)
    (ds : Descriptors) (type : Option Nat) (isPartial : Bool) (json : Bytes) (d : Document)
    (outcome : Outcome) : Prop where
  text : Accepted json JSON_MAX_TOKENS d
  rules : objectOk strtod printLg ds isPartial NEST_DEPTH_MAX type [] d.value = true
  whole : isPartial = false → LeavesPass printLg ds type (leafValue strtod d.value)
  leaf : ∀ l ∈ leaves ds NEST_DEPTH_MAX type 0,
    (fieldValue nl l.field outcome.obj l.base).map (Scalar.content outcome.json)
      = leafValue strtod d.value l
  hasKey : ∀ path, bodyHasKey outcome.table path = true ↔
    ∃ names, names ≠ [] ∧ dotted names = path ∧ (bodyValue names d.value).isSome
  isNull : ∀ path, bodyIsNull outcome.table path = true ↔
    ∃ names w, names ≠ [] ∧ dotted names = path ∧ bodyValue names d.value = some w
      ∧ isNullValue w = true

/-- **A body is taken exactly if it keeps the rules of the type, and then it is
    what the struct and the table say.** -/
theorem read_exact (hlaid : LaidOut ds) :
    ((jsonReadMode nl strtod printLg ds type zeroed json isPartial fail).failed = false →
        ∃ d, Bound nl strtod printLg ds type isPartial json d
          (jsonReadMode nl strtod printLg ds type zeroed json isPartial fail))
      ∧ (typeValid abi ds type = true → json.length ≤ JsonParse.INT_MAX →
        (∃ d, Accepted json JSON_MAX_TOKENS d
          ∧ objectOk strtod printLg ds isPartial NEST_DEPTH_MAX type [] d.value = true
          ∧ (isPartial = false → LeavesPass printLg ds type (leafValue strtod d.value))) →
        (jsonReadMode nl strtod printLg ds type zeroed json isPartial fail).failed = false) := by
  constructor
  · intro hdone
    obtain ⟨hvalid, hsize, d, hd⟩ := readMode_done hdone
    have hstruct := struct_of_valid hlaid hvalid
    obtain ⟨hyes, hno⟩ := @readMode_accepted abi nl strtod printLg ds type isPartial zeroed json fail
      d hlaid hvalid hsize hd
    have hok : objectOk strtod printLg ds isPartial NEST_DEPTH_MAX type [] d.value = true := by
      refine Bool.eq_true_of_not_eq_false fun hok => ?_
      rw [hno hok] at hdone
      cases hdone
    have hresult := hyes hok
    dsimp only at hresult
    have hleaf := fun l hl => @left_leaf abi nl strtod printLg ds type isPartial json fail d hstruct
      hd hok l hl
    rw [hresult] at hdone
    dsimp only at hdone
    rw [hresult, hdone, if_neg Bool.false_ne_true]
    have htable := @left_table abi nl strtod printLg ds type isPartial zeroed json fail d hstruct hok
      ⟨(leftBy nl strtod ds type d ⟨json, zeroed, [], fail⟩).body, type, isPartial⟩ rfl
    refine ⟨d, hd, hok, fun hwhole => ?_, hleaf, fun path => (htable path).1,
      fun path => (htable path).2⟩
    rw [checkedBy, hwhole, if_neg Bool.false_ne_true] at hdone
    exact (validateStruct_leaves hstruct hvalid hleaf).2 hdone
  · rintro hvalid hsize ⟨d, hd, hok, hwhole⟩
    have hstruct := struct_of_valid hlaid hvalid
    rw [(readMode_accepted hlaid hvalid hsize hd).1 hok]
    dsimp only
    rw [checkedBy]
    cases isPartial with
    | true => rfl
    | false =>
        rw [if_neg Bool.false_ne_true, (validateStruct_leaves hstruct hvalid fun l hl =>
          left_leaf hstruct hd hok hl).1 (hwhole rfl)]

end Whole

/-! ## A body with a struct in it -/

/-- `struct Point { int x; int y; }` and `struct Pin { Point at; str tag; }`. -/
def point : TypeInfo where
  name := lit "Point"
  size := 8
  fields := [{ name := lit "x", kind := .int, offset := 0, size := 4 },
    { name := lit "y", kind := .int, offset := 4, size := 4 }]

def pin : TypeInfo where
  name := lit "Pin"
  size := 16
  fields := [{ name := lit "at", kind := .object, offset := 0, size := 8, nested := some 0 },
    { name := lit "tag", kind := .str, offset := 8, size := 8 }]

def pinTypes : Descriptors
  | 0 => some point
  | 1 => some pin
  | _ => none

theorem pin_laid : LaidOut pinTypes := by
  intro type info hinfo
  match type with
  | none => cases hinfo
  | some 0 =>
      obtain rfl := Option.some.inj hinfo
      refine ⟨by decide, by decide, ?_⟩
      exact List.pairwise_cons.mpr ⟨by simp [Apart], List.pairwise_singleton _ _⟩
  | some 1 =>
      obtain rfl := Option.some.inj hinfo
      refine ⟨by decide, by decide, ?_⟩
      exact List.pairwise_cons.mpr ⟨by simp [Apart], List.pairwise_singleton _ _⟩
  | some (n + 2) => cases hinfo

/-- A system without numbers that have a fraction. -/
def noDouble : Strtod := fun text => ⟨.finite 0, text, false, false⟩

/-- A body for a pin that is nowhere along `y`. -/
def pinBody : Bytes := lit "\x7b\"at\":\x7b\"x\":3\x7d,\"tag\":\"here\"\x7d"

/-- The body is taken, with what it says in the struct. -/
theorem read_exact_pin : ∃ d, Bound lp64Nullable noDouble (fun _ => []) pinTypes (some 1) false
    pinBody d (jsonReadMode lp64Nullable noDouble (fun _ => []) pinTypes (some 1) zeroed pinBody false
      {}) :=
  (read_exact pin_laid).1 (by decide)

/-! ## Patches -/

section Patch

variable {abi : Abi} {nl : NullableLayout abi} {strtod : Strtod} {printLg : LongDouble → Bytes}
  {ds : Descriptors} {type : Option Nat} {json : Bytes} {fail fail' : Failure} {changes : Object}

/-- The rows of the table that are copied. -/
def copied (fields : List BodyField) : List BodyField :=
  fields.filter fun state => state.field.kind ≠ .object

theorem patchLoop_copied {size : Nat} : ∀ (fields : List BodyField) (target : Object),
    (∀ state ∈ copied fields, state.offset + state.field.size ≤ size) →
      patchLoop size changes fields target = (false, copyAll changes (copied fields) target)
  | [], _, _ => rfl
  | state :: fields, target, h => by
      rw [patchLoop]
      by_cases hkind : state.field.kind = .object
      · have hskip : copied (state :: fields) = copied fields :=
          List.filter_cons_of_neg (by rw [decide_eq_true_eq, not_not]; exact hkind)
        rw [hskip] at h ⊢
        rw [if_pos hkind]
        exact patchLoop_copied fields target h
      · have hkeep : copied (state :: fields) = state :: copied fields :=
          List.filter_cons_of_pos (decide_eq_true hkind)
        rw [hkeep] at h ⊢
        have hin := h state List.mem_cons_self
        rw [if_neg hkind, if_neg (by omega)]
        exact patchLoop_copied fields _ fun s hs => h s (List.mem_cons_of_mem state hs)

theorem copied_states (es : List Entry) :
    copied (es.map Entry.state) = (scalars es).map Entry.state := by
  rw [copied, List.filter_map]
  rfl

/-- A byte that is not copied stays. -/
theorem copyAll_other {a : Nat} : ∀ (fields : List BodyField) (target : Object),
    (∀ state ∈ fields, ¬ Within state.offset state.field.size a) →
      copyAll changes fields target a = target a
  | [], _, _ => rfl
  | state :: fields, target, h => by
      have hrest := copyAll_other fields (copy target changes state.offset state.field.size)
        fun s hs => h s (List.mem_cons_of_mem state hs)
      exact hrest.trans (if_neg (h state List.mem_cons_self))

/-- **Copying twice is copying once.** -/
theorem copyAll_twice (fields : List BodyField) (target : Object) :
    copyAll changes fields (copyAll changes fields target) = copyAll changes fields target := by
  funext a
  by_cases h : ∃ state ∈ fields, Within state.offset state.field.size a
  · obtain ⟨state, hstate, ha⟩ := h
    rw [copyAll_mem hstate _ a ha, copyAll_mem hstate _ a ha]
  · push Not at h
    exact copyAll_other fields _ h

/-- What a leaf holds when a body has been merged into a struct. -/
def mergedValue (nl : NullableLayout abi) (strtod : Strtod) (v : Json .value) (js : Bytes)
    (current : Object) (l : Leaf) : Option Scalar :=
  match bodyValue l.path v with
  | none => (fieldValue nl l.field current l.base).map (Scalar.content js)
  | some w => decodedValue strtod l.field.kind w

/-- What `patch_apply` does with an accepted body: it merges the leaves, writes
    nothing else, fails exactly where the merged struct is not valid, and does no
    more the second time. -/
structure Merged (nl : NullableLayout abi) (strtod : Strtod) (printLg : LongDouble → Bytes)
    (ds : Descriptors) (type : Option Nat) (d : Document) (outcome : Outcome) (current : Object)
    (fail' : Failure) (result : Bool × Object × Failure) : Prop where
  leaf : ∀ l ∈ leaves ds NEST_DEPTH_MAX type 0,
    (fieldValue nl l.field result.2.1 l.base).map (Scalar.content outcome.json)
      = mergedValue nl strtod d.value outcome.json current l
  frame : ∀ a, (∀ l ∈ leaves ds NEST_DEPTH_MAX type 0, (bodyValue l.path d.value).isSome →
    ¬ Within (l.base + l.field.offset) l.field.size a) → result.2.1 a = current a
  valid : result.1 = false ↔
    LeavesPass printLg ds type (mergedValue nl strtod d.value outcome.json current)
  again : patchApply nl printLg ds outcome.table type outcome.json result.2.1 outcome.obj fail'
    = result

/-- **A patch is a merge.** -/
theorem patch_merges (hlaid : LaidOut ds) {outcome : Outcome}
    (hread : jsonReadMode nl strtod printLg ds type zeroed json true fail = outcome)
    (hdone : outcome.failed = false) (hfail : requestFailed fail' = false) (current : Object) :
    ∃ d, Bound nl strtod printLg ds type true json d outcome
      ∧ Merged nl strtod printLg ds type d outcome current fail'
        (patchApply nl printLg ds outcome.table type outcome.json current outcome.obj fail') := by
  subst hread
  obtain ⟨d, hbound⟩ := (read_exact hlaid).1 hdone
  obtain ⟨hvalid, hsize, -⟩ := readMode_done hdone
  have hstruct := struct_of_valid hlaid hvalid
  refine ⟨d, hbound, ?_⟩
  have hresult := (@readMode_accepted abi nl strtod printLg ds type true zeroed json fail d hlaid
    hvalid hsize hbound.text).1 hbound.rules
  dsimp only [checkedBy] at hresult
  rw [if_pos rfl, if_neg Bool.false_ne_true] at hresult
  generalize jsonReadMode nl strtod printLg ds type zeroed json true fail = outcome at *
  obtain ⟨info, hinfo, -⟩ := id hstruct
  have htable : copied outcome.table.fields
      = (scalars (entries ds NEST_DEPTH_MAX type [] 0 d.value d.before.bytes.length 0)).map
        Entry.state := by
    rw [hresult, leftBy, left]
    dsimp only
    rw [foldl_body, List.nil_append, copied_states]
  -- the rows that are copied are the leaves that the body has a value for
  have hrow : ∀ o n, (∃ state ∈ copied outcome.table.fields, state.offset = o
      ∧ state.field.size = n) ↔ ∃ l ∈ leaves ds NEST_DEPTH_MAX type 0,
        (bodyValue l.path d.value).isSome ∧ l.base + l.field.offset = o ∧ l.field.size = n := by
    intro o n
    rw [htable]
    constructor
    · rintro ⟨state, hstate, rfl, rfl⟩
      obtain ⟨e, he, rfl⟩ := List.mem_map.mp hstate
      obtain ⟨l, hl, hb, hf, hw⟩ := mem_scalars_entries.mp ⟨e, he, rfl, rfl, rfl⟩
      exact ⟨l, hl, by rw [hw]; rfl, by rw [hb, hf]; rfl, by rw [hf]; rfl⟩
    · rintro ⟨l, hl, hsome, rfl, rfl⟩
      obtain ⟨w, hw⟩ := Option.isSome_iff_exists.mp hsome
      obtain ⟨e, he, hb, hf, -⟩ := (@mem_scalars_entries ds NEST_DEPTH_MAX 0
        d.before.bytes.length 0 type [] d.value _ _ _).mpr ⟨l, hl, rfl, rfl, hw⟩
      exact ⟨Entry.state e, List.mem_map_of_mem he, by rw [← hb, ← hf]; rfl, by rw [← hf]; rfl⟩
  have hinside : ∀ state ∈ copied outcome.table.fields,
      state.offset + state.field.size ≤ info.size := by
    intro state hstate
    obtain ⟨l, hl, -, ho, hn⟩ := (hrow _ _).mp ⟨state, hstate, rfl, rfl⟩
    have hin := (leaves_inside (EveryStruct.imp (fun _ h => h.apart.1) hstruct) hinfo l hl).2
    rw [← ho, ← hn]
    omega
  have hpatch : ∀ target, patchApply nl printLg ds outcome.table type outcome.json target
      outcome.obj fail' = ((validateStruct abi nl printLg ds outcome.json
          (copyAll outcome.obj (copied outcome.table.fields) target) type fail').1,
        copyAll outcome.obj (copied outcome.table.fields) target,
        (validateStruct abi nl printLg ds outcome.json
          (copyAll outcome.obj (copied outcome.table.fields) target) type fail').2) := by
    intro target
    have hnot : ¬ (outcome.table.isPartial = false ∨ type ≠ outcome.table.type
        ∨ requestFailed fail' = true) := by
      rw [hresult, hfail]
      rintro (h | h | h)
      · exact nomatch h
      · exact h rfl
      · exact nomatch h
    rw [patchApply, if_neg hnot, hinfo]
    dsimp only [Option.elim]
    rw [patchLoop_copied _ _ hinside, if_neg Bool.false_ne_true]
  have hleaf : ∀ l ∈ leaves ds NEST_DEPTH_MAX type 0,
      (fieldValue nl l.field (copyAll outcome.obj (copied outcome.table.fields) current)
          l.base).map (Scalar.content outcome.json)
        = mergedValue nl strtod d.value outcome.json current l := by
    intro l hl
    have hp := leaf_placed hstruct l hl
    rw [mergedValue]
    cases hw : bodyValue l.path d.value with
    | none =>
        have hkept : AgreeOn (copyAll outcome.obj (copied outcome.table.fields) current) current
            (l.base + l.field.offset) l.field.size := by
          refine copyAll_apart _ _ fun state hstate => ?_
          obtain ⟨l', hl', hsome, ho, hn⟩ := (hrow _ _).mp ⟨state, hstate, rfl, rfl⟩
          rw [← ho, ← hn]
          refine apart_of_ne (leaves_apart (EveryStruct.imp (fun _ h => h.apart) hstruct)) hl' hl ?_
          rintro rfl
          rw [hw] at hsome
          cases hsome
        rw [fieldValue_congr nl hp hkept]
    | some w =>
        obtain ⟨state, hstate, ho, hn⟩ := (hrow _ _).mpr ⟨l, hl, by rw [hw]; rfl, rfl, rfl⟩
        have htaken := @copyAll_mem outcome.obj _ _ hstate current
        rw [ho, hn] at htaken
        rw [fieldValue_congr nl hp htaken, hbound.leaf l hl, leafValue, hw]
  obtain ⟨h1, h2⟩ := @validateStruct_leaves abi nl printLg ds type fail' hstruct hvalid _ _ _ hleaf
  rw [hpatch current]
  refine ⟨hleaf, fun a ha => copyAll_other _ _ fun state hstate hin => ?_, ⟨fun h => h2 h, fun h =>
    by rw [h1 h]⟩, ?_⟩
  · obtain ⟨l, hl, hsome, ho, hn⟩ := (hrow _ _).mp ⟨state, hstate, rfl, rfl⟩
    rw [← ho, ← hn] at hin
    exact ha l hl hsome hin
  · dsimp only
    rw [hpatch, copyAll_twice]

end Patch

/-- A body that moves a pin along `y` is merged into another pin. -/
theorem patch_merges_pin : ∃ d outcome result,
    Bound lp64Nullable noDouble (fun _ => []) pinTypes (some 1) true
        (lit "\x7b\"at\":\x7b\"y\":5\x7d\x7d") d outcome
      ∧ Merged lp64Nullable noDouble (fun _ => []) pinTypes (some 1) d outcome
        (store zeroed 0 4 (.int 3)) {} result := by
  obtain ⟨d, hbound, hmerged⟩ := @patch_merges EmittedTypes.lp64 lp64Nullable noDouble (fun _ => [])
    pinTypes (some 1) (lit "\x7b\"at\":\x7b\"y\":5\x7d\x7d") {} {} pin_laid _ rfl (by decide) rfl
    (store zeroed 0 4 (.int 3))
  exact ⟨d, _, _, hbound, hmerged⟩

end BodyExact
