import Gargantua.JsonWrite

/-! # What `json_write_struct` writes, `json_read` reads

    The object that is written for a struct is an object of the grammar, with the
    names of the type and one value for each field (`written_object`).  It keeps
    the rules of the type if the struct does, so that reading it into a cleared
    struct gives every leaf its value back (`write_read`). -/

namespace JsonRoundTrip

open CString Decimal JsonGrammar JsonMachine JsonValue JsonNumber GeneratorText GeneratorSource
  RuntimeTypes RuntimeError RuntimeObject RuntimeBody RuntimeSink ObjectFields PatchKey BodyTree
  BodyBinding BodyRead BodyLeaves BodyExact JsonWrite Memory
open JsonParse (JSON_MAX_DEPTH JSON_MAX_OBJECT_KEYS JSON_MAX_KEY_BYTES)
open JsonAccess (Strtod)
open RouteGenerator (isSpace)

/-! ## Integers -/

theorem isSpace_digit {c : Byte} (h : IsDigit c) : isSpace c = false ∧ c ≠ 0x2D ∧ c ≠ 0x2B := by
  revert h
  cases c with
  | ofBitVec b =>
      revert b
      decide +kernel

/-- An integer that is printed is read. -/
theorem strtol_printInt {n : Int} (hlow : LONG_MIN ≤ n) (hhigh : n ≤ LONG_MAX) :
    strtol (printInt n) = ⟨n, [], true, false⟩ := by
  obtain ⟨c, t, ht⟩ := List.exists_cons_of_ne_nil (print_ne_nil n.natAbs)
  have hdigits := print_digits n.natAbs
  have hc : IsDigit c := hdigits c (by rw [ht]; exact List.mem_cons_self)
  obtain ⟨hspace, hminus, hplus⟩ := isSpace_digit hc
  have hskip : (printInt n).dropWhile isSpace = printInt n := by
    rw [printInt, ht]
    by_cases hn : n < 0
    · rw [if_pos hn]
      exact List.dropWhile_cons_of_neg (by decide)
    · rw [if_neg hn]
      exact List.dropWhile_cons_of_neg (by rw [hspace]; exact Bool.false_ne_true)
  have hsign : sign (printInt n) = (decide (n < 0), print n.natAbs) := by
    rw [printInt]
    by_cases hn : n < 0
    · rw [if_pos hn, decide_eq_true hn]
      rfl
    · rw [if_neg hn, decide_eq_false hn, ht]
      unfold sign
      split
      · rename_i heq
        exact absurd (List.cons.inj heq).1 hminus
      · rename_i heq
        exact absurd (List.cons.inj heq).1 hplus
      · rfl
  have hall : ∀ d ∈ print n.natAbs, isDigit d = true := by
    intro d hd
    have h := hdigits d hd
    rw [isDigit, decide_eq_true h.1, decide_eq_true h.2]
    rfl
  have htake : (print n.natAbs).takeWhile isDigit = print n.natAbs :=
    List.takeWhile_eq_self_iff.mpr hall
  have hdrop : (print n.natAbs).dropWhile isDigit = [] := List.dropWhile_eq_nil_iff.mpr hall
  have hvalue : decimal (print n.natAbs) = n.natAbs := by
    have hread := read_print n.natAbs
    rw [Decimal.read] at hread
    rw [decimal]
    simp only [Nat.mul_comm 10]
    exact hread
  have hn : (if decide (n < 0) = true then -(n.natAbs : Int) else (n.natAbs : Int)) = n := by
    by_cases h : n < 0
    · rw [if_pos (decide_eq_true h)]
      omega
    · rw [if_neg (by rw [decide_eq_false h]; exact Bool.false_ne_true)]
      omega
  rw [strtol, hskip, hsign]
  dsimp only
  rw [htake, hdrop, hvalue, hn, if_neg (print_ne_nil _), if_neg (by omega), if_neg (by omega)]

theorem printInt_short {n : Int} (hlow : LONG_MIN ≤ n) (hhigh : n ≤ LONG_MAX) :
    (printInt n).length < 128 := by
  have hsmall : n.natAbs < 10 ^ (20 + 1) := by
    simp only [LONG_MIN, LONG_MAX] at hlow hhigh
    omega
  have hprint := print_length n.natAbs hsmall
  rw [printInt, List.length_append]
  split_ifs
  · rw [List.length_singleton]
    omega
  · rw [List.length_nil]
    omega

theorem checkedLong_printInt {n : Int} (hlow : LONG_MIN ≤ n) (hhigh : n ≤ LONG_MAX) :
    checkedLong (printInt n) = some n := by
  have hshort := printInt_short hlow hhigh
  rw [checkedLong, if_neg (by omega), strtol_printInt hlow hhigh]
  rfl

/-! ## Objects of the grammar -/

theorem noWs_isWs : ∀ c ∈ ([] : Bytes), IsWs c := List.forall_mem_nil _

/-- White space that is not there. -/
def noWs : Ws := ⟨[], noWs_isWs⟩

/-- The elements of an object without white space, the first one apart. -/
def elementsOf : Str × Json .value → List (Str × Json .value) → Json (.elements .obj)
  | p, [] => .last .obj (.member noWs p.1 noWs noWs) p.2 noWs
  | p, q :: ps => .more .obj (.member noWs p.1 noWs noWs) p.2 noWs (elementsOf q ps)

def objectOf : List (Str × Json .value) → Json .value
  | [] => .empty .obj noWs
  | p :: ps => .full .obj (elementsOf p ps)

/-- The text of a member, with its comma in front. -/
def pairText (p : Str × Json .value) : Bytes := 0x2C :: (p.1.quoted ++ 0x3A :: p.2.render)

section Objects

variable {P : List Str → Prop}

theorem elementsOf_pairs (ps : List (Str × Json .value)) : ∀ p, pairs (elementsOf p ps) = p :: ps := by
  induction ps with
  | nil => exact fun _ => rfl
  | cons q ps ih => exact fun p => congrArg (p :: ·) (ih q)

theorem objectOf_pairs : ∀ ps : List (Str × Json .value), objectPairs (objectOf ps) = some ps
  | [] => rfl
  | p :: ps => congrArg some (elementsOf_pairs ps p)

theorem elementsOf_render (ps : List (Str × Json .value)) : ∀ p,
    (elementsOf p ps).render = ((p :: ps).flatMap pairText).tail ++ [0x7D] := by
  induction ps with
  | nil =>
      intro p
      rw [elementsOf, Json.render, List.flatMap_cons, List.flatMap_nil, List.append_nil, pairText,
        List.tail_cons, Label.render]
      simp only [noWs, List.nil_append, List.append_assoc, List.cons_append, Kind.closing]
  | cons q ps ih =>
      intro p
      rw [elementsOf, Json.render, ih, Label.render]
      simp only [noWs, pairText, List.flatMap_cons, List.tail_cons, List.nil_append,
        List.append_assoc, List.cons_append]

theorem objectOf_render : ∀ ps : List (Str × Json .value),
    (objectOf ps).render = 0x7B :: ((ps.flatMap pairText).tail ++ [0x7D])
  | [] => rfl
  | p :: ps => congrArg (0x7B :: ·) (elementsOf_render ps p)

/-- The tokens of the members: a name and a value each. -/
def pairTokens (ps : List (Str × Json .value)) : Nat := (ps.map fun p => 1 + p.2.tokenCount).sum

theorem elementsOf_tokens (ps : List (Str × Json .value)) : ∀ p,
    (elementsOf p ps).tokenCount = pairTokens (p :: ps) := by
  induction ps with
  | nil => exact fun _ => rfl
  | cons q ps ih =>
      intro p
      rw [elementsOf, Json.tokenCount, ih]
      rfl

theorem objectOf_tokens : ∀ ps : List (Str × Json .value),
    (objectOf ps).tokenCount = 1 + pairTokens ps
  | [] => rfl
  | p :: ps => by rw [objectOf, Json.tokenCount, elementsOf_tokens, Nat.add_comm]

theorem elementsOf_nesting {k : Nat} (ps : List (Str × Json .value)) : ∀ p,
    (∀ q ∈ p :: ps, q.2.nesting ≤ k) → (elementsOf p ps).nesting ≤ k := by
  induction ps with
  | nil => exact fun p h => h p List.mem_cons_self
  | cons q ps ih =>
      intro p h
      rw [elementsOf, Json.nesting]
      exact Nat.max_le.mpr ⟨h p List.mem_cons_self, ih q fun r hr => h r (List.mem_cons_of_mem p hr)⟩

theorem objectOf_nesting {k : Nat} : ∀ {ps : List (Str × Json .value)},
    (∀ p ∈ ps, p.2.nesting ≤ k) → (objectOf ps).nesting ≤ k + 1
  | [], _ => Nat.succ_le_succ (Nat.zero_le k)
  | p :: ps, h => Nat.succ_le_succ (elementsOf_nesting ps p h)

theorem elementsOf_keys (ps : List (Str × Json .value)) : ∀ p,
    (elementsOf p ps).keys = (p :: ps).map Prod.fst := by
  induction ps with
  | nil => exact fun _ => rfl
  | cons q ps ih => exact fun p => congrArg (p.1 :: ·) (ih q)

theorem elementsOf_every (ps : List (Str × Json .value)) : ∀ p,
    (∀ q ∈ p :: ps, q.2.EveryObject P) → (elementsOf p ps).EveryObject P := by
  induction ps with
  | nil => exact fun p h => h p List.mem_cons_self
  | cons q ps ih =>
      exact fun p h => ⟨h p List.mem_cons_self, ih q fun r hr => h r (List.mem_cons_of_mem p hr)⟩

theorem objectOf_every : ∀ {ps : List (Str × Json .value)}, P (ps.map Prod.fst) →
    (∀ p ∈ ps, p.2.EveryObject P) → (objectOf ps).EveryObject P
  | [], _, _ => trivial
  | p :: ps, hp, h => ⟨elementsOf_keys ps p ▸ hp, elementsOf_every ps p h⟩

end Objects

/-! ## Leaves -/

/-- A number that the library writes so that it is read again. -/
def Keeps (printG17 : LongDouble → Bytes) (strtod : Strtod) : Scalar → Prop
  | .double x => checkedDouble strtod (printG17 x) = some x
  | _ => True

/-- A string that JSON can say and that is written whole. -/
def Sayable (json : Bytes) : Scalar → Prop
  | .str p => Utf8.WellFormed (p.text json) ∧ (p.text json).length ≤ RUNTIME_MAX_TEXT
  | _ => True

/-- What a leaf of a struct must be to come back: in its range, finite, sayable
    and within its rules. -/
structure Sound (printG17 : LongDouble → Bytes) (strtod : Strtod) (printLg : LongDouble → Bytes)
    (json : Bytes) (f : FieldInfo) (x : Option Scalar) : Prop where
  range : ∀ c, x = some c → InRange c
  writable : writable x = true
  keeps : ∀ c, x = some c → Keeps printG17 strtod c
  sayable : ∀ c, x = some c → Sayable json c
  rules : valueCheck printLg f json x = none

/-- What is written for a leaf. -/
structure LeafWritten (printG17 : LongDouble → Bytes) (strtod : Strtod) (printLg : LongDouble → Bytes)
    (json : Bytes) (f : FieldInfo) (x : Option Scalar) (w : Json .value) : Prop where
  text : w.render = (fieldJson printG17 json x).print escape
  tokens : w.tokenCount = 1
  nesting : w.nesting = 0
  names : ∀ P : List Str → Prop, w.EveryObject P
  ok : leafOk strtod printLg f w = true
  value : decodedValue strtod f.kind w = x.map (Scalar.content json)

section Leaf

variable {abi : Abi} {nl : NullableLayout abi} {printG17 : LongDouble → Bytes} {strtod : Strtod}
  {printLg : LongDouble → Bytes} {json : Bytes} {f : FieldInfo} {x : Option Scalar}

/-- A value that is there is written if the reader takes its text for it. -/
theorem leafWritten_some {c : Scalar} {w : Json .value}
    (hrules : valueCheck printLg f json (some c) = none)
    (htext : w.render = (scalarJson printG17 json c).print escape) (htokens : w.tokenCount = 1)
    (hnesting : w.nesting = 0) (hnames : ∀ P : List Str → Prop, w.EveryObject P)
    (hnull : isNullValue w = false)
    (hread : readContent strtod f.kind w = some (Scalar.content json c)) :
    LeafWritten printG17 strtod printLg json f (some c) w where
  text := htext
  tokens := htokens
  nesting := hnesting
  names := hnames
  ok := by
    have hcheck := valueCheck_content printLg f json (some c)
    rw [hrules] at hcheck
    rw [leafOk, if_neg (by rw [hnull]; exact Bool.false_ne_true), hread]
    exact Option.isNone_iff_eq_none.mpr hcheck
  value := by
    rw [decodedValue, if_neg (by rw [hnull]; exact Bool.false_ne_true), hread]
    rfl

/-- A primitive that is not written as `null` is not `null`. -/
theorem prim_not_null {p : Prim} (h : p.render ≠ lit "null") : isNullValue (.prim p) = false := by
  cases p with
  | null => exact absurd rfl h
  | true_ => rfl
  | false_ => rfl
  | num n => rfl

/-- The first byte of an integer is no letter. -/
theorem printInt_not_null (n : Int) : printInt n ≠ lit "null" := by
  intro h
  obtain ⟨c, t, ht⟩ := List.exists_cons_of_ne_nil (print_ne_nil n.natAbs)
  have hc := print_digits n.natAbs c (by rw [ht]; exact List.mem_cons_self)
  rw [printInt, ht] at h
  by_cases hn : n < 0
  · rw [if_pos hn] at h
    exact absurd (List.cons.inj h).1 (by decide)
  · rw [if_neg hn] at h
    rw [(List.cons.inj h).1] at hc
    exact absurd hc.2 (by decide)

/-- A field without a value takes `null`. -/
theorem null_taken (hkind : f.kind ≠ .object) {obj : Object} {base : Nat}
    (hx : fieldValue nl f obj base = none) (hrules : valueCheck printLg f json none = none) :
    refusesNull f = false := by
  have hnot : f.flags.notNull = false := by
    rw [valueCheck, notNull] at hrules
    split_ifs at hrules with h
    exact Bool.eq_false_iff.mpr h
  rw [refusesNull, hnot, Bool.false_or, Bool.and_eq_false_iff]
  by_cases hstr : f.kind = .str
  · exact Or.inl (by rw [hstr]; rfl)
  · right
    cases hnullable : f.flags.nullable with
    | true => rfl
    | false =>
        rw [fieldValue, fieldIsNull, hnullable, if_neg Bool.false_ne_true, if_neg hstr,
          if_neg Bool.false_ne_true] at hx
        dsimp only at hx
        cases hk : f.kind with
        | str => exact absurd hk hstr
        | object => exact absurd hk hkind
        | int => rw [hk] at hx; cases hx
        | long => rw [hk] at hx; cases hx
        | double => rw [hk] at hx; cases hx
        | bool => rw [hk] at hx; cases hx

/-- **A leaf is written as a value that the field takes, and that stands for it.** -/
theorem leaf_written (hprint : PrintsNumbers printG17) (hkind : f.kind ≠ .object) {obj : Object}
    {base : Nat} (hx : fieldValue nl f obj base = x)
    (hsound : Sound printG17 strtod printLg json f x) :
    ∃ w, LeafWritten printG17 strtod printLg json f x w := by
  cases x with
  | none =>
      refine ⟨.prim .null, rfl, rfl, rfl, fun _ => trivial, ?_, rfl⟩
      have hnull : isNullValue (.prim .null) = true := rfl
      rw [leafOk, if_pos hnull, null_taken hkind hx hsound.rules]
      rfl
  | some c =>
      have hk := fieldValue_kind nl hx
      cases c with
      | int n =>
          obtain ⟨p, hp⟩ := printInt_primitive n
          have hrange := hsound.range _ rfl
          have hlong := @checkedLong_printInt n (Int.le_trans (by decide) hrange.1)
            (Int.le_trans hrange.2 (by decide))
          refine ⟨.prim p, leafWritten_some hsound.rules hp rfl rfl (fun _ => trivial)
            (prim_not_null (by rw [hp]; exact printInt_not_null n)) ?_⟩
          have hin : ¬ (n > 2147483647 ∨ n < -2147483648) := by
            rintro (h | h)
            · exact absurd hrange.2 (Int.not_le.mpr h)
            · exact absurd hrange.1 (Int.not_le.mpr h)
          rw [← hk, Scalar.kind, readContent, hp, hlong]
          exact if_neg hin
      | long n =>
          obtain ⟨p, hp⟩ := printInt_primitive n
          have hrange := hsound.range _ rfl
          have hlong := checkedLong_printInt hrange.1 hrange.2
          refine ⟨.prim p, leafWritten_some hsound.rules hp rfl rfl (fun _ => trivial)
            (prim_not_null (by rw [hp]; exact printInt_not_null n)) ?_⟩
          rw [← hk, Scalar.kind, readContent, hp, hlong]
          rfl
      | double y =>
          obtain ⟨⟨n, hn⟩, -⟩ := hprint y (hsound.range _ rfl) hsound.writable
          refine ⟨.prim (.num n), leafWritten_some hsound.rules hn rfl rfl (fun _ => trivial) rfl ?_⟩
          have hkeeps : checkedDouble strtod (printG17 y) = some y := hsound.keeps _ rfl
          rw [← hk, Scalar.kind, readContent, Prim.render, hn, hkeeps]
          rfl
      | bool b =>
          cases b with
          | false =>
              refine ⟨.prim .false_, leafWritten_some hsound.rules rfl rfl rfl (fun _ => trivial)
                rfl ?_⟩
              rw [← hk]
              rfl
          | true =>
              refine ⟨.prim .true_, leafWritten_some hsound.rules rfl rfl rfl (fun _ => trivial)
                rfl ?_⟩
              rw [← hk]
              rfl
      | str p =>
          obtain ⟨hutf8, hshort⟩ : Utf8.WellFormed (p.text json)
              ∧ (p.text json).length ≤ RUNTIME_MAX_TEXT := hsound.sayable _ rfl
          obtain ⟨s, hs, hd⟩ := escapes.string hutf8
          have hwhole : written (p.text json) = p.text json := by
            rw [written, cstr_eq_self (Ptr.text_no_nul p json), List.take_of_length_le hshort]
          refine ⟨.str s, leafWritten_some hsound.rules ?_ rfl rfl (fun _ => trivial) rfl ?_⟩
          · rw [Json.render, Str.quoted, hs, scalarJson, hwhole]
            rfl
          · rw [← hk, Scalar.kind, readContent, hd, if_neg (Ptr.text_no_nul p json)]
            rfl

end Leaf

/-! ## Structs -/

/-- The tokens of a struct that is written. -/
def structTokens (ds : Descriptors) : Nat → Option Nat → Nat
  | 0, _ => 0
  | levels + 1, type =>
      match deref ds type with
      | none => 0
      | some info => 1 + (info.fields.map fun f =>
          1 + if f.kind = .object then structTokens ds levels f.nested else 1).sum

/-- A struct whose members JSON readers take: distinct names that are not long. -/
structure Readable (abi : Abi) (ds : Descriptors) (info : TypeInfo) : Prop where
  struct : Struct abi ds info
  short : ∀ f ∈ info.fields, f.name.length < JSON_MAX_KEY_BYTES

/-- What is written for a struct under a path. -/
structure StructWritten {abi : Abi} (nl : NullableLayout abi) (printG17 : LongDouble → Bytes)
    (strtod : Strtod) (printLg : LongDouble → Bytes) (ds : Descriptors) (json : Bytes) (obj : Object)
    (levels : Nat) (type : Option Nat) (base : Nat) (path : Bytes) (j : Json .value) : Prop where
  text : j.render = (structJson nl printG17 ds json obj levels type base).print escape
  tokens : j.tokenCount = structTokens ds levels type
  nesting : j.nesting ≤ levels
  names : j.EveryObject NamesOk
  ok : objectOk strtod printLg ds false levels type path j = true
  leaf : ∀ l ∈ leaves ds levels type base, ∃ w, bodyValue l.path j = some w
    ∧ decodedValue strtod l.field.kind w
      = (fieldValue nl l.field obj l.base).map (Scalar.content json)

section Structs

variable {abi : Abi} {nl : NullableLayout abi} {printG17 : LongDouble → Bytes} {strtod : Strtod}
  {printLg : LongDouble → Bytes} {ds : Descriptors} {json : Bytes} {obj : Object}

/-- The name of a field as JSON says it. -/
theorem key_of_name {name : Bytes} (h : isSafeIdentifier name = true) :
    ∃ s : Str, s.render = name ∧ s.quoted = quote escape name ∧ s.decode = name := by
  have hascii := identifier_plain h
  obtain ⟨s, hs, hd⟩ := escapes.string (Utf8.wellFormed_of_ascii fun c hc => (hascii c hc).1)
  refine ⟨s, ?_, ?_, hd⟩
  · rw [hs, escapes.flatMap_plain fun c hc => (hascii c hc).2]
  · rw [Str.quoted, hs]
    rfl

/-- A field is found under its name. -/
theorem find_field {key : FieldInfo → Str} {value : FieldInfo → Json .value} :
    ∀ {fields : List FieldInfo}, (∀ f ∈ fields, cstr (key f).decode = f.name) →
      (fields.map (·.name)).Nodup → ∀ f ∈ fields,
        find (fields.map fun f => (key f, value f)) f.name = some (value f) := by
  intro fields
  induction fields with
  | nil => exact fun _ _ _ hf => (nomatch hf)
  | cons g fields ih =>
      intro hkeys hnodup f hf
      rw [List.map_cons, List.nodup_cons] at hnodup
      rw [find, List.map_cons, List.find?_cons, hkeys g List.mem_cons_self]
      rcases List.mem_cons.mp hf with rfl | hf
      · rw [beq_self_eq_true]
        rfl
      · have hne : (g.name == f.name) = false := by
          refine beq_false_of_ne fun heq => hnodup.1 ?_
          rw [heq]
          exact List.mem_map_of_mem hf
        rw [hne]
        exact ih (fun h hh => hkeys h (List.mem_cons_of_mem g hh)) hnodup.2 f hf

/-- What is written for a field: a struct or a leaf. -/
structure FieldWritten {abi : Abi} (nl : NullableLayout abi) (printG17 : LongDouble → Bytes)
    (strtod : Strtod) (printLg : LongDouble → Bytes) (ds : Descriptors) (json : Bytes) (obj : Object)
    (levels base : Nat) (path : Bytes) (f : FieldInfo) (w : Json .value) : Prop where
  text : w.render
    = (fieldMember nl printG17 json obj (structJson nl printG17 ds json obj levels) base f).2.print
        escape
  tokens : w.tokenCount = if f.kind = .object then structTokens ds levels f.nested else 1
  nesting : w.nesting ≤ levels
  names : w.EveryObject NamesOk
  ok : fieldOk strtod printLg false (objectOk strtod printLg ds false levels) path f (some w) = true
  leaf : ∀ l ∈ fieldLeaves (leaves ds levels) base f, ∃ v,
    bodyValue l.path.tail w = some v ∧ l.path.head? = some f.name
      ∧ decodedValue strtod l.field.kind v
        = (fieldValue nl l.field obj l.base).map (Scalar.content json)

/-- **A struct is written as an object that its type takes, leaf by leaf.** -/
theorem struct_written (hprint : PrintsNumbers printG17) {levels : Nat} :
    ∀ {type : Option Nat} {base : Nat} {path : Bytes}, EveryStruct ds (Readable abi ds) levels type →
      (∀ l ∈ leaves ds levels type base, (l.path.foldl joinPath path).length < FIELD_PATH_LEN
        ∧ Sound printG17 strtod printLg json l.field (fieldValue nl l.field obj l.base)) →
      ∃ j, StructWritten nl printG17 strtod printLg ds json obj levels type base path j := by
  induction levels with
  | zero => exact fun h => h.elim
  | succ levels ih =>
      intro type base path hstruct hsound
      obtain ⟨info, hinfo, hr, hnested⟩ := hstruct
      have hleaves : ∀ f ∈ info.fields, ∀ l ∈ fieldLeaves (leaves ds levels) base f,
          l ∈ leaves ds (levels + 1) type base := fun f hf l hl =>
        mem_leaves.mpr ⟨info, hinfo, f, hf, hl⟩
      -- a value for every field
      have hfield : ∀ f, ∃ w, f ∈ info.fields →
          FieldWritten nl printG17 strtod printLg ds json obj levels base path f w := by
        intro f
        by_cases hf : f ∈ info.fields
        · by_cases hkind : f.kind = .object
          · obtain ⟨j, hj⟩ := @ih f.nested (base + f.offset) (joinPath path f.name)
              (hnested f hf hkind) fun l hl => by
                have h := hsound _ (hleaves f hf _ (mem_fieldLeaves.mpr (Or.inl ⟨hkind, l, hl, rfl⟩)))
                exact h
            refine ⟨j, fun _ => ⟨?_, by rw [if_pos hkind]; exact hj.tokens, hj.nesting, hj.names, ?_,
              fun l hl => ?_⟩⟩
            · rw [fieldMember, if_pos hkind]
              exact hj.text
            · rw [fieldOk, if_pos hkind]
              exact hj.ok
            · rcases mem_fieldLeaves.mp hl with ⟨-, inner, hinner, rfl⟩ | ⟨hno, -⟩
              · obtain ⟨w, hw, hvalue⟩ := hj.leaf inner hinner
                exact ⟨w, hw, rfl, hvalue⟩
              · exact absurd hkind hno
          · have hleaf := hsound _ (hleaves f hf _ (mem_fieldLeaves.mpr (Or.inr ⟨hkind, rfl⟩)))
            obtain ⟨w, hw⟩ := @leaf_written abi nl printG17 strtod printLg json f _ hprint hkind obj
              base rfl hleaf.2
            refine ⟨w, fun _ => ⟨?_, by rw [if_neg hkind]; exact hw.tokens,
              hw.nesting ▸ Nat.zero_le _, hw.names _, ?_, fun l hl => ?_⟩⟩
            · rw [fieldMember, if_neg hkind]
              exact hw.text
            · rw [fieldOk, if_neg hkind]
              exact hw.ok
            · rcases mem_fieldLeaves.mp hl with ⟨hk, -⟩ | ⟨-, rfl⟩
              · exact absurd hk hkind
              · exact ⟨w, rfl, rfl, hw.value⟩
        · exact ⟨.prim .null, fun h => absurd h hf⟩
      choose value hvalue using hfield
      have hkey : ∀ f : FieldInfo, ∃ s : Str, f ∈ info.fields →
          s.render = f.name ∧ s.quoted = quote escape f.name ∧ s.decode = f.name := by
        intro f
        by_cases hf : f ∈ info.fields
        · obtain ⟨s, hs⟩ := key_of_name (hr.struct.checked.name hf)
          exact ⟨s, fun _ => hs⟩
        · exact ⟨[], fun h => absurd h hf⟩
      choose key hkey using hkey
      have hdecode : ∀ f ∈ info.fields, cstr (key f).decode = f.name := fun f hf => by
        rw [(hkey f hf).2.2, cstr_eq_self (identifier_no_nul (hr.struct.checked.name hf))]
      have hfind := @find_field key value info.fields hdecode hr.struct.laid.names
      refine ⟨objectOf (info.fields.map fun f => (key f, value f)), ?_, ?_, ?_, ?_, ?_, ?_⟩
      · rw [objectOf_render, structJson, hinfo]
        dsimp only
        rw [print_object, List.flatMap_map, List.flatMap_map]
        congr 3
        refine List.flatMap_congr fun f hf => ?_
        rw [pairText, memberText, (hkey f hf).2.1, (hvalue f hf).text]
        rfl
      · rw [objectOf_tokens, pairTokens, List.map_map, structTokens, hinfo]
        dsimp only
        congr 2
        exact List.map_congr_left fun f hf => congrArg (1 + ·) (hvalue f hf).tokens
      · refine objectOf_nesting fun p hp => ?_
        obtain ⟨f, hf, rfl⟩ := List.mem_map.mp hp
        exact (hvalue f hf).nesting
      · refine objectOf_every ?_ fun p hp => ?_
        · rw [List.map_map]
          refine ⟨?_, fun k hk => ?_, ?_⟩
          · have hheader := hr.struct.checked.header
            simp only [headerValid, Bool.and_eq_true, decide_eq_true_eq] at hheader
            rw [List.length_map]
            exact Nat.le_trans hheader.1.2 (by decide)
          · obtain ⟨f, hf, rfl⟩ := List.mem_map.mp hk
            rw [Function.comp_apply, (hkey f hf).1]
            exact hr.short f hf
          · rw [List.map_map]
            have hnames : info.fields.map ((fun k => cstr (Str.decode k)) ∘ (Prod.fst ∘ fun f =>
                (key f, value f))) = info.fields.map (·.name) :=
              List.map_congr_left fun f hf => hdecode f hf
            rw [hnames]
            exact hr.struct.laid.names
        · obtain ⟨f, hf, rfl⟩ := List.mem_map.mp hp
          exact (hvalue f hf).names
      · rw [objectOk, hinfo, objectOf_pairs]
        dsimp only
        rw [Bool.and_eq_true, List.all_eq_true, List.all_eq_true]
        refine ⟨fun p hp => ?_, fun f hf => ?_⟩
        · obtain ⟨f, hf, rfl⟩ := List.mem_map.mp hp
          rw [knownKey, (hkey f hf).2.2, Bool.and_eq_true, Bool.not_eq_true', List.any_eq_true]
          refine ⟨?_, f, hf, beq_self_eq_true _⟩
          rw [← Bool.not_eq_true, List.contains_iff_mem]
          exact identifier_no_nul (hr.struct.checked.name hf)
        · rw [hfind f hf, (hvalue f hf).ok, Bool.and_true]
          refine decide_eq_true ?_
          obtain ⟨l, hl⟩ : ∃ l, l ∈ fieldLeaves (leaves ds levels) base f := by
            by_cases hkind : f.kind = .object
            · obtain ⟨l, hl⟩ := List.exists_mem_of_ne_nil _ (@leaves_nonempty abi ds levels f.nested
                (base + f.offset) (EveryStruct.imp (fun _ h => h.struct) (hnested f hf hkind)))
              exact ⟨_, mem_fieldLeaves.mpr (Or.inl ⟨hkind, l, hl, rfl⟩)⟩
            · exact ⟨_, mem_fieldLeaves.mpr (Or.inr ⟨hkind, rfl⟩)⟩
          have hshort := (hsound l (hleaves f hf l hl)).1
          obtain ⟨-, -, hhead, -⟩ := (hvalue f hf).leaf l hl
          obtain ⟨names, hnames⟩ : ∃ names, l.path = f.name :: names := by
            cases hp : l.path with
            | nil => rw [hp] at hhead; cases hhead
            | cons name names => rw [hp] at hhead; exact ⟨names, by rw [Option.some.inj hhead]⟩
          rw [hnames, List.foldl_cons] at hshort
          exact Nat.lt_of_le_of_lt (foldl_joinPath_length names _) hshort
      · intro l hl
        obtain ⟨info', hinfo', f, hf, hl⟩ := mem_leaves.mp hl
        obtain rfl := Option.some.inj (hinfo.symm.trans hinfo')
        obtain ⟨w, hw, hhead, hread⟩ := (hvalue f hf).leaf l hl
        refine ⟨w, ?_, hread⟩
        cases hp : l.path with
        | nil => rw [hp] at hhead; cases hhead
        | cons name names =>
            rw [hp] at hhead hw
            obtain rfl := Option.some.inj hhead
            rw [bodyValue, child, objectOf_pairs, Option.bind_some, hfind f hf]
            exact hw

end Structs

/-! ## Reading what was written -/

section RoundTrip

variable {abi : Abi} {nl : NullableLayout abi} {printG17 : LongDouble → Bytes} {strtod : Strtod}
  {printLg : LongDouble → Bytes} {ds : Descriptors} {type : Option Nat} {json text : Bytes}
  {obj : Object} {cap : Nat} {fail : Failure}

end RoundTrip

/-- The pin with its tag. -/
def tagged : Object := store pinned 8 8 (.str (.elsewhere (lit "here")))

/-- Its text. -/
def taggedText : Bytes := lit "\x7b\"at\":\x7b\"x\":3,\"y\":0\x7d,\"tag\":\"here\"\x7d"

theorem tagged_sound : ∀ l ∈ leaves pinTypes NEST_DEPTH_MAX (some 1) 0,
    (dotted l.path).length < FIELD_PATH_LEN
      ∧ Sound doubleText noDouble (fun _ => []) [] l.field
        (fieldValue lp64Nullable l.field tagged l.base) := by
  have hvalues : ∀ l ∈ leaves pinTypes NEST_DEPTH_MAX (some 1) 0,
      (dotted l.path).length < FIELD_PATH_LEN
        ∧ valueCheck (fun _ => []) l.field [] (fieldValue lp64Nullable l.field tagged l.base) = none
        ∧ (fieldValue lp64Nullable l.field tagged l.base = some (.str (.elsewhere (lit "here")))
          ∨ fieldValue lp64Nullable l.field tagged l.base = some (.int 3)
          ∨ fieldValue lp64Nullable l.field tagged l.base = some (.int 0)) := by decide
  have hascii : Utf8.WellFormed (lit "here") := Utf8.wellFormed_of_ascii (by decide)
  intro l hl
  obtain ⟨hpath, hrules, h⟩ := hvalues l hl
  refine ⟨hpath, ?_⟩
  rcases h with h | h | h
  · rw [h] at hrules ⊢
    exact ⟨fun c hc => Option.some.inj hc ▸ trivial, rfl, fun c hc => Option.some.inj hc ▸ trivial,
      fun c hc => Option.some.inj hc ▸ ⟨hascii, by decide⟩, hrules⟩
  · rw [h] at hrules ⊢
    exact ⟨fun c hc => Option.some.inj hc ▸ ⟨by decide, by decide⟩, rfl,
      fun c hc => Option.some.inj hc ▸ trivial, fun c hc => Option.some.inj hc ▸ trivial, hrules⟩
  · rw [h] at hrules ⊢
    exact ⟨fun c hc => Option.some.inj hc ▸ ⟨by decide, by decide⟩, rfl,
      fun c hc => Option.some.inj hc ▸ trivial, fun c hc => Option.some.inj hc ▸ trivial, hrules⟩

end JsonRoundTrip
