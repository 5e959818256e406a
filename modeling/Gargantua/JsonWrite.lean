import Gargantua.RuntimeSink
import Gargantua.JsonNumber
import Gargantua.BodyExact

/-! # Writing a struct as JSON (`src/runtime/runtime.c`)

    `json_write_struct` walks the fields of a struct and the structs in it and
    writes an object of the same names; `row_list_write` does that for every row
    of a list.  A buffer that is too small, a type that is not valid and a number
    that is not finite make them fail, and nothing else does: what they write is
    the JSON text of the values in the struct (`write_exact`, `rows_exact`).

    A function that returns `-1` returns `none` here.  `%.17g` is the C
    library's, a parameter. -/

namespace JsonWrite

open CString Decimal GeneralFormat JsonGrammar JsonValue JsonNumber GeneratorText GeneratorSource
  RuntimeTypes RuntimeObject RuntimeSink ObjectFields PatchKey BodyBinding BodyRead BodyLeaves
  BodyExact Memory

/-- `PAGE_MAX`. -/
abbrev PAGE_MAX : Nat := 100

/-! ## The writer -/

/-- The digits of `sink_add_int`, the last one first, with `rounds` places left
    in `digits`. -/
def digitsLoop : Nat → Nat → Bytes
  | 0, _ => []
  | rounds + 1, magnitude =>
      digit (magnitude % 10) :: if magnitude / 10 > 0 then digitsLoop rounds (magnitude / 10) else []

/-- `sink_add_int`. -/
def sinkAddInt (s : Sink) (value : Int) : Sink :=
  if value < 0 then
    (digitsLoop 24 ((-(value + 1)).toNat + 1)).reverse.foldl sinkPut (sinkPut s 0x2D)
  else (digitsLoop 24 value.toNat).reverse.foldl sinkPut s

section Write

variable {abi : Abi} (nl : NullableLayout abi) (printG17 : LongDouble → Bytes) (ds : Descriptors)
  (json : Bytes) (obj : Object)

/-- `json_write_scalar`. -/
def jsonWriteScalar (f : FieldInfo) (base : Nat) (s : Sink) : Option Sink :=
  if fieldIsNull abi f obj base then some (sinkAdd s (lit "null"))
  else
    let scalar := fieldScalar nl f
    match scalar.kind with
    | .str =>
        match readStr abi obj (base + scalar.offset) with
        | none => some (sinkAdd s (lit "null"))
        | some p => some (sinkAdd (sinkAddEscaped (sinkAdd s (lit "\"")) (p.text json)) (lit "\""))
    | .int => some (sinkAddInt s (readInt abi obj (base + scalar.offset)))
    | .long => some (sinkAddInt s (readLong abi obj (base + scalar.offset)))
    | .double =>
        let value := readDouble abi obj (base + scalar.offset)
        if value.isFinite then some (sinkAdd s ((printG17 value).take 63)) else none
    | .bool =>
        some (sinkAdd s (if readBool abi obj (base + scalar.offset) then lit "true" else lit "false"))
    | .object => some (sinkAdd s (lit "null"))

/-- The loop of `json_write_nested`, with the call for a nested struct. -/
def writeFields (nested : Option Nat → Nat → Sink → Option Sink) (base : Nat) :
    Bool → List FieldInfo → Sink → Option Sink
  | _, [], s => some s
  | first, f :: fields, s =>
      if s.overflow then some s
      else
        let s := if first then s else sinkAdd s (lit ",")
        let s := sinkAdd (sinkAdd (sinkAdd s (lit "\"")) f.name) (lit "\":")
        (if f.kind = .object then nested f.nested (base + f.offset) s
          else jsonWriteScalar nl printG17 json obj f base s).bind
          (writeFields nested base false fields)

/-- `json_write_nested`, with `NEST_DEPTH_MAX - depth` levels to go. -/
def jsonWriteNested : Nat → Option Nat → Nat → Sink → Option Sink
  | 0, _, _, _ => none
  | levels + 1, type, base, s =>
      match deref ds type with
      | none => none
      | some info =>
          (writeFields nl printG17 json obj (jsonWriteNested levels) base true info.fields
            (sinkAdd s (lit "\x7b"))).bind fun s =>
              let s := sinkAdd s (lit "\x7d")
              if s.overflow then none else some s

/-- `json_write_struct`, into a buffer of `cap` bytes. -/
def jsonWriteStruct (type : Option Nat) (cap : Nat) : Option Bytes :=
  if cap = 0 ∨ typeValid abi ds type = false then none
  else (jsonWriteNested nl printG17 ds json obj NEST_DEPTH_MAX type 0 (sinkInit cap)).map (·.buf)

end Write

/-- `RowList`: the items one behind the other. -/
structure RowList where
  type : Option Nat := none
  items : Option Object := none
  count : Int := 0
  page : Int := 0
  size : Int := 0
  hasMore : Bool := false

section Rows

variable {abi : Abi} (nl : NullableLayout abi) (printG17 : LongDouble → Bytes) (ds : Descriptors)
  (json : Bytes)

/-- The checks of `row_list_write`. -/
def rowListValid (abi : Abi) (ds : Descriptors) (list : RowList) (paginated : Bool) : Bool :=
  typeValid abi ds list.type && 0 ≤ list.count && list.count ≤ PAGE_MAX
    && (list.count ≤ 0 || list.items.isSome)
    && (!paginated || (0 ≤ list.page && 0 < list.size && list.size ≤ PAGE_MAX
      && list.count ≤ list.size))

/-- The loop of `row_list_write`, from the item at `i` on, with `rounds` to go. -/
def writeItems (type : Option Nat) (size : Nat) (items : Object) :
    Nat → Nat → Sink → Option Sink
  | 0, _, s => some s
  | rounds + 1, i, s =>
      if s.overflow then some s
      else
        (jsonWriteNested nl printG17 ds json items NEST_DEPTH_MAX type (i * size)
          (if i > 0 then sinkAddBytes s (lit ",") else s)).bind
          (writeItems type size items rounds (i + 1))

/-- What `row_list_write` puts behind the items of a page. -/
def writePage (list : RowList) (s : Sink) : Sink :=
  let s := sinkAddInt (sinkAddBytes s (lit ",\"page\":")) list.page
  let s := sinkAddInt (sinkAddBytes s (lit ",\"size\":")) list.size
  let s := sinkAdd (sinkAddBytes s (lit ",\"hasMore\":"))
    (if list.hasMore then lit "true" else lit "false")
  sinkAddBytes s (lit "\x7d")

/-- `row_list_write`, into a buffer of `cap` bytes. -/
def rowListWrite (list : RowList) (paginated : Bool) (cap : Nat) : Option Bytes :=
  if cap = 0 ∨ rowListValid abi ds list paginated = false then none
  else
    let s := sinkInit cap
    let s := if paginated then sinkAddBytes s (lit "\x7b\"items\":") else s
    (writeItems nl printG17 ds json list.type ((deref ds list.type).elim 0 (·.size))
      (list.items.getD zeroed) list.count.toNat 0 (sinkAddBytes s (lit "["))).bind fun s =>
        let s := sinkAddBytes s (lit "]")
        let s := if paginated then writePage list s else s
        if s.overflow then none else some s.buf

end Rows

/-! ## Integers -/

theorem digitsLoop_reverse : ∀ (rounds magnitude : Nat), magnitude < 10 ^ rounds →
    (digitsLoop rounds magnitude).reverse = printLoop rounds magnitude
  | 0, _, _ => rfl
  | rounds + 1, magnitude, h => by
      have hdiv : magnitude / 10 < 10 ^ rounds := by
        rw [Nat.pow_succ] at h
        omega
      rw [digitsLoop, printLoop, List.reverse_cons]
      by_cases hsmall : magnitude < 10
      · rw [if_neg (by omega), if_pos hsmall, Nat.mod_eq_of_lt hsmall]
        rfl
      · rw [if_pos (by omega), if_neg hsmall, digitsLoop_reverse rounds _ hdiv]

/-- More rounds than a number has digits print the same. -/
theorem printLoop_rounds : ∀ (r r' n : Nat), 0 < r → 0 < r' → n < 10 ^ r → n < 10 ^ r' →
    printLoop r n = printLoop r' n
  | r + 1, r' + 1, n, _, _, h, h' => by
      rw [printLoop, printLoop]
      by_cases hsmall : n < 10
      · rw [if_pos hsmall, if_pos hsmall]
      · rw [if_neg hsmall, if_neg hsmall]
        rw [Nat.pow_succ] at h h'
        have hr : 0 < r := Nat.pos_of_ne_zero fun h0 => by rw [h0] at h; omega
        have hr' : 0 < r' := Nat.pos_of_ne_zero fun h0 => by rw [h0] at h'; omega
        rw [printLoop_rounds r r' (n / 10) hr hr' (by omega) (by omega)]

theorem digitsLoop_print {magnitude : Nat} (h : magnitude < 10 ^ 24) :
    (digitsLoop 24 magnitude).reverse = print magnitude := by
  rw [digitsLoop_reverse 24 magnitude h, print]
  exact printLoop_rounds 24 (magnitude + 1) magnitude (by decide) (Nat.succ_pos _) h
    (Nat.lt_of_lt_of_le (Nat.lt_pow_self (by decide)) (Nat.pow_le_pow_right (by decide)
      (Nat.le_succ magnitude)))

section Holding

variable {cap : Nat} {content : Option Bytes} {s : Sink}

theorem holds_puts (ds : Bytes) : ∀ {content : Option Bytes} {s : Sink}, Holds cap content s →
    Holds cap (Bounded.put (cap - 1) content ds) (ds.foldl sinkPut s) := by
  induction ds with
  | nil =>
      intro content s h
      rw [h.nil]
      exact h
  | cons d ds ih =>
      intro content s h
      have hrest := ih (holds_put h d)
      rw [Bounded.put_put] at hrest
      exact hrest

/-- An integer that is not far out is written as it is printed. -/
theorem holds_addInt (h : Holds cap content s) {n : Int} (hlow : -(10 ^ 24) < n)
    (hhigh : n < 10 ^ 24) :
    Holds cap (Bounded.put (cap - 1) content (printInt n)) (sinkAddInt s n) := by
  rw [sinkAddInt, printInt]
  by_cases hn : n < 0
  · have hmagnitude : (-(n + 1)).toNat + 1 = n.natAbs := by omega
    have hputs := holds_puts (print n.natAbs) (holds_put h 0x2D)
    rw [Bounded.put_put] at hputs
    rw [if_pos hn, if_pos hn, hmagnitude, digitsLoop_print (by omega)]
    exact hputs
  · have hmagnitude : n.toNat = n.natAbs := by omega
    rw [if_neg hn, if_neg hn, hmagnitude, digitsLoop_print (by omega), List.nil_append]
    exact holds_puts _ h

/-- `sink_add_escaped` writes the escaped text. -/
theorem holds_escaped (h : Holds cap content s) (text : Bytes) :
    Holds cap (Bounded.put (cap - 1) content ((written text).flatMap escape))
      (sinkAddEscaped s text) :=
  @escapedLoop_holds cap text content s 0 [] h fun _ hc => by cases hc

end Holding

/-! ## Writers that may fail -/

/-- `write` puts the text into a sink, if there is one; it fails only where the
    text does not fit or is not there. -/
def Emits (cap : Nat) (write : Sink → Option Sink) (text : Option Bytes) : Prop :=
  ∀ (content : Option Bytes) (s : Sink), Holds cap content s →
    (write s = none → (text.bind (Bounded.put (cap - 1) content)) = none)
      ∧ ∀ s', write s = some s' → Holds cap (text.bind (Bounded.put (cap - 1) content)) s'

/-- Two texts in a row, if both are there. -/
def both (t u : Option Bytes) : Option Bytes := t.bind fun t => u.map (t ++ ·)

section Emit

variable {cap : Nat} {write write' : Sink → Option Sink} {t u : Option Bytes}

theorem put_both (content : Option Bytes) :
    (both t u).bind (Bounded.put (cap - 1) content)
      = u.bind (Bounded.put (cap - 1) (t.bind (Bounded.put (cap - 1) content))) := by
  cases t with
  | none =>
      cases u with
      | none => rfl
      | some u => rfl
  | some t =>
      cases u with
      | none => rfl
      | some u => exact (Bounded.put_put (cap - 1) content t u).symm

theorem emits_total {f : Sink → Sink} {text : Bytes}
    (h : ∀ {content : Option Bytes} {s : Sink}, Holds cap content s →
      Holds cap (Bounded.put (cap - 1) content text) (f s)) :
    Emits cap (fun s => some (f s)) (some text) :=
  fun _ _ hs => ⟨fun hno => (nomatch hno), fun _ hs' => Option.some.inj hs' ▸ h hs⟩

theorem Emits.bind (h : Emits cap write t) (h' : Emits cap write' u) :
    Emits cap (fun s => (write s).bind write') (both t u) := by
  intro content s hs
  obtain ⟨hnone, hsome⟩ := h content s hs
  rw [put_both]
  dsimp only
  cases hw : write s with
  | none =>
      rw [hnone hw, Option.bind_none]
      refine ⟨fun _ => ?_, fun _ hs' => (nomatch hs')⟩
      cases u <;> rfl
  | some s₁ => exact h' _ s₁ (hsome s₁ hw)

/-- Nothing is written once the sink is full. -/
theorem Emits.guarded (h : Emits cap write t) :
    Emits cap (fun s => if s.overflow then some s else write s) t := by
  intro content s hs
  dsimp only
  by_cases hfull : s.overflow = true
  · have hnone : content = none := by
      rw [← hs.text_eq, Sink.text, if_pos hfull]
    have hput : t.bind (Bounded.put (cap - 1) content) = none := by
      rw [hnone]
      cases t <;> rfl
    rw [if_pos hfull, hput]
    refine ⟨fun hno => (by cases hno), fun s' hs' => ?_⟩
    rw [← Option.some.inj hs', ← hnone]
    exact hs
  · rw [if_neg hfull]
    exact h content s hs

/-- A writer that checks at its end whether everything did fit. -/
theorem Emits.checked (h : Emits cap write t) :
    Emits cap (fun s => (write s).bind fun s' => if s'.overflow then none else some s') t := by
  intro content s hs
  obtain ⟨hnone, hsome⟩ := h content s hs
  dsimp only
  cases hw : write s with
  | none => exact ⟨fun _ => hnone hw, fun _ hs' => (nomatch hs')⟩
  | some s₁ =>
      have hs₁ := hsome s₁ hw
      rw [Option.bind_some]
      split_ifs with hfull
      · refine ⟨fun _ => ?_, fun _ hs' => (nomatch hs')⟩
        rw [← hs₁.text_eq, Sink.text, if_pos hfull]
      · exact ⟨fun hno => (nomatch hno), fun s' hs' => Option.some.inj hs' ▸ hs₁⟩

theorem Emits.of_eq (h : Emits cap write t) (heq : t = u) : Emits cap write u := heq ▸ h

end Emit

/-! ## What is written -/

/-- The value can be written. -/
def writable : Option Scalar → Bool
  | some (.double x) => x.isFinite
  | _ => true

/-- `%.17g` writes a JSON number, in the buffer that it has. -/
def PrintsNumbers (printG17 : LongDouble → Bytes) : Prop :=
  ∀ x, IsDouble x → x.isFinite = true →
    (∃ n : JsonGrammar.Number, n.render = printG17 x) ∧ (printG17 x).length < 64

/-- `%.17g` as the library has it. -/
def doubleText : LongDouble → Bytes
  | .finite q => general 16 q
  | .infinite negative => if negative then lit "-inf" else lit "inf"
  | .nan => lit "nan"

theorem two_le_ten {m k : Nat} (h : 2 ^ m ≤ 10 ^ k) :
    (2 : Rat) ^ (m : Int) ≤ 10 ^ (k : Int) ∧ (10 : Rat) ^ (-(k : Int)) ≤ 2 ^ (-(m : Int)) := by
  have hq : (2 : Rat) ^ m ≤ 10 ^ k := by exact_mod_cast h
  rw [zpow_neg, zpow_neg, zpow_natCast, zpow_natCast]
  exact ⟨hq, inv_anti₀ (pow_pos (by norm_num) m) hq⟩

/-- It does so for every `double`. -/
theorem doubleText_prints : PrintsNumbers doubleText := by
  intro x hdouble hfinite
  cases x with
  | infinite negative => cases hfinite
  | nan => cases hfinite
  | finite q =>
      have hnear : q = 0 ∨ ((10 : Rat) ^ (-(400 : Nat) : Int) ≤ |q| ∧ |q| < 10 ^ ((400 : Nat) : Int)) :=
        Or.imp_right (fun h => ⟨le_trans (@two_le_ten 1074 400 (by decide +kernel)).2 h.1,
          lt_of_lt_of_le h.2 (@two_le_ten 1024 400 (by decide +kernel)).1⟩) hdouble
      have hlength := general_length 16 hnear
      exact ⟨general_number 16 q, show (general 16 q).length < 64 by omega⟩

/-- A value as JSON: a string as far as it is written. -/
def scalarJson (printG17 : LongDouble → Bytes) (json : Bytes) : Scalar → Value
  | .int n => .prim (printInt n)
  | .long n => .prim (printInt n)
  | .double x => .prim (printG17 x)
  | .bool b => .prim (if b then lit "true" else lit "false")
  | .str p => .str (written (p.text json))

def fieldJson (printG17 : LongDouble → Bytes) (json : Bytes) (x : Option Scalar) : Value :=
  x.elim (.prim (lit "null")) (scalarJson printG17 json)

section Values

variable {abi : Abi} (nl : NullableLayout abi) (printG17 : LongDouble → Bytes) (ds : Descriptors)
  (json : Bytes) (obj : Object)

/-- A member of the object for a field. -/
def fieldMember (nested : Option Nat → Nat → Value) (base : Nat) (f : FieldInfo) : Bytes × Value :=
  (f.name, if f.kind = .object then nested f.nested (base + f.offset)
    else fieldJson printG17 json (fieldValue nl f obj base))

/-- A struct as JSON. -/
def structJson : Nat → Option Nat → Nat → Value
  | 0, _, _ => object []
  | levels + 1, type, base =>
      match deref ds type with
      | none => object []
      | some info => object (info.fields.map (fieldMember nl printG17 json obj (structJson levels) base))

/-- Every leaf of the struct can be written. -/
def structWritable (levels : Nat) (type : Option Nat) (base : Nat) : Bool :=
  (leaves ds levels type base).all fun l => writable (fieldValue nl l.field obj l.base)

end Values

/-- A text that is there only if the condition holds. -/
def given (c : Bool) (text : Bytes) : Option Bytes := if c then some text else none

theorem both_given (c d : Bool) (t u : Bytes) :
    both (given c t) (given d u) = given (c && d) (t ++ u) := by
  cases c <;> cases d <;> rfl

theorem digits_no_nul (ds : Digits) : (0 : Byte) ∉ ds.bytes :=
  fun h => absurd (ds.isDigit 0 h) (by decide)

theorem number_no_nul (n : Number) : (0 : Byte) ∉ n.render := by
  have hminus : (0 : Byte) ∉ renderMinus n.minus := by
    cases n.minus <;> decide
  have hfrac : (0 : Byte) ∉ renderFrac n.frac := by
    cases n.frac with
    | none => exact List.not_mem_nil
    | some ds =>
        intro h
        rcases List.mem_cons.mp h with h | h
        · exact absurd h (by decide)
        · exact digits_no_nul ds h
  have hexp : (0 : Byte) ∉ renderExp n.exp := by
    cases n.exp with
    | none => exact List.not_mem_nil
    | some e =>
        rw [renderExp]
        intro h
        rcases List.mem_cons.mp h with h | h
        · revert h
          cases e.upper <;> decide
        · rcases List.mem_append.mp h with h | h
          · revert h
            rcases e.minus with _ | _ | _ <;> decide
          · exact digits_no_nul e.digits h
  rw [Number.render, List.mem_append, List.mem_append, List.mem_append]
  rintro (h | h | h | h)
  · exact hminus h
  · exact digits_no_nul n.int h
  · exact hfrac h
  · exact hexp h

/-! ## The writer writes the values -/

section Emission

variable {abi : Abi} {nl : NullableLayout abi} {printG17 : LongDouble → Bytes} {ds : Descriptors}
  {json : Bytes} {obj : Object} {cap : Nat}

/-- A literal text goes into the sink whole. -/
theorem emits_add {text : Bytes} (h : (0 : Byte) ∉ text) :
    Emits cap (fun s => some (sinkAdd s text)) (some text) :=
  emits_total fun {_ s} hs => by
    have hadd := holds_add hs text
    rw [cstr_eq_self h] at hadd
    exact hadd

theorem emits_string (text : Bytes) :
    Emits cap (fun s => some (sinkAdd (sinkAddEscaped (sinkAdd s (lit "\"")) text) (lit "\"")))
      (some (quote escape (written text))) :=
  emits_total fun {_ _} hs => by
    have hall := holds_add (holds_escaped (holds_add hs (lit "\"")) text) (lit "\"")
    rw [Bounded.put_put, Bounded.put_put] at hall
    exact hall

theorem emits_int {n : Int} (hlow : LONG_MIN ≤ n) (hhigh : n ≤ LONG_MAX) :
    Emits cap (fun s => some (sinkAddInt s n)) (some (printInt n)) :=
  emits_total fun {_ _} hs => holds_addInt hs
    (Int.lt_of_lt_of_le (by decide) hlow) (Int.lt_of_le_of_lt hhigh (by decide))

/-- **A field is written as its value.** -/
theorem emits_scalar (hprint : PrintsNumbers printG17) {f : FieldInfo} (hkind : f.kind ≠ .object)
    {base : Nat} (hrange : ∀ x, fieldValue nl f obj base = some x → InRange x) :
    Emits cap (jsonWriteScalar nl printG17 json obj f base)
      (given (writable (fieldValue nl f obj base))
        ((fieldJson printG17 json (fieldValue nl f obj base)).print escape)) := by
  have hnullText : Emits cap (fun s => some (sinkAdd s (lit "null"))) (some (lit "null")) :=
    emits_add (by decide)
  rw [fieldValue] at hrange ⊢
  unfold jsonWriteScalar
  cases hnull : fieldIsNull abi f obj base with
  | true =>
      simp only [if_pos]
      exact hnullText
  | false =>
      rw [hnull] at hrange
      simp only [Bool.false_eq_true, if_false] at hrange ⊢
      rw [fieldScalar_kind]
      cases hk : f.kind with
      | object => exact absurd hk hkind
      | str =>
          dsimp only
          cases readStr abi obj (base + (fieldScalar nl f).offset) with
          | none => exact hnullText
          | some p => exact emits_string (p.text json)
      | int =>
          rw [hk] at hrange
          have hr := hrange _ rfl
          exact emits_int (Int.le_trans (by decide) hr.1) (Int.le_trans hr.2 (by decide))
      | long =>
          rw [hk] at hrange
          have hr := hrange _ rfl
          exact emits_int hr.1 hr.2
      | double =>
          rw [hk] at hrange
          have hdouble : IsDouble (readDouble abi obj (base + (fieldScalar nl f).offset)) :=
            hrange _ rfl
          dsimp only [writable]
          cases hfinite : (readDouble abi obj (base + (fieldScalar nl f).offset)).isFinite with
          | false =>
              simp only [Bool.false_eq_true, if_false]
              exact fun _ _ _ => ⟨fun _ => rfl, fun _ hs' => (nomatch hs')⟩
          | true =>
              obtain ⟨⟨n, hn⟩, hshort⟩ := hprint _ hdouble hfinite
              simp only [if_pos]
              rw [List.take_of_length_le (by omega)]
              exact emits_add (hn ▸ number_no_nul n)
      | bool =>
          dsimp only
          cases readBool abi obj (base + (fieldScalar nl f).offset) with
          | false => exact emits_add (by decide)
          | true => exact emits_add (by decide)

/-- The text of a member, with its comma in front. -/
def memberText (m : Bytes × Value) : Bytes :=
  0x2C :: (quote escape m.1 ++ 0x3A :: m.2.print escape)

theorem print_members (ms : List (Bytes × Value)) :
    (JsonValue.members ms).print escape = ms.flatMap memberText := by
  induction ms with
  | nil => rfl
  | cons m ms ih =>
      rw [JsonValue.members, Tree.print, ih, List.flatMap_cons, memberText, Name.print]
      simp only [List.append_assoc, List.nil_append, List.cons_append]

theorem print_object (ms : List (Bytes × Value)) :
    (object ms).print escape = 0x7B :: ((ms.flatMap memberText).tail ++ [0x7D]) := by
  rw [object, Tree.print, print_members]
  rfl

/-- The name of a field is ASCII, and none of it is escaped. -/
theorem identifier_plain {name : Bytes} (h : isSafeIdentifier name = true) :
    ∀ c ∈ name, c < 0x80 ∧ IsPlain c := by
  intro c hc
  have hchar := identifier_char h c hc
  clear hc
  revert hchar
  cases c with
  | ofBitVec b =>
      revert b
      decide +kernel

/-- The name of a field is written as it is. -/
theorem quote_identifier {name : Bytes} (h : isSafeIdentifier name = true) :
    quote escape name = 0x22 :: (name ++ [0x22]) := by
  rw [quote, escapes.flatMap_plain fun c hc => (identifier_plain h c hc).2]

/-- Can a field be written? -/
def fieldWritable (nl : NullableLayout abi) (obj : Object) (nested : Option Nat → Nat → Bool)
    (base : Nat) (f : FieldInfo) : Bool :=
  if f.kind = .object then nested f.nested (base + f.offset)
  else writable (fieldValue nl f obj base)

/-- What a field writes in front of its value. -/
theorem emits_name (first : Bool) {name : Bytes} (h : isSafeIdentifier name = true) :
    Emits cap (fun s => some (sinkAdd (sinkAdd (sinkAdd (if first then s else sinkAdd s (lit ","))
        (lit "\"")) name) (lit "\":")))
      (some ((if first then [] else [0x2C]) ++ (quote escape name ++ [0x3A]))) := by
  refine emits_total fun {content s} hs => ?_
  have hcomma : Holds cap (Bounded.put (cap - 1) content (if first then [] else [0x2C]))
      (if first then s else sinkAdd s (lit ",")) := by
    cases first with
    | true =>
        rw [if_pos rfl, if_pos rfl, hs.nil]
        exact hs
    | false => exact holds_add hs (lit ",")
  have hall := holds_add (holds_add (holds_add hcomma (lit "\"")) name) (lit "\":")
  rw [Bounded.put_put, Bounded.put_put, Bounded.put_put, cstr_eq_self (identifier_no_nul h)] at hall
  have htext : (if first then [] else [0x2C]) ++ (cstr (lit "\"") ++ (name ++ cstr (lit "\":")))
      = (if first then [] else [0x2C]) ++ (0x22 :: (name ++ [0x22]) ++ [0x3A]) := by
    have h1 : cstr (lit "\"") = [0x22] := by decide
    have h2 : cstr (lit "\":") = [0x22, 0x3A] := by decide
    rw [h1, h2]
    simp only [List.append_assoc, List.cons_append, List.nil_append]
  rw [htext] at hall
  rw [quote_identifier h]
  exact hall

/-- The loop over the fields writes the members. -/
theorem emits_fields (hprint : PrintsNumbers printG17)
    {nested : Option Nat → Nat → Sink → Option Sink} {value : Option Nat → Nat → Value}
    {fine : Option Nat → Nat → Bool} {base : Nat} :
    ∀ {fields : List FieldInfo} (first : Bool),
      (∀ f ∈ fields, isSafeIdentifier f.name = true) →
      (∀ f ∈ fields, f.kind = .object → Emits cap (nested f.nested (base + f.offset))
        (given (fine f.nested (base + f.offset)) ((value f.nested (base + f.offset)).print escape))) →
      (∀ f ∈ fields, f.kind ≠ .object → ∀ x, fieldValue nl f obj base = some x → InRange x) →
      Emits cap (writeFields nl printG17 json obj nested base first fields)
        (given (fields.all (fieldWritable nl obj fine base))
          ((if first then List.tail else id)
            ((fields.map (fieldMember nl printG17 json obj value base)).flatMap memberText))) := by
  intro fields
  induction fields with
  | nil =>
      intro first _ _ _ content s hs
      have htext : (if first then List.tail else id) ([] : Bytes) = [] := by cases first <;> rfl
      rw [List.all_nil, given, if_pos rfl, List.map_nil, List.flatMap_nil, htext, Option.bind_some,
        hs.nil]
      exact ⟨fun hno => (nomatch hno), fun s' hs' => Option.some.inj hs' ▸ hs⟩
  | cons f fields ih =>
      intro first hnames hnested hrange
      have hrest := ih false (fun g hg => hnames g (List.mem_cons_of_mem f hg))
        (fun g hg => hnested g (List.mem_cons_of_mem f hg))
        (fun g hg => hrange g (List.mem_cons_of_mem f hg))
      have hvalue : Emits cap (fun s => if f.kind = .object then nested f.nested (base + f.offset) s
            else jsonWriteScalar nl printG17 json obj f base s)
          (given (fieldWritable nl obj fine base f)
            ((fieldMember nl printG17 json obj value base f).2.print escape)) := by
        rw [fieldWritable, fieldMember]
        by_cases hkind : f.kind = .object
        · simp only [if_pos hkind]
          exact hnested f List.mem_cons_self hkind
        · simp only [if_neg hkind]
          exact emits_scalar hprint hkind (hrange f List.mem_cons_self hkind)
      have hall := (((emits_name first (hnames f List.mem_cons_self)).bind hvalue).bind
        hrest).guarded
      refine Emits.of_eq (show Emits cap
        (writeFields nl printG17 json obj nested base first (f :: fields)) _ from hall) ?_
      have hfirst : ∀ text : Bytes, some text = given true text := fun _ => rfl
      rw [hfirst, both_given, both_given, Bool.true_and, List.all_cons, List.map_cons,
        List.flatMap_cons, memberText, fieldMember]
      cases first with
      | true => simp only [if_pos, id_eq, List.nil_append, List.append_assoc,
          List.cons_append, List.tail_cons, Bool.false_eq_true, if_false]
      | false => simp only [Bool.false_eq_true, if_false, id_eq, List.append_assoc,
          List.cons_append, List.nil_append]

/-- The leaves of a field can be written exactly if the field can. -/
theorem fieldLeaves_writable {levels base : Nat} {f : FieldInfo} :
    ((fieldLeaves (leaves ds levels) base f).all fun l =>
        writable (fieldValue nl l.field obj l.base))
      = fieldWritable nl obj (structWritable nl ds obj levels) base f := by
  rw [fieldLeaves, fieldWritable]
  split_ifs
  · rw [List.all_map]
    rfl
  · rw [List.all_cons, List.all_nil, Bool.and_true]

/-- The integers of the leaves are in their ranges. -/
def LeavesInRange (nl : NullableLayout abi) (ds : Descriptors) (obj : Object) (levels : Nat)
    (type : Option Nat) (base : Nat) : Prop :=
  ∀ l ∈ leaves ds levels type base, ∀ x, fieldValue nl l.field obj l.base = some x → InRange x

/-- **A struct is written as its JSON.** -/
theorem emits_nested (hprint : PrintsNumbers printG17) {levels : Nat} :
    ∀ {type : Option Nat} {base : Nat}, EveryStruct ds (Checked abi ds) levels type →
      LeavesInRange nl ds obj levels type base →
      Emits cap (jsonWriteNested nl printG17 ds json obj levels type base)
        (given (structWritable nl ds obj levels type base)
          ((structJson nl printG17 ds json obj levels type base).print escape)) := by
  induction levels with
  | zero => exact fun h => h.elim
  | succ levels ih =>
      intro type base hstruct hrange
      obtain ⟨info, hinfo, hchecked, hnested⟩ := hstruct
      have hfields := @emits_fields abi nl printG17 json obj cap hprint
        (jsonWriteNested nl printG17 ds json obj levels)
        (structJson nl printG17 ds json obj levels) (structWritable nl ds obj levels) base
        info.fields true (fun f hf => hchecked.name hf) (fun f hf hkind => ih (hnested f hf hkind)
          fun l hl x hx => hrange _ (mem_leaves.mpr ⟨info, hinfo, f, hf, mem_fieldLeaves.mpr
            (Or.inl ⟨hkind, l, hl, rfl⟩)⟩) x hx)
        (fun f hf hkind x hx => hrange _ (mem_leaves.mpr ⟨info, hinfo, f, hf, mem_fieldLeaves.mpr
          (Or.inr ⟨hkind, rfl⟩)⟩) x hx)
      have hopen : Emits cap (fun s => some (sinkAdd s (lit "\x7b"))) (some [0x7B]) :=
        emits_add (by decide)
      have hclose : Emits cap (fun s => some (sinkAdd s (lit "\x7d"))) (some [0x7D]) :=
        emits_add (by decide)
      have hall := ((hopen.bind hfields).bind hclose).checked
      have hwrite : jsonWriteNested nl printG17 ds json obj (levels + 1) type base
          = fun s => (((some (sinkAdd s (lit "\x7b"))).bind (writeFields nl printG17 json obj
              (jsonWriteNested nl printG17 ds json obj levels) base true info.fields)).bind
              fun s => some (sinkAdd s (lit "\x7d"))).bind
                fun s' => if s'.overflow then none else some s' := by
        funext s
        rw [jsonWriteNested, hinfo, Option.bind_assoc]
        rfl
      rw [hwrite]
      refine Emits.of_eq hall ?_
      have hgiven : ∀ text : Bytes, some text = given true text := fun _ => rfl
      rw [hgiven, hgiven, both_given, both_given, Bool.true_and, Bool.and_true, structJson, hinfo]
      dsimp only
      rw [print_object, if_pos rfl]
      congr 1
      rw [structWritable, leaves, hinfo]
      dsimp only
      rw [List.all_flatMap]
      exact congrArg info.fields.all (funext fun f => fieldLeaves_writable.symm)

/-- What a writer that checks its end leaves, from an empty buffer. -/
theorem emits_buffer {write : Sink → Option Sink} {c : Bool} {text : Bytes} (hcap : 0 < cap)
    (h : Emits cap write (given c text))
    (hdone : ∀ s s', write s = some s' → s'.overflow = false) :
    (write (sinkInit cap)).map (·.buf) = if c = true ∧ text.length < cap then some text else none := by
  obtain ⟨hnone, hsome⟩ := h _ _ (holds_init hcap)
  have hput : (given c text).bind (Bounded.put (cap - 1) (some []))
      = if c = true ∧ text.length < cap then some text else none := by
    cases c with
    | false => rw [if_neg (fun hc => Bool.false_ne_true hc.1)]; rfl
    | true =>
        rw [given, if_pos rfl, Option.bind_some, Bounded.put_some, List.length_nil, Nat.zero_add,
          List.nil_append]
        by_cases hfit : text.length < cap
        · rw [if_pos (by omega), if_pos ⟨rfl, hfit⟩]
        · rw [if_neg (by omega), if_neg fun hc => hfit hc.2]
  rw [hput] at hnone hsome
  cases hw : write (sinkInit cap) with
  | none => exact (hnone hw).symm
  | some s' =>
      have hs' := (hsome s' hw).text_eq
      rw [Sink.text, hdone _ _ hw, if_neg Bool.false_ne_true] at hs'
      exact hs'

theorem nested_done {levels : Nat} {type : Option Nat} {base : Nat} {s s' : Sink}
    (h : jsonWriteNested nl printG17 ds json obj levels type base s = some s') :
    s'.overflow = false := by
  cases levels with
  | zero => cases h
  | succ levels =>
      rw [jsonWriteNested] at h
      cases hinfo : deref ds type with
      | none => rw [hinfo] at h; cases h
      | some info =>
          rw [hinfo] at h
          obtain ⟨s₁, -, h⟩ := Option.bind_eq_some_iff.mp h
          dsimp only at h
          split_ifs at h with hfull
          rw [← Option.some.inj h]
          exact Bool.eq_false_iff.mpr hfull

/-- What holds of every leaf that is written holds of the struct. -/
theorem structJson_every {prim str : Bytes → Prop} {ns : List Bytes → Prop}
    (hns : ∀ info, Checked abi ds info → ns (info.fields.map (·.name))) {levels : Nat} :
    ∀ {type : Option Nat} {base : Nat}, EveryStruct ds (Checked abi ds) levels type →
      ((structJson nl printG17 ds json obj levels type base).Every prim str ns ↔
        ∀ l ∈ leaves ds levels type base,
          (fieldJson printG17 json (fieldValue nl l.field obj l.base)).Every prim str ns) := by
  induction levels with
  | zero => exact fun h => h.elim
  | succ levels ih =>
      intro type base h
      obtain ⟨info, hinfo, hchecked, hnested⟩ := h
      have hfield : ∀ f ∈ info.fields,
          ((fieldMember nl printG17 json obj (structJson nl printG17 ds json obj levels) base f).2.Every
              prim str ns ↔ ∀ l ∈ fieldLeaves (leaves ds levels) base f,
                (fieldJson printG17 json (fieldValue nl l.field obj l.base)).Every prim str ns) := by
        intro f hf
        rw [fieldMember, fieldLeaves]
        split_ifs with hkind
        · rw [ih (hnested f hf hkind), List.forall_mem_map]
        · rw [List.forall_mem_singleton]
      rw [structJson, hinfo]
      dsimp only
      rw [Tree.every_object, List.map_map, List.forall_mem_map]
      constructor
      · rintro ⟨-, hall⟩ l hl
        obtain ⟨info', hinfo', f, hf, hl⟩ := mem_leaves.mp hl
        obtain rfl := Option.some.inj (hinfo.symm.trans hinfo')
        exact (hfield f hf).mp (hall f hf) l hl
      · intro hall
        exact ⟨hns info hchecked, fun f hf => (hfield f hf).mpr fun l hl =>
          hall l (mem_leaves.mpr ⟨info, hinfo, f, hf, hl⟩)⟩

/-- The strings of a struct, as they are written, are UTF-8. -/
def StringsWellFormed (nl : NullableLayout abi) (ds : Descriptors) (json : Bytes) (obj : Object)
    (levels : Nat) (type : Option Nat) (base : Nat) : Prop :=
  ∀ l ∈ leaves ds levels type base, ∀ p, fieldValue nl l.field obj l.base = some (.str p) →
    Utf8.WellFormed (written (p.text json))

theorem structJson_wellFormed {levels : Nat} {type : Option Nat} {base : Nat}
    (h : EveryStruct ds (Checked abi ds) levels type) :
    (structJson nl printG17 ds json obj levels type base).Every (fun _ => True) Utf8.WellFormed
        NamesWellFormed ↔ StringsWellFormed nl ds json obj levels type base := by
  have hnames : ∀ info, Checked abi ds info → NamesWellFormed (info.fields.map (·.name)) := by
    intro info hchecked name hname
    obtain ⟨f, hf, rfl⟩ := List.mem_map.mp hname
    refine Utf8.wellFormed_of_ascii fun c hc => ?_
    have hchar := identifier_char (hchecked.name hf) c hc
    clear hc
    revert hchar
    cases c with
    | ofBitVec b =>
        revert b
        decide +kernel
  rw [structJson_every hnames h, StringsWellFormed]
  refine forall₂_congr fun l _ => ?_
  cases fieldValue nl l.field obj l.base with
  | none => exact ⟨fun _ _ hp => (nomatch hp), fun _ => trivial⟩
  | some c =>
      cases c with
      | str p => exact ⟨fun h q hq => Scalar.str.inj (Option.some.inj hq) ▸ h, fun h => h p rfl⟩
      | int n => exact ⟨fun _ _ hp => (nomatch hp), fun _ => trivial⟩
      | long n => exact ⟨fun _ _ hp => (nomatch hp), fun _ => trivial⟩
      | double x => exact ⟨fun _ _ hp => (nomatch hp), fun _ => trivial⟩
      | bool b => exact ⟨fun _ _ hp => (nomatch hp), fun _ => trivial⟩

/-- The primitives of a struct are JSON's. -/
theorem structJson_primitive (hprint : PrintsNumbers printG17) {levels : Nat} {type : Option Nat}
    {base : Nat} (h : EveryStruct ds (Checked abi ds) levels type)
    (hrange : LeavesInRange nl ds obj levels type base)
    (hwritable : structWritable nl ds obj levels type base = true) :
    (structJson nl printG17 ds json obj levels type base).Every Primitive (fun _ => True)
      (fun _ => True) := by
  rw [structJson_every (fun _ _ => trivial) h]
  intro l hl
  have hr := hrange l hl
  have hw := List.all_eq_true.mp hwritable l hl
  cases hx : fieldValue nl l.field obj l.base with
  | none => exact ⟨.null, rfl⟩
  | some c =>
      rw [hx] at hr hw
      cases c with
      | str p => exact trivial
      | int n => exact printInt_primitive n
      | long n => exact printInt_primitive n
      | double x =>
          obtain ⟨⟨n, hn⟩, -⟩ := hprint x (hr _ rfl) hw
          exact ⟨.num n, hn⟩
      | bool b =>
          cases b with
          | false => exact ⟨.false_, rfl⟩
          | true => exact ⟨.true_, rfl⟩

end Emission

/-- A pin at `x = 3`, without a tag. -/
def pinned : Object := store zeroed 0 4 (.int 3)

theorem pinned_range : LeavesInRange lp64Nullable pinTypes pinned NEST_DEPTH_MAX (some 1) 0 := by
  intro l hl x hx
  have hvalues : ∀ l ∈ leaves pinTypes NEST_DEPTH_MAX (some 1) 0,
      fieldValue lp64Nullable l.field pinned l.base = none
        ∨ fieldValue lp64Nullable l.field pinned l.base = some (.int 3)
        ∨ fieldValue lp64Nullable l.field pinned l.base = some (.int 0) := by decide
  rcases hvalues l hl with h | h | h
  · rw [h] at hx
    cases hx
  · rw [h] at hx
    rw [← Option.some.inj hx]
    exact ⟨by decide, by decide⟩
  · rw [h] at hx
    rw [← Option.some.inj hx]
    exact ⟨by decide, by decide⟩

/-- The text of the pin. -/
def pinText : Bytes := lit "\x7b\"at\":\x7b\"x\":3,\"y\":0\x7d,\"tag\":null\x7d"

section RowLists

variable {abi : Abi} {nl : NullableLayout abi} {printG17 : LongDouble → Bytes} {ds : Descriptors}
  {json : Bytes} {cap : Nat}

/-- The text of an item, with its comma in front. -/
def itemText (v : Value) : Bytes := 0x2C :: v.print escape

theorem print_array (vs : List Value) :
    (array vs).print escape = 0x5B :: ((vs.flatMap itemText).tail ++ [0x5D]) := by
  have hitems : ∀ vs : List Value, (items vs).print escape = vs.flatMap itemText := by
    intro vs
    induction vs with
    | nil => rfl
    | cons v vs ih => rw [items, Tree.print, ih, List.flatMap_cons, itemText]; rfl
  rw [array, Tree.print, hitems]
  rfl

theorem emits_addBytes (text : Bytes) :
    Emits cap (fun s => some (sinkAddBytes s text)) (some text) :=
  emits_total fun {_ _} hs => holds_addBytes hs text

/-- A part that is not always written. -/
theorem emits_if {f : Sink → Sink} {text : Bytes} (c : Bool)
    (h : c = true → Emits cap (fun s => some (f s)) (some text)) :
    Emits cap (fun s => some (if c then f s else s)) (some (if c then text else [])) := by
  cases c with
  | true => exact h rfl
  | false =>
      refine emits_total fun {content s} hs => ?_
      rw [if_neg Bool.false_ne_true, if_neg Bool.false_ne_true, hs.nil]
      exact hs

/-- The loop over the items, the rows `i` to `i + rounds`. -/
theorem emits_items {type : Option Nat} {size : Nat} {rows : Object} {value : Nat → Value}
    {fine : Nat → Bool} : ∀ (rounds i : Nat),
      (∀ k, i ≤ k → k < i + rounds →
        Emits cap (jsonWriteNested nl printG17 ds json rows NEST_DEPTH_MAX type (k * size))
          (given (fine k) ((value k).print escape))) →
      Emits cap (writeItems nl printG17 ds json type size rows rounds i)
        (given ((List.range' i rounds).all fine)
          ((if i = 0 then List.tail else id)
            (((List.range' i rounds).map value).flatMap itemText)))
  | 0, i, _ => by
      have htext : (if i = 0 then List.tail else id) ([] : Bytes) = [] := by split_ifs <;> rfl
      rw [List.range'_zero, List.all_nil, given, if_pos rfl, List.map_nil, List.flatMap_nil, htext]
      refine fun content s hs => ⟨fun hno => (nomatch hno), fun s' hs' => ?_⟩
      rw [Option.bind_some, hs.nil]
      exact Option.some.inj hs' ▸ hs
  | rounds + 1, i, h => by
      have hcomma : Emits cap (fun s => some (if i > 0 then sinkAddBytes s (lit ",") else s))
          (some (if i > 0 then [0x2C] else [])) := by
        have hif := @emits_if cap (fun s => sinkAddBytes s (lit ",")) [0x2C] (decide (i > 0))
          fun _ => emits_addBytes (lit ",")
        simp only [decide_eq_true_eq] at hif
        exact hif
      have hrest := @emits_items type size rows value fine rounds (i + 1)
        fun k h1 h2 => h k (by omega) (by omega)
      have hall := ((hcomma.bind (h i (Nat.le_refl i) (by omega))).bind hrest).guarded
      refine Emits.of_eq (show Emits cap
        (writeItems nl printG17 ds json type size rows (rounds + 1) i) _ from hall) ?_
      have hgiven : ∀ text : Bytes, some text = given true text := fun _ => rfl
      rw [hgiven, both_given, both_given, Bool.true_and, List.range'_succ, List.all_cons,
        List.map_cons, List.flatMap_cons, if_neg (Nat.succ_ne_zero i), itemText]
      congr 1
      by_cases hi : i = 0
      · simp only [if_pos hi, if_neg (show ¬ i > 0 by omega), id_eq, List.nil_append,
          List.cons_append, List.tail_cons]
      · simp only [if_neg hi, if_pos (show i > 0 by omega), id_eq, List.cons_append,
          List.nil_append]

/-- The rows of a list as JSON, and a page of them. -/
def rowsJson (nl : NullableLayout abi) (printG17 : LongDouble → Bytes) (ds : Descriptors)
    (json : Bytes) (list : RowList) : Value :=
  array ((List.range list.count.toNat).map fun i =>
    structJson nl printG17 ds json (list.items.getD zeroed) NEST_DEPTH_MAX list.type
      (i * (deref ds list.type).elim 0 (·.size)))

def listJson (nl : NullableLayout abi) (printG17 : LongDouble → Bytes) (ds : Descriptors)
    (json : Bytes) (list : RowList) (paginated : Bool) : Value :=
  if paginated then
    object [(lit "items", rowsJson nl printG17 ds json list), (lit "page", .prim (printInt list.page)),
      (lit "size", .prim (printInt list.size)),
      (lit "hasMore", .prim (if list.hasMore then lit "true" else lit "false"))]
  else rowsJson nl printG17 ds json list

/-- Every row of the list can be written. -/
def rowsWritable (nl : NullableLayout abi) (ds : Descriptors) (list : RowList) : Bool :=
  (List.range list.count.toNat).all fun i =>
    structWritable nl ds (list.items.getD zeroed) NEST_DEPTH_MAX list.type
      (i * (deref ds list.type).elim 0 (·.size))

/-- The integers of the rows, and the number of the page, are in their ranges. -/
def RowsInRange (nl : NullableLayout abi) (ds : Descriptors) (list : RowList) : Prop :=
  list.page ≤ INT_MAX ∧ ∀ i < list.count.toNat,
    LeavesInRange nl ds (list.items.getD zeroed) NEST_DEPTH_MAX list.type
      (i * (deref ds list.type).elim 0 (·.size))

theorem rowListValid_spec {list : RowList} {paginated : Bool}
    (h : rowListValid abi ds list paginated = true) :
    typeValid abi ds list.type = true
      ∧ (paginated = true → 0 ≤ list.page ∧ 0 < list.size ∧ list.size ≤ PAGE_MAX) := by
  simp only [rowListValid, Bool.and_eq_true, Bool.or_eq_true, Bool.not_eq_true',
    decide_eq_true_eq] at h
  obtain ⟨⟨⟨⟨hvalid, -⟩, -⟩, -⟩, hpage⟩ := h
  refine ⟨hvalid, fun hp => ?_⟩
  rw [hp] at hpage
  rcases hpage with hno | ⟨⟨⟨h1, h2⟩, h3⟩, -⟩
  · cases hno
  · exact ⟨h1, h2, h3⟩

/-- The end of a page. -/
theorem emits_page {list : RowList} (hpage : 0 ≤ list.page ∧ list.page ≤ INT_MAX)
    (hsize : 0 < list.size ∧ list.size ≤ PAGE_MAX) :
    Emits cap (fun s => some (writePage list s))
      (some (lit ",\"page\":" ++ printInt list.page ++ lit ",\"size\":" ++ printInt list.size
        ++ lit ",\"hasMore\":" ++ (if list.hasMore then lit "true" else lit "false")
        ++ lit "\x7d")) := by
  refine emits_total fun {content s} hs => ?_
  have hmax : (INT_MAX : Int) < 10 ^ 24 := by decide
  have hnul : cstr (if list.hasMore then lit "true" else lit "false")
      = if list.hasMore then lit "true" else lit "false" := by
    cases list.hasMore <;> decide
  have h1 := @holds_addInt _ _ _ (holds_addBytes hs (lit ",\"page\":")) list.page
    (by omega) (Int.lt_of_le_of_lt hpage.2 hmax)
  have h2 := @holds_addInt _ _ _ (holds_addBytes h1 (lit ",\"size\":")) list.size
    (by omega) (Int.lt_of_le_of_lt hsize.2 (by decide))
  have h3 := holds_addBytes (holds_add (holds_addBytes h2 (lit ",\"hasMore\":"))
    (if list.hasMore then lit "true" else lit "false")) (lit "\x7d")
  simp only [Bounded.put_put, hnul] at h3
  exact h3

end RowLists

/-- A page with the pin on it. -/
def pins : RowList := { type := some 1, items := some pinned, count := 1, size := 10 }

end JsonWrite
