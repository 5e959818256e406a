import Gargantua.Lib.CString
import Gargantua.Lib.Utf8

/-! # The JSON grammar

    RFC 8259, read as a type: a `Json .value` is the derivation of one value
    with its white space, and `render` is the text it derives.  Character
    ranges, surrogate pairs and leading zeros are fields of the pieces, so
    every value of the type derives a JSON text and nothing is checked later.

    Arrays and objects have one rule.  A container is opened, holds nothing or
    a run of elements, and is closed; an element is a label and a value, and
    the label of an object's element is its name. -/

namespace JsonGrammar

open CString

/-! ## White space -/

/-- A byte of `ws`. -/
def IsWs (c : Byte) : Prop := c = 0x20 ∨ c = 0x09 ∨ c = 0x0A ∨ c = 0x0D

/-- `ws`. -/
structure Ws where
  bytes : Bytes
  isWs : ∀ c ∈ bytes, IsWs c

/-! ## Numbers -/

/-- `DIGIT`. -/
def IsDigit (c : Byte) : Prop := 0x30 ≤ c ∧ c ≤ 0x39

instance (c : Byte) : Decidable (IsDigit c) := inferInstanceAs (Decidable (_ ∧ _))

/-- `1*DIGIT`. -/
structure Digits where
  bytes : Bytes
  nonempty : bytes ≠ []
  isDigit : ∀ c ∈ bytes, IsDigit c

/-- `exp = e [ minus / plus ] 1*DIGIT`. -/
structure Exponent where
  upper : Bool
  minus : Option Bool
  digits : Digits

/-- `number = [ minus ] int [ frac ] [ exp ]`, where `int` has no leading
    zero. -/
structure Number where
  minus : Bool
  int : Digits
  noLeadingZero : int.bytes.head? = some 0x30 → int.bytes = [0x30]
  frac : Option Digits
  exp : Option Exponent

/-- The text of a fraction, if there is one. -/
def renderFrac : Option Digits → Bytes
  | none => []
  | some ds => 0x2E :: ds.bytes

/-- The text of the sign of an exponent. -/
def renderSign : Option Bool → Bytes
  | none => []
  | some true => [0x2D]
  | some false => [0x2B]

/-- The text of an exponent, if there is one. -/
def renderExp : Option Exponent → Bytes
  | none => []
  | some e => (if e.upper then 0x45 else 0x65) :: (renderSign e.minus ++ e.digits.bytes)

def renderMinus (minus : Bool) : Bytes := if minus then [0x2D] else []

def Number.render (n : Number) : Bytes :=
  renderMinus n.minus ++ (n.int.bytes ++ (renderFrac n.frac ++ renderExp n.exp))

/-- The values that are one token without quotes. -/
inductive Prim where
  | true_
  | false_
  | null
  | num (n : Number)

def Prim.render : Prim → Bytes
  | .true_ => lit "true"
  | .false_ => lit "false"
  | .null => lit "null"
  | .num n => n.render

/-! ## Strings -/

/-- `HEXDIG`, in either case. -/
structure HexDigit where
  byte : Byte
  isHex : (0x30 ≤ byte ∧ byte ≤ 0x39) ∨ (0x41 ≤ byte ∧ byte ≤ 0x46)
    ∨ (0x61 ≤ byte ∧ byte ≤ 0x66)

def HexDigit.value (h : HexDigit) : Nat :=
  if h.byte ≤ 0x39 then h.byte.toNat - 0x30
  else if h.byte ≤ 0x46 then h.byte.toNat - 0x41 + 10
  else h.byte.toNat - 0x61 + 10

/-- `4HEXDIG`. -/
structure Hex4 where
  a : HexDigit
  b : HexDigit
  c : HexDigit
  d : HexDigit

def Hex4.render (u : Hex4) : Bytes := [u.a.byte, u.b.byte, u.c.byte, u.d.byte]

def Hex4.value (u : Hex4) : Nat :=
  ((u.a.value * 16 + u.b.value) * 16 + u.c.value) * 16 + u.d.value

def IsHighSurrogate (n : Nat) : Prop := 0xD800 ≤ n ∧ n ≤ 0xDBFF

def IsLowSurrogate (n : Nat) : Prop := 0xDC00 ≤ n ∧ n ≤ 0xDFFF

instance (n : Nat) : Decidable (IsHighSurrogate n) := inferInstanceAs (Decidable (_ ∧ _))

instance (n : Nat) : Decidable (IsLowSurrogate n) := inferInstanceAs (Decidable (_ ∧ _))

/-- The two-character escapes. -/
inductive Escape where
  | quote
  | backslash
  | slash
  | b
  | f
  | n
  | r
  | t

/-- The letter after the backslash. -/
def Escape.letter : Escape → Byte
  | .quote => 0x22
  | .backslash => 0x5C
  | .slash => 0x2F
  | .b => 0x62
  | .f => 0x66
  | .n => 0x6E
  | .r => 0x72
  | .t => 0x74

/-- The character an escape stands for. -/
def Escape.byte : Escape → Byte
  | .quote => 0x22
  | .backslash => 0x5C
  | .slash => 0x2F
  | .b => 0x08
  | .f => 0x0C
  | .n => 0x0A
  | .r => 0x0D
  | .t => 0x09

/-- `char`: an unescaped scalar value, or an escape.  A surrogate escape stands
    in a pair. -/
inductive Chr where
  | scalar (c : Char) (unescaped : 0x20 ≤ c.toNat ∧ c.toNat ≠ 0x22 ∧ c.toNat ≠ 0x5C)
  | escape (e : Escape)
  | unicode (u : Hex4) (noHigh : ¬ IsHighSurrogate u.value)
      (noLow : ¬ IsLowSurrogate u.value)
  | pair (hi lo : Hex4) (high : IsHighSurrogate hi.value) (low : IsLowSurrogate lo.value)

def Chr.render : Chr → Bytes
  | .scalar c _ => String.utf8EncodeChar c
  | .escape e => [0x5C, e.letter]
  | .unicode u _ _ => 0x5C :: 0x75 :: u.render
  | .pair hi lo _ _ => 0x5C :: 0x75 :: (hi.render ++ 0x5C :: 0x75 :: lo.render)

/-- The number that a surrogate pair stands for. -/
def pairValue (hi lo : Hex4) : Nat :=
  0x10000 + (hi.value - 0xD800) * 1024 + (lo.value - 0xDC00)

theorem HexDigit.value_lt (h : HexDigit) : h.value < 16 := by
  have hx := h.isHex
  rw [HexDigit.value]
  simp only [UInt8.le_iff_toNat_le, UInt8.reduceToNat] at hx ⊢
  split_ifs <;> omega

theorem Hex4.value_lt (u : Hex4) : u.value < 0x10000 := by
  have ha := u.a.value_lt
  have hb := u.b.value_lt
  have hc := u.c.value_lt
  have hd := u.d.value_lt
  rw [Hex4.value]
  omega

/-- A single `\u` escape stands for a scalar value. -/
theorem unicode_valid {u : Hex4} (h1 : ¬ IsHighSurrogate u.value)
    (h2 : ¬ IsLowSurrogate u.value) : u.value.isValidChar := by
  have hlt := u.value_lt
  simp only [IsHighSurrogate, IsLowSurrogate] at h1 h2
  by_cases h : u.value < 0xD800
  · exact Or.inl h
  · exact Or.inr ⟨by omega, by omega⟩

/-- A pair stands for a value above the first plane. -/
theorem pairValue_bounds {hi lo : Hex4} (h1 : IsHighSurrogate hi.value)
    (h2 : IsLowSurrogate lo.value) {n : Nat} (hn : n = pairValue hi lo) :
    0xFFFF < n ∧ n < 0x110000 := by
  have hp : pairValue hi lo
      = 0x10000 + (hi.value - 0xD800) * 1024 + (lo.value - 0xDC00) := rfl
  simp only [IsHighSurrogate, IsLowSurrogate] at h1 h2
  omega

/-- So does a pair. -/
theorem pair_valid {hi lo : Hex4} (h1 : IsHighSurrogate hi.value)
    (h2 : IsLowSurrogate lo.value) : (pairValue hi lo).isValidChar := by
  have hb := pairValue_bounds h1 h2 rfl
  exact Or.inr ⟨Nat.lt_trans (by decide) hb.1, hb.2⟩

/-- The text a character stands for, in UTF-8. -/
def Chr.decode : Chr → Bytes
  | .scalar c _ => String.utf8EncodeChar c
  | .escape e => [e.byte]
  | .unicode u h1 h2 => String.utf8EncodeChar (Utf8.scalar u.value (unicode_valid h1 h2))
  | .pair hi lo h1 h2 =>
      String.utf8EncodeChar (Utf8.scalar (pairValue hi lo) (pair_valid h1 h2))

/-- What stands between the quotes of a string. -/
abbrev Str := List Chr

def Str.render (s : Str) : Bytes := s.flatMap Chr.render

def Str.decode (s : Str) : Bytes := s.flatMap Chr.decode

/-- A string with its quotes. -/
def Str.quoted (s : Str) : Bytes := 0x22 :: (s.render ++ [0x22])

/-! ## Values -/

/-- The two containers. -/
inductive Kind where
  | arr
  | obj

def Kind.opening : Kind → Byte
  | .arr => 0x5B
  | .obj => 0x7B

def Kind.closing : Kind → Byte
  | .arr => 0x5D
  | .obj => 0x7D

/-- What stands in front of the value of an element: white space, and in an
    object the name and its colon. -/
inductive Label : Kind → Type where
  | item (w : Ws) : Label .arr
  | member (w : Ws) (key : Str) (w1 w2 : Ws) : Label .obj

def Label.render : {k : Kind} → Label k → Bytes
  | _, .item w => w.bytes
  | _, .member w key w1 w2 => w.bytes ++ (key.quoted ++ (w1.bytes ++ 0x3A :: w2.bytes))

/-- The name, in an object. -/
def Label.keys : {k : Kind} → Label k → List Str
  | _, .item _ => []
  | _, .member _ key _ _ => [key]

/-- The rules of the grammar: a value, and the elements of a container with its
    closing bracket. -/
inductive Cat where
  | value
  | elements (k : Kind)

/-- The derivations. -/
inductive Json : Cat → Type where
  | prim (p : Prim) : Json .value
  | str (s : Str) : Json .value
  | empty (k : Kind) (w : Ws) : Json .value
  | full (k : Kind) (es : Json (.elements k)) : Json .value
  | last (k : Kind) (l : Label k) (v : Json .value) (w : Ws) : Json (.elements k)
  | more (k : Kind) (l : Label k) (v : Json .value) (w : Ws)
      (es : Json (.elements k)) : Json (.elements k)

namespace Json

/-- The text of a derivation. -/
def render : {c : Cat} → Json c → Bytes
  | _, .prim p => p.render
  | _, .str s => s.quoted
  | _, .empty k w => k.opening :: (w.bytes ++ [k.closing])
  | _, .full k es => k.opening :: es.render
  | _, .last k l v w => l.render ++ (v.render ++ (w.bytes ++ [k.closing]))
  | _, .more _ l v w es => l.render ++ (v.render ++ (w.bytes ++ 0x2C :: es.render))

/-- How deep the containers nest. -/
def nesting : {c : Cat} → Json c → Nat
  | _, .prim _ => 0
  | _, .str _ => 0
  | _, .empty _ _ => 1
  | _, .full _ es => es.nesting + 1
  | _, .last _ _ v _ => v.nesting
  | _, .more _ _ v _ es => max v.nesting es.nesting

/-- The tokens of a derivation: every container, name, string and primitive. -/
def tokenCount : {c : Cat} → Json c → Nat
  | _, .prim _ => 1
  | _, .str _ => 1
  | _, .empty _ _ => 1
  | _, .full _ es => es.tokenCount + 1
  | _, .last _ l v _ => l.keys.length + v.tokenCount
  | _, .more _ l v _ es => l.keys.length + v.tokenCount + es.tokenCount

/-- The names of the elements. -/
def keys : {c : Cat} → Json c → List Str
  | _, .prim _ => []
  | _, .str _ => []
  | _, .empty _ _ => []
  | _, .full _ _ => []
  | _, .last _ l _ _ => l.keys
  | _, .more _ l _ _ es => l.keys ++ es.keys

/-- Every object in the derivation has names that satisfy `P`; an array counts
    as one without names. -/
def EveryObject (P : List Str → Prop) : {c : Cat} → Json c → Prop
  | _, .prim _ => True
  | _, .str _ => True
  | _, .empty _ _ => True
  | _, .full _ es => P es.keys ∧ es.EveryObject P
  | _, .last _ _ v _ => v.EveryObject P
  | _, .more _ _ v _ es => v.EveryObject P ∧ es.EveryObject P

theorem EveryObject.imp {P Q : List Str → Prop} (h : ∀ ks, P ks → Q ks) :
    ∀ {c : Cat} (t : Json c), t.EveryObject P → t.EveryObject Q := by
  intro c t
  induction t with
  | prim p => exact id
  | str s => exact id
  | empty k w => exact id
  | full k es ih => exact fun ht => ⟨h _ ht.1, ih ht.2⟩
  | last k l v w ih => exact ih
  | more k l v w es ihv ihes => exact fun ht => ⟨ihv ht.1, ihes ht.2⟩

theorem everyObject_and {P Q : List Str → Prop} :
    ∀ {c : Cat} (t : Json c),
      t.EveryObject (fun ks => P ks ∧ Q ks) ↔ t.EveryObject P ∧ t.EveryObject Q := by
  intro c t
  induction t with
  | prim p => exact (and_self_iff).symm
  | str s => exact (and_self_iff).symm
  | empty k w => exact (and_self_iff).symm
  | full k es ih =>
      simp only [EveryObject, ih]
      exact and_and_and_comm
  | last k l v w ih => exact ih
  | more k l v w es ihv ihes =>
      simp only [EveryObject, ihv, ihes]
      exact and_and_and_comm

theorem tokenCount_pos {c : Cat} (t : Json c) : 0 < t.tokenCount := by
  induction t with
  | prim p => exact Nat.one_pos
  | str s => exact Nat.one_pos
  | empty k w => exact Nat.one_pos
  | full k es ih => exact Nat.succ_pos _
  | last k l v w ih => exact Nat.add_pos_right _ ih
  | more k l v w es ihv ihes => exact Nat.add_pos_right _ ihes

end Json

/-- `JSON-text = ws value ws`. -/
structure Document where
  before : Ws
  value : Json .value
  after : Ws

def Document.render (d : Document) : Bytes :=
  d.before.bytes ++ (d.value.render ++ d.after.bytes)

end JsonGrammar
