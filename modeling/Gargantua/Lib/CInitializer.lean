import Gargantua.Lib.Decimal

/-! # Initializers of a C character array

    A character array gets its bytes from a string literal, which adds a
    terminator, or from a list of numbers in braces, which does not.  A text that
    is escaped is read back from the literal (`charArray_literal`), and a byte
    that is printed from a list (`readNumbers_byte`). -/

namespace CInitializer

open CString Decimal

abbrev QUOTE : Byte := 0x22
abbrev BACKSLASH : Byte := 0x5C
abbrev LF : Byte := 0x0A
abbrev QUESTION : Byte := 0x3F
abbrev COMMA : Byte := 0x2C
abbrev OPEN : Byte := 0x7B
abbrev CLOSE : Byte := 0x7D
abbrev SEMICOLON : Byte := 0x3B

/-- A string literal behind its opening quote: its bytes, and the text behind it.
    Of the escapes only those of a quote and of a backslash are read, and no
    trigraph is. -/
def readLiteral : Bytes → Option (Bytes × Bytes)
  | [] => none
  | c :: s =>
      if c = QUOTE then some ([], s)
      else if c = LF then none
      else if c = BACKSLASH then
        match s with
        | [] => none
        | d :: s =>
            if d = QUOTE ∨ d = BACKSLASH then (readLiteral s).map fun r => (d :: r.1, r.2) else none
      else if c = QUESTION ∧ s.head? = some QUESTION then none
      else (readLiteral s).map fun r => (c :: r.1, r.2)

/-- Numbers behind an opening brace, in the middle of one maybe: the bytes, and
    the text behind the closing brace.  A number with a zero in front is octal
    and is not read. -/
def readNumbers : Option Nat → Bytes → Option (Bytes × Bytes)
  | _, [] => none
  | value, c :: s =>
      if 0x30 ≤ c ∧ c ≤ 0x39 then
        if value = some 0 then none
        else readNumbers (some (value.getD 0 * 10 + (c.toNat - 48))) s
      else if c = COMMA then
        match value with
        | none => none
        | some n =>
            if n < 256 then (readNumbers none s).map fun r => (n.toUInt8 :: r.1, r.2) else none
      else if c = LF ∧ value = none then readNumbers none s
      else if c = CLOSE then
        match value with
        | none => some ([], s)
        | some n => if n < 256 then some ([n.toUInt8], s) else none
      else none

/-- The bytes of an array with this initializer, up to the semicolon. -/
def charArray (s : Bytes) : Option Bytes :=
  match s with
  | [] => none
  | c :: s =>
      if c = QUOTE then
        (readLiteral s).bind fun r => if r.2 = [SEMICOLON] then some (r.1 ++ [0]) else none
      else if c = OPEN then
        (readNumbers none s).bind fun r => if r.2 = [SEMICOLON] then some r.1 else none
      else none

/-! ## Literals -/

/-- A text with its quotes and backslashes escaped. -/
def escape (s : Bytes) : Bytes :=
  s.flatMap fun c => if c = QUOTE ∨ c = BACKSLASH then [BACKSLASH, c] else [c]

/-- No two question marks in a row. -/
def Calm : Bytes → Prop
  | [] => True
  | c :: s => ¬ (c = QUESTION ∧ s.head? = some QUESTION) ∧ Calm s

instance decidableCalm : ∀ s : Bytes, Decidable (Calm s)
  | [] => .isTrue trivial
  | _ :: s => @instDecidableAnd _ _ inferInstance (decidableCalm s)

theorem calm_append {s t : Bytes} (hs : Calm s) (ht : Calm t) (h : t.head? ≠ some QUESTION) :
    Calm (s ++ t) := by
  induction s with
  | nil => exact ht
  | cons c s ih =>
      refine ⟨?_, ih hs.2⟩
      rintro ⟨hc, hhead⟩
      cases s with
      | nil => exact h hhead
      | cons d s => exact hs.1 ⟨hc, hhead⟩

/-- Text that has no question mark is calm in front of any. -/
theorem calm_plain {s t : Bytes} (hs : QUESTION ∉ s) (ht : Calm t) : Calm (s ++ t) := by
  induction s with
  | nil => exact ht
  | cons c s ih =>
      rw [List.mem_cons, not_or] at hs
      exact ⟨fun h => hs.1 h.1.symm, ih hs.2⟩

theorem escape_head {s rest : Bytes} (h : s.head? ≠ some QUESTION) :
    (escape s ++ QUOTE :: rest).head? ≠ some QUESTION := by
  cases s with
  | nil => exact fun h => nomatch h
  | cons c s =>
      rw [escape, List.flatMap_cons]
      split_ifs
      · exact fun h => nomatch h
      · exact h

/-- **A literal has the bytes of the text that was escaped.** -/
theorem readLiteral_escape (rest : Bytes) : ∀ {s : Bytes}, LF ∉ s → Calm s →
    readLiteral (escape s ++ QUOTE :: rest) = some (s, rest)
  | [], _, _ => by
      show readLiteral (QUOTE :: rest) = _
      rw [readLiteral.eq_def]
      exact if_pos rfl
  | c :: s, hlf, hcalm => by
      rw [List.mem_cons, not_or] at hlf
      have ih := readLiteral_escape rest hlf.2 hcalm.2
      have hsplit : escape (c :: s)
          = (if c = QUOTE ∨ c = BACKSLASH then [BACKSLASH, c] else [c]) ++ escape s :=
        List.flatMap_cons
      rw [hsplit]
      by_cases hc : c = QUOTE ∨ c = BACKSLASH
      · rw [if_pos hc]
        show readLiteral (BACKSLASH :: c :: (escape s ++ QUOTE :: rest)) = _
        rw [readLiteral, if_neg (by decide), if_neg (by decide), if_pos rfl, if_pos hc, ih]
        rfl
      · rw [if_neg hc]
        rw [not_or] at hc
        show readLiteral (c :: (escape s ++ QUOTE :: rest)) = _
        rw [readLiteral.eq_def]
        dsimp only
        rw [if_neg hc.1, if_neg (fun h => hlf.1 h.symm), if_neg hc.2, if_neg, ih]
        · rfl
        · rintro ⟨hq, hhead⟩
          exact hcalm.1 ⟨hq, by_contra fun h => escape_head h hhead⟩

theorem charArray_literal {s : Bytes} (hlf : LF ∉ s) (hcalm : Calm s) :
    charArray (QUOTE :: (escape s ++ [QUOTE, SEMICOLON])) = some (s ++ [0]) := by
  rw [charArray, if_pos rfl, readLiteral_escape [SEMICOLON] hlf hcalm, Option.bind_some,
    if_pos rfl]

/-! ## Numbers -/

theorem readNumbers_digits (rest : Bytes) : ∀ {digits : Bytes}, (∀ c ∈ digits, 0x30 ≤ c ∧ c ≤ 0x39) →
    ∀ value : Nat, 0 < value →
      readNumbers (some value) (digits ++ rest) = readNumbers (some (read value digits)) rest
  | [], _, value, _ => rfl
  | c :: digits, h, value, hpos => by
      obtain ⟨hc, hrest⟩ := List.forall_mem_cons.mp h
      rw [List.cons_append, readNumbers, if_pos hc, if_neg (by
        intro h
        exact absurd (Option.some.inj h) (Nat.ne_of_gt hpos)),
        readNumbers_digits rest hrest _ (by rw [Option.getD_some]; omega)]
      rfl

/-- A number that was printed is read back. -/
theorem readNumbers_print (n : Nat) (rest : Bytes) :
    readNumbers none (print n ++ rest) = readNumbers (some n) rest := by
  have hread := read_print n
  have hdigits := print_digits n
  have hhead := print_head n
  cases hprint : print n with
  | nil => exact absurd hprint (print_ne_nil n)
  | cons c digits =>
      rw [hprint] at hread hdigits hhead
      obtain ⟨hc, hrest⟩ := List.forall_mem_cons.mp hdigits
      have hstep : readNumbers none (c :: (digits ++ rest))
          = readNumbers (some (c.toNat - 48)) (digits ++ rest) := by
        rw [readNumbers, if_pos hc, if_neg (fun h => nomatch h), Option.getD_none, Nat.zero_mul,
          Nat.zero_add]
      have hvalue : read (c.toNat - 48) digits = n := by
        rw [← hread]
        show read (c.toNat - 48) digits = read (0 * 10 + (c.toNat - 48)) digits
        rw [Nat.zero_mul, Nat.zero_add]
      rw [List.cons_append, hstep]
      by_cases hzero : c = 0x30
      · have hnil := (List.cons.inj (hhead (congrArg some hzero))).2
        rw [hnil] at hvalue ⊢
        rw [← hvalue]
        rfl
      · have hpos : 0 < c.toNat - 48 := by
          have hle : 48 ≤ c.toNat := UInt8.le_iff_toNat_le.mp hc.1
          have hne : c.toNat ≠ 48 := fun h => hzero (UInt8.toNat_inj.mp h)
          omega
        rw [readNumbers_digits rest hrest _ hpos, hvalue]

/-- One number of a list. -/
theorem readNumbers_byte (c : Byte) (rest : Bytes) :
    readNumbers none (print c.toNat ++ COMMA :: rest)
      = (readNumbers none rest).map fun r => (c :: r.1, r.2) := by
  have hlt : c.toNat < 256 := UInt8.toNat_lt c
  rw [readNumbers_print, readNumbers, if_neg (by decide), if_pos rfl, if_pos hlt]
  show (readNumbers none rest).map (fun r => (UInt8.ofNat c.toNat :: r.1, r.2)) = _
  rw [UInt8.ofNat_toNat]

theorem readNumbers_feed (rest : Bytes) : readNumbers none (LF :: rest) = readNumbers none rest := by
  rw [readNumbers, if_neg (by decide), if_neg (by decide), if_pos ⟨rfl, rfl⟩]

end CInitializer
