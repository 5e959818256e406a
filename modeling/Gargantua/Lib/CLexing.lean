import Gargantua.Lib.CString

/-! # The comments and literals of C

    A text without line splices is cut into characters, string and character
    literals and comments, from the front.  A literal ends at the next quote of its
    kind that no backslash stands before, in its line; a `//` comment ends in front
    of the line feed, a block comment behind the next `*/`.  Every text is cut so
    (`lexing_exists`).

    Without its comments a text has nothing for a `//` comment, and for a block
    comment a space and the line feeds it went over. -/

namespace CLexing

open CString

/-- The characters that matter. -/
abbrev LF : Byte := 0x0A
abbrev DQUOTE : Byte := 0x22
abbrev SQUOTE : Byte := 0x27
abbrev STAR : Byte := 0x2A
abbrev SLASH : Byte := 0x2F
abbrev BACKSLASH : Byte := 0x5C
abbrev SPACE : Byte := 0x20

/-- A piece of a text. -/
inductive Piece where
  | char (c : Byte)
  | literal (quote : Byte) (body : Bytes)
  | unclosed (quote : Byte) (body : Bytes)
  | lineComment (body : Bytes)
  | blockComment (body : Bytes)
  | openComment (body : Bytes)
  deriving Repr, DecidableEq

/-- How a piece is written. -/
def Piece.text : Piece → Bytes
  | .char c => [c]
  | .literal quote body => quote :: (body ++ [quote])
  | .unclosed quote body => quote :: body
  | .lineComment body => SLASH :: SLASH :: body
  | .blockComment body => SLASH :: STAR :: (body ++ [STAR, SLASH])
  | .openComment body => SLASH :: STAR :: body

/-- What a piece is without comments. -/
def Piece.stripped : Piece → Bytes
  | .lineComment _ => []
  | .blockComment body => SPACE :: body.filter (· == LF)
  | .openComment body => SPACE :: body.filter (· == LF)
  | p => p.text

/-- The text of pieces. -/
def source (ps : List Piece) : Bytes := ps.flatMap Piece.text

/-- The text of pieces without the comments. -/
def stripped (ps : List Piece) : Bytes := ps.flatMap Piece.stripped

/-- Every piece has a text. -/
theorem source_eq_nil {ps : List Piece} : source ps = [] ↔ ps = [] := by
  constructor
  · intro h
    cases ps with
    | nil => rfl
    | cons p ps => cases p <;> cases h
  · rintro rfl
    rfl

/-- A literal that its line does not close. -/
def Piece.isUnclosed : Piece → Bool
  | .unclosed _ _ => true
  | _ => false

/-- A block comment that the text does not close. -/
def Piece.isOpen : Piece → Bool
  | .openComment _ => true
  | _ => false

/-- The text ends in a block comment. -/
def endsOpen (ps : List Piece) : Bool := ps.any Piece.isOpen

/-- Between the quotes of a literal: characters and escapes, on one line. -/
inductive Body (quote : Byte) : Bytes → Prop
  | nil : Body quote []
  | char {c : Byte} {body : Bytes} (hq : c ≠ quote) (hb : c ≠ BACKSLASH) (hl : c ≠ LF)
      (h : Body quote body) : Body quote (c :: body)
  | escape {c : Byte} {body : Bytes} (hl : c ≠ LF) (h : Body quote body) :
      Body quote (BACKSLASH :: c :: body)

/-- At the end of a line. -/
def LineEnd (rest : Bytes) : Prop := rest = [] ∨ rest.head? = some LF

/-- The comment does not end in these bytes. -/
def NoEnd (body : Bytes) : Prop := ¬ [STAR, SLASH] <:+: body

def IsQuote (c : Byte) : Prop := c = DQUOTE ∨ c = SQUOTE

instance (c : Byte) : Decidable (IsQuote c) := inferInstanceAs (Decidable (_ ∨ _))

/-- A slash that starts a comment. -/
def Opens (c : Byte) (rest : Bytes) : Prop :=
  c = SLASH ∧ (rest.head? = some SLASH ∨ rest.head? = some STAR)

/-- A piece may stand in front of `rest`. -/
def Piece.Before (rest : Bytes) : Piece → Prop
  | .char c => ¬ IsQuote c ∧ ¬ Opens c rest
  | .literal quote body => IsQuote quote ∧ Body quote body
  | .unclosed quote body => IsQuote quote
      ∧ ∃ front, Body quote front ∧ (body = front ∨ body = front ++ [BACKSLASH]) ∧ LineEnd rest
  | .lineComment body => LF ∉ body ∧ LineEnd rest
  | .blockComment body => NoEnd (body ++ [STAR])
  | .openComment body => NoEnd body ∧ rest = []

/-- The pieces of a text, from the front. -/
def Lexing : List Piece → Prop
  | [] => True
  | p :: ps => p.Before (source ps) ∧ Lexing ps

/-! ## Every text has its pieces -/

/-- A literal is closed on its line or not. -/
theorem body_or_unclosed (quote : Byte) : ∀ (n : Nat) (s : Bytes), s.length ≤ n →
      (∃ body rest, s = body ++ quote :: rest ∧ Body quote body) ∨
      ∃ front rest, Body quote front ∧ LineEnd rest
        ∧ (s = front ++ rest ∨ s = (front ++ [BACKSLASH]) ++ rest) := by
  intro n
  induction n with
  | zero =>
      intro s h
      rw [List.length_eq_zero_iff.mp (Nat.le_zero.mp h)]
      exact .inr ⟨[], [], .nil, .inl rfl, .inl rfl⟩
  | succ n ih =>
      intro s h
      cases s with
      | nil => exact .inr ⟨[], [], .nil, .inl rfl, .inl rfl⟩
      | cons c s =>
          have hlen : s.length ≤ n := Nat.le_of_succ_le_succ h
          by_cases hq : c = quote
          · rw [hq]
            exact .inl ⟨[], s, rfl, .nil⟩
          by_cases hl : c = LF
          · exact .inr ⟨[], c :: s, .nil, .inr (by rw [hl]; rfl), .inl rfl⟩
          by_cases hb : c = BACKSLASH
          · rw [hb]
            cases s with
            | nil => exact .inr ⟨[], [], .nil, .inl rfl, .inr rfl⟩
            | cons d s =>
                by_cases hd : d = LF
                · exact .inr ⟨[], d :: s, .nil, .inr (by rw [hd]; rfl), .inr rfl⟩
                rcases ih s (by rw [List.length_cons] at hlen; omega) with
                  ⟨body, rest, rfl, hbody⟩ | ⟨front, rest, hfront, hend, hs⟩
                · exact .inl ⟨BACKSLASH :: d :: body, rest, rfl, .escape hd hbody⟩
                · refine .inr ⟨BACKSLASH :: d :: front, rest, .escape hd hfront, hend, ?_⟩
                  rcases hs with rfl | rfl
                  · exact .inl rfl
                  · exact .inr rfl
          rcases ih s hlen with ⟨body, rest, rfl, hbody⟩ | ⟨front, rest, hfront, hend, hs⟩
          · exact .inl ⟨c :: body, rest, rfl, .char hq hb hl hbody⟩
          · refine .inr ⟨c :: front, rest, .char hq hb hl hfront, hend, ?_⟩
            rcases hs with rfl | rfl
            · exact .inl rfl
            · exact .inr rfl

theorem noEnd_cons {c : Byte} {body : Bytes} :
    NoEnd (c :: body) ↔ ¬ (c = STAR ∧ body.head? = some SLASH) ∧ NoEnd body := by
  rw [NoEnd, NoEnd, List.infix_cons_iff, not_or]
  refine and_congr_left fun _ => not_congr ?_
  cases body with
  | nil => simp
  | cons d body => simp [eq_comm]

/-- A block comment is closed or not. -/
theorem closed_or_open : ∀ s : Bytes,
    (∃ body rest, s = body ++ STAR :: SLASH :: rest ∧ NoEnd (body ++ [STAR])) ∨ NoEnd s
  | [] => .inr (by simp [NoEnd])
  | c :: s => by
      by_cases hend : c = STAR ∧ s.head? = some SLASH
      · obtain ⟨rfl, hs⟩ := hend
        cases s with
        | nil => cases hs
        | cons d s =>
            obtain rfl := Option.some.inj hs
            exact .inl ⟨[], s, rfl, by simp [NoEnd, List.infix_cons_iff]⟩
      rcases closed_or_open s with ⟨body, rest, rfl, hbody⟩ | hopen
      · refine .inl ⟨c :: body, rest, rfl, noEnd_cons.mpr ⟨?_, hbody⟩⟩
        rintro ⟨rfl, hhead⟩
        refine hend ⟨rfl, ?_⟩
        cases body with
        | nil => cases hhead
        | cons d body => exact hhead
      · exact .inr (noEnd_cons.mpr ⟨hend, hopen⟩)

/-- What stands in front of a line end. -/
theorem lineEnd_dropWhile (s : Bytes) : LineEnd (s.dropWhile (· != LF)) := by
  cases h : s.dropWhile (· != LF) with
  | nil => exact .inl rfl
  | cons c rest =>
      have hhead := List.head_dropWhile_not (· != LF) (l := s) (by rw [h]; exact List.cons_ne_nil _ _)
      simp only [h, List.head_cons, bne_eq_false_iff_eq] at hhead
      exact .inr (by rw [hhead]; rfl)

/-- A text starts with a piece. -/
theorem first_piece (c : Byte) (s : Bytes) :
    ∃ (p : Piece) (rest : Bytes), c :: s = p.text ++ rest ∧ p.Before rest ∧ rest.length ≤ s.length := by
  by_cases hq : IsQuote c
  · rcases body_or_unclosed c s.length s (Nat.le_refl _) with
      ⟨body, rest, rfl, hbody⟩ | ⟨front, rest, hfront, hend, hs⟩
    · refine ⟨.literal c body, rest, by simp [Piece.text], ⟨hq, hbody⟩, ?_⟩
      simp only [List.length_append, List.length_cons]
      omega
    · rcases hs with rfl | rfl
      · exact ⟨.unclosed c front, rest, rfl, ⟨hq, front, hfront, .inl rfl, hend⟩,
          by rw [List.length_append]; omega⟩
      · exact ⟨.unclosed c (front ++ [BACKSLASH]), rest, rfl, ⟨hq, front, hfront, .inr rfl, hend⟩,
          by rw [List.length_append]; omega⟩
  by_cases hopens : Opens c s
  · obtain ⟨rfl, hs⟩ := hopens
    cases s with
    | nil => rcases hs with hs | hs <;> cases hs
    | cons d s =>
        rcases hs with hs | hs
        · obtain rfl := Option.some.inj hs
          refine ⟨.lineComment (s.takeWhile (· != LF)), s.dropWhile (· != LF), ?_,
            ⟨?_, lineEnd_dropWhile s⟩, ?_⟩
          · simp [Piece.text]
          · intro hmem
            exact absurd (List.mem_takeWhile_imp hmem) (by decide)
          · have hle := (List.dropWhile_sublist (· != LF) (l := s)).length_le
            rw [List.length_cons]
            omega
        · obtain rfl := Option.some.inj hs
          rcases closed_or_open s with ⟨body, rest, rfl, hbody⟩ | hopen
          · refine ⟨.blockComment body, rest, by simp [Piece.text], hbody, ?_⟩
            simp only [List.length_append, List.length_cons]
            omega
          · exact ⟨.openComment s, [], by simp [Piece.text], ⟨hopen, rfl⟩, Nat.zero_le _⟩
  · exact ⟨.char c, s, rfl, ⟨hq, hopens⟩, Nat.le_refl _⟩

/-- **Every text is cut into pieces.** -/
theorem lexing_exists (s : Bytes) : ∃ ps, Lexing ps ∧ source ps = s := by
  induction hn : s.length using Nat.strong_induction_on generalizing s with
  | _ n ih =>
      cases s with
      | nil => exact ⟨[], trivial, rfl⟩
      | cons c s =>
          obtain ⟨p, rest, hs, hbefore, hlen⟩ := first_piece c s
          obtain ⟨ps, hps, rfl⟩ := ih rest.length (by rw [← hn, List.length_cons]; omega) rest rfl
          exact ⟨p :: ps, ⟨hbefore, hps⟩, hs.symm⟩

end CLexing
