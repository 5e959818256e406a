import Gargantua.Lib.CString
import Mathlib.Data.List.Basic

/-! # The names and the parameters of an SQL text

    A statement that a program puts together has names in double quotes and
    question marks for its parameters.  Lexing it shows what the text really
    names, and how many values it asks for. -/

namespace SqlText

open CString

abbrev QUOTE : Byte := 0x22
abbrev PARAM : Byte := 0x3F

/-- A name between quotes, a byte outside of them, or quotes that do not close. -/
inductive Token where
  | name (text : Bytes)
  | byte (c : Byte)
  | unclosed (text : Bytes)
  deriving DecidableEq

/-- The tokens of a text, from inside a name or outside of one. -/
def lex : Option Bytes → Bytes → List Token
  | none, [] => []
  | some text, [] => [.unclosed text]
  | none, c :: s => if c = QUOTE then lex (some []) s else .byte c :: lex none s
  | some text, c :: s => if c = QUOTE then .name text :: lex none s else lex (some (text ++ [c])) s

/-- A name in quotes. -/
def quoted (name : Bytes) : Bytes := QUOTE :: (name ++ [QUOTE])

theorem quoted_length (name : Bytes) : (quoted name).length = name.length + 2 := by
  rw [quoted, List.length_cons, List.length_append, List.length_singleton]

/-- The names in a text. -/
def names (s : Bytes) : List Bytes :=
  (lex none s).filterMap fun
    | .name text => some text
    | _ => none

/-- The number of its parameters. -/
def params (s : Bytes) : Nat := (lex none s).countP (· = .byte PARAM)

/-- Every quote of the text closes. -/
def Closed (s : Bytes) : Prop := ∀ t ∈ lex none s, ∀ text, t ≠ .unclosed text

theorem lex_plain {t : Bytes} (h : QUOTE ∉ t) (s : Bytes) :
    lex none (t ++ s) = t.map .byte ++ lex none s := by
  induction t with
  | nil => rfl
  | cons c t ih =>
      rw [List.mem_cons, not_or] at h
      rw [List.cons_append, lex, if_neg (fun heq => h.1 heq.symm), ih h.2]
      rfl

theorem lex_inside {name : Bytes} (h : QUOTE ∉ name) (s : Bytes) : ∀ text : Bytes,
    lex (some text) (name ++ QUOTE :: s) = .name (text ++ name) :: lex none s := by
  induction name with
  | nil =>
      intro text
      rw [List.nil_append, lex, if_pos rfl, List.append_nil]
  | cons c name ih =>
      intro text
      rw [List.mem_cons, not_or] at h
      rw [List.cons_append, lex, if_neg (fun heq => h.1 heq.symm), ih h.2, List.append_assoc]
      rfl

/-- **A name without quotes is one token.** -/
theorem lex_quoted {name : Bytes} (h : QUOTE ∉ name) (s : Bytes) :
    lex none (quoted name ++ s) = .name name :: lex none s := by
  rw [quoted, List.cons_append, List.append_assoc, lex, if_pos rfl]
  exact lex_inside h s []

/-! ## Texts put together -/

/-- A part of a statement: text of the program, or a name. -/
inductive Piece where
  | text (s : Bytes)
  | name (s : Bytes)

def Piece.spell : Piece → Bytes
  | .text s => s
  | .name s => quoted s

/-- The piece has no quote of its own. -/
def Piece.Plain : Piece → Prop
  | .text s => QUOTE ∉ s
  | .name s => QUOTE ∉ s

def Piece.tokens : Piece → List Token
  | .text s => s.map .byte
  | .name s => [.name s]

def Piece.names : Piece → List Bytes
  | .text _ => []
  | .name s => [s]

def Piece.params : Piece → Nat
  | .text s => s.countP (· = PARAM)
  | .name _ => 0

/-- **The tokens of a text are those of its pieces.** -/
theorem lex_pieces {ps : List Piece} (h : ∀ p ∈ ps, p.Plain) :
    lex none (ps.flatMap Piece.spell) = ps.flatMap Piece.tokens := by
  induction ps with
  | nil => rfl
  | cons p ps ih =>
      have hp := h p List.mem_cons_self
      rw [List.flatMap_cons, List.flatMap_cons, ← ih fun q hq => h q (List.mem_cons_of_mem p hq)]
      cases p with
      | text s => exact lex_plain hp _
      | name s => exact lex_quoted hp _

theorem names_pieces {ps : List Piece} (h : ∀ p ∈ ps, p.Plain) :
    names (ps.flatMap Piece.spell) = ps.flatMap Piece.names := by
  rw [names, lex_pieces h, List.filterMap_flatMap]
  refine List.flatMap_congr fun p _ => ?_
  cases p with
  | text s =>
      refine List.filterMap_eq_nil_iff.mpr fun t ht => ?_
      obtain ⟨c, -, rfl⟩ := List.mem_map.mp ht
      rfl
  | name s => rfl

theorem params_pieces {ps : List Piece} (h : ∀ p ∈ ps, p.Plain) :
    params (ps.flatMap Piece.spell) = (ps.map Piece.params).sum := by
  rw [params, lex_pieces h, List.countP_flatMap]
  refine congrArg List.sum (List.map_congr_left fun p _ => ?_)
  cases p with
  | text s =>
      rw [Function.comp_apply, Piece.tokens, List.countP_map, Piece.params]
      refine List.countP_congr fun c _ => ?_
      simp only [Function.comp_apply, decide_eq_true_eq, Token.byte.injEq]
  | name s => rfl

theorem closed_pieces {ps : List Piece} (h : ∀ p ∈ ps, p.Plain) :
    Closed (ps.flatMap Piece.spell) := by
  rw [Closed, lex_pieces h]
  rintro t ht text rfl
  obtain ⟨p, -, hp⟩ := List.mem_flatMap.mp ht
  cases p with
  | text s =>
      obtain ⟨c, -, hc⟩ := List.mem_map.mp hp
      cases hc
  | name s => cases List.mem_singleton.mp hp

end SqlText
