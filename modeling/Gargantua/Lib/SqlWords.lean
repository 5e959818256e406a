import Gargantua.Lib.SqlText

/-! # The words of an SQL text

    An SQL text is read word by word: a name in double quotes, a word of
    letters, digits and underscores, and every other byte by itself, blanks
    left out.  `scan` reads a text from any place in the middle of one, so the
    words of a text that is put together are those of its parts
    (`scan_trans`). -/

namespace SqlWords

open CString SqlText

inductive Word where
  | name (text : Bytes)
  | word (text : Bytes)
  | mark (c : Byte)
  deriving DecidableEq

/-- Where the reader is: between words, in a word, in quotes, behind quotes that
    may go on, or in a name with a quote in it, which is not read. -/
inductive Mode where
  | blank
  | word (text : Bytes)
  | quote (text : Bytes)
  | closed (text : Bytes)
  | broken
  deriving DecidableEq

def isBlank (c : Byte) : Bool := c == 0x20 || c == 0x09 || c == 0x0A || c == 0x0C || c == 0x0D

def isWordByte (c : Byte) : Bool :=
  (0x61 ≤ c && c ≤ 0x7A) || (0x41 ≤ c && c ≤ 0x5A) || (0x30 ≤ c && c ≤ 0x39) || c == 0x5F

/-- A byte between words. -/
def outside (c : Byte) : List Word × Mode :=
  if c = QUOTE then ([], .quote [])
  else if isBlank c then ([], .blank)
  else if isWordByte c then ([], .word [c])
  else ([.mark c], .blank)

/-- One byte: the words that it ends, and where the reader is behind it. -/
def step : Mode → Byte → List Word × Mode
  | .blank, c => outside c
  | .word w, c =>
      if isWordByte c then ([], .word (w ++ [c])) else (.word w :: (outside c).1, (outside c).2)
  | .quote n, c => if c = QUOTE then ([], .closed n) else ([], .quote (n ++ [c]))
  | .closed n, c =>
      if c = QUOTE then ([], .broken) else (.name n :: (outside c).1, (outside c).2)
  | .broken, _ => ([], .broken)

def scan : Mode → Bytes → List Word × Mode
  | m, [] => ([], m)
  | m, c :: s => ((step m c).1 ++ (scan (step m c).2 s).1, (scan (step m c).2 s).2)

/-- What is left at the end of the text. -/
def finish : Mode → Option (List Word)
  | .blank => some []
  | .word w => some [.word w]
  | .quote _ => none
  | .closed n => some [.name n]
  | .broken => none

/-- The words of a text, if its quotes close. -/
def words (s : Bytes) : Option (List Word) :=
  (finish (scan .blank s).2).map ((scan .blank s).1 ++ ·)

theorem scan_append (s t : Bytes) : ∀ m : Mode,
    scan m (s ++ t) = ((scan m s).1 ++ (scan (scan m s).2 t).1, (scan (scan m s).2 t).2) := by
  induction s with
  | nil => exact fun m => rfl
  | cons c s ih =>
      intro m
      rw [List.cons_append, scan, scan, ih, List.append_assoc]

/-- **The words of two texts.** -/
theorem scan_trans {m m' m'' : Mode} {s t : Bytes} {ws ws' : List Word} (hs : scan m s = (ws, m'))
    (ht : scan m' t = (ws', m'')) : scan m (s ++ t) = (ws ++ ws', m'') := by
  rw [scan_append, hs, ht]

theorem scan_inside {name : Bytes} (h : QUOTE ∉ name) : ∀ text : Bytes,
    scan (.quote text) (name ++ [QUOTE]) = ([], .closed (text ++ name)) := by
  induction name with
  | nil =>
      intro text
      rw [List.append_nil]
      rfl
  | cons c name ih =>
      intro text
      rw [List.mem_cons, not_or] at h
      have hstep : step (.quote text) c = ([], .quote (text ++ [c])) :=
        if_neg fun heq => h.1 heq.symm
      rw [List.cons_append, scan, hstep, ih h.2, List.append_assoc]
      rfl

/-- A name is read when its quotes are behind. -/
theorem scan_quoted {name : Bytes} (h : QUOTE ∉ name) :
    scan .blank (quoted name) = ([], .closed name) :=
  scan_inside h []

theorem words_closed {s : Bytes} {ws : List Word} {name : Bytes}
    (h : scan .blank s = (ws, .closed name)) : words s = some (ws ++ [.name name]) := by
  rw [words, h]
  rfl

theorem words_blank {s : Bytes} {ws : List Word} (h : scan .blank s = (ws, .blank)) :
    words s = some ws := by
  rw [words, h]
  exact congrArg some (List.append_nil ws)

/-! ## Reading words -/

/-- The words behind the words `l`, if those come first. -/
def eat (l ws : List Word) : Option (List Word) :=
  if ws.take l.length = l then some (ws.drop l.length) else none

theorem eat_append (l ws : List Word) : eat l (l ++ ws) = some ws := by
  rw [eat, List.take_left, if_pos rfl, List.drop_left]

/-- Further items of a list, each behind a comma. -/
def readMore {α : Type} (item : List Word → Option (α × List Word)) :
    Nat → List Word → Option (List α × List Word)
  | 0, _ => none
  | fuel + 1, ws =>
      match eat [.mark 0x2C] ws with
      | none => some ([], ws)
      | some ws => do
          let (a, ws) ← item ws
          let (as, ws) ← readMore item fuel ws
          some (a :: as, ws)

/-- A list of items with commas between them. -/
def readList {α : Type} (item : List Word → Option (α × List Word)) (ws : List Word) :
    Option (List α × List Word) := do
  let (a, ws) ← item ws
  let (as, ws) ← readMore item (ws.length + 1) ws
  some (a :: as, ws)

/-- The words of a list of items. -/
def listWords {α : Type} (item : α → List Word) : List α → List Word
  | [] => []
  | a :: as => item a ++ as.flatMap fun a => .mark 0x2C :: item a

section Lists

variable {α : Type} {item : List Word → Option (α × List Word)} {spell : α → List Word}

theorem readMore_words (hitem : ∀ a ws, item (spell a ++ ws) = some (a, ws)) {rest : List Word}
    (hrest : rest.head? ≠ some (.mark 0x2C)) : ∀ (as : List α) (fuel : Nat), as.length < fuel →
      readMore item fuel (as.flatMap (fun a => Word.mark 0x2C :: spell a) ++ rest)
        = some (as, rest)
  | [], fuel, hfuel => by
      obtain ⟨fuel, rfl⟩ := Nat.exists_eq_succ_of_ne_zero (Nat.ne_of_gt hfuel)
      have hnone : eat [.mark 0x2C] rest = none := by
        refine if_neg fun h => hrest ?_
        cases rest with
        | nil => cases h
        | cons w rest => rw [List.head?_cons, (List.cons.inj h).1]
      rw [List.flatMap_nil, List.nil_append, readMore, hnone]
  | a :: as, fuel, hfuel => by
      obtain ⟨fuel, rfl⟩ := Nat.exists_eq_succ_of_ne_zero (Nat.ne_of_gt (Nat.zero_lt_of_lt hfuel))
      rw [List.length_cons] at hfuel
      have heat := eat_append [.mark 0x2C]
        (spell a ++ (as.flatMap (fun a => Word.mark 0x2C :: spell a) ++ rest))
      rw [List.singleton_append] at heat
      rw [List.flatMap_cons, List.cons_append, List.cons_append, List.append_assoc, readMore, heat]
      dsimp only
      rw [hitem, Option.bind_eq_bind, Option.bind_some]
      dsimp only
      rw [readMore_words hitem hrest as fuel (by omega)]
      rfl

theorem length_le_listWords : ∀ as : List α,
    as.length ≤ (as.flatMap fun a => Word.mark 0x2C :: spell a).length
  | [] => Nat.le_refl 0
  | a :: as => by
      have ih := length_le_listWords as
      rw [List.flatMap_cons, List.length_append, List.length_cons, List.length_cons]
      omega

/-- **A list of items is read back from its words.** -/
theorem readList_words (hitem : ∀ a ws, item (spell a ++ ws) = some (a, ws)) {as : List α}
    (hne : as ≠ []) {rest : List Word} (hrest : rest.head? ≠ some (.mark 0x2C)) :
    readList item (listWords spell as ++ rest) = some (as, rest) := by
  obtain ⟨a, as, rfl⟩ := List.exists_cons_of_ne_nil hne
  have hlength := @length_le_listWords α spell as
  rw [readList, listWords, List.append_assoc, hitem, Option.bind_eq_bind, Option.bind_some]
  dsimp only
  rw [readMore_words hitem hrest as _ (by rw [List.length_append]; omega)]
  rfl

end Lists

end SqlWords
