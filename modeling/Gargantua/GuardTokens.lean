import Gargantua.StripComments
import Gargantua.Lib.Blocks

/-! # The tokens that `guard_transaction` reads

    A line is a list of words and braces for `guard_transaction`; what is in a
    literal is passed over.  The lines of a text without its comments give the
    tokens of the text (`lines_tokens`), whatever blanks are trimmed and however the lines of
    a signature are joined. -/

namespace GuardTokens

open CString CLexing RouteGenerator GeneratorText GeneratorSource Blocks StripComments

/-! ## Reading a line -/

/-- A character that is in no word and no literal: its token, and where the reader is
    behind it. -/
def codeStep (c : Byte) : List (Token Bytes) × GuardMode :=
  if c = 0x22 ∨ c = 0x27 then ([], .quoted c)
  else if isAlpha c ∨ c = 0x5F ∨ c = 0x24 then ([], .word [c])
  else if c = 0x7B then ([.opening], .code)
  else if c = 0x7D then ([.closing], .code)
  else ([], .code)

/-- A character. -/
def modeStep : GuardMode → Byte → List (Token Bytes) × GuardMode
  | .code, c => codeStep c
  | .word w, c =>
      if isGuardChar c then ([], .word (w ++ [c])) else (.word w :: (codeStep c).1, (codeStep c).2)
  | .quoted q, c => ([], if c = 0x5C then .escaped q else if c = q then .code else .quoted q)
  | .escaped q, _ => ([], .quoted q)

/-- The tokens that end in a text, and where the reader is behind it. -/
def scan : GuardMode → Bytes → List (Token Bytes) × GuardMode
  | m, [] => ([], m)
  | m, c :: s => ((modeStep m c).1 ++ (scan (modeStep m c).2 s).1, (scan (modeStep m c).2 s).2)

/-- The word that the end of a line ends. -/
def pending : GuardMode → List (Token Bytes)
  | .word w => [.word w]
  | _ => []

/-- The tokens of a line, from where the reader is. -/
def tokensFrom (m : GuardMode) (s : Bytes) : List (Token Bytes) := (scan m s).1 ++ pending (scan m s).2

/-- The tokens of a line. -/
def lineTokens (line : Bytes) : List (Token Bytes) := tokensFrom .code line

/-- In a literal. -/
def inLiteral : GuardMode → Bool
  | .quoted _ => true
  | .escaped _ => true
  | _ => false

/-- All literals of the line are closed. -/
def Closed (line : Bytes) : Prop := inLiteral (scan .code line).2 = false

theorem scan_append (m : GuardMode) (s t : Bytes) :
    scan m (s ++ t) = ((scan m s).1 ++ (scan (scan m s).2 t).1, (scan (scan m s).2 t).2) := by
  induction s generalizing m with
  | nil => rfl
  | cons c s ih => rw [List.cons_append, scan, ih, scan, List.append_assoc]

theorem tokensFrom_cons (m : GuardMode) (c : Byte) (s : Bytes) :
    tokensFrom m (c :: s) = (modeStep m c).1 ++ tokensFrom (modeStep m c).2 s := by
  rw [tokensFrom, scan, List.append_assoc]
  rfl

/-- A character that only separates. -/
structure Separates (c : Byte) : Prop where
  code : codeStep c = ([], .code)
  word : isGuardChar c = false

theorem separates_lf : Separates LF := ⟨by decide, by decide⟩

theorem separates_space : Separates SPACE := ⟨by decide, by decide⟩

/-- Behind a separator the reader is in no word. -/
theorem Separates.step {c : Byte} (hc : Separates c) {m : GuardMode} (hm : inLiteral m = false) :
    modeStep m c = (pending m, .code) := by
  cases m with
  | code =>
      rw [modeStep, hc.code]
      rfl
  | word w =>
      rw [modeStep, hc.word, if_neg Bool.false_ne_true, hc.code]
      rfl
  | quoted q => cases hm
  | escaped q => cases hm

/-- A line, a separator and another line. -/
theorem tokens_join {c : Byte} (hc : Separates c) {m : GuardMode} {s t : Bytes}
    (hs : inLiteral (scan m s).2 = false) :
    tokensFrom m (s ++ c :: t) = tokensFrom m s ++ lineTokens t
      ∧ (scan m (s ++ c :: t)).2 = (scan .code t).2 := by
  have hscan : scan m (s ++ c :: t)
      = ((scan m s).1 ++ (pending (scan m s).2 ++ (scan .code t).1), (scan .code t).2) := by
    rw [scan_append, scan, hc.step hs]
  rw [tokensFrom, hscan, tokensFrom, lineTokens, tokensFrom]
  exact ⟨by simp, rfl⟩

/-! ## Trimming -/

/-- White space separates. -/
theorem separates_blank {c : Byte} (hc : isSpace c = true) : Separates c := by
  have hcases : c = 0x20 ∨ (0x09 ≤ c ∧ c ≤ 0x0D) := by
    simpa [isSpace] using hc
  have hvalue : c = 0x20 ∨ c = 0x09 ∨ c = 0x0A ∨ c = 0x0B ∨ c = 0x0C ∨ c = 0x0D := by
    rcases hcases with h | ⟨hlo, hhi⟩
    · exact .inl h
    · refine .inr ?_
      simp only [UInt8.le_iff_toNat_le, UInt8.ext_iff] at hlo hhi ⊢
      simp only [UInt8.toNat_ofNat] at hlo hhi ⊢
      omega
  rcases hvalue with rfl | rfl | rfl | rfl | rfl | rfl <;> exact ⟨by decide, by decide⟩

/-- White space in front has no tokens. -/
theorem scan_blanks {blanks : Bytes} (h : ∀ c ∈ blanks, isSpace c = true) (s : Bytes) :
    scan .code (blanks ++ s) = scan .code s := by
  induction blanks with
  | nil => rfl
  | cons c blanks ih =>
      obtain ⟨hc, hblanks⟩ := List.forall_mem_cons.mp h
      have hstep := (separates_blank hc).step (m := .code) rfl
      rw [List.cons_append, scan, hstep, ih hblanks]
      rfl

/-- A literal is closed by no white space. -/
def NoBlankQuote (m : GuardMode) : Prop := ∀ q, m = .quoted q ∨ m = .escaped q → isSpace q = false

theorem noBlankQuote_step {m : GuardMode} (hm : NoBlankQuote m) (c : Byte) :
    NoBlankQuote (modeStep m c).2 := by
  have hcode : NoBlankQuote (codeStep c).2 := by
    rw [codeStep]
    split_ifs with hquote
    · rintro q (h | h)
      · obtain rfl := GuardMode.quoted.inj h
        rcases hquote with rfl | rfl <;> decide
      · cases h
    all_goals rintro q (h | h) <;> cases h
  cases m with
  | code => exact hcode
  | word w =>
      rw [modeStep]
      split_ifs
      · rintro q (h | h) <;> cases h
      · exact hcode
  | quoted q =>
      rw [modeStep]
      dsimp only
      split_ifs
      · rintro d (h | h)
        · cases h
        · obtain rfl := GuardMode.escaped.inj h
          exact hm q (.inl rfl)
      · rintro d (h | h) <;> cases h
      · exact hm
  | escaped q =>
      rintro d (h | h)
      · obtain rfl := GuardMode.quoted.inj h
        exact hm q (.inr rfl)
      · cases h

theorem noBlankQuote_scan {m : GuardMode} (hm : NoBlankQuote m) (s : Bytes) : NoBlankQuote (scan m s).2 := by
  induction s generalizing m with
  | nil => exact hm
  | cons c s ih => exact ih (noBlankQuote_step hm c)

/-- White space does not leave a literal. -/
theorem literal_blanks {blanks : Bytes} (h : ∀ c ∈ blanks, isSpace c = true) {m : GuardMode}
    (hm : inLiteral m = true) (hq : NoBlankQuote m) : inLiteral (scan m blanks).2 = true := by
  induction blanks generalizing m with
  | nil => exact hm
  | cons c blanks ih =>
      obtain ⟨hc, hblanks⟩ := List.forall_mem_cons.mp h
      refine ih hblanks ?_ (noBlankQuote_step hq c)
      cases m with
      | code => cases hm
      | word w => cases hm
      | escaped q => rfl
      | quoted q =>
          have hne : c ≠ q := by
            rintro rfl
            rw [hq c (.inl rfl)] at hc
            cases hc
          rw [modeStep]
          dsimp only
          split_ifs
          · rfl
          · rfl

/-- A line and the line without the white space around it. -/
theorem lineTrim_tokens {line : Bytes} (h : Closed line) :
    Closed (lineTrim line) ∧ lineTokens (lineTrim line) = lineTokens line := by
  obtain ⟨front, hfront, hline⟩ : ∃ front, (∀ c ∈ front, isSpace c = true)
      ∧ line = front ++ line.dropWhile isSpace :=
    ⟨line.takeWhile isSpace, fun c hc => List.mem_takeWhile_imp hc, List.takeWhile_append_dropWhile.symm⟩
  obtain ⟨back, hback, htrim⟩ : ∃ back, (∀ c ∈ back, isSpace c = true)
      ∧ line.dropWhile isSpace = lineTrim line ++ back := by
    refine ⟨((line.dropWhile isSpace).reverse.takeWhile isSpace).reverse, ?_, ?_⟩
    · intro c hc
      exact List.mem_takeWhile_imp (List.mem_reverse.mp hc)
    · rw [lineTrim, List.rdropWhile, ← List.reverse_append, List.takeWhile_append_dropWhile,
        List.reverse_reverse]
  have hscan : scan .code line = scan .code (lineTrim line ++ back) := by
    conv_lhs => rw [hline, scan_blanks hfront, htrim]
  have hclosed : Closed (lineTrim line) := by
    rw [Closed]
    cases hin : inLiteral (scan .code (lineTrim line)).2 with
    | false => rfl
    | true =>
        have hquote : NoBlankQuote .code := by
          rintro q (h | h) <;> cases h
        have hleft := literal_blanks hback hin (noBlankQuote_scan hquote (lineTrim line))
        rw [Closed, hscan, scan_append, hleft] at h
        cases h
  refine ⟨hclosed, ?_⟩
  rw [lineTokens, lineTokens, tokensFrom, tokensFrom, hscan]
  cases back with
  | nil => rw [List.append_nil]
  | cons c back =>
      obtain ⟨hc, hblanks⟩ := List.forall_mem_cons.mp hback
      obtain ⟨htokens, -⟩ := tokens_join (separates_blank hc) (t := back) hclosed
      rw [tokensFrom, tokensFrom] at htokens
      have hnone : lineTokens back = [] := by
        have hb := scan_blanks hblanks []
        rw [List.append_nil] at hb
        rw [lineTokens, tokensFrom, hb]
        rfl
      rw [htokens, hnone, List.append_nil]

/-! ## The tokens of a text -/

/-- A character that starts a word. -/
def isWordStart (c : Byte) : Bool := isAlpha c || c == 0x5F || c == 0x24

/-- What a piece is without comments and literals. -/
def Piece.plain : Piece → Bytes
  | .char c => [c]
  | .literal _ _ => [SPACE]
  | .unclosed _ _ => [SPACE]
  | .lineComment _ => []
  | .blockComment body => SPACE :: body.filter (· == LF)
  | .openComment body => SPACE :: body.filter (· == LF)

/-- A text without comments and literals. -/
def plainText (ps : List Piece) : Bytes := ps.flatMap Piece.plain

/-- The word that was read, if one was. -/
def flush (word : Bytes) : List (Token Bytes) := if word = [] then [] else [.word word]

/-- A character outside words. -/
def braceToken (c : Byte) : List (Token Bytes) :=
  if c = 0x7B then [.opening] else if c = 0x7D then [.closing] else []

/-- The words and braces of a text, `word` being the start of a word that was read: a
    word goes from a letter, `_` or `$` over all letters, digits, `_` and `$`. -/
def words : Bytes → Bytes → List (Token Bytes)
  | word, [] => flush word
  | word, c :: s =>
      if (if word = [] then isWordStart c else isGuardChar c) then words (word ++ [c]) s
      else flush word ++ braceToken c ++ words [] s

/-- The reader with a word. -/
def wordMode (word : Bytes) : GuardMode := if word = [] then .code else .word word

theorem inLiteral_wordMode (word : Bytes) : inLiteral (wordMode word) = false := by
  rw [wordMode]
  split <;> rfl

theorem pending_wordMode (word : Bytes) : pending (wordMode word) = flush word := by
  rw [wordMode, flush]
  split <;> rfl

theorem wordMode_append (word : Bytes) (c : Byte) : wordMode (word ++ [c]) = .word (word ++ [c]) :=
  if_neg (by simp)

/-- A character that is no quote. -/
theorem modeStep_plain {c : Byte} (hc : ¬ IsQuote c) (word : Bytes) :
    modeStep (wordMode word) c
      = if (if word = [] then isWordStart c else isGuardChar c) then ([], wordMode (word ++ [c]))
        else (flush word ++ braceToken c, .code) := by
  have hq : ¬ (c = 0x22 ∨ c = 0x27) := hc
  have hcode : codeStep c = if isWordStart c then ([], .word [c]) else (braceToken c, .code) := by
    have hstart : isWordStart c = true ↔ isAlpha c = true ∨ c = 0x5F ∨ c = 0x24 := by
      rw [isWordStart, Bool.or_eq_true, Bool.or_eq_true, beq_iff_eq, beq_iff_eq, or_assoc]
    rw [codeStep, if_neg hq, if_congr hstart.symm rfl rfl]
    split
    · rfl
    · rw [braceToken]
      split_ifs <;> rfl
  rw [wordMode_append]
  cases word with
  | nil =>
      rw [wordMode, if_pos rfl, if_pos rfl, modeStep, hcode]
      rfl
  | cons d word =>
      rw [wordMode, if_neg (List.cons_ne_nil _ _), if_neg (List.cons_ne_nil _ _), modeStep]
      cases hguard : isGuardChar c with
      | true => rw [if_pos rfl, if_pos rfl]
      | false =>
          have hstart : isWordStart c = false := by
            rw [isGuardChar, isWordChar, RouteGenerator.isAlnum] at hguard
            rw [isWordStart]
            revert hguard
            cases isAlpha c <;> simp
            exact fun _ h1 h2 => ⟨h1, h2⟩
          rw [if_neg Bool.false_ne_true, if_neg Bool.false_ne_true, hcode, hstart,
            if_neg Bool.false_ne_true]
          rfl

/-- A line feed is met in no literal, and the end neither. -/
def ClosedText : GuardMode → Bytes → Prop
  | m, [] => inLiteral m = false
  | m, c :: s => (c = LF → inLiteral m = false) ∧ ClosedText (modeStep m c).2 s

/-- A literal is passed over. -/
theorem scan_literal {q : Byte} {body : Bytes} (hbody : Body q body) (hq : q ≠ BACKSLASH) (hlf : q ≠ LF)
    (rest : Bytes) :
    tokensFrom (.quoted q) (body ++ q :: rest) = lineTokens rest
      ∧ (ClosedText .code rest → ClosedText (.quoted q) (body ++ q :: rest)) := by
  induction hbody with
  | nil =>
      have hstep : modeStep (.quoted q) q = ([], .code) := by
        rw [modeStep, if_neg hq, if_pos rfl]
      rw [List.nil_append, tokensFrom_cons, ClosedText, hstep]
      exact ⟨rfl, fun h => ⟨fun hc => absurd hc hlf, h⟩⟩
  | @char c body hne hb hl _ ih =>
      have hstep : modeStep (.quoted q) c = ([], .quoted q) := by
        rw [modeStep, if_neg hb, if_neg hne]
      rw [List.cons_append, tokensFrom_cons, ClosedText, hstep]
      exact ⟨ih.1, fun h => ⟨fun hc => absurd hc hl, ih.2 h⟩⟩
  | @escape c body hl _ ih =>
      have hstep : modeStep (.quoted q) BACKSLASH = ([], .escaped q) := by
        rw [modeStep, if_pos rfl]
      have hstep' : modeStep (.escaped q) c = ([], .quoted q) := rfl
      rw [List.cons_append, List.cons_append, tokensFrom_cons, tokensFrom_cons, ClosedText, ClosedText, hstep,
        hstep']
      exact ⟨ih.1, fun h => ⟨fun hc => absurd hc (by decide), fun hc => absurd hc hl, ih.2 h⟩⟩

/-- Line feeds. -/
theorem scan_feeds {feeds : Bytes} (h : ∀ c ∈ feeds, c = LF) (word rest : Bytes) :
    (words word (SPACE :: feeds ++ rest) = flush word ++ words [] rest)
      ∧ (tokensFrom (wordMode word) (SPACE :: feeds ++ rest) = flush word ++ lineTokens rest)
      ∧ (ClosedText .code rest → ClosedText (wordMode word) (SPACE :: feeds ++ rest)) := by
  have hfeeds : words [] (feeds ++ rest) = words [] rest ∧ tokensFrom .code (feeds ++ rest) = lineTokens rest
      ∧ (ClosedText .code rest → ClosedText .code (feeds ++ rest)) := by
    induction feeds with
    | nil => exact ⟨rfl, rfl, id⟩
    | cons c feeds ih =>
        obtain ⟨rfl, hfeeds⟩ := List.forall_mem_cons.mp h
        obtain ⟨hw, ht, hcl⟩ := ih hfeeds
        have hstep := separates_lf.step (m := .code) rfl
        rw [List.cons_append, tokensFrom_cons, ClosedText, hstep]
        exact ⟨hw, ht, fun hr => ⟨fun _ => rfl, hcl hr⟩⟩
  obtain ⟨hw, ht, hcl⟩ := hfeeds
  have hstep := separates_space.step (inLiteral_wordMode word)
  have hspace : words word (SPACE :: (feeds ++ rest)) = flush word ++ words [] (feeds ++ rest) := by
    have hnot : (if word = [] then isWordStart SPACE else isGuardChar SPACE) = false := by
      split <;> decide
    have hbrace : braceToken SPACE = [] := rfl
    rw [words, hnot, if_neg Bool.false_ne_true, hbrace, List.append_nil]
  rw [List.cons_append, hspace, hw, tokensFrom_cons, ClosedText, hstep, ht, pending_wordMode]
  exact ⟨rfl, rfl, fun hr => ⟨fun hc => absurd hc (by decide), hcl hr⟩⟩

/-- **The tokens of a text** are those of the text without comments and literals. -/
theorem tokens_eq : ∀ {ps : List Piece}, Lexing ps → (∀ p ∈ ps, p.isUnclosed = false) →
    ∀ word : Bytes, tokensFrom (wordMode word) (stripped ps) = words word (plainText ps)
      ∧ ClosedText (wordMode word) (stripped ps) := by
  intro ps
  induction ps with
  | nil =>
      intro _ _ word
      refine ⟨?_, inLiteral_wordMode word⟩
      show [] ++ pending (wordMode word) = flush word
      rw [List.nil_append, pending_wordMode]
  | cons p ps ih =>
      rintro ⟨hbefore, hps⟩ hclosed word
      obtain ⟨hp, hrest⟩ := List.forall_mem_cons.mp hclosed
      have hih := ih hps hrest
      obtain ⟨hcode, hcodeClosed⟩ := hih []
      have hmode : wordMode [] = .code := if_pos rfl
      rw [hmode] at hcode hcodeClosed
      have hstripped : stripped (p :: ps) = p.stripped ++ stripped ps := rfl
      have hplain : plainText (p :: ps) = Piece.plain p ++ plainText ps := rfl
      -- a comment that has gone leaves a space and its line feeds
      have hcomment : ∀ body : Bytes,
          tokensFrom (wordMode word) (SPACE :: body.filter (· == LF) ++ stripped ps)
              = words word (SPACE :: body.filter (· == LF) ++ plainText ps)
            ∧ ClosedText (wordMode word) (SPACE :: body.filter (· == LF) ++ stripped ps) := by
        intro body
        have hfeeds : ∀ c ∈ body.filter (· == LF), c = LF := by simp
        obtain ⟨-, htokens, hfed⟩ := scan_feeds hfeeds word (stripped ps)
        obtain ⟨hwords, -, -⟩ := scan_feeds hfeeds word (plainText ps)
        rw [htokens, hwords, lineTokens, hcode]
        exact ⟨rfl, hfed hcodeClosed⟩
      rw [hstripped, hplain]
      cases p with
      | char c =>
          obtain ⟨hq, -⟩ := hbefore
          have hstep := modeStep_plain hq word
          show tokensFrom (wordMode word) (c :: stripped ps) = words word (c :: plainText ps)
            ∧ ClosedText (wordMode word) (c :: stripped ps)
          rw [tokensFrom_cons, ClosedText, words, hstep]
          by_cases hgo : (if word = [] then isWordStart c else isGuardChar c) = true
          · obtain ⟨htokens, hclosed⟩ := hih (word ++ [c])
            rw [if_pos hgo, if_pos hgo]
            exact ⟨htokens, fun _ => inLiteral_wordMode word, hclosed⟩
          · rw [if_neg hgo, if_neg hgo]
            refine ⟨?_, fun _ => inLiteral_wordMode word, hcodeClosed⟩
            dsimp only
            rw [hcode]
      | literal q body =>
          obtain ⟨hq, hbody⟩ := hbefore
          have hback : q ≠ BACKSLASH := by
            rintro rfl
            rcases hq with h | h <;> cases h
          have hlf : q ≠ LF := by
            rintro rfl
            rcases hq with h | h <;> cases h
          have hkind : q = 0x22 ∨ q = 0x27 := hq
          have hquote : codeStep q = ([], .quoted q) := by
            rw [codeStep, if_pos hkind]
          have hguard : isGuardChar q = false := by
            rcases hq with rfl | rfl <;> decide
          have hopen : modeStep (wordMode word) q = (flush word, .quoted q) := by
            rw [wordMode, flush]
            split
            · exact hquote
            · rw [modeStep, hguard, if_neg Bool.false_ne_true, hquote]
          obtain ⟨htokens, hliteral⟩ := scan_literal hbody hback hlf (stripped ps)
          have hspace : words word (SPACE :: plainText ps) = flush word ++ words [] (plainText ps) :=
            (@scan_feeds [] (by simp) word (plainText ps)).1
          have hsplit : (Piece.literal q body).stripped ++ stripped ps = q :: (body ++ q :: stripped ps) := by
            simp [Piece.stripped, Piece.text]
          rw [hsplit, tokensFrom_cons, ClosedText, hopen]
          refine ⟨?_, fun hc => absurd hc hlf, hliteral hcodeClosed⟩
          show flush word ++ tokensFrom (.quoted q) (body ++ q :: stripped ps) = words word (SPACE :: plainText ps)
          rw [htokens, hspace, lineTokens, hcode]
      | unclosed q body => cases hp
      | lineComment body => exact hih word
      | blockComment body => exact hcomment body
      | openComment body => exact hcomment body

/-- The lines of a text have its tokens. -/
theorem lines_tokens : ∀ {s : Bytes} {m : GuardMode}, ClosedText m s →
    ∃ l ls, linesOf s = l :: ls ∧ inLiteral (scan m l).2 = false ∧ (∀ line ∈ ls, Closed line)
      ∧ tokensFrom m s = tokensFrom m l ++ ls.flatMap lineTokens := by
  intro s
  induction s with
  | nil => exact fun h => ⟨[], [], rfl, h, by simp, by simp⟩
  | cons c s ih =>
      rintro m ⟨hlf, hs⟩
      obtain ⟨l, ls, hlines, hl, hls, htokens⟩ := ih hs
      by_cases hc : c = LF
      · subst hc
        have hstep := separates_lf.step (hlf rfl)
        rw [hstep] at hl htokens
        refine ⟨[], l :: ls, by rw [linesOf_lf, hlines], hlf rfl, List.forall_mem_cons.mpr ⟨hl, hls⟩, ?_⟩
        rw [tokensFrom_cons, hstep, htokens, List.flatMap_cons]
        rfl
      · refine ⟨c :: l, ls, by rw [linesOf_cons hc, hlines]; rfl, hl, hls, ?_⟩
        rw [tokensFrom_cons, htokens, tokensFrom_cons, List.append_assoc]

end GuardTokens
