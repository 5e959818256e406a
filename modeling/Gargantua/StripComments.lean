import Gargantua.ConfigLoad
import Gargantua.GeneratorFile
import Gargantua.Lib.CLexing

/-! # Comments are stripped as in C (`src/generator/generator_parse.c`)

    `strip_comments` works on one line at a time, in its buffer: what is written
    stays behind what is read.  From line to line it is told whether a block
    comment is open.  Over the lines of a text it leaves what C's pieces leave
    (`strip_comments_exact`): nothing of a `//` comment, and of a block comment a
    space and its line feeds. -/

namespace StripComments

open CString CLexing GeneratorText
open Separated (mem_splitOn)
open ConfigLoad (fgets fgets_line fgets_last fgets_end)
open GeneratorFile (sourceLines)
open RouteGenerator (GENERATOR_MAX_LINE)

/-! ## In the buffer -/

/-- A byte of the buffer. -/
def byteAt (line : Bytes) (i : Nat) : Byte := line.getD i 0

/-- The locals of `strip_comments`, and `*in_block`. -/
structure Strip where
  line : Bytes
  read : Nat
  write : Nat
  quote : Option Byte
  inBlock : Bool
  deriving Repr, DecidableEq

/-- `line[write++] = line[read++]`. -/
def Strip.copy (s : Strip) : Strip :=
  { s with line := s.line.set s.write (byteAt s.line s.read), read := s.read + 1, write := s.write + 1 }

/-- The loop of `strip_comments`. -/
def stripLoop : Nat → Strip → Strip
  | 0, s => s
  | guard + 1, s =>
      if s.read < GENERATOR_MAX_LINE ∧ byteAt s.line s.read ≠ 0 then
        if s.inBlock then
          if byteAt s.line s.read = STAR ∧ byteAt s.line (s.read + 1) = SLASH then
            stripLoop guard { s with inBlock := false, read := s.read + 2 }
          else stripLoop guard { s with read := s.read + 1 }
        else
          match s.quote with
          | some quote =>
              let c := byteAt s.line s.read
              let s := s.copy
              if c = BACKSLASH ∧ byteAt s.line s.read ≠ 0 then stripLoop guard s.copy
              else if c = quote then stripLoop guard { s with quote := none }
              else stripLoop guard s
          | none =>
              if byteAt s.line s.read = SLASH ∧ byteAt s.line (s.read + 1) = SLASH then s
              else if byteAt s.line s.read = SLASH ∧ byteAt s.line (s.read + 1) = STAR then
                stripLoop guard { s with
                  line := s.line.set s.write SPACE, write := s.write + 1, inBlock := true
                  read := s.read + 2 }
              else if byteAt s.line s.read = SQUOTE ∨ byteAt s.line s.read = DQUOTE then
                stripLoop guard { s with quote := some (byteAt s.line s.read) }.copy
              else stripLoop guard s.copy
      else s

/-- `strip_comments`: the buffer and `*in_block` behind it. -/
def stripCommentsInPlace (line : Bytes) (inBlock : Bool) : Bytes × Bool :=
  let s := stripLoop GENERATOR_MAX_LINE ⟨line, 0, 0, none, inBlock⟩
  (s.line.set s.write 0, s.inBlock)

/-! ## The rounds on the line itself -/

section Rounds

variable {quote : Option Byte} {q c d : Byte} {line : Bytes}

theorem strip_close : stripComments quote true (STAR :: SLASH :: line) = stripComments none false line := by
  rw [stripComments]

theorem strip_skip (h : ¬ (c = STAR ∧ line.head? = some SLASH)) :
    stripComments quote true (c :: line) = stripComments none true line := by
  rw [stripComments]
  intro rest hc hline
  exact h ⟨hc, by rw [hline]; rfl⟩

theorem strip_escape : stripComments (some q) false (BACKSLASH :: d :: line)
    = (BACKSLASH :: d :: (stripComments (some q) false line).1, (stripComments (some q) false line).2) := by
  rw [stripComments, if_pos rfl]

theorem strip_escape_end : stripComments (some q) false [BACKSLASH] = ([BACKSLASH], false) := by
  rw [stripComments, if_pos rfl]

theorem strip_quoted (h : c ≠ BACKSLASH) : stripComments (some q) false (c :: line)
    = (c :: (stripComments (if c = q then none else some q) false line).1,
        (stripComments (if c = q then none else some q) false line).2) := by
  cases line with
  | nil => conv_lhs => rw [stripComments, if_neg h]
  | cons d line => conv_lhs => rw [stripComments, if_neg h]

theorem strip_line : stripComments none false (SLASH :: SLASH :: line) = ([], false) := by
  rw [stripComments]

theorem strip_open : stripComments none false (SLASH :: STAR :: line)
    = (SPACE :: (stripComments none true line).1, (stripComments none true line).2) := by
  rw [stripComments]

theorem strip_plain (h : ¬ Opens c line) : stripComments none false (c :: line)
    = (c :: (stripComments (if c = SQUOTE ∨ c = DQUOTE then some c else none) false line).1,
        (stripComments (if c = SQUOTE ∨ c = DQUOTE then some c else none) false line).2) := by
  rw [stripComments]
  · intro rest hc hline
    exact h ⟨hc, .inl (by rw [hline]; rfl)⟩
  · intro rest hc hline
    exact h ⟨hc, .inr (by rw [hline]; rfl)⟩

end Rounds

/-! ## The buffer keeps up with the line -/

theorem byteAt_append (d s : Bytes) (n : Nat) : byteAt (d ++ s) (d.length + n) = byteAt s n := by
  rw [byteAt, byteAt, List.getD_eq_getElem?_getD, List.getD_eq_getElem?_getD,
    List.getElem?_append_right (Nat.le_add_right _ _), Nat.add_sub_cancel_left]

/-- What was written stands in front, and something is left behind it. -/
structure Stripped (s : Strip) (out : Bytes) (block : Bool) : Prop where
  inBlock : s.inBlock = block
  line : ∃ tail, tail ≠ [] ∧ s.line = out ++ tail
  write : s.write = out.length

/-- The buffer in a round: what was written, what was read since, and what is to be
    read. -/
structure At (s : Strip) (out rest post : Bytes) (quote : Option Byte) (block : Bool) : Prop where
  line : ∃ junk, s.line = out ++ (junk ++ (rest ++ 0 :: post)) ∧ s.read = (out ++ junk).length
  write : s.write = out.length
  quote : s.quote = quote
  inBlock : s.inBlock = block
  room : s.read + rest.length ≤ GENERATOR_MAX_LINE
  nul : 0 ∉ rest

section Round

variable {s : Strip} {out rest post : Bytes} {c : Byte} {quote : Option Byte} {block : Bool}

theorem At.byte (h : At s out rest post quote block) (n : Nat) :
    byteAt s.line (s.read + n) = byteAt (rest ++ 0 :: post) n := by
  obtain ⟨junk, hline, hread⟩ := h.line
  rw [hline, hread, ← List.append_assoc, byteAt_append]

theorem At.first (h : At s out (c :: rest) post quote block) : byteAt s.line s.read = c := h.byte 0

theorem At.second (h : At s out (c :: rest) post quote block) {d : Byte} (hd : d ≠ 0) :
    byteAt s.line (s.read + 1) = d ↔ rest.head? = some d := by
  rw [h.byte 1]
  cases rest with
  | nil =>
      show (0 : Byte) = d ↔ _
      simp [Ne.symm hd]
  | cons e rest =>
      show e = d ↔ some e = some d
      simp

/-- A byte that is passed over. -/
theorem At.skip (h : At s out (c :: rest) post quote block) (block' : Bool) :
    At { s with inBlock := block', read := s.read + 1 } out rest post quote block' := by
  obtain ⟨junk, hline, hread⟩ := h.line
  have hroom := h.room
  rw [List.length_cons] at hroom
  refine ⟨⟨junk ++ [c], ?_, ?_⟩, h.write, h.quote, rfl, ?_, fun hn => h.nul (List.mem_cons_of_mem _ hn)⟩
  · rw [hline]
    simp
  · show s.read + 1 = _
    rw [hread]
    simp
    omega
  · show s.read + 1 + rest.length ≤ GENERATOR_MAX_LINE
    omega

/-- A byte that is written for the bytes that were read. -/
theorem At.put (h : At s out (c :: rest) post quote block) (v : Byte) (quote' : Option Byte)
    (block' : Bool) :
    At ⟨s.line.set s.write v, s.read + 1, s.write + 1, quote', block'⟩ (out ++ [v]) rest post quote'
      block' := by
  obtain ⟨junk, hline, hread⟩ := h.line
  have hroom := h.room
  rw [List.length_cons] at hroom
  have hset := set_front (d := out) (m := junk ++ [c]) (by simp) (rest ++ 0 :: post) v
  refine ⟨⟨(junk ++ [c]).tail, ?_, ?_⟩, ?_, rfl, rfl, ?_, fun hn => h.nul (List.mem_cons_of_mem _ hn)⟩
  · show s.line.set s.write v = _
    rw [← hset, hline, h.write]
    simp
  · show s.read + 1 = _
    rw [hread]
    simp
    omega
  · show s.write + 1 = _
    rw [h.write, List.length_append, List.length_singleton]
  · show s.read + 1 + rest.length ≤ GENERATOR_MAX_LINE
    omega

/-- A byte that is copied. -/
theorem At.copy (h : At s out (c :: rest) post quote block) (quote' : Option Byte) :
    At { s with quote := quote' }.copy (out ++ [c]) rest post quote' block := by
  have hput := h.put c quote' block
  rw [← h.first, ← h.inBlock] at hput ⊢
  exact hput

/-- A round goes on while there is something to read. -/
theorem At.more (h : At s out (c :: rest) post quote block) :
    s.read < GENERATOR_MAX_LINE ∧ byteAt s.line s.read ≠ 0 := by
  have hroom := h.room
  rw [List.length_cons] at hroom
  refine ⟨by omega, ?_⟩
  rw [h.first]
  exact fun h0 => h.nul (h0 ▸ List.mem_cons_self)

theorem At.stop (h : At s out [] post quote block) :
    ¬ (s.read < GENERATOR_MAX_LINE ∧ byteAt s.line s.read ≠ 0) := by
  intro hgo
  exact hgo.2 (h.byte 0)

theorem At.stripped (h : At s out rest post quote block) : Stripped s out block := by
  obtain ⟨junk, hline, -⟩ := h.line
  exact ⟨h.inBlock, ⟨_, by simp, hline⟩, h.write⟩

end Round

/-- The loop, with so many rounds left, writes the line without its comments. -/
def Strips (guard : Nat) : Prop :=
  ∀ {s : Strip} {out rest post : Bytes} {quote : Option Byte} {block : Bool},
    At s out rest post quote block → rest.length ≤ guard → (block = true → quote = none) →
    Stripped (stripLoop guard s) (out ++ (stripComments quote block rest).1)
      (stripComments quote block rest).2

section Kinds

variable {guard : Nat} {s : Strip} {out rest post : Bytes} {c : Byte}

/-- A round in a block comment. -/
theorem strips_block (ih : Strips guard) (h : At s out (c :: rest) post none true)
    (hlen : rest.length ≤ guard) :
    Stripped (stripLoop (guard + 1) s) (out ++ (stripComments none true (c :: rest)).1)
      (stripComments none true (c :: rest)).2 := by
  obtain ⟨line, read, write, quote', block'⟩ := s
  obtain rfl : quote' = none := h.quote
  obtain rfl : block' = true := h.inBlock
  have hfirst : byteAt line read = c := h.first
  have hsecond : ∀ d : Byte, d ≠ 0 → (byteAt line (read + 1) = d ↔ rest.head? = some d) :=
    fun d hd => h.second hd
  rw [stripLoop, if_pos h.more]
  dsimp only
  rw [if_pos rfl, hfirst]
  by_cases hend : c = STAR ∧ rest.head? = some SLASH
  · rw [if_pos ⟨hend.1, (hsecond SLASH (by decide)).mpr hend.2⟩]
    obtain ⟨rfl, hslash⟩ := hend
    cases rest with
    | nil => cases hslash
    | cons d rest =>
        obtain rfl := Option.some.inj hslash
        rw [strip_close]
        rw [List.length_cons] at hlen
        exact ih ((h.skip true).skip false) (by omega) (fun hb => by cases hb)
  · rw [if_neg fun hh => hend ⟨hh.1, (hsecond SLASH (by decide)).mp hh.2⟩, strip_skip hend]
    exact ih (h.skip true) hlen (fun _ => rfl)

/-- A round in a literal. -/
theorem strips_literal (ih : Strips guard) {q : Byte} (h : At s out (c :: rest) post (some q) false)
    (hlen : rest.length ≤ guard) :
    Stripped (stripLoop (guard + 1) s) (out ++ (stripComments (some q) false (c :: rest)).1)
      (stripComments (some q) false (c :: rest)).2 := by
  obtain ⟨line, read, write, quote', block'⟩ := s
  obtain rfl : quote' = some q := h.quote
  obtain rfl : block' = false := h.inBlock
  have hfirst : byteAt line read = c := h.first
  rw [stripLoop, if_pos h.more]
  dsimp only
  rw [if_neg Bool.false_ne_true]
  rw [hfirst]
  have hcopy := h.copy (some q)
  by_cases hback : c = BACKSLASH
  · subst hback
    cases rest with
    | nil =>
        have hend := hcopy.byte 0
        rw [if_neg fun hh => hh.2 hend, strip_escape_end]
        split
        · have hgo := ih (h.copy none) hlen (fun hb => by cases hb)
          rwa [stripComments, List.append_nil] at hgo
        · have hgo := ih hcopy hlen (fun hb => by cases hb)
          rwa [stripComments, List.append_nil] at hgo
    | cons d rest =>
        rw [if_pos ⟨rfl, hcopy.more.2⟩, strip_escape]
        rw [List.length_cons] at hlen
        have hgo := ih (hcopy.copy (some q)) (by omega) (fun hb => by cases hb)
        simp only [List.append_assoc, List.cons_append, List.nil_append] at hgo
        exact hgo
  · rw [if_neg fun hh => hback hh.1, strip_quoted hback]
    by_cases hq : c = q
    · rw [if_pos hq, if_pos hq]
      have hgo := ih (h.copy none) hlen (fun hb => by cases hb)
      simp only [List.append_assoc, List.cons_append, List.nil_append] at hgo
      exact hgo
    · rw [if_neg hq, if_neg hq]
      have hgo := ih hcopy hlen (fun hb => by cases hb)
      simpa using hgo

/-- A round outside. -/
theorem strips_code (ih : Strips guard) (h : At s out (c :: rest) post none false)
    (hlen : rest.length ≤ guard) :
    Stripped (stripLoop (guard + 1) s) (out ++ (stripComments none false (c :: rest)).1)
      (stripComments none false (c :: rest)).2 := by
  obtain ⟨line, read, write, quote', block'⟩ := s
  obtain rfl : quote' = none := h.quote
  obtain rfl : block' = false := h.inBlock
  have hfirst : byteAt line read = c := h.first
  have hsecond : ∀ d : Byte, d ≠ 0 → (byteAt line (read + 1) = d ↔ rest.head? = some d) :=
    fun d hd => h.second hd
  rw [stripLoop, if_pos h.more]
  dsimp only
  rw [if_neg Bool.false_ne_true]
  rw [hfirst]
  by_cases hline : c = SLASH ∧ rest.head? = some SLASH
  · rw [if_pos ⟨hline.1, (hsecond SLASH (by decide)).mpr hline.2⟩]
    obtain ⟨rfl, hslash⟩ := hline
    cases rest with
    | nil => cases hslash
    | cons d rest =>
        obtain rfl := Option.some.inj hslash
        rw [strip_line, List.append_nil]
        exact h.stripped
  rw [if_neg fun hh => hline ⟨hh.1, (hsecond SLASH (by decide)).mp hh.2⟩]
  by_cases hopen : c = SLASH ∧ rest.head? = some STAR
  · rw [if_pos ⟨hopen.1, (hsecond STAR (by decide)).mpr hopen.2⟩]
    obtain ⟨rfl, hstar⟩ := hopen
    cases rest with
    | nil => cases hstar
    | cons d rest =>
        obtain rfl := Option.some.inj hstar
        rw [strip_open]
        rw [List.length_cons] at hlen
        have hgo := ih ((h.put SPACE none true).skip true) (by omega) (fun _ => rfl)
        simpa using hgo
  rw [if_neg fun hh => hopen ⟨hh.1, (hsecond STAR (by decide)).mp hh.2⟩,
    strip_plain fun hh => hh.2.elim (fun h2 => hline ⟨hh.1, h2⟩)
      (fun h2 => hopen ⟨hh.1, h2⟩)]
  by_cases hq : c = SQUOTE ∨ c = DQUOTE
  · rw [if_pos hq, if_pos hq]
    have hgo := ih (h.copy (some c)) hlen (fun hb => by cases hb)
    simpa using hgo
  · rw [if_neg hq, if_neg hq]
    have hgo := ih (h.copy none) hlen (fun hb => by cases hb)
    simpa using hgo

end Kinds

/-- **The loop** writes the line without its comments. -/
theorem stripLoop_spec (guard : Nat) : Strips guard := by
  induction guard with
  | zero =>
      intro s out rest post quote block h hle _
      obtain rfl := List.length_eq_zero_iff.mp (Nat.le_zero.mp hle)
      rw [stripLoop, stripComments, List.append_nil]
      exact h.stripped
  | succ guard ih =>
      intro s out rest post quote block h hle hquote
      cases rest with
      | nil =>
          rw [stripLoop, if_neg h.stop, stripComments, List.append_nil]
          exact h.stripped
      | cons c rest =>
          have hlen : rest.length ≤ guard := Nat.le_of_succ_le_succ hle
          cases block with
          | true =>
              obtain rfl := hquote rfl
              exact strips_block ih h hlen
          | false =>
              cases quote with
              | none => exact strips_code ih h hlen
              | some q => exact strips_literal ih h hlen

/-- What is written was in the line, or is a space. -/
theorem mem_stripComments {c : Byte} (quote : Option Byte) (block : Bool) (line : Bytes) :
    c ∈ (stripComments quote block line).1 → c ∈ line ∨ c = SPACE := by
  induction quote, block, line using stripComments.induct with
  | case1 quote block =>
      intro h
      rw [stripComments] at h
      cases h
  | case2 quote line ih =>
      intro h
      rw [stripComments] at h
      exact (ih h).imp_left fun hc => List.mem_cons_of_mem _ (List.mem_cons_of_mem _ hc)
  | case3 quote d line hne ih =>
      intro h
      rw [stripComments] at h
      · exact (ih h).imp_left (List.mem_cons_of_mem _)
      · exact hne
  | case4 quote => exact fun h => .inl h
  | case5 quote d line ih =>
      intro h
      rw [strip_escape, List.mem_cons, List.mem_cons] at h
      rcases h with rfl | rfl | h
      · exact .inl List.mem_cons_self
      · exact .inl (List.mem_cons_of_mem _ List.mem_cons_self)
      · exact (ih h).imp_left fun hc => List.mem_cons_of_mem _ (List.mem_cons_of_mem _ hc)
  | case6 quote d line hne ih =>
      intro h
      rw [strip_quoted hne, List.mem_cons] at h
      rcases h with rfl | h
      · exact .inl List.mem_cons_self
      · exact (ih h).imp_left (List.mem_cons_of_mem _)
  | case7 line =>
      intro h
      rw [strip_line] at h
      cases h
  | case8 line ih =>
      intro h
      rw [strip_open, List.mem_cons] at h
      rcases h with rfl | h
      · exact .inr rfl
      · exact (ih h).imp_left fun hc => List.mem_cons_of_mem _ (List.mem_cons_of_mem _ hc)
  | case9 d line hline hblock ih =>
      intro h
      rw [stripComments, List.mem_cons] at h
      · rcases h with rfl | h
        · exact .inl List.mem_cons_self
        · exact (ih h).imp_left (List.mem_cons_of_mem _)
      · exact hline
      · exact hblock

/-- **`strip_comments` in its buffer** leaves the line without its comments. -/
theorem stripCommentsInPlace_eq {line : Bytes} (hnul : 0 ∉ line)
    (hlen : line.length ≤ GENERATOR_MAX_LINE) (post : Bytes) (block : Bool) :
    cstr (stripCommentsInPlace (line ++ 0 :: post) block).1 = (stripComments none block line).1
      ∧ (stripCommentsInPlace (line ++ 0 :: post) block).2 = (stripComments none block line).2 := by
  have hat : At ⟨line ++ 0 :: post, 0, 0, none, block⟩ [] line post none block :=
    ⟨⟨[], rfl, rfl⟩, rfl, rfl, rfl, by rwa [Nat.zero_add], hnul⟩
  obtain ⟨hblock, ⟨tail, htail, hline⟩, hwrite⟩ := stripLoop_spec GENERATOR_MAX_LINE hat hlen
    (fun _ => rfl)
  refine ⟨?_, hblock⟩
  have hfree : 0 ∉ (stripComments none block line).1 := by
    intro h
    rcases mem_stripComments none block line h with h | h
    · exact hnul h
    · cases h
  rw [stripCommentsInPlace, hline, hwrite, List.nil_append]
  have hset := set_front (d := (stripComments none block line).1) htail [] 0
  rw [List.append_nil, List.append_nil, List.append_assoc] at hset
  rw [hset]
  exact cstr_append_nul hfree _

/-! ## The lines of a text -/

/-- The lines of a text one after the other, each in a buffer that ends in `post`. -/
def stripLines (post : Bytes) : Bool → List Bytes → List Bytes × Bool
  | block, [] => ([], block)
  | block, line :: lines =>
      let r := stripCommentsInPlace (line ++ 0 :: post) block
      let rs := stripLines post r.2 lines
      (cstr r.1 :: rs.1, rs.2)

/-- The same on the lines themselves. -/
def cutLines : Bool → List Bytes → List Bytes × Bool
  | block, [] => ([], block)
  | block, line :: lines =>
      let r := stripComments none block line
      let rs := cutLines r.2 lines
      (r.1 :: rs.1, rs.2)

theorem stripLines_eq (post : Bytes) : ∀ {lines : List Bytes} {block : Bool},
    (∀ line ∈ lines, 0 ∉ line ∧ line.length ≤ GENERATOR_MAX_LINE) →
    stripLines post block lines = cutLines block lines := by
  intro lines
  induction lines with
  | nil => exact fun _ => rfl
  | cons line lines ih =>
      intro block h
      obtain ⟨⟨hnul, hlen⟩, hrest⟩ := List.forall_mem_cons.mp h
      obtain ⟨htext, hblock⟩ := stripCommentsInPlace_eq hnul hlen post block
      rw [stripLines, cutLines, htext, hblock, ih hrest]

/-- A first line that is cut as another one is, but for what stands in front. -/
theorem cutLines_head {block block' : Bool} {l l' out : Bytes} {lines : List Bytes}
    (h : stripComments none block l = (out ++ (stripComments none block' l').1,
      (stripComments none block' l').2)) :
    cutLines block (l :: lines)
      = ((cutLines block' (l' :: lines)).1.modifyHead (out ++ ·), (cutLines block' (l' :: lines)).2) := by
  rw [cutLines, cutLines, h]
  rfl

/-- The pieces of a text at its line feeds. -/
def linesOf (s : Bytes) : List Bytes := s.splitOn LF

theorem linesOf_lf (s : Bytes) : linesOf (LF :: s) = [] :: linesOf s := by
  rw [linesOf, linesOf, List.splitOn_cons_eq_if_modifyHead, if_pos (by simp)]

theorem linesOf_cons {c : Byte} (hc : c ≠ LF) (s : Bytes) :
    linesOf (c :: s) = (linesOf s).modifyHead (c :: ·) := by
  rw [linesOf, linesOf, List.splitOn_cons_eq_if_modifyHead, if_neg (by simpa using hc)]

/-- A text of one line in front of another. -/
theorem linesOf_append {x : Bytes} (hx : LF ∉ x) (s : Bytes) :
    linesOf (x ++ s) = (linesOf s).modifyHead (x ++ ·) := by
  induction x with
  | nil =>
      show linesOf s = (linesOf s).modifyHead id
      rw [List.modifyHead_id]
      rfl
  | cons c x ih =>
      obtain ⟨hc, hx⟩ := not_or.mp (mt List.mem_cons.mpr hx)
      rw [List.cons_append, linesOf_cons (Ne.symm hc), ih hx, List.modifyHead_modifyHead]
      rfl

/-- The first line of a text, and what it starts with. -/
theorem linesOf_first (s : Bytes) : ∃ l ls, linesOf s = l :: ls
    ∧ (∀ d, d ≠ LF → (l.head? = some d ↔ s.head? = some d)) ∧ (LineEnd s → l = []) := by
  cases s with
  | nil => exact ⟨[], [], rfl, fun _ _ => Iff.rfl, fun _ => rfl⟩
  | cons c s =>
      by_cases hc : c = LF
      · rw [hc, linesOf_lf]
        refine ⟨[], _, rfl, fun d hd => ?_, fun _ => rfl⟩
        simp [Ne.symm hd]
      · obtain ⟨l, ls, hls⟩ := List.exists_cons_of_ne_nil (List.splitOn_ne_nil LF s)
        rw [linesOf_cons hc, linesOf, hls]
        refine ⟨c :: l, ls, rfl, fun d _ => by simp, ?_⟩
        rintro (hend | hend)
        · cases hend
        · exact absurd (Option.some.inj hend) hc

/-! ## Piece by piece -/

/-- Inside a literal. -/
theorem strip_body {q : Byte} {body : Bytes} (hbody : Body q body) (line : Bytes) :
    stripComments (some q) false (body ++ line)
      = (body ++ (stripComments (some q) false line).1, (stripComments (some q) false line).2) := by
  induction hbody with
  | nil => rfl
  | char hq hb _ _ ih => rw [List.cons_append, strip_quoted hb, if_neg hq, ih, List.cons_append]
  | escape _ _ ih => rw [List.cons_append, List.cons_append, strip_escape, ih]; rfl

theorem body_lf {q : Byte} {body : Bytes} (hbody : Body q body) : LF ∉ body := by
  induction hbody with
  | nil => exact List.not_mem_nil
  | char _ _ hl _ ih => exact List.not_mem_cons_of_ne_of_not_mem (Ne.symm hl) ih
  | escape hl _ ih =>
      refine List.not_mem_cons_of_ne_of_not_mem (by decide) ?_
      exact List.not_mem_cons_of_ne_of_not_mem (Ne.symm hl) ih

/-- A literal is left as it is. -/
theorem strip_literal {q : Byte} {body : Bytes} (hq : IsQuote q) (hbody : Body q body) (line : Bytes) :
    stripComments none false (q :: (body ++ q :: line))
      = (q :: (body ++ [q]) ++ (stripComments none false line).1, (stripComments none false line).2) := by
  have hplain : ¬ Opens q (body ++ q :: line) := by
    rintro ⟨rfl, -⟩
    rcases hq with h | h <;> cases h
  have hkind : q = SQUOTE ∨ q = DQUOTE := hq.symm
  have hback : q ≠ BACKSLASH := by
    rintro rfl
    rcases hq with h | h <;> cases h
  rw [strip_plain hplain, if_pos hkind, strip_body hbody, strip_quoted hback, if_pos rfl]
  simp

/-- The lines of a block comment, up to `rest`, leave their line feeds. -/
theorem cutLines_block {rest out : Bytes} {block : Bool} : ∀ {body : Bytes},
    NoEnd (body ++ [STAR]) →
    cutLines false (linesOf rest) = (linesOf out, block) →
    cutLines true (linesOf (body ++ STAR :: SLASH :: rest))
      = (linesOf (body.filter (· == LF) ++ out), block) := by
  intro body hbody h
  induction body with
  | nil =>
      obtain ⟨l, ls, hls, -, -⟩ := linesOf_first rest
      rw [hls] at h
      rw [List.nil_append, linesOf_cons (by decide), linesOf_cons (by decide), hls]
      show cutLines true ((STAR :: SLASH :: l) :: ls) = _
      rw [cutLines, strip_close, List.filter_nil, List.nil_append, ← h, cutLines]
  | cons c body ih =>
      obtain ⟨hfirst, hbody⟩ := noEnd_cons.mp hbody
      have hih := ih hbody
      by_cases hc : c = LF
      · rw [hc, List.cons_append, linesOf_lf, cutLines, stripComments, hih,
          List.filter_cons_of_pos (by simp), List.cons_append, linesOf_lf]
      · obtain ⟨l, ls, hls, hhead, -⟩ := linesOf_first (body ++ STAR :: SLASH :: rest)
        have hskip : ¬ (c = STAR ∧ l.head? = some SLASH) := by
          rintro ⟨rfl, hl⟩
          refine hfirst ⟨rfl, ?_⟩
          have hs := (hhead SLASH (by decide)).mp hl
          cases body with
          | nil => cases hs
          | cons d body => exact hs
        rw [hls] at hih
        rw [List.cons_append, linesOf_cons hc, hls, List.filter_cons_of_neg (by simpa using hc), ← hih]
        show cutLines true ((c :: l) :: ls) = _
        rw [cutLines, strip_skip hskip, cutLines]

/-- And those of one that the text does not end. -/
theorem cutLines_open : ∀ {body : Bytes}, NoEnd body →
    cutLines true (linesOf body) = (linesOf (body.filter (· == LF)), true) := by
  intro body hbody
  induction body with
  | nil => rfl
  | cons c body ih =>
      obtain ⟨hfirst, hbody⟩ := noEnd_cons.mp hbody
      have hih := ih hbody
      by_cases hc : c = LF
      · rw [hc, linesOf_lf, cutLines, stripComments, hih, List.filter_cons_of_pos (by simp), linesOf_lf]
      · obtain ⟨l, ls, hls, hhead, -⟩ := linesOf_first body
        have hskip : ¬ (c = STAR ∧ l.head? = some SLASH) := fun h =>
          hfirst ⟨h.1, (hhead SLASH (by decide)).mp h.2⟩
        rw [hls] at hih
        rw [linesOf_cons hc, hls, List.filter_cons_of_neg (by simpa using hc), ← hih]
        show cutLines true ((c :: l) :: ls) = _
        rw [cutLines, strip_skip hskip, cutLines]

/-- A block comment is opened with a space. -/
theorem cutLines_slash_star {s out : Bytes} {block : Bool}
    (h : cutLines true (linesOf s) = (linesOf out, block)) :
    cutLines false (linesOf (SLASH :: STAR :: s)) = (linesOf (SPACE :: out), block) := by
  obtain ⟨l, ls, hls, -, -⟩ := linesOf_first s
  rw [hls] at h
  rw [linesOf_cons (by decide), linesOf_cons (by decide), hls, linesOf_cons (by decide)]
  show cutLines false ((SLASH :: STAR :: l) :: ls) = _
  rw [@cutLines_head false true _ l [SPACE] ls strip_open, h]
  rfl

/-- **Without comments**, line by line and as a whole. -/
theorem cutLines_eq : ∀ {ps : List Piece}, Lexing ps → (∀ p ∈ ps, p.isUnclosed = false) →
    cutLines false (linesOf (source ps)) = (linesOf (stripped ps), endsOpen ps) := by
  intro ps
  induction ps with
  | nil => exact fun _ _ => rfl
  | cons p ps ih =>
      rintro ⟨hbefore, hps⟩ hclosed
      obtain ⟨hp, hrest⟩ := List.forall_mem_cons.mp hclosed
      have hih := ih hps hrest
      obtain ⟨l, ls, hls, hhead, hend⟩ := linesOf_first (source ps)
      have hsource : source (p :: ps) = p.text ++ source ps := rfl
      have hstripped : stripped (p :: ps) = p.stripped ++ stripped ps := rfl
      have hopen : endsOpen (p :: ps) = (p.isOpen || endsOpen ps) := rfl
      rw [hsource, hstripped, hopen]
      cases p with
      | char c =>
          obtain ⟨hq, hplain⟩ := hbefore
          rw [Piece.text, Piece.stripped, Piece.isOpen, Bool.false_or, List.singleton_append]
          · by_cases hc : c = LF
            · rw [hc, linesOf_lf, cutLines, stripComments, hih, Piece.text, List.singleton_append, linesOf_lf]
            · -- what opens a comment is no piece of one byte
              have hline : ¬ Opens c l := by
                rintro ⟨rfl, h | h⟩
                · exact hplain ⟨rfl, .inl ((hhead _ (by decide)).mp h)⟩
                · exact hplain ⟨rfl, .inr ((hhead _ (by decide)).mp h)⟩
              have hstrip : stripComments none false (c :: l)
                  = ([c] ++ (stripComments none false l).1, (stripComments none false l).2) := by
                rw [strip_plain hline, if_neg fun h => hq h.symm, List.singleton_append]
              rw [hls] at hih
              rw [linesOf_cons hc, hls]
              show cutLines false ((c :: l) :: ls) = _
              rw [cutLines_head hstrip, hih, Piece.text, List.singleton_append, linesOf_cons hc]
              rfl
          all_goals simp
      | literal q body =>
          obtain ⟨hq, hbody⟩ := hbefore
          -- a literal is closed on its line
          have hlf : LF ∉ q :: (body ++ [q]) := by
            have hne : q ≠ LF := by
              rintro rfl
              rcases hq with h | h <;> cases h
            rw [List.mem_cons, List.mem_append, List.mem_singleton]
            rintro (h | h | h)
            · exact hne h.symm
            · exact body_lf hbody h
            · exact hne h.symm
          have hstrip : stripComments none false (q :: (body ++ [q]) ++ l)
              = (q :: (body ++ [q]) ++ (stripComments none false l).1, (stripComments none false l).2) := by
            have h := strip_literal hq hbody l
            simpa using h
          show cutLines false (linesOf (q :: (body ++ [q]) ++ source ps))
            = (linesOf (q :: (body ++ [q]) ++ stripped ps), false || endsOpen ps)
          rw [hls] at hih
          rw [linesOf_append hlf, linesOf_append hlf, hls]
          show cutLines false ((q :: (body ++ [q]) ++ l) :: ls) = _
          rw [cutLines_head hstrip, hih, Bool.false_or]
      | unclosed q body => cases hp
      | lineComment body =>
          obtain ⟨hlf, hrest⟩ := hbefore
          -- the comment takes all of its line
          obtain rfl := hend hrest
          have hlf2 : LF ∉ SLASH :: SLASH :: body :=
            List.not_mem_cons_of_ne_of_not_mem (by decide)
              (List.not_mem_cons_of_ne_of_not_mem (by decide) hlf)
          show cutLines false (linesOf (SLASH :: SLASH :: body ++ source ps))
            = (linesOf ([] ++ stripped ps), false || endsOpen ps)
          rw [hls] at hih
          rw [linesOf_append hlf2, hls, List.nil_append, Bool.false_or, ← hih]
          show cutLines false ((SLASH :: SLASH :: (body ++ [])) :: ls) = _
          rw [cutLines, strip_line, cutLines, stripComments]
      | blockComment body =>
          show cutLines false (linesOf (SLASH :: STAR :: (body ++ [STAR, SLASH]) ++ source ps))
            = (linesOf (SPACE :: body.filter (· == LF) ++ stripped ps), false || endsOpen ps)
          have hcut := cutLines_slash_star (cutLines_block hbefore hih)
          simp only [List.cons_append, List.append_assoc, List.nil_append, Bool.false_or] at hcut ⊢
          exact hcut
      | openComment body =>
          obtain ⟨hbody, hrest⟩ := hbefore
          show cutLines false (linesOf (SLASH :: STAR :: body ++ source ps))
            = (linesOf (SPACE :: body.filter (· == LF) ++ stripped ps), true)
          obtain rfl := source_eq_nil.mp hrest
          have hcut := cutLines_slash_star (cutLines_open hbody)
          show cutLines false (linesOf (SLASH :: STAR :: body ++ []))
            = (linesOf (SPACE :: body.filter (· == LF) ++ []), true)
          rw [List.append_nil, List.append_nil, hcut]

/-! ## The line feed behind a line -/

/-- A line feed behind the line stays, or falls with a comment. -/
theorem strip_lf (quote : Option Byte) (block : Bool) (line : Bytes) :
    ∃ tail, (tail = [] ∨ tail = [LF]) ∧ stripComments quote block (line ++ [LF])
      = ((stripComments quote block line).1 ++ tail, (stripComments quote block line).2) := by
  induction quote, block, line using stripComments.induct with
  | case1 quote block =>
      cases block with
      | true => exact ⟨[], .inl rfl, rfl⟩
      | false =>
          refine ⟨[LF], .inr rfl, ?_⟩
          cases quote with
          | none => rfl
          | some q =>
              rw [List.nil_append, strip_quoted (by decide)]
              rw [stripComments, stripComments]
              rfl
  | case2 quote line ih =>
      obtain ⟨tail, htail, ih⟩ := ih
      refine ⟨tail, htail, ?_⟩
      rw [List.cons_append, List.cons_append, strip_close, strip_close, ih]
  | case3 quote c line hne ih =>
      obtain ⟨tail, htail, ih⟩ := ih
      -- the line feed makes no end of a comment out of the last byte
      have hskip : ¬ (c = STAR ∧ line.head? = some SLASH) := by
        rintro ⟨hc, hline⟩
        cases line with
        | nil => cases hline
        | cons d line => exact hne line hc (by rw [Option.some.inj hline])
      have hskip' : ¬ (c = STAR ∧ (line ++ [LF]).head? = some SLASH) := by
        rintro ⟨hc, hline⟩
        cases line with
        | nil => cases hline
        | cons d line => exact hskip ⟨hc, hline⟩
      refine ⟨tail, htail, ?_⟩
      rw [List.cons_append, strip_skip hskip', strip_skip hskip, ih]
  | case4 q =>
      exact ⟨[LF], .inr rfl, by rw [strip_escape_end, List.singleton_append, strip_escape]; rfl⟩
  | case5 q d line ih =>
      obtain ⟨tail, htail, ih⟩ := ih
      refine ⟨tail, htail, ?_⟩
      rw [List.cons_append, List.cons_append, strip_escape, strip_escape, ih]
      rfl
  | case6 q c line hne ih =>
      obtain ⟨tail, htail, ih⟩ := ih
      refine ⟨tail, htail, ?_⟩
      rw [List.cons_append, strip_quoted hne, strip_quoted hne, ih]
      rfl
  | case7 line => exact ⟨[], .inl rfl, by rw [List.cons_append, List.cons_append, strip_line, strip_line]; rfl⟩
  | case8 line ih =>
      obtain ⟨tail, htail, ih⟩ := ih
      refine ⟨tail, htail, ?_⟩
      rw [List.cons_append, List.cons_append, strip_open, strip_open, ih]
      rfl
  | case9 c line hline hblock ih =>
      obtain ⟨tail, htail, ih⟩ := ih
      have hopens : ¬ Opens c line := by
        rintro ⟨hc, h⟩
        cases line with
        | nil => rcases h with h | h <;> cases h
        | cons d line =>
            rcases h with h | h
            · exact hline line hc (by rw [Option.some.inj h])
            · exact hblock line hc (by rw [Option.some.inj h])
      have hopens' : ¬ Opens c (line ++ [LF]) := by
        rintro ⟨hc, h⟩
        cases line with
        | nil => rcases h with h | h <;> cases h
        | cons d line => exact hopens ⟨hc, h⟩
      refine ⟨tail, htail, ?_⟩
      rw [List.cons_append, strip_plain hopens', strip_plain hopens, ih]
      rfl

/-! ## The lines that are compiled -/

/-- The lines that the loop of `emit_service_input` hands on: `fgets` leaves the line
    feed, and one is put where there is none. -/
def inputLoop (post : Bytes) : Nat → ConfigLoad.Stream → Bool → List Bytes × Bool
  | 0, _, block => ([], block)
  | left + 1, source, block =>
      match fgets (GENERATOR_MAX_LINE + 2) source with
      | (none, _) => ([], block)
      | (some line, source) =>
          let r := stripCommentsInPlace (line ++ 0 :: post) block
          let line := cstr r.1
          let line := if line.getLast? = some LF then line else line ++ [LF]
          let rs := inputLoop post left source r.2
          (line :: rs.1, rs.2)

/-- A line of the file becomes the line without its comments, and a line feed. -/
theorem input_line {line : Bytes} (hlf : LF ∉ line) (hnul : 0 ∉ line)
    (hlen : line.length < GENERATOR_MAX_LINE) {tail : Bytes} (htail : tail = [] ∨ tail = [LF])
    (post : Bytes) (block : Bool) :
    (stripCommentsInPlace (line ++ tail ++ 0 :: post) block).2 = (stripComments none block line).2
      ∧ (let out := cstr (stripCommentsInPlace (line ++ tail ++ 0 :: post) block).1
         if out.getLast? = some LF then out else out ++ [LF]) = (stripComments none block line).1 ++ [LF] := by
  have hnul' : 0 ∉ line ++ tail := by
    rcases htail with rfl | rfl
    · simpa using hnul
    · rw [List.mem_append, List.mem_singleton]
      rintro (h | h)
      · exact hnul h
      · cases h
  have hlen' : (line ++ tail).length ≤ GENERATOR_MAX_LINE := by
    rcases htail with rfl | rfl <;> simp <;> omega
  obtain ⟨htext, hblock⟩ := stripCommentsInPlace_eq hnul' hlen' post block
  have hout : LF ∉ (stripComments none block line).1 := by
    intro h
    rcases mem_stripComments none block line h with h | h
    · exact hlf h
    · cases h
  have hfree : ¬ (stripComments none block line).1.getLast? = some LF :=
    fun h => hout (List.mem_of_getLast? h)
  have hstrip : ∃ t, (t = [] ∨ t = [LF]) ∧ stripComments none block (line ++ tail)
      = ((stripComments none block line).1 ++ t, (stripComments none block line).2) := by
    rcases htail with rfl | rfl
    · exact ⟨[], .inl rfl, by simp⟩
    · exact strip_lf none block line
  obtain ⟨t, ht, hstrip⟩ := hstrip
  rw [htext, hblock, hstrip]
  refine ⟨rfl, ?_⟩
  rcases ht with rfl | rfl
  · dsimp only
    rw [List.append_nil, if_neg hfree]
  · dsimp only
    rw [if_pos (by simp)]

theorem sourceLines_eq (s : Bytes) :
    sourceLines s = if (linesOf s).getLast? = some [] then (linesOf s).dropLast else linesOf s := rfl

/-- The line behind the last line feed is not read if it is empty. -/
theorem linesOf_sourceLines (s : Bytes) :
    linesOf s = sourceLines s ∨ linesOf s = sourceLines s ++ [[]] := by
  rw [sourceLines_eq]
  by_cases hlast : (linesOf s).getLast? = some []
  · rw [if_pos hlast]
    exact .inr (List.dropLast_append_getLast? [] hlast).symm
  · rw [if_neg hlast]
    exact .inl rfl

theorem linesOf_line {l : Bytes} (hl : LF ∉ l) (rest : Bytes) :
    linesOf (l ++ LF :: rest) = l :: linesOf rest :=
  List.splitOn_append_cons_self_of_not_mem hl rest

theorem linesOf_last {l : Bytes} (hl : LF ∉ l) : linesOf l = [l] := List.splitOn_eq_singleton hl

theorem sourceLines_line {l : Bytes} (hl : LF ∉ l) (rest : Bytes) :
    sourceLines (l ++ LF :: rest) = l :: sourceLines rest := by
  have hne : linesOf rest ≠ [] := List.splitOn_ne_nil LF rest
  rw [sourceLines_eq, sourceLines_eq, linesOf_line hl, List.getLast?_cons_of_ne_nil hne]
  split
  · rw [List.dropLast_cons_of_ne_nil hne]
  · rfl

theorem sourceLines_last {l : Bytes} (hl : LF ∉ l) (hne : l ≠ []) : sourceLines l = [l] := by
  rw [sourceLines_eq, linesOf_last hl, if_neg (by simpa using hne)]

/-- **The lines that are compiled** are the lines without comments. -/
theorem inputLoop_eq (post : Bytes) : ∀ {left : Nat} {s : Bytes} {eof block : Bool}, s.length < left →
    0 ∉ s → (∀ line ∈ linesOf s, line.length < GENERATOR_MAX_LINE) →
    inputLoop post left ⟨s, eof⟩ block
      = ((cutLines block (sourceLines s)).1.map (· ++ [LF]), (cutLines block (sourceLines s)).2) := by
  intro left
  induction left with
  | zero => exact fun h => absurd h (Nat.not_lt_zero _)
  | succ left ih =>
      intro s eof block hleft hnul hlen
      by_cases hlf : LF ∈ s
      · obtain ⟨l, rest, rfl, hl⟩ := List.eq_append_cons_of_mem hlf
        rw [linesOf_line hl] at hlen
        obtain ⟨hshort, hlen⟩ := List.forall_mem_cons.mp hlen
        have hfree : 0 ∉ l := fun h => hnul (List.mem_append_left _ h)
        have hrest : 0 ∉ rest := fun h => hnul (List.mem_append_right _ (List.mem_cons_of_mem _ h))
        have hleft' : rest.length < left := by
          rw [List.length_append, List.length_cons] at hleft
          omega
        obtain ⟨hblock, htext⟩ := input_line hl hfree hshort (.inr rfl) post block
        rw [inputLoop, fgets_line hl (by omega), sourceLines_line hl]
        dsimp only at htext ⊢
        rw [htext, hblock, ih hleft' hrest hlen, cutLines, List.map_cons]
      · rw [linesOf_last hlf] at hlen
        have hshort := hlen s List.mem_cons_self
        by_cases hs : s = []
        · subst hs
          rw [inputLoop, fgets_end (by decide)]
          rfl
        · obtain ⟨hblock, htext⟩ := input_line hlf hnul hshort (.inl rfl) post block
          have hend : ∀ b, inputLoop post left ⟨[], true⟩ b = ([], b) := by
            intro b
            cases left with
            | zero => rfl
            | succ left =>
                rw [inputLoop, fgets_end (by decide)]
          rw [List.append_nil] at hblock htext
          rw [inputLoop, fgets_last hlf (by omega) hs, sourceLines_last hlf hs]
          dsimp only at htext ⊢
          rw [htext, hblock, hend]
          rfl

theorem cutLines_append_nil (block : Bool) (lines : List Bytes) :
    cutLines block (lines ++ [[]]) = ((cutLines block lines).1 ++ [[]], (cutLines block lines).2) := by
  induction lines generalizing block with
  | nil => rfl
  | cons line lines ih => rw [List.cons_append, cutLines, ih, cutLines, List.cons_append]

theorem cutLines_length (block : Bool) (lines : List Bytes) :
    (cutLines block lines).1.length = lines.length := by
  induction lines generalizing block with
  | nil => rfl
  | cons line lines ih => rw [cutLines, List.length_cons, ih, List.length_cons]

/-- The lines that are read, without comments. -/
theorem cutLines_sourceLines (block : Bool) (s : Bytes) :
    cutLines block (sourceLines s)
      = ((cutLines block (linesOf s)).1.take (sourceLines s).length, (cutLines block (linesOf s)).2) := by
  have hlen := cutLines_length block (sourceLines s)
  rcases linesOf_sourceLines s with h | h
  · rw [h, ← hlen, List.take_length]
  · rw [h, cutLines_append_nil, ← hlen, List.take_left]

/-- **Comments are stripped as in C**: every text is cut into pieces, and where all its
    literals are closed and its lines fit, its lines come out as those of the
    pieces without comments, with the flag up where a comment stays open; and so
    they are handed to the compiler. -/
theorem strip_comments_exact (s : Bytes) (hnul : 0 ∉ s)
    (hlen : ∀ line ∈ linesOf s, line.length < GENERATOR_MAX_LINE) (post : Bytes) :
    (∃ ps, Lexing ps ∧ source ps = s) ∧
    ∀ ps, Lexing ps → source ps = s → (∀ p ∈ ps, p.isUnclosed = false) →
      stripLines post false (linesOf s) = (linesOf (stripped ps), endsOpen ps)
      ∧ (linesOf (stripped ps)).length = (linesOf s).length
      ∧ ∀ left, s.length < left → inputLoop post left ⟨s, false⟩ false
          = (((linesOf (stripped ps)).take (sourceLines s).length).map (· ++ [LF]), endsOpen ps) := by
  refine ⟨lexing_exists s, ?_⟩
  rintro ps hps rfl hclosed
  have hcut := cutLines_eq hps hclosed
  have hlines : ∀ line ∈ linesOf (source ps), 0 ∉ line ∧ line.length ≤ GENERATOR_MAX_LINE :=
    fun line hline => ⟨fun h => hnul ((mem_splitOn LF hline).1 h), (hlen line hline).le⟩
  refine ⟨?_, ?_, ?_⟩
  · rw [stripLines_eq post hlines, hcut]
  · have hcount := cutLines_length false (linesOf (source ps))
    rw [hcut] at hcount
    exact hcount
  · intro left hleft
    rw [inputLoop_eq post hleft hnul hlen, cutLines_sourceLines, hcut]

/-- A comment over a line feed, a quote in a literal and a `//` comment. -/
theorem strip_comments_exact_small :
    stripLines [] false [lit "a/*", lit "\"*/'\"'//b"] = ([lit "a ", lit "'\"'"], false) := by
  have h := (strip_comments_exact (lit "a/*\n\"*/'\"'//b") (by decide) (by decide) []).2
    [.char 0x61, .blockComment [LF, DQUOTE], .literal SQUOTE [DQUOTE], .lineComment [0x62]] ?_ rfl ?_
  · exact h.1
  · refine ⟨⟨by decide, ?_⟩, ?_, ⟨.inr rfl, .char (by decide) (by decide) (by decide) .nil⟩,
      ⟨by decide, .inl rfl⟩, trivial⟩
    · rintro ⟨h, -⟩
      cases h
    · show ¬ [STAR, SLASH] <:+: [LF, DQUOTE, STAR]
      decide
  · simp [Piece.isUnclosed]

end StripComments
