import Mathlib.Data.List.Infix

/-! # Escaping by entities

    A table gives some characters a name.  A character of the table is written as the
    ampersand and its name, every other one as itself.  The names are no
    prefixes of each other and the ampersand has one, so an escaped text can be read back
    (`unescape_escape`), and a text in which no character of the table
    stands for itself is the escaped text of one text only (`Safe.escape_unescape`). -/

namespace Entities

/-- The characters with a name, and the ampersand. -/
structure Table (α : Type) where
  amp : α
  entries : List (α × List α)
  amp_mem : ∃ e ∈ entries, e.1 = amp
  ampFree : ∀ e ∈ entries, amp ∉ e.2
  prefixFree : ∀ e ∈ entries, ∀ f ∈ entries, e.2 <+: f.2 → e = f
  distinct : ∀ e ∈ entries, ∀ f ∈ entries, e.1 = f.1 → e = f
  plain : ∀ e ∈ entries, ∀ f ∈ entries, f.1 ∉ e.2

variable {α : Type}

/-! ## Safe texts -/

section Safe

variable (t : Table α)

/-- No character of the table but the ampersand, and that one in front of a name. -/
structure Safe (s : List α) : Prop where
  free : ∀ c ∈ s, (∃ e ∈ t.entries, e.1 = c) → c = t.amp
  named : ∀ front rest, s = front ++ t.amp :: rest → ∃ e ∈ t.entries, e.2 <+: rest

variable {t} {c : α} {s : List α}

theorem Safe.tail (h : Safe t (c :: s)) : Safe t s := by
  constructor
  · exact fun d hd => h.free d (List.mem_cons_of_mem c hd)
  · rintro front rest rfl
    exact h.named (c :: front) rest rfl

theorem Safe.suffix {front : List α} (h : Safe t (front ++ s)) : Safe t s := by
  induction front with
  | nil => exact h
  | cons c front ih => exact ih h.tail

/-- An ampersand that stands in a name and a text stands in the text. -/
theorem append_amp {name front rest : List α} (hname : t.amp ∉ name)
    (h : name ++ s = front ++ t.amp :: rest) : ∃ front', s = front' ++ t.amp :: rest := by
  rcases List.append_eq_append_iff.mp h with ⟨as, rfl, hs⟩ | ⟨bs, rfl, hbs⟩
  · exact ⟨as, hs⟩
  · cases bs with
    | nil => exact ⟨[], by simpa using hbs.symm⟩
    | cons b bs =>
        rw [List.cons_append, List.cons.injEq] at hbs
        refine absurd (List.mem_append_right _ ?_) hname
        rw [hbs.1]
        exact List.mem_cons_self

end Safe

section Escape

variable [DecidableEq α] (t : Table α)

/-- How a character is written. -/
def escapeChar (c : α) : List α :=
  match t.entries.find? (·.1 = c) with
  | some e => t.amp :: e.2
  | none => [c]

/-- How a text is written. -/
def escape (s : List α) : List α := s.flatMap (escapeChar t)

/-- Reading a text back, the next `skip` characters being read already. -/
def unescapeFrom : Nat → List α → List α
  | _, [] => []
  | skip + 1, _ :: s => unescapeFrom skip s
  | 0, c :: s =>
      if c = t.amp then
        match t.entries.find? (·.2 <+: s) with
        | some e => e.1 :: unescapeFrom e.2.length s
        | none => c :: unescapeFrom 0 s
      else c :: unescapeFrom 0 s

/-- Reading a text back. -/
def unescape (s : List α) : List α := unescapeFrom t 0 s

variable {t} {c : α} {s : List α}

theorem escapeChar_entry {e : α × List α} (he : e ∈ t.entries) : escapeChar t e.1 = t.amp :: e.2 := by
  rw [escapeChar]
  cases hfind : t.entries.find? (·.1 = e.1) with
  | none =>
      have hnone := List.find?_eq_none.mp hfind e he
      simp at hnone
  | some f =>
      have hf := List.find?_some hfind
      rw [t.distinct f (List.mem_of_find?_eq_some hfind) e he (by simpa using hf)]

theorem escapeChar_plain (h : ∀ e ∈ t.entries, e.1 ≠ c) : escapeChar t c = [c] := by
  rw [escapeChar, List.find?_eq_none.mpr (by simpa using h)]

/-- A character has a name or is written as itself. -/
theorem escapeChar_cases (t : Table α) (c : α) :
    (∃ e ∈ t.entries, e.1 = c ∧ escapeChar t c = t.amp :: e.2)
      ∨ (c ≠ t.amp ∧ (∀ e ∈ t.entries, e.1 ≠ c) ∧ escapeChar t c = [c]) := by
  by_cases h : ∃ e ∈ t.entries, e.1 = c
  · obtain ⟨e, he, rfl⟩ := h
    exact .inl ⟨e, he, rfl, escapeChar_entry he⟩
  · have hnot : ∀ e ∈ t.entries, e.1 ≠ c := fun e he heq => h ⟨e, he, heq⟩
    refine .inr ⟨?_, hnot, escapeChar_plain hnot⟩
    rintro rfl
    obtain ⟨e, he, heq⟩ := t.amp_mem
    exact hnot e he heq

theorem escape_cons (c : α) (s : List α) : escape t (c :: s) = escapeChar t c ++ escape t s := rfl

theorem escape_append (s u : List α) : escape t (s ++ u) = escape t s ++ escape t u :=
  List.flatMap_append

theorem escape_length (t : Table α) (s : List α) : s.length ≤ (escape t s).length := by
  induction s with
  | nil => exact Nat.le_refl _
  | cons c s ih =>
      have hpos : 0 < (escapeChar t c).length := by
        rcases escapeChar_cases t c with ⟨e, -, -, h⟩ | ⟨-, -, h⟩
        · rw [h, List.length_cons]
          exact Nat.succ_pos _
        · rw [h]
          exact Nat.one_pos
      rw [escape_cons, List.length_append, List.length_cons]
      omega

theorem escape_eq_nil : escape t s = [] ↔ s = [] := by
  constructor
  · intro h
    have hlen := escape_length t s
    rw [h] at hlen
    exact List.length_eq_zero_iff.mp (Nat.le_zero.mp hlen)
  · rintro rfl
    rfl

/-- A text without characters of the table is written as it is. -/
theorem escape_plain (h : ∀ c ∈ s, ∀ e ∈ t.entries, e.1 ≠ c) : escape t s = s := by
  induction s with
  | nil => rfl
  | cons c s ih =>
      obtain ⟨hc, hs⟩ := List.forall_mem_cons.mp h
      rw [escape_cons, escapeChar_plain hc, ih hs, List.singleton_append]

/-- What is written is of the text or of a name. -/
theorem mem_escape (h : c ∈ escape t s) :
    c ∈ s ∨ c = t.amp ∨ ∃ e ∈ t.entries, c ∈ e.2 := by
  obtain ⟨d, hd, hc⟩ := List.mem_flatMap.mp h
  rcases escapeChar_cases t d with ⟨e, he, -, heq⟩ | ⟨-, -, heq⟩
  · rw [heq, List.mem_cons] at hc
    exact .inr (hc.imp_right fun hc => ⟨e, he, hc⟩)
  · rw [heq, List.mem_singleton] at hc
    exact .inl (hc ▸ hd)

/-! ## Reading back -/

theorem unescapeFrom_drop (skip : Nat) (s : List α) :
    unescapeFrom t skip s = unescape t (s.drop skip) := by
  induction skip generalizing s with
  | zero => rfl
  | succ skip ih =>
      cases s with
      | nil => rfl
      | cons c s => rw [unescapeFrom, ih, List.drop_succ_cons]

/-- A name is read as its character. -/
theorem unescape_entity {e : α × List α} (he : e ∈ t.entries) (s : List α) :
    unescape t (t.amp :: (e.2 ++ s)) = e.1 :: unescape t s := by
  have hfind : t.entries.find? (·.2 <+: e.2 ++ s) = some e := by
    cases hfind : t.entries.find? (·.2 <+: e.2 ++ s) with
    | none =>
        have hnone := List.find?_eq_none.mp hfind e he
        simp at hnone
    | some f =>
        have hf : f.2 <+: e.2 ++ s := by simpa using List.find?_some hfind
        have hmem := List.mem_of_find?_eq_some hfind
        rcases List.prefix_or_prefix_of_prefix hf (List.prefix_append e.2 s) with h | h
        · rw [t.prefixFree f hmem e he h]
        · rw [t.prefixFree e he f hmem h]
  rw [unescape, unescapeFrom, if_pos rfl, hfind]
  dsimp only
  rw [unescapeFrom_drop, List.drop_left]

theorem unescape_char (hc : c ≠ t.amp) (s : List α) : unescape t (c :: s) = c :: unescape t s := by
  rw [unescape, unescapeFrom, if_neg hc, unescape]

/-- **An escaped text is read back.** -/
theorem unescape_escape (t : Table α) (s : List α) : unescape t (escape t s) = s := by
  induction s with
  | nil => rfl
  | cons c s ih =>
      rw [escape_cons]
      rcases escapeChar_cases t c with ⟨e, he, rfl, heq⟩ | ⟨hc, -, heq⟩
      · rw [heq, List.cons_append, unescape_entity he, ih]
      · rw [heq, List.singleton_append, unescape_char hc, ih]

/-! ## Safe and escaped -/

/-- **An escaped text is safe.** -/
theorem escape_safe (t : Table α) (s : List α) : Safe t (escape t s) := by
  induction s with
  | nil => exact ⟨fun c hc => absurd hc List.not_mem_nil, fun front rest h => by simp [escape] at h⟩
  | cons c s ih =>
      rw [escape_cons]
      rcases escapeChar_cases t c with ⟨e, he, -, heq⟩ | ⟨hc, hnot, heq⟩
      · rw [heq, List.cons_append]
        constructor
        · rintro d hd ⟨f, hf, rfl⟩
          rw [List.mem_cons, List.mem_append] at hd
          rcases hd with hd | hd | hd
          · exact hd
          · exact absurd hd (t.plain e he f hf)
          · exact ih.free f.1 hd ⟨f, hf, rfl⟩
        · intro front rest h
          cases front with
          | nil =>
              rw [List.nil_append, List.cons.injEq] at h
              exact ⟨e, he, h.2 ▸ List.prefix_append e.2 _⟩
          | cons d front =>
              rw [List.cons_append, List.cons.injEq] at h
              obtain ⟨front', hs⟩ := append_amp (t.ampFree e he) h.2
              exact ih.named front' rest hs
      · rw [heq, List.singleton_append]
        constructor
        · rintro d hd ⟨f, hf, rfl⟩
          rcases List.mem_cons.mp hd with hd | hd
          · exact absurd hd (hnot f hf)
          · exact ih.free f.1 hd ⟨f, hf, rfl⟩
        · intro front rest h
          cases front with
          | nil =>
              rw [List.nil_append, List.cons.injEq] at h
              exact absurd h.1 hc
          | cons d front =>
              rw [List.cons_append, List.cons.injEq] at h
              exact ih.named front rest h.2

/-- **A safe text** is what the text that is read from it is written as. -/
theorem Safe.escape_unescape : ∀ {s : List α}, Safe t s → escape t (unescape t s) = s := by
  intro s
  induction hn : s.length using Nat.strong_induction_on generalizing s with
  | _ n ih =>
      intro h
      cases s with
      | nil => rfl
      | cons c s =>
          by_cases hc : c = t.amp
          · subst hc
            obtain ⟨e, he, rest, rfl⟩ := h.named [] s rfl
            have hlen : rest.length < n := by
              rw [← hn, List.length_cons, List.length_append]
              omega
            rw [unescape_entity he, escape_cons, escapeChar_entry he, ih rest.length hlen rfl h.tail.suffix,
              List.cons_append]
          · have hnot : ∀ e ∈ t.entries, e.1 ≠ c :=
              fun e he heq => hc (h.free c List.mem_cons_self ⟨e, he, heq⟩)
            rw [unescape_char hc, escape_cons, escapeChar_plain hnot,
              ih s.length (by rw [← hn, List.length_cons]; omega) rfl h.tail, List.singleton_append]

end Escape

end Entities
