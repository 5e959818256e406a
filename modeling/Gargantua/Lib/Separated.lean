import Gargantua.Lib.Scan

/-! # Lists written with separators

    A text that holds several things is cut at a separator, and each of its
    pieces may have blanks around it (`entries`); a program finds the pieces one
    after the other, going on behind each separator (`splitOn_step`).  A text of
    lines ends each of them with the same two elements, and can be taken apart in
    one way only (`joinLines_inj`). -/

namespace Separated

open Scan

variable {α : Type}

/-! ## Pieces -/

section Pieces

variable [BEq α] [LawfulBEq α]

/-- The first piece, and the pieces behind its separator. -/
theorem splitOn_step (sep : α) (s : List α) :
    s.splitOn sep = s.takeWhile (· != sep)
      :: match s.dropWhile (· != sep) with
        | [] => []
        | _ :: rest => rest.splitOn sep := by
  have hfront : sep ∉ s.takeWhile (· != sep) := fun h =>
    absurd (List.mem_takeWhile_imp h) (by rw [bne_self_eq_false]; exact Bool.false_ne_true)
  have hself : s.takeWhile (· != sep) ++ s.dropWhile (· != sep) = s :=
    List.takeWhile_append_dropWhile
  cases hdrop : s.dropWhile (· != sep) with
  | nil =>
      rw [hdrop, List.append_nil] at hself
      rw [hself] at hfront ⊢
      exact List.splitOn_eq_singleton hfront
  | cons c rest =>
      obtain ⟨rfl, hs⟩ := dropWhile_bne_cons hdrop
      conv_lhs => rw [hs]
      exact List.splitOn_append_cons_self_of_not_mem hfront rest

/-- A piece is part of the text, and holds no separator. -/
theorem mem_splitOn (sep : α) : ∀ {s piece : List α}, piece ∈ s.splitOn sep →
    piece ⊆ s ∧ sep ∉ piece := by
  intro s
  induction hn : s.length using Nat.strong_induction_on generalizing s with
  | _ n ih =>
      intro piece hpiece
      rw [splitOn_step, List.mem_cons] at hpiece
      rcases hpiece with rfl | hpiece
      · refine ⟨List.takeWhile_subset _, fun h => ?_⟩
        exact absurd (List.mem_takeWhile_imp h) (by rw [bne_self_eq_false]; exact Bool.false_ne_true)
      · cases hdrop : s.dropWhile (· != sep) with
        | nil =>
            rw [hdrop] at hpiece
            exact nomatch hpiece
        | cons c rest =>
            rw [hdrop] at hpiece
            have hsub : c :: rest ⊆ s := hdrop ▸ List.dropWhile_subset _
            have hlen : rest.length < n := by
              have hle := (List.dropWhile_sublist (· != sep) (l := s)).length_le
              rw [hdrop, List.length_cons] at hle
              omega
            obtain ⟨h1, h2⟩ := ih rest.length hlen rfl hpiece
            exact ⟨fun d hd => hsub (List.mem_cons_of_mem c (h1 hd)), h2⟩

end Pieces

/-! ## Trimming -/

section Trimming

variable (blank : α → Bool)

/-- A piece without the blanks around it. -/
def trim (s : List α) : List α := (s.dropWhile blank).rdropWhile blank

variable {blank}

/-- Blanks in front are skipped before a scan that goes over them, or after. -/
theorem takeWhile_dropWhile {p : α → Bool} (hp : ∀ c, blank c = true → p c = true) (s : List α) :
    (s.dropWhile blank).takeWhile p = (s.takeWhile p).dropWhile blank := by
  induction s with
  | nil => rfl
  | cons c s ih =>
      by_cases hc : blank c = true
      · rw [List.dropWhile_cons_of_pos hc, List.takeWhile_cons_of_pos (hp c hc),
          List.dropWhile_cons_of_pos hc, ih]
      · rw [List.dropWhile_cons_of_neg hc]
        by_cases hpc : p c = true
        · rw [List.takeWhile_cons_of_pos hpc, List.dropWhile_cons_of_neg hc]
        · rw [List.takeWhile_cons_of_neg hpc, List.dropWhile_nil]

/-- Nor do skipped blanks change where it ends. -/
theorem dropWhile_dropWhile {p : α → Bool} (hp : ∀ c, blank c = true → p c = true) (s : List α) :
    (s.dropWhile blank).dropWhile p = s.dropWhile p := by
  induction s with
  | nil => rfl
  | cons c s ih =>
      by_cases hc : blank c = true
      · rw [List.dropWhile_cons_of_pos hc, List.dropWhile_cons_of_pos (hp c hc), ih]
      · rw [List.dropWhile_cons_of_neg hc]

/-- Trimming once is enough. -/
theorem trim_trim (s : List α) : trim blank (trim blank s) = trim blank s := by
  have hleft : (trim blank s).dropWhile blank = trim blank s := by
    obtain ⟨w, hw, _⟩ := rdropWhile_split blank (s.dropWhile blank)
    cases htrim : trim blank s with
    | nil => rfl
    | cons c cs =>
        have hself := List.dropWhile_idempotent blank s
        have hhead : s.dropWhile blank = c :: (cs ++ w) := by
          rw [hw]
          exact congrArg (· ++ w) htrim
        rw [hhead] at hself
        exact List.dropWhile_cons_of_neg (not_of_dropWhile_eq_self hself)
  conv_lhs => rw [trim, hleft]
  exact List.rdropWhile_idempotent blank _

/-- Blanks in front do not count. -/
theorem trim_cons {c : α} (hc : blank c = true) (s : List α) : trim blank (c :: s) = trim blank s := by
  rw [trim, List.dropWhile_cons_of_pos hc, trim]

/-- What is not blank at either end is left as it is. -/
theorem trim_eq_self {s : List α} (hleft : s.dropWhile blank = s) (hright : s.rdropWhile blank = s) :
    trim blank s = s := by
  rw [trim, hleft, hright]

/-- An entry is part of its text. -/
theorem mem_trim {s : List α} {c : α} (h : c ∈ trim blank s) : c ∈ s :=
  List.dropWhile_subset _ ((List.rdropWhile_prefix blank _).subset h)

end Trimming

/-! ## Entries -/

section Entries

variable [BEq α] [LawfulBEq α] (blank : α → Bool)

/-- The entries of a list. -/
def entries (sep : α) (s : List α) : List (List α) := (s.splitOn sep).map (trim blank)

variable {blank}

/-- What is added behind a separator is one more entry, if it holds none. -/
theorem entries_append {sep : α} (s : List α) {t : List α} (ht : sep ∉ t) :
    entries blank sep (s ++ sep :: t) = entries blank sep s ++ [trim blank t] := by
  rw [entries, List.splitOn_append_cons_self, List.map_append, List.splitOn_eq_singleton ht]
  rfl

end Entries

/-! ## Lines -/

section Lines

variable (cr lf : α)

/-- The text of lines. -/
def joinLines (lines : List (List α)) : List α := lines.flatMap (· ++ [cr, lf])

@[simp] theorem joinLines_nil : joinLines cr lf [] = [] := rfl

@[simp] theorem joinLines_cons (line : List α) (lines : List (List α)) :
    joinLines cr lf (line :: lines) = line ++ cr :: lf :: joinLines cr lf lines := by
  rw [joinLines, List.flatMap_cons, List.append_assoc]
  rfl

@[simp] theorem joinLines_append (lines more : List (List α)) :
    joinLines cr lf (lines ++ more) = joinLines cr lf lines ++ joinLines cr lf more :=
  List.flatMap_append

variable {cr lf} [BEq α] [LawfulBEq α]

/-- **A text has one division into lines**, none of which holds `cr`. -/
theorem joinLines_inj : ∀ {lines more : List (List α)}, (∀ line ∈ lines, cr ∉ line) →
    (∀ line ∈ more, cr ∉ line) → joinLines cr lf lines = joinLines cr lf more → lines = more := by
  intro lines
  induction lines with
  | nil =>
      intro more _ _ h
      cases more with
      | nil => rfl
      | cons line more =>
          rw [joinLines_nil, joinLines_cons] at h
          exact absurd h.symm (List.append_ne_nil_of_right_ne_nil _ (List.cons_ne_nil _ _))
  | cons line lines ih =>
      intro more hlines hmore h
      cases more with
      | nil =>
          rw [joinLines_nil, joinLines_cons] at h
          exact absurd h (List.append_ne_nil_of_right_ne_nil _ (List.cons_ne_nil _ _))
      | cons other more =>
          rw [joinLines_cons, joinLines_cons] at h
          have hline := cut_append (hlines line List.mem_cons_self) (lf :: joinLines cr lf lines)
          have hother := cut_append (hmore other List.mem_cons_self) (lf :: joinLines cr lf more)
          have hhead : line = other := by
            rw [← hline.1, h]
            exact hother.1
          have htail : cr :: lf :: joinLines cr lf lines = cr :: lf :: joinLines cr lf more := by
            rw [← hline.2, h]
            exact hother.2
          have hrest := ih (fun l hl => hlines l (List.mem_cons_of_mem line hl))
            (fun l hl => hmore l (List.mem_cons_of_mem other hl))
            (List.cons.inj (List.cons.inj htail).2).2
          rw [hhead, hrest]

end Lines

end Separated
