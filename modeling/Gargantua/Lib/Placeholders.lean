import Mathlib.Data.List.Infix
import Mathlib.Order.WellFounded

/-! # Texts with placeholders

    A placeholder is a name between two delimiters.  A text is cut at its
    placeholders from the front: the next one starts at the first opening delimiter and
    ends at the first closing one behind it, and where there is none the text is
    literal to its end.  Every text is cut so (`cut_exists`). -/

namespace Placeholders

variable {α : Type}

/-- `front` is what stands in front of the first `needle`. -/
def First (needle front rest : List α) : Prop :=
  ∀ front' rest', front ++ (needle ++ rest) = front' ++ (needle ++ rest') →
    front.length ≤ front'.length

/-- A piece of a text. -/
inductive Segment (α : Type) where
  | literal (text : List α)
  | placeholder (name : List α)
  deriving DecidableEq

/-- The pieces of a text, from the front. -/
inductive Cut (opening closing : List α) : List α → List (Segment α) → Prop
  | plain {s : List α} (h : ¬ opening <:+: s) : Cut opening closing s [.literal s]
  | unclosed {front rest : List α} (hopen : First opening front rest) (hclose : ¬ closing <:+: rest) :
      Cut opening closing (front ++ (opening ++ rest)) [.literal (front ++ (opening ++ rest))]
  | placeholder {front name rest : List α} {segs : List (Segment α)}
      (hopen : First opening front (name ++ (closing ++ rest))) (hclose : First closing name rest)
      (h : Cut opening closing rest segs) :
      Cut opening closing (front ++ (opening ++ (name ++ (closing ++ rest))))
        (.literal front :: .placeholder name :: segs)

/-- What a piece is written as, a placeholder being filled. -/
def Segment.text (fill : List α → List α) : Segment α → List α
  | .literal s => s
  | .placeholder name => fill name

/-- What the pieces are written as, one by one. -/
def texts (fill : List α → List α) (segs : List (Segment α)) : List (List α) :=
  segs.map (Segment.text fill)

section First

variable {needle front rest s : List α} {c : α}

theorem First.nil : First needle [] rest := fun _ _ _ => Nat.zero_le _

theorem First.tail (h : First needle (c :: front) rest) : First needle front rest := by
  intro front' rest' heq
  have hle := h (c :: front') rest' (by rw [List.cons_append, heq, List.cons_append])
  rw [List.length_cons, List.length_cons] at hle
  omega

theorem First.not_prefix (h : First needle (c :: front) rest) :
    ¬ needle <+: c :: (front ++ (needle ++ rest)) := by
  rintro ⟨rest', heq⟩
  have hle := h [] rest' (by rw [List.cons_append, List.nil_append, heq])
  simp at hle

/-- What occurs has a first place. -/
theorem first_exists (h : needle <:+: s) :
    ∃ front rest, s = front ++ (needle ++ rest) ∧ First needle front rest := by
  let places : Set (List α) := { front | ∃ rest, s = front ++ (needle ++ rest) }
  have hplaces : places.Nonempty := by
    obtain ⟨front, rest, heq⟩ := h
    exact ⟨front, rest, by rw [← heq, List.append_assoc]⟩
  have hwf := (measure (List.length (α := α))).wf
  obtain ⟨rest, heq⟩ := hwf.min_mem places hplaces
  refine ⟨hwf.min places hplaces, rest, heq, ?_⟩
  intro front' rest' heq'
  exact Nat.le_of_not_lt (hwf.not_lt_min places ⟨rest', heq.trans heq'⟩)

/-- Two tags that do not run into each other have a text between them. -/
theorem first_between {tag tag' head rest front tail : List α}
    (hapart : ∀ {rest m q : List α}, tag ++ rest = m ++ (tag' ++ q) → tag.length ≤ m.length)
    (hs : s = head ++ (tag ++ rest)) (hfirst : First tag head rest)
    (hs' : s = front ++ (tag' ++ tail)) (hfirst' : First tag' front tail)
    (hle : head.length ≤ front.length) :
    ∃ block, s = head ++ (tag ++ (block ++ (tag' ++ tail)))
      ∧ First tag head (block ++ (tag' ++ tail)) ∧ First tag' (head ++ (tag ++ block)) tail := by
  have hmid : ∃ m, front = head ++ m ∧ tag ++ rest = m ++ (tag' ++ tail) := by
    rcases List.append_eq_append_iff.mp (hs.symm.trans hs') with ⟨m, rfl, hm⟩ | ⟨m, rfl, hm⟩
    · exact ⟨m, rfl, hm⟩
    · rw [List.length_append] at hle
      obtain rfl := List.length_eq_zero_iff.mp (show m.length = 0 by omega)
      exact ⟨[], by simp, by simpa using hm.symm⟩
  obtain ⟨m, rfl, hm⟩ := hmid
  have hlen := hapart hm
  have hblock : ∃ block, m = tag ++ block ∧ rest = block ++ (tag' ++ tail) := by
    rcases List.append_eq_append_iff.mp hm with ⟨block, rfl, hrest⟩ | ⟨extra, rfl, hrest⟩
    · exact ⟨block, rfl, hrest⟩
    · rw [List.length_append] at hlen
      obtain rfl := List.length_eq_zero_iff.mp (show extra.length = 0 by omega)
      exact ⟨[], by simp, by simpa using hrest.symm⟩
  obtain ⟨block, rfl, rfl⟩ := hblock
  exact ⟨block, hs, hfirst, hfirst'⟩

end First

/-- **Every text is cut.** -/
theorem cut_exists {opening closing : List α} (hne : opening ≠ []) (s : List α) :
    ∃ segs, Cut opening closing s segs := by
  induction hn : s.length using Nat.strong_induction_on generalizing s with
  | _ n ih =>
      by_cases hopen : opening <:+: s
      · obtain ⟨front, rest, rfl, hfirst⟩ := first_exists hopen
        by_cases hclose : closing <:+: rest
        · obtain ⟨name, rest, rfl, hname⟩ := first_exists hclose
          have hlen : rest.length < n := by
            have hpos := List.length_pos_iff.mpr hne
            rw [← hn]
            simp only [List.length_append]
            omega
          obtain ⟨segs, hsegs⟩ := ih rest.length hlen rest rfl
          exact ⟨_, .placeholder hfirst hname hsegs⟩
        · exact ⟨_, .unclosed hfirst hclose⟩
      · exact ⟨_, .plain hopen⟩

theorem flatMap_length_le {ι : Type} {f g : ι → List α} {xs : List ι}
    (h : ∀ x ∈ xs, (f x).length ≤ (g x).length) : (xs.flatMap f).length ≤ (xs.flatMap g).length := by
  induction xs with
  | nil => exact Nat.le_refl _
  | cons x xs ih =>
      obtain ⟨hx, hxs⟩ := List.forall_mem_cons.mp h
      rw [List.flatMap_cons, List.flatMap_cons, List.length_append, List.length_append]
      exact Nat.add_le_add hx (ih hxs)

/-- Where no piece is written longer, the texts are the same only if the pieces are. -/
theorem flatMap_eq_iff {ι : Type} {f g : ι → List α} {xs : List ι}
    (h : ∀ x ∈ xs, (f x).length ≤ (g x).length) :
    xs.flatMap f = xs.flatMap g ↔ ∀ x ∈ xs, f x = g x := by
  constructor
  · induction xs with
    | nil => exact fun _ x hx => absurd hx List.not_mem_nil
    | cons x xs ih =>
        intro heq
        obtain ⟨hx, hxs⟩ := List.forall_mem_cons.mp h
        have hle := flatMap_length_le hxs
        have hlen := congrArg List.length heq
        rw [List.flatMap_cons, List.flatMap_cons, List.length_append, List.length_append] at hlen
        obtain ⟨hfirst, hrest⟩ := List.append_inj heq (show (f x).length = (g x).length by omega)
        exact List.forall_mem_cons.mpr ⟨hfirst, ih hxs hrest⟩
  · exact fun heq => List.flatMap_congr heq

end Placeholders
