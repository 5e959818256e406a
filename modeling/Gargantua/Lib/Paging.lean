import Mathlib.Data.List.Basic

/-! # Reading a list page by page

    A page of a list is a window of it, and a reader that asks for one element
    more than a page has learns whether there is another page.  Asking for page
    after page until there is none gives the list. -/

namespace Paging

variable {α : Type}

/-- Page `p` of a list, `size` elements a page. -/
def page (l : List α) (size p : Nat) : List α := (l.drop (p * size)).take size

/-- Is there a page behind it? -/
def more (l : List α) (size p : Nat) : Bool := (p + 1) * size < l.length

/-- The pages that `get` gives, from page `p` on, as long as it says that there
    are more, at most `fuel` of them. -/
def readAll (get : Nat → List α × Bool) : Nat → Nat → List α
  | 0, _ => []
  | fuel + 1, p => (get p).1 ++ if (get p).2 then readAll get fuel (p + 1) else []

/-- One element more than a page tells whether there is another page. -/
theorem window_length (l : List α) (size p : Nat) :
    size < ((l.drop (p * size)).take (size + 1)).length ↔ more l size p = true := by
  rw [List.length_take, List.length_drop, more, decide_eq_true_eq, Nat.succ_mul]
  omega

theorem window_take (l : List α) (size p : Nat) :
    ((l.drop (p * size)).take (size + 1)).take size = page l size p := by
  rw [List.take_take, Nat.min_eq_left (Nat.le_succ size), page]

theorem page_append (l : List α) (size p : Nat) :
    page l size p ++ l.drop ((p + 1) * size) = l.drop (p * size) := by
  rw [page, Nat.succ_mul, ← List.drop_drop, List.take_append_drop]

/-- **Page after page, the list is read once.** -/
theorem readAll_pages {l : List α} {size : Nat} {get : Nat → List α × Bool}
    (hget : ∀ p, p * size ≤ l.length → get p = (page l size p, more l size p)) :
    ∀ (fuel p : Nat), p * size ≤ l.length → l.length < (p + fuel) * size →
      readAll get fuel p = l.drop (p * size) := by
  intro fuel
  induction fuel with
  | zero =>
      intro p hp hfuel
      rw [Nat.add_zero] at hfuel
      omega
  | succ fuel ih =>
      intro p hp hfuel
      rw [readAll, hget p hp]
      dsimp only
      by_cases hmore : more l size p = true
      · rw [if_pos hmore]
        rw [more, decide_eq_true_eq] at hmore
        rw [ih (p + 1) (Nat.le_of_lt hmore)
          (by rw [show p + 1 + fuel = p + (fuel + 1) by omega]; exact hfuel), page_append]
      · rw [if_neg hmore, List.append_nil, ← page_append l size p]
        rw [more, decide_eq_true_eq, Nat.not_lt] at hmore
        rw [List.drop_eq_nil_of_le hmore, List.append_nil]

end Paging
