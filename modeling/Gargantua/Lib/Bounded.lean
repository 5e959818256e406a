import Mathlib.Data.List.TakeWhile

/-! # Text behind a bound

    A writer with a fixed buffer keeps what it was given while it fits, and
    nothing once something did not: its content is an `Option`.  Writing in
    pieces is writing the whole, so a program that fills the buffer piece by
    piece can be followed by appending to one text. -/

namespace Bounded

variable {α : Type} (limit : Nat)

/-- The content once `text` is written behind it. -/
def put (content : Option (List α)) (text : List α) : Option (List α) :=
  content.bind fun s => if s.length + text.length ≤ limit then some (s ++ text) else none

theorem put_none (text : List α) : put limit none text = none := rfl

theorem put_some (s text : List α) :
    put limit (some s) text
      = if s.length + text.length ≤ limit then some (s ++ text) else none := rfl

/-- **Writing in pieces is writing the whole.** -/
theorem put_put (content : Option (List α)) (t u : List α) :
    put limit (put limit content t) u = put limit content (t ++ u) := by
  cases content with
  | none => rfl
  | some s =>
      rw [put_some, put_some, List.length_append]
      by_cases h : s.length + t.length ≤ limit
      · rw [if_pos h, put_some, List.length_append, List.append_assoc, Nat.add_assoc]
      · rw [if_neg h, if_neg (by omega), put_none]

theorem put_nil {s : List α} (h : s.length ≤ limit) : put limit (some s) [] = some s := by
  rw [put_some, List.length_nil, Nat.add_zero, if_pos h, List.append_nil]

/-- Writing a list of pieces. -/
theorem foldl_put {β : Type} (piece : β → List α) : ∀ (l : List β) (content : Option (List α)),
    content.all (·.length ≤ limit) = true →
      l.foldl (fun c b => put limit c (piece b)) content = put limit content (l.flatMap piece) := by
  intro l
  induction l with
  | nil =>
      intro content h
      cases content with
      | none => rfl
      | some s => exact (put_nil limit (of_decide_eq_true h)).symm
  | cons b l ih =>
      intro content h
      rw [List.foldl_cons, List.flatMap_cons, ← put_put]
      refine ih _ ?_
      cases content with
      | none => rfl
      | some s =>
          rw [put_some]
          split
          · rename_i hfit
            rw [Option.all_some, decide_eq_true_iff, List.length_append]
            exact hfit
          · rfl

end Bounded
