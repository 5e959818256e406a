import Mathlib.Data.List.Basic
import Mathlib.Data.List.Range
import Mathlib.Data.List.Count
import Mathlib.Data.Nat.ModEq
import Mathlib.Logic.Function.Basic

/-! # Ring buffers and tables of holders

    Two ways in which a program keeps items that it passes on.  A ring buffer is
    an array of `cap` cells with a head and a count; its contents are a queue.
    A table of holders is a list of agents, each with the items it holds; one
    step changes one agent, and the items of all the others stay. -/

namespace Ring

open List (Perm)
open scoped List

variable {α β : Type}

/-! ## Ring buffers -/

/-- The contents, oldest first. -/
def contents (cells : Nat → α) (cap head count : Nat) : List α :=
  (List.range count).map fun i => cells ((head + i) % cap)

theorem contents_zero (cells : Nat → α) (cap head : Nat) : contents cells cap head 0 = [] :=
  rfl

theorem length_contents (cells : Nat → α) (cap head count : Nat) :
    (contents cells cap head count).length = count := by
  rw [contents, List.length_map, List.length_range]

/-- Different places of a ring that is not full are different cells. -/
theorem place_ne {cap head i count : Nat} (hi : i < count) (hcount : count < cap) :
    (head + i) % cap ≠ (head + count) % cap := by
  intro h
  have hmod : head + i ≡ head + count [MOD cap] := h
  have hcancel : i ≡ count [MOD cap] := Nat.ModEq.add_left_cancel' head hmod
  rw [Nat.ModEq, Nat.mod_eq_of_lt (Nat.lt_trans hi hcount), Nat.mod_eq_of_lt hcount] at hcancel
  omega

/-- Writing behind the last element appends. -/
theorem contents_push {cells : Nat → α} {cap head count : Nat} (h : count < cap) (x : α) :
    contents (Function.update cells ((head + count) % cap) x) cap head (count + 1)
      = contents cells cap head count ++ [x] := by
  rw [contents, contents, List.range_succ, List.map_append, List.map_singleton,
    Function.update_self]
  congr 1
  refine List.map_congr_left fun i hi => ?_
  exact Function.update_of_ne (place_ne (List.mem_range.mp hi) h) _ _

/-- Moving the head takes the oldest element. -/
theorem contents_pop (cells : Nat → α) (cap head count : Nat) :
    contents cells cap head (count + 1)
      = cells (head % cap) :: contents cells cap ((head + 1) % cap) count := by
  rw [contents, contents, List.range_succ_eq_map, List.map_cons, List.map_map, Nat.add_zero]
  congr 1
  refine List.map_congr_left fun i _ => ?_
  show cells ((head + (i + 1)) % cap) = cells (((head + 1) % cap + i) % cap)
  rw [Nat.mod_add_mod, Nat.add_assoc, Nat.add_comm 1 i]

/-- The index behind the last element follows both moves. -/
theorem tail_push (cap head count : Nat) :
    ((head + count) % cap + 1) % cap = (head + (count + 1)) % cap := by
  rw [Nat.mod_add_mod, Nat.add_assoc]

theorem tail_pop (cap head count : Nat) :
    ((head + 1) % cap + count) % cap = (head + (count + 1)) % cap := by
  rw [Nat.mod_add_mod, Nat.add_assoc, Nat.add_comm 1 count]

/-! ## Tables of holders -/

/-- Everything that the agents hold. -/
def held (f : α → List β) (agents : List α) : List β := agents.flatMap f

/-- An agent's items stand in front of those of the others. -/
theorem held_perm {f : α → List β} :
    ∀ {agents : List α} {i : Nat} {a : α}, agents[i]? = some a →
      (held f agents).Perm (f a ++ held f (agents.eraseIdx i)) := by
  intro agents
  induction agents with
  | nil =>
      intro i a h
      exact nomatch h
  | cons b agents ih =>
      intro i a h
      cases i with
      | zero =>
          obtain rfl := Option.some.inj h
          exact List.Perm.refl _
      | succ i =>
          have hp : (f b ++ held f agents).Perm (f b ++ (f a ++ held f (agents.eraseIdx i))) :=
            (ih h).append_left (f b)
          refine hp.trans ?_
          show (f b ++ (f a ++ held f (agents.eraseIdx i))).Perm
            (f a ++ (f b ++ held f (agents.eraseIdx i)))
          exact List.perm_append_comm_assoc _ _ _

/-- After one agent has changed, the others hold what they held. -/
theorem held_set {f : α → List β} {agents : List α} {i : Nat} {a : α}
    (h : agents[i]? = some a) (b : α) :
    (held f (agents.set i b)).Perm (f b ++ held f (agents.eraseIdx i)) := by
  have hlt : i < agents.length := (List.getElem?_eq_some_iff.mp h).1
  have hget : (agents.set i b)[i]? = some b := List.getElem?_set_self hlt
  have herase : (agents.set i b).eraseIdx i = agents.eraseIdx i := List.eraseIdx_set_eq
  rw [← herase]
  exact held_perm hget

/-- Behind what two others hold, an agent's items come to the front. -/
theorem front_perm {a r : List β} {f : α → List β} {agents : List α} {i : Nat} {x : α}
    (h : agents[i]? = some x) :
    (a ++ (r ++ held f agents)).Perm (f x ++ (a ++ (r ++ held f (agents.eraseIdx i)))) :=
  calc a ++ (r ++ held f agents)
    _ ~ a ++ (r ++ (f x ++ held f (agents.eraseIdx i))) :=
        ((held_perm h).append_left r).append_left a
    _ ~ a ++ (f x ++ (r ++ held f (agents.eraseIdx i))) :=
        (List.perm_append_comm_assoc r (f x) _).append_left a
    _ ~ f x ++ (a ++ (r ++ held f (agents.eraseIdx i))) :=
        List.perm_append_comm_assoc a (f x) _

/-- The same, once the agent has changed. -/
theorem front_perm_set {a r : List β} {f : α → List β} {agents : List α} {i : Nat} {x : α}
    (h : agents[i]? = some x) (y : α) :
    (a ++ (r ++ held f (agents.set i y))).Perm
      (f y ++ (a ++ (r ++ held f (agents.eraseIdx i)))) :=
  calc a ++ (r ++ held f (agents.set i y))
    _ ~ a ++ (r ++ (f y ++ held f (agents.eraseIdx i))) :=
        ((held_set h y).append_left r).append_left a
    _ ~ a ++ (f y ++ (r ++ held f (agents.eraseIdx i))) :=
        (List.perm_append_comm_assoc r (f y) _).append_left a
    _ ~ f y ++ (a ++ (r ++ held f (agents.eraseIdx i))) :=
        List.perm_append_comm_assoc a (f y) _

end Ring
