import Mathlib.Data.List.Basic
import Mathlib.Data.List.Induction
import Mathlib.Data.List.Perm.Basic

/-! # The one cheapest element

    A search that keeps the cheapest element so far, and a flag for a tie with
    it, ends with an element and no tie exactly when one element is cheaper than
    all the others. -/

namespace UniqueMin

variable {α : Type} (cost : α → Nat)

/-- What the search has found: the cheapest element, and whether another one is
    as cheap. -/
structure Pick (α : Type) where
  best : Option α
  tie : Bool
  deriving Repr, DecidableEq

/-- One more element. -/
def Pick.add (p : Pick α) (x : α) : Pick α :=
  match p.best with
  | none => ⟨some x, false⟩
  | some b =>
      if cost x < cost b then ⟨some x, false⟩
      else if cost x = cost b then ⟨some b, true⟩
      else p

/-- The whole search. -/
def pick (xs : List α) : Pick α := xs.foldl (Pick.add cost) ⟨none, false⟩

/-- One element, at one place, is cheaper than all the others. -/
def Unique (xs : List α) (x : α) : Prop :=
  ∃ before after, xs = before ++ x :: after ∧ ∀ y ∈ before ++ after, cost x < cost y

variable {cost}

/-- The search keeps an element of the list. -/
theorem foldl_add_mem (xs : List α) (p : Pick α) {b : α}
    (h : (xs.foldl (Pick.add cost) p).best = some b) : p.best = some b ∨ b ∈ xs := by
  induction xs generalizing p with
  | nil => exact Or.inl h
  | cons x xs ih =>
      rcases ih _ h with hb | hb
      · rw [Pick.add] at hb
        split at hb
        · exact Or.inr (Option.some.inj hb ▸ List.mem_cons_self)
        · rename_i hp
          split at hb
          · exact Or.inr (Option.some.inj hb ▸ List.mem_cons_self)
          · split at hb
            · exact Or.inl (hp.trans hb)
            · exact Or.inl hb
      · exact Or.inr (List.mem_cons_of_mem x hb)

/-- Dearer elements change nothing. -/
theorem foldl_add_dearer {x : α} (xs : List α) (h : ∀ y ∈ xs, cost x < cost y) :
    xs.foldl (Pick.add cost) ⟨some x, false⟩ = ⟨some x, false⟩ := by
  induction xs with
  | nil => rfl
  | cons y xs ih =>
      obtain ⟨hy, hxs⟩ := List.forall_mem_cons.mp h
      have hadd : Pick.add cost ⟨some x, false⟩ y = ⟨some x, false⟩ := by
        rw [Pick.add]
        dsimp only
        rw [if_neg (by omega), if_neg (by omega)]
      rw [List.foldl_cons, hadd, ih hxs]

/-- **The search finds the one cheapest element**, if there is one. -/
theorem Unique.pick {xs : List α} {x : α} (h : Unique cost xs x) :
    pick cost xs = ⟨some x, false⟩ := by
  obtain ⟨before, after, rfl, hlt⟩ := h
  have hadd : Pick.add cost (before.foldl (Pick.add cost) ⟨none, false⟩) x
      = ⟨some x, false⟩ := by
    rw [Pick.add]
    split
    · rfl
    · rename_i b hb
      rcases foldl_add_mem before _ hb with hb | hb
      · exact nomatch hb
      · rw [if_pos (hlt b (List.mem_append_left after hb))]
  rw [UniqueMin.pick, List.foldl_append, List.foldl_cons, hadd]
  exact foldl_add_dearer after fun y hy => hlt y (List.mem_append_right before hy)

/-- Elements of different costs have a cheapest one. -/
theorem exists_unique {xs : List α} (hne : xs ≠ [])
    (h : xs.Pairwise fun a b => cost a ≠ cost b) : ∃ x, Unique cost xs x := by
  induction xs with
  | nil => exact absurd rfl hne
  | cons x xs ih =>
      obtain ⟨hx, hxs⟩ := List.pairwise_cons.mp h
      by_cases hnil : xs = []
      · subst hnil
        exact ⟨x, [], [], rfl, fun y hy => (nomatch hy)⟩
      · obtain ⟨y, before, after, rfl, hlt⟩ := ih hnil hxs
        by_cases hxy : cost x < cost y
        · refine ⟨x, [], before ++ y :: after, rfl, ?_⟩
          intro z hz
          rw [List.nil_append, List.mem_append, List.mem_cons] at hz
          rcases hz with hz | rfl | hz
          · exact Nat.lt_trans hxy (hlt z (List.mem_append_left after hz))
          · exact hxy
          · exact Nat.lt_trans hxy (hlt z (List.mem_append_right before hz))
        · have hne' := hx y (List.mem_append_right before List.mem_cons_self)
          refine ⟨y, x :: before, after, rfl, ?_⟩
          intro z hz
          rw [List.cons_append, List.mem_cons] at hz
          rcases hz with rfl | hz
          · omega
          · exact hlt z hz

/-! ## In any order

    Whether one element is the cheapest, or two are, does not depend on the order
    of the list. -/

variable (P : α → Prop) (cost)

/-- One element with `P` is cheaper than all the others with `P`. -/
def Cheapest (xs : List α) (x : α) : Prop :=
  ∃ rest, xs.Perm (x :: rest) ∧ P x ∧ ∀ y ∈ rest, P y → cost x < cost y

/-- Two elements with `P`, at two places, are as cheap as any other with `P`. -/
def Tie (xs : List α) : Prop :=
  ∃ x y rest, xs.Perm (x :: y :: rest) ∧ P x ∧ P y ∧ cost x = cost y
    ∧ ∀ z ∈ rest, P z → cost x ≤ cost z

variable {P cost}

theorem Cheapest.perm {xs ys : List α} {x : α} (h : Cheapest cost P xs x) (hp : xs.Perm ys) :
    Cheapest cost P ys x := by
  obtain ⟨rest, hrest, hx⟩ := h
  exact ⟨rest, hp.symm.trans hrest, hx⟩

theorem Tie.perm {xs ys : List α} (h : Tie cost P xs) (hp : xs.Perm ys) : Tie cost P ys := by
  obtain ⟨x, y, rest, hrest, hxy⟩ := h
  exact ⟨x, y, rest, hp.symm.trans hrest, hxy⟩

theorem Cheapest.unique {xs : List α} {x y : α} (hx : Cheapest cost P xs x)
    (hy : Cheapest cost P xs y) : x = y := by
  obtain ⟨rest, hp, hPx, hlt⟩ := hx
  obtain ⟨rest', hp', hPy, hlt'⟩ := hy
  have hperm := hp.symm.trans hp'
  rcases List.mem_cons.mp (hperm.mem_iff.mp List.mem_cons_self) with hxy | hmem
  · exact hxy
  rcases List.mem_cons.mp (hperm.mem_iff.mpr List.mem_cons_self) with hyx | hmem'
  · exact hyx.symm
  · have h1 := hlt y hmem' hPy
    have h2 := hlt' x hmem hPx
    omega

/-- The one cheapest element ties with no other: it is counted once. -/
theorem Cheapest.not_tie {xs : List α} {x : α} (hx : Cheapest cost P xs x) :
    ¬ Tie cost P xs := by
  classical
  rintro ⟨a, b, rest', hp', hPa, hPb, hab, hle⟩
  obtain ⟨rest, hp, hPx, hlt⟩ := hx
  have hperm := hp.symm.trans hp'
  have hax : cost a ≤ cost x := by
    rcases List.mem_cons.mp (hperm.mem_iff.mp List.mem_cons_self) with rfl | hmem
    · exact Nat.le_refl _
    rcases List.mem_cons.mp hmem with rfl | hmem
    · exact Nat.le_of_eq hab
    · exact hle x hmem hPx
  have hcount := hperm.countP_eq fun z => decide (P z ∧ cost z ≤ cost x)
  have hrest : rest.countP (fun z => decide (P z ∧ cost z ≤ cost x)) = 0 := by
    rw [List.countP_eq_zero]
    intro z hz hc
    have h1 := of_decide_eq_true hc
    have h2 := hlt z hz h1.1
    omega
  have hbx : cost b ≤ cost x := hab ▸ hax
  rw [List.countP_cons_of_pos (by simp [hPx]), hrest, List.countP_cons_of_pos (by simp [hPa, hax]),
    List.countP_cons_of_pos (by simp [hPb, hbx])] at hcount
  omega

/-- What the search has found in the elements that it has seen. -/
def Found (cost : α → Nat) (xs : List α) (p : Pick α) : Prop :=
  (xs = [] ∧ p = ⟨none, false⟩)
    ∨ (∃ x, Cheapest cost (fun _ => True) xs x ∧ p = ⟨some x, false⟩)
    ∨ (∃ x y rest, xs.Perm (x :: y :: rest) ∧ cost x = cost y
        ∧ (∀ z ∈ rest, cost x ≤ cost z) ∧ p = ⟨some x, true⟩)

theorem Found.add {xs : List α} {p : Pick α} (h : Found cost xs p) (z : α) :
    Found cost (xs ++ [z]) (p.add cost z) := by
  have hsnoc : ∀ {ys : List α}, xs.Perm ys → (xs ++ [z]).Perm (z :: ys) := fun hp =>
    List.perm_append_singleton z xs |>.trans (hp.cons z)
  rcases h with ⟨rfl, rfl⟩ | ⟨x, ⟨rest, hp, -, hlt⟩, rfl⟩ | ⟨x, y, rest, hp, hxy, hle, rfl⟩
  · exact Or.inr (Or.inl ⟨z, ⟨[], List.Perm.refl _, trivial, fun y hy => nomatch hy⟩, rfl⟩)
  · rw [Pick.add]
    dsimp only
    by_cases h1 : cost z < cost x
    · rw [if_pos h1]
      refine Or.inr (Or.inl ⟨z, ⟨x :: rest, hsnoc hp, trivial, fun y hy _ => ?_⟩, rfl⟩)
      rcases List.mem_cons.mp hy with rfl | hy
      · exact h1
      · exact Nat.lt_trans h1 (hlt y hy trivial)
    rw [if_neg h1]
    by_cases h2 : cost z = cost x
    · rw [if_pos h2]
      exact Or.inr (Or.inr ⟨x, z, rest, (hsnoc hp).trans (List.Perm.swap x z rest), h2.symm,
        fun y hy => Nat.le_of_lt (hlt y hy trivial), rfl⟩)
    · rw [if_neg h2]
      refine Or.inr (Or.inl ⟨x, ⟨z :: rest, (hsnoc hp).trans (List.Perm.swap x z rest), trivial,
        fun y hy _ => ?_⟩, rfl⟩)
      rcases List.mem_cons.mp hy with rfl | hy
      · omega
      · exact hlt y hy trivial
  · rw [Pick.add]
    dsimp only
    by_cases h1 : cost z < cost x
    · rw [if_pos h1]
      refine Or.inr (Or.inl ⟨z, ⟨x :: y :: rest, hsnoc hp, trivial, fun w hw _ => ?_⟩, rfl⟩)
      rcases List.mem_cons.mp hw with rfl | hw
      · exact h1
      rcases List.mem_cons.mp hw with rfl | hw
      · omega
      · exact Nat.lt_of_lt_of_le h1 (hle w hw)
    · rw [if_neg h1]
      have hkeep : (if cost z = cost x then (⟨some x, true⟩ : Pick α) else ⟨some x, true⟩)
          = ⟨some x, true⟩ := ite_self _
      rw [hkeep]
      have hperm : (xs ++ [z]).Perm (x :: y :: z :: rest) :=
        (hsnoc hp).trans ((List.Perm.swap x z _).trans ((List.Perm.swap y z rest).cons x))
      refine Or.inr (Or.inr ⟨x, y, z :: rest, hperm, hxy, fun w hw => ?_, rfl⟩)
      rcases List.mem_cons.mp hw with rfl | hw
      · exact Nat.not_lt.mp h1
      · exact hle w hw

/-- **What the search finds**: nothing, the one cheapest element, or a tie. -/
theorem pick_found (xs : List α) : Found cost xs (pick cost xs) := by
  induction xs using List.reverseRecOn with
  | nil => exact Or.inl ⟨rfl, rfl⟩
  | append_singleton xs z ih =>
      rw [pick, List.foldl_append]
      exact ih.add z

/-- A list of candidates, each with the element that it comes from. -/
theorem perm_candidates {β : Type} {f : α → Option β} {back : β → α}
    (hback : ∀ x b, f x = some b → back b = x) (xs : List α) :
    xs.Perm ((xs.filterMap f).map back ++ xs.filter fun x => (f x).isNone) := by
  induction xs with
  | nil => exact List.Perm.refl _
  | cons x xs ih =>
      rw [List.filterMap_cons]
      cases hx : f x with
      | none =>
          rw [List.filter_cons_of_pos (by rw [hx]; rfl)]
          exact (ih.cons x).trans List.perm_middle.symm
      | some b =>
          rw [List.filter_cons_of_neg (by rw [hx]; exact Bool.false_ne_true), List.map_cons,
            hback x b hx]
          exact ih.cons x

/-- What is found among the candidates of the elements with `P`. -/
theorem pick_candidates {β : Type} {f : α → Option β} {back : β → α} {cost' : β → Nat}
    (hback : ∀ x b, f x = some b → back b = x) (hcost : ∀ b, cost' b = cost (back b))
    (hP : ∀ x, P x ↔ ∃ b, f x = some b) (xs : List α) :
    (pick cost' (xs.filterMap f) = ⟨none, false⟩ ∧ ∀ x ∈ xs, ¬ P x)
      ∨ (∃ b, pick cost' (xs.filterMap f) = ⟨some b, false⟩ ∧ f (back b) = some b
        ∧ Cheapest cost P xs (back b))
      ∨ (∃ b, pick cost' (xs.filterMap f) = ⟨some b, true⟩ ∧ Tie cost P xs) := by
  have hperm := perm_candidates hback xs
  have hnot : ∀ x ∈ xs.filter fun x => (f x).isNone, ¬ P x := by
    intro x hx hPx
    obtain ⟨b, hb⟩ := (hP x).mp hPx
    have hnone := (List.mem_filter.mp hx).2
    rw [hb] at hnone
    exact nomatch hnone
  have hmem : ∀ b ∈ xs.filterMap f, f (back b) = some b := by
    intro b hb
    obtain ⟨x, -, hx⟩ := List.mem_filterMap.mp hb
    rw [hback x b hx]
    exact hx
  rcases @pick_found _ cost' (xs.filterMap f)
    with ⟨hnil, hpick⟩ | ⟨b, ⟨rest, hp, -, hlt⟩, hpick⟩ | ⟨b, c, rest, hp, hbc, hle, hpick⟩
  · refine Or.inl ⟨hpick, fun x hx hPx => ?_⟩
    obtain ⟨b, hb⟩ := (hP x).mp hPx
    have hb' := List.mem_filterMap.mpr ⟨x, hx, hb⟩
    rw [hnil] at hb'
    exact nomatch hb'
  · have hb := hmem b (hp.mem_iff.mpr List.mem_cons_self)
    refine Or.inr (Or.inl ⟨b, hpick, hb, rest.map back ++ xs.filter fun x => (f x).isNone,
      hperm.trans ((hp.map back).append_right _), (hP _).mpr ⟨b, hb⟩, fun y hy hPy => ?_⟩)
    rcases List.mem_append.mp hy with hy | hy
    · obtain ⟨c, hc, rfl⟩ := List.mem_map.mp hy
      rw [← hcost, ← hcost]
      exact hlt c hc trivial
    · exact absurd hPy (hnot y hy)
  · have hb := hmem b (hp.mem_iff.mpr List.mem_cons_self)
    have hc := hmem c (hp.mem_iff.mpr (List.mem_cons_of_mem b List.mem_cons_self))
    refine Or.inr (Or.inr ⟨b, hpick, back b, back c,
      rest.map back ++ xs.filter fun x => (f x).isNone,
      hperm.trans ((hp.map back).append_right _), (hP _).mpr ⟨b, hb⟩, (hP _).mpr ⟨c, hc⟩,
      by rw [← hcost, ← hcost, hbc], fun y hy hPy => ?_⟩)
    rcases List.mem_append.mp hy with hy | hy
    · obtain ⟨d, hd, rfl⟩ := List.mem_map.mp hy
      rw [← hcost, ← hcost]
      exact hle d hd
    · exact absurd hPy (hnot y hy)

end UniqueMin
