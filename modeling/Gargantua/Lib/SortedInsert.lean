import Mathlib.Data.List.Sort

/-! # Insertion into a sorted array

    The step of an insertion sort over an array: look from the end for the first
    place whose left neighbour is not larger, refuse a key that is already
    there, and move the elements behind it by one.  Over an array that is
    strictly sorted by key the place is found by comparing with two neighbours
    only, and the array stays strictly sorted. -/

namespace SortedInsert

variable {α : Type} (key : α → Nat)

/-- Strictly sorted by key. -/
def Sorted (xs : List α) : Prop := xs.Pairwise fun a b => key a < key b

instance (xs : List α) : Decidable (Sorted key xs) :=
  inferInstanceAs (Decidable (xs.Pairwise fun a b => key a < key b))

/-- The place for a key, looking down from `pos`. -/
def insertPos (xs : List α) (k : Nat) : Nat → Nat
  | 0 => 0
  | pos + 1 =>
      match xs[pos]? with
      | some x => if key x > k then insertPos xs k pos else pos + 1
      | none => pos + 1

/-- The neighbours of a place hold the key already. -/
def taken (xs : List α) (k pos : Nat) : Bool :=
  (0 < pos && (xs[pos - 1]?).any fun x => key x == k)
    || (xs[pos]?).any fun x => key x == k

/-- The array with one more element at a place. -/
def insertAt (xs : List α) (pos : Nat) (x : α) : List α := xs.take pos ++ x :: xs.drop pos

theorem insertAt_perm (xs : List α) (pos : Nat) (x : α) :
    (insertAt xs pos x).Perm (x :: xs) := by
  rw [insertAt]
  refine List.perm_middle.trans ?_
  rw [List.take_append_drop]

variable {key}

/-- Two strictly sorted lists with the same elements are the same list. -/
theorem Sorted.eq_of_perm {xs ys : List α} (hx : Sorted key xs) (hy : Sorted key ys)
    (h : xs.Perm ys) : xs = ys := by
  have hanti : ∀ a b, a ∈ xs → b ∈ ys → key a < key b → key b < key a → a = b := by
    intro a b _ _ hab hba
    exact absurd hab (by omega)
  exact List.Perm.eq_of_pairwise hanti hx hy h

/-- The keys of a strictly sorted list are distinct. -/
theorem Sorted.nodup {xs : List α} (h : Sorted key xs) : (xs.map key).Nodup := by
  refine List.pairwise_map.mpr (h.imp ?_)
  intro a b hab
  omega

theorem Sorted.get_lt {xs : List α} (h : Sorted key xs) {i j : Nat} {a b : α} (hij : i < j)
    (hi : xs[i]? = some a) (hj : xs[j]? = some b) : key a < key b := by
  obtain ⟨hil, rfl⟩ := List.getElem?_eq_some_iff.mp hi
  obtain ⟨hjl, rfl⟩ := List.getElem?_eq_some_iff.mp hj
  exact List.pairwise_iff_getElem.mp h i j hil hjl hij

variable (key) in
/-- Every element from the place on is larger, the one before it is not. -/
theorem insertPos_spec (xs : List α) (k : Nat) :
    ∀ n, n ≤ xs.length → insertPos key xs k n ≤ n
      ∧ (∀ i x, insertPos key xs k n ≤ i → i < n → xs[i]? = some x → k < key x)
      ∧ (∀ x, 0 < insertPos key xs k n → xs[insertPos key xs k n - 1]? = some x →
          key x ≤ k) := by
  intro n
  induction n with
  | zero =>
      intro _
      exact ⟨Nat.le_refl 0, fun i x _ hi => absurd hi (Nat.not_lt_zero i),
        fun x h => absurd h (Nat.lt_irrefl 0)⟩
  | succ n ih =>
      intro hn
      have hget : xs[n]? = some (xs.get ⟨n, hn⟩) := List.getElem?_eq_getElem hn
      rw [insertPos, hget]
      dsimp only
      by_cases hk : key (xs.get ⟨n, hn⟩) > k
      · rw [if_pos hk]
        obtain ⟨h1, h2, h3⟩ := ih (by omega)
        refine ⟨by omega, ?_, h3⟩
        intro i x hi hlt hx
        by_cases hin : i < n
        · exact h2 i x hi hin hx
        · obtain rfl : i = n := by omega
          rw [hget] at hx
          rw [← Option.some.inj hx]
          exact hk
      · rw [if_neg hk]
        refine ⟨Nat.le_refl _, fun i x hi hlt => by omega, ?_⟩
        intro x _ hx
        rw [Nat.add_sub_cancel, hget] at hx
        rw [← Option.some.inj hx]
        omega

/-- Over a sorted array the place splits it by the key. -/
theorem insertPos_split {xs : List α} (hs : Sorted key xs) (k : Nat) :
    (∀ x ∈ xs.take (insertPos key xs k xs.length), key x ≤ k)
      ∧ (∀ x ∈ xs.drop (insertPos key xs k xs.length), k < key x) := by
  obtain ⟨hle, hright, hleft⟩ := insertPos_spec key xs k xs.length (Nat.le_refl _)
  constructor
  · intro x hx
    obtain ⟨i, hi⟩ := List.getElem?_of_mem hx
    obtain ⟨hil, -⟩ := List.getElem?_eq_some_iff.mp hi
    have hip : i < insertPos key xs k xs.length := by
      rw [List.length_take] at hil
      omega
    rw [List.getElem?_take_of_lt hip] at hi
    -- the neighbour of the place is the largest on the left
    have hlt : insertPos key xs k xs.length - 1 < xs.length := by omega
    have hlast := List.getElem?_eq_getElem hlt
    have hmax := hleft _ (by omega) hlast
    by_cases hil' : i = insertPos key xs k xs.length - 1
    · rw [hil', hlast] at hi
      rw [← Option.some.inj hi]
      exact hmax
    · have := hs.get_lt (by omega : i < insertPos key xs k xs.length - 1) hi hlast
      omega
  · intro x hx
    obtain ⟨i, hi⟩ := List.getElem?_of_mem hx
    rw [List.getElem?_drop] at hi
    obtain ⟨hil, -⟩ := List.getElem?_eq_some_iff.mp hi
    exact hright _ x (by omega) hil hi

/-- A key is refused exactly when the array holds it. -/
theorem taken_iff {xs : List α} (hs : Sorted key xs) (k : Nat) :
    taken key xs k (insertPos key xs k xs.length) = true ↔ k ∈ xs.map key := by
  obtain ⟨hle, hright, hleft⟩ := insertPos_spec key xs k xs.length (Nat.le_refl _)
  rw [taken, Bool.or_eq_true, Bool.and_eq_true, decide_eq_true_eq, Option.any_eq_true,
    Option.any_eq_true, List.mem_map]
  constructor
  · rintro (⟨-, x, hx, hk⟩ | ⟨x, hx, hk⟩)
    · exact ⟨x, List.mem_of_getElem? hx, beq_iff_eq.mp hk⟩
    · exact ⟨x, List.mem_of_getElem? hx, beq_iff_eq.mp hk⟩
  · rintro ⟨x, hx, hk⟩
    obtain ⟨i, hi⟩ := List.getElem?_of_mem hx
    obtain ⟨hil, -⟩ := List.getElem?_eq_some_iff.mp hi
    -- the element lies left of the place, and no larger one lies in between
    have hip : i < insertPos key xs k xs.length := by
      by_contra hge
      have := hright i x (by omega) hil hi
      omega
    refine Or.inl ⟨by omega, ?_⟩
    have hlt : insertPos key xs k xs.length - 1 < xs.length := by omega
    have hlast := List.getElem?_eq_getElem hlt
    have hmax := hleft _ (by omega) hlast
    refine ⟨_, hlast, beq_iff_eq.mpr ?_⟩
    by_cases hil' : i = insertPos key xs k xs.length - 1
    · rw [hil', hlast] at hi
      rw [Option.some.inj hi]
      exact hk
    · have := hs.get_lt (by omega : i < insertPos key xs k xs.length - 1) hi hlast
      omega

/-- A new key keeps the array sorted. -/
theorem insertAt_sorted {xs : List α} (hs : Sorted key xs) {k : Nat} {x : α}
    (hx : key x = k) (hnew : k ∉ xs.map key) :
    Sorted key (insertAt xs (insertPos key xs k xs.length) x) := by
  obtain ⟨hleft, hright⟩ := insertPos_split hs k
  have hleft' : ∀ y ∈ xs.take (insertPos key xs k xs.length), key y < k := by
    intro y hy
    refine Nat.lt_of_le_of_ne (hleft y hy) fun heq => hnew ?_
    exact List.mem_map.mpr ⟨y, List.mem_of_mem_take hy, heq⟩
  refine List.pairwise_append.mpr ⟨hs.sublist (List.take_sublist _ _), ?_, ?_⟩
  · refine List.pairwise_cons.mpr ⟨fun y hy => ?_, hs.sublist (List.drop_sublist _ _)⟩
    rw [hx]
    exact hright y hy
  · intro y hy z hz
    have hyk := hleft' y hy
    rcases List.mem_cons.mp hz with rfl | hz
    · omega
    · have := hright z hz
      omega

end SortedInsert
