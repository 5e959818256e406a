import Mathlib.Data.List.TakeWhile

/-! # Strings cut at a separator

    A walker that reads up to the next separator, steps over it and stops at the
    end of the string sees a list of segments; a separator at the very end adds
    none.  `slashed` is the string with a separator in front of each segment,
    and the two are inverse to each other on strings that do not end in a
    separator. -/

namespace Segments

variable {α : Type} (sep : α)

/-- The segments that the walker sees. -/
def segments [DecidableEq α] : List α → List (List α)
  | [] => []
  | c :: s =>
      if c = sep then [] :: segments s
      else
        match segments s with
        | [] => [[c]]
        | x :: xs => (c :: x) :: xs

/-- The string with a separator in front of each segment. -/
def slashed (xs : List (List α)) : List α := xs.flatMap (sep :: ·)

variable {sep}

@[simp] theorem slashed_nil : slashed sep [] = [] := rfl

@[simp] theorem slashed_cons (x : List α) (xs : List (List α)) :
    slashed sep (x :: xs) = sep :: (x ++ slashed sep xs) := rfl

variable [DecidableEq α]

@[simp] theorem segments_nil : segments sep [] = [] := rfl

@[simp] theorem segments_sep (s : List α) : segments sep (sep :: s) = [] :: segments sep s := by
  rw [segments, if_pos rfl]

/-- The walker's step. -/
theorem segments_step {s : List α} (h : s ≠ []) :
    segments sep s
      = s.takeWhile (· != sep) :: segments sep ((s.dropWhile (· != sep)).drop 1) := by
  induction s with
  | nil => exact absurd rfl h
  | cons c s ih =>
      by_cases hc : c = sep
      · subst hc
        rw [segments_sep, List.takeWhile_cons_of_neg (by simp),
          List.dropWhile_cons_of_neg (by simp), List.drop_one, List.tail_cons]
      · have hb : (c != sep) = true := bne_iff_ne.mpr hc
        have htake : (c :: s).takeWhile (· != sep) = c :: s.takeWhile (· != sep) :=
          List.takeWhile_cons_of_pos hb
        have hdrop : (c :: s).dropWhile (· != sep) = s.dropWhile (· != sep) :=
          List.dropWhile_cons_of_pos hb
        rw [segments, if_neg hc, htake, hdrop]
        cases s with
        | nil => rfl
        | cons d s => rw [ih (List.cons_ne_nil d s)]

theorem segments_eq_nil {s : List α} : segments sep s = [] ↔ s = [] := by
  constructor
  · intro h
    by_contra hs
    rw [segments_step hs] at h
    exact nomatch h
  · rintro rfl
    rfl

/-- No segment holds a separator. -/
theorem sep_not_mem {s x : List α} (hx : x ∈ segments sep s) : sep ∉ x := by
  induction s generalizing x with
  | nil => exact nomatch hx
  | cons c s ih =>
      by_cases hc : c = sep
      · subst hc
        rw [segments_sep] at hx
        rcases List.mem_cons.mp hx with rfl | hx
        · exact List.not_mem_nil
        · exact ih hx
      · rw [segments, if_neg hc] at hx
        cases hs : segments sep s with
        | nil =>
            rw [hs] at hx
            rw [List.mem_singleton.mp hx, List.mem_singleton]
            exact fun h => hc h.symm
        | cons y ys =>
            rw [hs] at hx
            rcases List.mem_cons.mp hx with rfl | hx
            · rintro (_ | ⟨_, hm⟩)
              · exact hc rfl
              · exact ih (hs ▸ List.mem_cons_self) hm
            · exact ih (hs ▸ List.mem_cons_of_mem y hx)

/-- The bytes of a segment are bytes of the string. -/
theorem mem_of_mem_segments {s x : List α} {c : α} (hx : x ∈ segments sep s) (hc : c ∈ x) :
    c ∈ s := by
  induction s generalizing x with
  | nil => exact nomatch hx
  | cons d s ih =>
      by_cases hd : d = sep
      · subst hd
        rw [segments_sep] at hx
        rcases List.mem_cons.mp hx with rfl | hx
        · exact nomatch hc
        · exact List.mem_cons_of_mem d (ih hx hc)
      · rw [segments, if_neg hd] at hx
        cases hs : segments sep s with
        | nil =>
            rw [hs] at hx
            rw [List.mem_singleton.mp hx] at hc
            exact List.mem_cons.mpr (Or.inl (List.mem_singleton.mp hc))
        | cons y ys =>
            rw [hs] at hx
            rcases List.mem_cons.mp hx with rfl | hx
            · rcases List.mem_cons.mp hc with rfl | hc
              · exact List.mem_cons_self
              · exact List.mem_cons_of_mem d (ih (hs ▸ List.mem_cons_self) hc)
            · exact List.mem_cons_of_mem d (ih (hs ▸ List.mem_cons_of_mem y hx) hc)

/-- A segment in front of separated ones is the first. -/
theorem segments_append_slashed {x : List α} (hx : x ≠ []) (hsep : sep ∉ x)
    (xs : List (List α)) :
    segments sep (x ++ slashed sep xs) = x :: segments sep (slashed sep xs).tail := by
  have hall : ∀ c ∈ x, (c != sep) = true :=
    fun c hc => bne_iff_ne.mpr fun h => hsep (h ▸ hc)
  have hstart : (slashed sep xs).takeWhile (· != sep) = []
      ∧ (slashed sep xs).dropWhile (· != sep) = slashed sep xs := by
    cases xs with
    | nil => exact ⟨rfl, rfl⟩
    | cons y ys =>
        rw [slashed_cons, List.takeWhile_cons_of_neg (by simp),
          List.dropWhile_cons_of_neg (by simp)]
        exact ⟨rfl, rfl⟩
  rw [segments_step (by simp [hx]), List.takeWhile_append_of_pos hall,
    List.dropWhile_append_of_pos hall, hstart.1, hstart.2, List.append_nil, List.drop_one]

/-- Cutting a separated string gives its segments back. -/
theorem segments_slashed {xs : List (List α)} (hne : ∀ x ∈ xs, x ≠ [])
    (hsep : ∀ x ∈ xs, sep ∉ x) : segments sep (slashed sep xs).tail = xs := by
  induction xs with
  | nil => rfl
  | cons x xs ih =>
      rw [slashed_cons, List.tail_cons,
        segments_append_slashed (hne x List.mem_cons_self) (hsep x List.mem_cons_self),
        ih (fun y hy => hne y (List.mem_cons_of_mem x hy))
          (fun y hy => hsep y (List.mem_cons_of_mem x hy))]

/-- And a string that does not end in a separator is put together again. -/
theorem slashed_segments {s : List α} (h : s ≠ []) (hlast : s.getLast? ≠ some sep) :
    slashed sep (segments sep s) = sep :: s := by
  induction s with
  | nil => exact absurd rfl h
  | cons c s ih =>
      by_cases hs : s = []
      · subst hs
        have hc : c ≠ sep := fun hc => hlast (by rw [hc]; rfl)
        rw [segments, if_neg hc]
        rfl
      · have hlast' : s.getLast? ≠ some sep := by
          obtain ⟨d, s, rfl⟩ := List.exists_cons_of_ne_nil hs
          rw [List.getLast?_cons_cons] at hlast
          exact hlast
        have hih := ih hs hlast'
        by_cases hc : c = sep
        · subst hc
          rw [segments_sep, slashed_cons, List.nil_append, hih]
        · rw [segments, if_neg hc]
          cases hseg : segments sep s with
          | nil => exact absurd (segments_eq_nil.mp hseg) hs
          | cons x xs =>
              rw [hseg, slashed_cons] at hih
              rw [slashed_cons, List.cons_append, (List.cons.inj hih).2]

end Segments
