import Mathlib.Data.List.Basic

/-! # Writing items into the room that is left

    Items are written one behind the other, each as its code.  An item is cut
    where the room ends, except a whole one: that is written when its code fits,
    and passed over when it does not.  So a later item may be written where a
    whole one was passed over, and what is written is no longer the start of the
    text.  `noGap_iff` says for which items that does not happen; then what is
    written is the text as far as the room goes (`fits_front`). -/

namespace Truncation

variable {α β : Type} (code : α → List β) (whole : α → Bool)

/-- What is written of an item, when there is room for `n`. -/
def fit (n : Nat) (a : α) : List β :=
  if (code a).length ≤ n then code a
  else if whole a then []
  else (code a).take n

/-- What is written of items, when there is room for `n`. -/
def fits : Nat → List α → List β
  | _, [] => []
  | n, a :: s => fit code whole n a ++ fits (n - (fit code whole n a).length) s

/-- Nothing is written behind an item that is not there in full. -/
def NoGap (n : Nat) (s : List α) : Prop :=
  ∀ pre a post, s = pre ++ a :: post →
    fits code whole (n - (fits code whole n (pre ++ [a])).length) post ≠ [] →
    fit code whole (n - (fits code whole n pre).length) a = code a

/-- Behind a whole item that passes the end of the room, no item fits in front of
    that end. -/
def Sealed (n : Nat) (s : List α) : Prop :=
  ∀ pre a post, s = pre ++ a :: post → whole a = true →
    (pre.flatMap code).length < n → n < (pre.flatMap code).length + (code a).length →
    ∀ b ∈ post, whole b = true ∧ n < (pre.flatMap code).length + (code b).length

variable {code whole}

/-! ## One item -/

theorem fit_fits {n : Nat} {a : α} (h : (code a).length ≤ n) : fit code whole n a = code a :=
  if_pos h

theorem fit_whole {n : Nat} {a : α} (h : n < (code a).length) (hwhole : whole a = true) :
    fit code whole n a = [] := by
  rw [fit, if_neg (Nat.not_le.mpr h), if_pos hwhole]

theorem fit_cut {n : Nat} {a : α} (h : n < (code a).length) (hcut : whole a = false) :
    fit code whole n a = (code a).take n := by
  rw [fit, if_neg (Nat.not_le.mpr h), hcut]
  rfl

theorem fit_take {n : Nat} {a : α} (hcut : whole a = false) :
    fit code whole n a = (code a).take n := by
  by_cases h : (code a).length ≤ n
  · rw [fit_fits h, List.take_of_length_le h]
  · exact fit_cut (Nat.not_le.mp h) hcut

theorem fit_length (n : Nat) (a : α) : (fit code whole n a).length ≤ n := by
  rw [fit]
  split_ifs with h hwhole
  · exact h
  · exact Nat.zero_le n
  · exact List.length_take_le n (code a)

/-- What is written of an item is the start of its code. -/
theorem fit_front (n : Nat) (a : α) : fit code whole n a <+: code a := by
  rw [fit]
  split_ifs with h hwhole
  · exact List.prefix_rfl
  · exact List.nil_prefix
  · exact List.take_prefix n (code a)

theorem fit_zero (a : α) : fit code whole 0 a = [] :=
  List.eq_nil_of_length_eq_zero (Nat.le_zero.mp (fit_length 0 a))

/-! ## A text -/

theorem fits_length : ∀ (n : Nat) (s : List α), (fits code whole n s).length ≤ n := by
  intro n s
  induction s generalizing n with
  | nil => exact Nat.zero_le n
  | cons a s ih =>
      have hone := @fit_length _ _ code whole n a
      have hrest := ih (n - (fit code whole n a).length)
      rw [fits, List.length_append]
      omega

theorem fits_zero (s : List α) : fits code whole 0 s = [] :=
  List.eq_nil_of_length_eq_zero (Nat.le_zero.mp (fits_length 0 s))

/-- Two texts, one behind the other. -/
theorem fits_append (n : Nat) (s t : List α) :
    fits code whole n (s ++ t)
      = fits code whole n s ++ fits code whole (n - (fits code whole n s).length) t := by
  induction s generalizing n with
  | nil => rfl
  | cons a s ih =>
      rw [List.cons_append, fits, fits, ih, List.append_assoc, List.length_append, Nat.sub_add_eq]

/-- A text that fits is written. -/
theorem fits_all {n : Nat} {s : List α} (h : (s.flatMap code).length ≤ n) :
    fits code whole n s = s.flatMap code := by
  induction s generalizing n with
  | nil => rfl
  | cons a s ih =>
      rw [List.flatMap_cons, List.length_append] at h
      rw [fits, fit_fits (by omega), ih (by omega), List.flatMap_cons]

/-- Behind an item that fits, the others are sealed. -/
theorem Sealed.tail {n : Nat} {a : α} {s : List α} (h : Sealed code whole n (a :: s))
    (hfit : (code a).length ≤ n) : Sealed code whole (n - (code a).length) s := by
  intro pre b post hs hwhole hlt hpast c hc
  have hlen : ((a :: pre).flatMap code).length = (code a).length + (pre.flatMap code).length := by
    rw [List.flatMap_cons, List.length_append]
  obtain ⟨hc, hc'⟩ := h (a :: pre) b post (by rw [hs]; rfl) hwhole (by omega) (by omega) c hc
  exact ⟨hc, by omega⟩

section Nonempty

/-! Every item has a code. -/

variable (hcode : ∀ a, code a ≠ [])

include hcode

/-- Nothing is written of items exactly when there is no room, or all of them are
    whole and do not fit. -/
theorem fits_eq_nil_iff {n : Nat} {s : List α} :
    fits code whole n s = [] ↔ n = 0 ∨ ∀ b ∈ s, whole b = true ∧ n < (code b).length := by
  induction s with
  | nil =>
      constructor
      · intro _
        exact .inr (by simp)
      · intro _
        rfl
  | cons a s ih =>
      rw [fits, List.append_eq_nil_iff]
      constructor
      · rintro ⟨hnone, hrest⟩
        rw [hnone, List.length_nil, Nat.sub_zero, ih] at hrest
        rcases hrest with hzero | hrest
        · exact .inl hzero
        by_cases hfit : (code a).length ≤ n
        · rw [fit_fits hfit] at hnone
          exact absurd hnone (hcode a)
        have hlt := Nat.not_le.mp hfit
        -- it does not fit: a whole item is passed over, and of another one at least a part is written
        cases hwhole : whole a with
        | true =>
            refine .inr fun b hb => ?_
            rcases List.mem_cons.mp hb with rfl | hb
            · exact ⟨hwhole, hlt⟩
            · exact hrest b hb
        | false =>
            rw [fit_cut hlt hwhole] at hnone
            have hlen := congrArg List.length hnone
            rw [List.length_take, List.length_nil] at hlen
            exact .inl (by omega)
      · intro h
        have hnone : fit code whole n a = [] := by
          rcases h with rfl | h
          · exact fit_zero a
          · obtain ⟨hwhole, hlt⟩ := h a List.mem_cons_self
            exact fit_whole hlt hwhole
        refine ⟨hnone, ?_⟩
        rw [hnone, List.length_nil, Nat.sub_zero, ih]
        exact h.imp_right fun h b hb => h b (List.mem_cons_of_mem a hb)

/-- **Behind an item that does not fit nothing is written**, where the items are
    sealed. -/
theorem Sealed.stop {n : Nat} {a : α} {s : List α} (h : Sealed code whole n (a :: s))
    (hlt : n < (code a).length) :
    fits code whole (n - (fit code whole n a).length) s = [] := by
  cases hwhole : whole a with
  | true =>
      rw [fit_whole hlt hwhole, List.length_nil, Nat.sub_zero, fits_eq_nil_iff hcode]
      by_cases hzero : n = 0
      · exact .inl hzero
      · refine .inr fun b hb => ?_
        have hb' := h [] a s rfl hwhole (Nat.pos_of_ne_zero hzero)
          (by simpa using hlt) b hb
        exact ⟨hb'.1, by simpa using hb'.2⟩
  | false =>
      -- the part of the item fills the room
      have hlen : (fit code whole n a).length = n := by
        rw [fit_cut hlt hwhole, List.length_take]
        omega
      rw [hlen, Nat.sub_self, fits_zero]

/-- **What is written of sealed items is the start of the text.** -/
theorem fits_front {n : Nat} {s : List α} (h : Sealed code whole n s) :
    fits code whole n s <+: s.flatMap code := by
  induction s generalizing n with
  | nil => exact List.nil_prefix
  | cons a s ih =>
      rw [fits, List.flatMap_cons]
      by_cases hfit : (code a).length ≤ n
      · rw [fit_fits hfit]
        exact List.prefix_append_right_inj (code a) |>.mpr (ih (h.tail hfit))
      · rw [h.stop hcode (Nat.not_le.mp hfit), List.append_nil]
        exact (fit_front n a).trans (List.prefix_append _ _)

theorem Sealed.noGap {n : Nat} {s : List α} (h : Sealed code whole n s) :
    NoGap code whole n s := by
  intro pre
  induction pre generalizing n s with
  | nil =>
      intro a post hs hpost
      subst hs
      rw [List.nil_append, fits, fits, List.append_nil] at hpost
      by_cases hfit : (code a).length ≤ n
      · exact fit_fits hfit
      · exact absurd (h.stop hcode (Nat.not_le.mp hfit)) hpost
  | cons c pre ih =>
      intro a post hs hpost
      subst hs
      have hsplit : ∀ t : List α, n - (fits code whole n (c :: t)).length
          = n - (fit code whole n c).length
            - (fits code whole (n - (fit code whole n c).length) t).length := by
        intro t
        rw [fits, List.length_append, Nat.sub_add_eq]
      rw [hsplit]
      rw [List.cons_append, hsplit] at hpost
      by_cases hfit : (code c).length ≤ n
      · rw [fit_fits hfit] at hpost ⊢
        exact ih (h.tail hfit) a post rfl hpost
      · -- what is written behind `a` is written behind `c`
        have hstop := h.stop hcode (Nat.not_le.mp hfit)
        rw [show pre.append (a :: post) = (pre ++ [a]) ++ post from List.append_cons pre a post,
          fits_append, List.append_eq_nil_iff] at hstop
        exact absurd hstop.2 hpost

theorem NoGap.isSealed {n : Nat} {s : List α} (h : NoGap code whole n s) :
    Sealed code whole n s := by
  intro pre a post hs hwhole hlt hpast
  have hpre : fits code whole n pre = pre.flatMap code := fits_all (Nat.le_of_lt hlt)
  have hshort : n - (pre.flatMap code).length < (code a).length := by omega
  have hnone := fit_whole hshort hwhole
  have hupto : fits code whole n (pre ++ [a]) = pre.flatMap code := by
    rw [fits_append, hpre, fits, hnone, fits, List.append_nil, List.append_nil]
  -- what would be written behind `a` would make a gap of it
  have hpost : fits code whole (n - (pre.flatMap code).length) post = [] := by
    by_contra hpost
    have hfull := h pre a post hs
    rw [hupto, hpre, hnone] at hfull
    exact hcode a (hfull hpost).symm
  rcases (fits_eq_nil_iff hcode).mp hpost with hzero | hall
  · omega
  · intro b hb
    obtain ⟨hb, hb'⟩ := hall b hb
    exact ⟨hb, by omega⟩

/-- **Nothing is written behind a gap exactly for sealed items.** -/
theorem noGap_iff {n : Nat} {s : List α} : NoGap code whole n s ↔ Sealed code whole n s :=
  ⟨NoGap.isSealed hcode, Sealed.noGap hcode⟩

end Nonempty

end Truncation
