import Mathlib.Data.List.MinMax
import Mathlib.Algebra.Order.Group.Int

/-! # Counting in fixed windows

    A limiter grants at most `limit` events in a window, and windows start at
    least `width` apart.  Where such windows meet, an interval of one width can
    hold the grants of two of them, and never those of a third. -/

namespace FixedWindow

/-- A granted event: its time, and the start of the window it was counted in. -/
structure Grant where
  time : Int
  window : Int
  deriving Repr, DecidableEq

/-- What a limiter with fixed windows keeps of its grants. -/
structure Fair (width : Int) (limit : Nat) (grants : List Grant) : Prop where
  inside : ∀ g ∈ grants, g.window ≤ g.time ∧ g.time < g.window + width
  apart : ∀ g ∈ grants, ∀ h ∈ grants, g.window < h.window → g.window + width ≤ h.window
  few : ∀ w, grants.countP (fun g => g.window = w) ≤ limit

variable {width : Int} {limit : Nat} {grants : List Grant}

theorem fair_nil : Fair width limit [] where
  inside _ h := nomatch h
  apart _ h := nomatch h
  few _ := Nat.zero_le limit

/-- One more grant, in the latest window or in one that starts a width later. -/
theorem Fair.add (h : Fair width limit grants) {g : Grant}
    (hin : g.window ≤ g.time ∧ g.time < g.window + width)
    (hlate : ∀ x ∈ grants, x.window = g.window ∨ x.window + width ≤ g.window)
    (hroom : grants.countP (fun x => x.window = g.window) < limit) :
    Fair width limit (grants ++ [g]) where
  inside x hx := by
    rcases List.mem_append.mp hx with hx | hx
    · exact h.inside x hx
    · rw [List.mem_singleton.mp hx]
      exact hin
  apart x hx y hy hlt := by
    rcases List.mem_append.mp hx with hx | hx
    · rcases List.mem_append.mp hy with hy | hy
      · exact h.apart x hx y hy hlt
      · rw [List.mem_singleton.mp hy] at hlt ⊢
        exact (hlate x hx).resolve_left fun heq => by omega
    · rw [List.mem_singleton.mp hx] at hlt ⊢
      rcases List.mem_append.mp hy with hy | hy
      · rcases hlate y hy with heq | hle
        · omega
        · have hi := hin
          omega
      · rw [List.mem_singleton.mp hy] at hlt
        omega
  few w := by
    rw [List.countP_append, List.countP_singleton]
    by_cases hw : g.window = w
    · subst hw
      rw [if_pos (decide_eq_true rfl)]
      exact hroom
    · rw [if_neg (by simpa using hw)]
      exact h.few w

/-- Grants of an interval of one width that are not in its first window are all
    in one window. -/
theorem Fair.second (h : Fair width limit grants) {t : Int} {g x y : Grant} (hg : g ∈ grants)
    (hx : x ∈ grants) (hy : y ∈ grants) (ht : t ≤ g.time) (hy' : y.time ≤ t + width)
    (hgx : g.window < x.window) : ¬ x.window < y.window := by
  intro hxy
  have h1 := (h.inside g hg).2
  have h2 := h.apart g hg x hx hgx
  have h3 := h.apart x hx y hy hxy
  have h4 := (h.inside y hy).1
  omega

/-- **An interval of one width holds the grants of at most two windows.** -/
theorem Fair.interval (h : Fair width limit grants) (t : Int) :
    grants.countP (fun g => t ≤ g.time ∧ g.time ≤ t + width) ≤ 2 * limit := by
  rw [List.countP_eq_length_filter]
  generalize hs : grants.filter (fun g => decide (t ≤ g.time ∧ g.time ≤ t + width)) = s
  have hmem : ∀ g ∈ s, g ∈ grants ∧ t ≤ g.time ∧ g.time ≤ t + width := by
    intro g hg
    rw [← hs, List.mem_filter, decide_eq_true_eq] at hg
    exact hg
  have hfew : ∀ w, s.countP (fun g => g.window = w) ≤ limit := by
    intro w
    refine Nat.le_trans ?_ (h.few w)
    rw [← hs]
    exact List.Sublist.countP_le List.filter_sublist
  cases hmin : s.argmin Grant.window with
  | none =>
      rw [List.argmin_eq_none.mp hmin]
      exact Nat.zero_le _
  | some g =>
      have hg := hmem g (List.argmin_mem hmin)
      have hleast : ∀ x ∈ s, g.window ≤ x.window := fun x hx =>
        List.le_of_mem_argmin hx hmin
      -- the grants of the first window, and those of one later window
      have hsplit := List.length_eq_countP_add_countP (fun x => decide (x.window = g.window))
        (l := s)
      have hfirst := hfew g.window
      have hlater : s.countP (fun x => ¬ decide (x.window = g.window) = true) ≤ limit := by
        by_cases hnone : ∀ x ∈ s, x.window = g.window
        · have hzero : s.countP (fun x => ¬ decide (x.window = g.window) = true) = 0 := by
            rw [List.countP_eq_zero]
            intro x hx
            simp [hnone x hx]
          omega
        · simp only [not_forall] at hnone
          obtain ⟨x, hx, hne⟩ := hnone
          have hgx : g.window < x.window := lt_of_le_of_ne (hleast x hx) (Ne.symm hne)
          refine Nat.le_trans (List.countP_mono_left ?_) (hfew x.window)
          intro y hy hne'
          have hgy : g.window < y.window := by
            refine lt_of_le_of_ne (hleast y hy) fun heq => ?_
            simp [heq] at hne'
          have h1 := h.second hg.1 (hmem x hx).1 (hmem y hy).1 hg.2.1 (hmem y hy).2.2 hgx
          have h2 := h.second hg.1 (hmem y hy).1 (hmem x hx).1 hg.2.1 (hmem x hx).2.2 hgy
          rw [decide_eq_true_eq]
          omega
      omega

end FixedWindow
