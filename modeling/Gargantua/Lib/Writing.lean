import Mathlib.Data.List.Basic

/-! # Writers that append

    A writer is a state that some text has gone to, and that may have failed.
    `Appends s f t` says that `f` appends exactly `t` whenever it does not fail,
    and that a writer which has failed stays failed.  Statements in a row append
    their texts in a row (`seq`), and so do the rounds of a loop, with or without
    a counter (`each`, `countEach`). -/

namespace Writing

variable {σ ι α : Type}

/-- What is read of a writer: its text, whether it has failed, and what else
    holds of it as long as it is used in order. -/
structure Sink (σ α : Type) where
  content : σ → List α
  failed : σ → Bool
  sound : σ → Prop

/-- A run of `f` that does not fail appends `t`. -/
def Appends (s : Sink σ α) (f : σ → σ) (t : List α) : Prop :=
  ∀ w, s.failed (f w) = false →
    s.failed w = false ∧ (s.sound w → s.sound (f w)) ∧ s.content (f w) = s.content w ++ t

/-- Statements, one after another. -/
def seq (fs : List (σ → σ)) (w : σ) : σ := fs.foldl (fun w f => f w) w

/-- A loop over `xs`. -/
def each (xs : List ι) (body : ι → σ → σ) (w : σ) : σ := xs.foldl (fun w x => body x w) w

/-- The round of a loop that is left once the writer has failed. -/
def guarded (failed : σ → Bool) (f : σ → σ) (w : σ) : σ := if failed w then w else f w

/-- A loop that counts the rounds in which it does something. -/
def countEach (doing : σ → ι → Bool) (body : Nat → ι → σ → σ) (xs : List ι) (r : σ × Nat) : σ × Nat :=
  xs.foldl (fun r x => if doing r.1 x then (body r.2 x r.1, r.2 + 1) else r) r

variable {s : Sink σ α} {f g : σ → σ} {t u : List α}

theorem Appends.of_eq (h : Appends s f t) (heq : t = u) : Appends s f u := heq ▸ h

theorem appends_nothing : Appends s id [] := fun _ h => ⟨h, id, (List.append_nil _).symm⟩

/-- What always fails appends anything. -/
theorem appends_of_fails (h : ∀ w, s.failed (f w) = true) : Appends s f t :=
  fun w hw => nomatch (h w).symm.trans hw

theorem Appends.comp (hf : Appends s f t) (hg : Appends s g u) :
    Appends s (fun w => g (f w)) (t ++ u) := by
  intro w hw
  obtain ⟨hmid, hsound', hu⟩ := hg (f w) hw
  obtain ⟨hstart, hsound, ht⟩ := hf w hmid
  exact ⟨hstart, fun h => hsound' (hsound h), by rw [hu, ht, List.append_assoc]⟩

theorem Appends.ite {c : Prop} [Decidable c] (hf : c → Appends s f t) (hg : ¬ c → Appends s g u) :
    Appends s (if c then f else g) (if c then t else u) := by
  by_cases hc : c
  · rw [if_pos hc, if_pos hc]
    exact hf hc
  · rw [if_neg hc, if_neg hc]
    exact hg hc

/-- A statement that is not always there. -/
theorem Appends.optional {c : Prop} [Decidable c] (hf : c → Appends s f t) :
    Appends s (if c then f else id) (if c then t else []) :=
  Appends.ite hf fun _ => appends_nothing

theorem Appends.guarded (hf : Appends s f t) : Appends s (guarded s.failed f) t := by
  intro w hw
  rw [Writing.guarded] at hw ⊢
  by_cases hfailed : s.failed w = true
  · rw [if_pos hfailed] at hw
    exact nomatch hfailed.symm.trans hw
  · rw [if_neg hfailed] at hw ⊢
    exact hf w hw

theorem Appends.seq {fs : List (σ → σ)} {ts : List (List α)} (h : List.Forall₂ (Appends s) fs ts) :
    Appends s (seq fs) ts.flatten := by
  induction h with
  | nil => exact appends_nothing
  | cons hf _ ih => exact hf.comp ih

theorem appends_each {xs : List ι} {body : ι → σ → σ} {text : ι → List α}
    (h : ∀ x ∈ xs, Appends s (body x) (text x)) : Appends s (each xs body) (xs.flatMap text) := by
  induction xs with
  | nil => exact appends_nothing
  | cons x xs ih =>
      rw [List.flatMap_cons]
      exact (h x List.mem_cons_self).comp (ih fun y hy => h y (List.mem_cons_of_mem x hy))

/-- What a counting loop does: a round that counts is one of the `chosen`, and
    each of these is done unless the writer has failed. -/
structure Counts (s : Sink σ α) (doing : σ → ι → Bool) (chosen : ι → Bool) : Prop where
  only : ∀ w x, doing w x = true → chosen x = true
  every : ∀ w x, s.failed w = false → chosen x = true → doing w x = true

/-- The rounds that count append their texts, the number of the round given. -/
theorem countEach_spec {doing : σ → ι → Bool} {chosen : ι → Bool} {body : Nat → ι → σ → σ}
    {text : Nat → ι → List α} (hcounts : Counts s doing chosen) {xs : List ι} :
    (∀ n, ∀ x ∈ xs, chosen x = true → Appends s (body n x) (text n x)) →
      ∀ {n : Nat} {w : σ}, s.failed (countEach doing body xs (w, n)).1 = false →
        s.failed w = false
          ∧ (s.sound w → s.sound (countEach doing body xs (w, n)).1)
          ∧ s.content (countEach doing body xs (w, n)).1
            = s.content w ++ ((xs.filter chosen).zipIdx n).flatMap (fun x => text x.2 x.1)
          ∧ (countEach doing body xs (w, n)).2 = n + (xs.filter chosen).length := by
  induction xs with
  | nil => exact fun _ _ w hw => ⟨hw, id, (List.append_nil _).symm, rfl⟩
  | cons x xs ih =>
      intro h n w hw
      have hxs : ∀ n, ∀ y ∈ xs, chosen y = true → Appends s (body n y) (text n y) :=
        fun n y hy => h n y (List.mem_cons_of_mem x hy)
      have hstep : countEach doing body (x :: xs) (w, n)
          = countEach doing body xs (if doing w x then (body n x w, n + 1) else (w, n)) := rfl
      rw [hstep] at hw ⊢
      by_cases hx : doing w x = true
      · rw [if_pos hx] at hw ⊢
        obtain ⟨hmid, hsound', hcontent', hcount⟩ := ih hxs hw
        have hchosen := hcounts.only w x hx
        obtain ⟨hstart, hsound, hcontent⟩ := h n x List.mem_cons_self hchosen w hmid
        rw [List.filter_cons_of_pos hchosen, List.zipIdx_cons, List.flatMap_cons, hcontent',
          hcontent, List.append_assoc, hcount, List.length_cons]
        exact ⟨hstart, fun hs => hsound' (hsound hs), rfl, by omega⟩
      · rw [if_neg hx] at hw ⊢
        obtain ⟨hstart, hsound, hcontent, hcount⟩ := ih hxs hw
        rw [List.filter_cons_of_neg fun hc => hx (hcounts.every w x hstart hc)]
        exact ⟨hstart, hsound, hcontent, hcount⟩

/-- Texts in a row, a separator in front of each but the first. -/
def separated (sep : List α) (text : ι → List α) : List ι → List α
  | [] => []
  | x :: xs => text x ++ xs.flatMap fun x => sep ++ text x

theorem separated_map {κ : Type} (sep : List α) (text : ι → List α) (f : κ → ι) (xs : List κ) :
    separated sep text (xs.map f) = separated sep (fun x => text (f x)) xs := by
  cases xs with
  | nil => rfl
  | cons x xs => rw [List.map_cons, separated, separated, List.flatMap_map]

/-- A loop that puts `first 0` in front of its first text, and the separator in
    front of every other one. -/
theorem zipIdx_separated {sep : List α} {text : ι → List α} {first : Nat → List α}
    (hfirst : ∀ n, n ≠ 0 → first n = sep) (xs : List ι) :
    xs.zipIdx.flatMap (fun x => first x.2 ++ text x.1)
      = if xs = [] then [] else first 0 ++ separated sep text xs := by
  have hlater : ∀ (ys : List ι) (n : Nat),
      (ys.zipIdx (n + 1)).flatMap (fun x => first x.2 ++ text x.1)
        = ys.flatMap fun x => sep ++ text x := by
    intro ys
    induction ys with
    | nil => exact fun n => rfl
    | cons y ys ih =>
        intro n
        rw [List.zipIdx_cons, List.flatMap_cons, List.flatMap_cons, ih, hfirst _ (Nat.succ_ne_zero n)]
  cases xs with
  | nil => rfl
  | cons x xs =>
      rw [if_neg (List.cons_ne_nil x xs), List.zipIdx_cons, List.flatMap_cons, hlater, separated,
        List.append_assoc]

end Writing
