import Mathlib.Data.List.DropRight

/-! # Scanning loops — reading a list up to a stop element

    A hand-written parser over a byte buffer is mostly one loop: advance while
    the element is not a stop element, fail on an element that is not allowed,
    and hand back what was read together with the rest.  `scan` is that loop,
    `scanCap` the same loop with a bound on how much it may copy.

    Each has one characterisation: it succeeds with `(out, rest)` exactly when
    the input is `out ++ rest`, every element of `out` passes, and the loop had
    a reason to stop.  Callers cite the characterisation and never the loop. -/

namespace Scan

variable {α : Type}

/-- The loop has a reason to stop in front of `rest`. -/
def Stops (stop : α → Bool) : List α → Prop
  | [] => True
  | c :: _ => stop c = true

/-- Read up to the first stop element (or the end), failing on an element that
    is not allowed. -/
def scan (stop ok : α → Bool) : List α → Option (List α × List α)
  | [] => some ([], [])
  | c :: cs =>
      if stop c then some ([], c :: cs)
      else if ok c then (scan stop ok cs).map fun r => (c :: r.1, r.2)
      else none

/-- `scan` with a copy bound: fails as soon as one more element would make
    `cap` or more of them, `n` having been copied before. -/
def scanCap (stop ok : α → Bool) (cap : Nat) :
    Nat → List α → Option (List α × List α)
  | _, [] => some ([], [])
  | n, c :: cs =>
      if stop c then some ([], c :: cs)
      else if ok c then
        if n + 1 ≥ cap then none
        else (scanCap stop ok cap (n + 1) cs).map fun r => (c :: r.1, r.2)
      else none

/-- What `scan` returns splits the input. -/
theorem scan_sound {stop ok : α → Bool} :
    ∀ {s out rest : List α}, scan stop ok s = some (out, rest) →
      s = out ++ rest ∧ (∀ c ∈ out, stop c = false ∧ ok c = true)
        ∧ Stops stop rest := by
  intro s
  induction s with
  | nil =>
      intro out rest h
      obtain ⟨rfl, rfl⟩ := Prod.mk.inj (Option.some.inj h)
      exact ⟨rfl, fun c hc => (nomatch hc), trivial⟩
  | cons c cs ih =>
      intro out rest h
      rw [scan] at h
      by_cases hs : stop c = true
      · rw [if_pos hs] at h
        obtain ⟨rfl, rfl⟩ := Prod.mk.inj (Option.some.inj h)
        exact ⟨rfl, fun d hd => (nomatch hd), hs⟩
      · rw [if_neg hs] at h
        by_cases ho : ok c = true
        · rw [if_pos ho] at h
          obtain ⟨⟨out', rest'⟩, hr, heq⟩ := Option.map_eq_some_iff.mp h
          obtain ⟨rfl, rfl⟩ := Prod.mk.inj heq
          obtain ⟨h1, h2, h3⟩ := ih hr
          refine ⟨by rw [h1]; rfl, ?_, h3⟩
          intro d hd
          rcases List.mem_cons.mp hd with rfl | hm
          · exact ⟨Bool.eq_false_iff.mpr hs, ho⟩
          · exact h2 d hm
        · rw [if_neg ho] at h
          exact nomatch h

/-- `scan` finds every admissible split: it is maximal because it only stops at
    a stop element. -/
theorem scan_complete {stop ok : α → Bool} {rest : List α}
    (hrest : Stops stop rest) :
    ∀ {out : List α}, (∀ c ∈ out, stop c = false ∧ ok c = true) →
      scan stop ok (out ++ rest) = some (out, rest) := by
  intro out
  induction out with
  | nil =>
      intro _
      cases rest with
      | nil => rfl
      | cons d ds => exact if_pos hrest
  | cons c cs ih =>
      intro h
      obtain ⟨hs, ho⟩ := h c List.mem_cons_self
      rw [List.cons_append, scan, if_neg (by rw [hs]; exact Bool.false_ne_true),
        if_pos ho, ih fun d hd => h d (List.mem_cons_of_mem c hd)]
      rfl

theorem scan_eq_some_iff {stop ok : α → Bool} {s out rest : List α} :
    scan stop ok s = some (out, rest) ↔
      s = out ++ rest ∧ (∀ c ∈ out, stop c = false ∧ ok c = true)
        ∧ Stops stop rest := by
  constructor
  · exact scan_sound
  · rintro ⟨rfl, h, hrest⟩
    exact scan_complete hrest h

/-- The bounded loop is the unbounded one with a length test. -/
theorem scanCap_eq_some_iff {stop ok : α → Bool} {cap : Nat} :
    ∀ {s out rest : List α} {n : Nat},
      scanCap stop ok cap n s = some (out, rest) ↔
        scan stop ok s = some (out, rest) ∧ (out = [] ∨ n + out.length < cap) := by
  intro s
  induction s with
  | nil =>
      intro out rest n
      constructor
      · intro h
        obtain ⟨rfl, rfl⟩ := Prod.mk.inj (Option.some.inj h)
        exact ⟨rfl, Or.inl rfl⟩
      · rintro ⟨h, -⟩
        exact h
  | cons c cs ih =>
      intro out rest n
      rw [scanCap, scan]
      by_cases hs : stop c = true
      · rw [if_pos hs, if_pos hs]
        constructor
        · intro h
          obtain ⟨rfl, rfl⟩ := Prod.mk.inj (Option.some.inj h)
          exact ⟨rfl, Or.inl rfl⟩
        · rintro ⟨h, -⟩
          exact h
      · rw [if_neg hs, if_neg hs]
        by_cases ho : ok c = true
        · rw [if_pos ho, if_pos ho]
          -- the bound is checked before the element is copied
          constructor
          · intro h
            by_cases hn : n + 1 ≥ cap
            · rw [if_pos hn] at h
              exact nomatch h
            · rw [if_neg hn] at h
              obtain ⟨⟨out', rest'⟩, hr, heq⟩ := Option.map_eq_some_iff.mp h
              obtain ⟨rfl, rfl⟩ := Prod.mk.inj heq
              obtain ⟨h1, h2⟩ := ih.mp hr
              refine ⟨Option.map_eq_some_iff.mpr ⟨_, h1, rfl⟩, Or.inr ?_⟩
              show n + (out'.length + 1) < cap
              rcases h2 with rfl | h2
              · rw [List.length_nil]
                omega
              · omega
          · rintro ⟨h, hlen⟩
            obtain ⟨⟨out', rest'⟩, hr, heq⟩ := Option.map_eq_some_iff.mp h
            obtain ⟨rfl, rfl⟩ := Prod.mk.inj heq
            rcases hlen with hnil | hlen
            · exact nomatch hnil
            · have hlen' : n + (out'.length + 1) < cap := hlen
              rw [if_neg (by omega)]
              refine Option.map_eq_some_iff.mpr ⟨_, ih.mpr ⟨hr, Or.inr ?_⟩, rfl⟩
              omega
        · rw [if_neg ho, if_neg ho]
          constructor
          · intro h
            exact nomatch h
          · rintro ⟨h, -⟩
            exact nomatch h

/-! ## Trimming -/

/-- A list whose last element fails `p` is untouched by trimming from the
    right. -/
theorem rdropWhile_append_of_all {p : α → Bool} {v w : List α}
    (hw : ∀ c ∈ w, p c = true) (hv : v.rdropWhile p = v) :
    (v ++ w).rdropWhile p = v := by
  induction w using List.reverseRecOn with
  | nil => rw [List.append_nil, hv]
  | append_singleton w c ih =>
      rw [← List.append_assoc,
        List.rdropWhile_concat_pos p _ _ (hw c (by simp))]
      exact ih fun d hd => hw d (by simp [hd])

/-- Trimming from the right splits off a run of trimmed elements. -/
theorem rdropWhile_split (p : α → Bool) (v : List α) :
    ∃ w, v = v.rdropWhile p ++ w ∧ ∀ c ∈ w, p c = true := by
  induction v using List.reverseRecOn with
  | nil => exact ⟨[], rfl, fun c hc => nomatch hc⟩
  | append_singleton v c ih =>
      by_cases hc : p c = true
      · obtain ⟨w, hw, hall⟩ := ih
        refine ⟨w ++ [c], ?_, ?_⟩
        · rw [List.rdropWhile_concat_pos p _ _ hc, ← List.append_assoc, ← hw]
        · intro d hd
          rcases List.mem_append.mp hd with h | h
          · exact hall d h
          · rw [List.mem_singleton.mp h]
            exact hc
      · refine ⟨[], ?_, fun d hd => nomatch hd⟩
        rw [List.rdropWhile_concat_neg p _ _ hc, List.append_nil]

/-- Skipping from the left splits off a run of skipped elements. -/
theorem dropWhile_split (p : α → Bool) (s : List α) :
    ∃ w, s = w ++ s.dropWhile p ∧ (∀ c ∈ w, p c = true) := by
  refine ⟨s.takeWhile p, (List.takeWhile_append_dropWhile).symm, ?_⟩
  intro c hc
  exact List.mem_takeWhile_imp hc

/-- What is left of a search for `c` is nothing or starts with `c`. -/
theorem dropWhile_bne_cases [BEq α] [LawfulBEq α] (c : α) (s : List α) :
    s.dropWhile (· != c) = [] ∨ ∃ t, s.dropWhile (· != c) = c :: t := by
  cases h : s.dropWhile (· != c) with
  | nil => exact .inl rfl
  | cons d t =>
      have hhead := List.head_dropWhile_not (· != c) (l := s) (h ▸ List.cons_ne_nil _ _)
      have hd : d = c := by simpa [h] using hhead
      exact .inr ⟨t, by rw [hd]⟩

/-- A list that skipping leaves alone starts with an element that stays. -/
theorem not_of_dropWhile_eq_self {p : α → Bool} {c : α} {cs : List α}
    (h : (c :: cs).dropWhile p = c :: cs) : ¬ p c = true := by
  intro hc
  rw [List.dropWhile_cons_of_pos hc] at h
  have hlen := (List.dropWhile_sublist p (l := cs)).length_le
  rw [h, List.length_cons] at hlen
  omega

/-- A run of elements and what does not go on with it are told apart. -/
theorem span_append {p : α → Bool} {front rest : List α} (hfront : ∀ c ∈ front, p c = true)
    (hrest : ∀ c ∈ rest.head?, p c = false) :
    (front ++ rest).takeWhile p = front ∧ (front ++ rest).dropWhile p = rest := by
  rw [List.takeWhile_append_of_pos hfront, List.dropWhile_append_of_pos hfront]
  cases rest with
  | nil => exact ⟨List.append_nil _, rfl⟩
  | cons c rest =>
      have hc := hrest c rfl
      rw [List.takeWhile_cons_of_neg (by rw [hc]; exact Bool.false_ne_true), List.append_nil,
        List.dropWhile_cons_of_neg (by rw [hc]; exact Bool.false_ne_true)]
      exact ⟨rfl, rfl⟩

/-- The first `c` is where the front ends. -/
theorem cut_append [BEq α] [LawfulBEq α] {c : α} {front : List α} (h : c ∉ front) (rest : List α) :
    (front ++ c :: rest).takeWhile (· != c) = front
      ∧ (front ++ c :: rest).dropWhile (· != c) = c :: rest := by
  refine span_append (fun d hd => bne_iff_ne.mpr ?_) fun d hd => ?_
  · rintro rfl
    exact h hd
  · obtain rfl := Option.some.inj hd
    exact bne_self_eq_false c

/-- What is left at the first `c` begins with it. -/
theorem dropWhile_bne_cons [BEq α] [LawfulBEq α] {c d : α} {s rest : List α}
    (h : s.dropWhile (· != c) = d :: rest) :
    d = c ∧ s = s.takeWhile (· != c) ++ c :: rest := by
  have hd : d = c := by
    rcases dropWhile_bne_cases c s with h0 | ⟨t, h0⟩
    · exact nomatch h.symm.trans h0
    · exact (List.cons.inj (h.symm.trans h0)).1
  refine ⟨hd, ?_⟩
  calc s = s.takeWhile (· != c) ++ s.dropWhile (· != c) := List.takeWhile_append_dropWhile.symm
    _ = s.takeWhile (· != c) ++ c :: rest := by rw [h, hd]

end Scan
