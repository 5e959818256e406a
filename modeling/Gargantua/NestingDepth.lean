import Gargantua.GeneratorValidate
import Gargantua.Lib.Runs
import Gargantua.Lib.Sweeps

/-! # Nested types (`validate_nesting_depth` of `src/generator/generator_validate.c`)

    A type has a depth as soon as all types nested in it have one, and the types
    are gone through as often as there are types.  That is often enough, in any
    order of declaration, and the depth is the length of the longest chain of
    nested types (`nesting_exact`). -/

namespace NestingDepth

open CString RouteGenerator GeneratorSource GeneratorValidate Relation Sweeps

/-! ## What is refused -/

/-- A nested field of the type at `i` has the type at `j`. -/
def Nests (types : List ParsedType) (i j : Nat) : Prop :=
  ∃ t f, types[i]? = some t ∧ f ∈ t.fields ∧ isObject f = true ∧ typeIndex types f.cType = some j

/-- A nested field of the type at `i` has a type that is not declared. -/
def Undeclared (types : List ParsedType) (i : Nat) : Prop :=
  ∃ t f, types[i]? = some t ∧ f ∈ t.fields ∧ isObject f = true ∧ typeIndex types f.cType = none

/-- A chain of nested fields from the type at `i` reaches a cycle or a type that
    is not declared, or has more than eight types. -/
inductive Refused (types : List ParsedType) (i : Nat) : Prop where
  | cycle {j : Nat} (hreach : ReflTransGen (Nests types) i j) (hcycle : TransGen (Nests types) j j)
  | undeclared {j : Nat} (hreach : ReflTransGen (Nests types) i j) (hnone : Undeclared types j)
  | deep {d : Nat} (hchain : ChainFrom (Nests types) i d) (hd : 8 < d)

/-- The error of `validate_nesting_depth` about the type at `i`. -/
def nestingError (types : List ParsedType) (i : Nat) : Option GeneratorError :=
  types[i]?.map fun t => ⟨t.line, lit "nested type cycle or depth exceeds 8: " ++ t.name⟩

/-! ## One type in a pass -/

section Types

variable {types : List ParsedType}

/-- The loop over the fields: it gives up at a nested type without a depth, and
    otherwise ends one above the largest depth. -/
theorem nestingValue_spec (types : List ParsedType) (depth : List Nat) (fields : List ParsedField) :
    ∀ {v : Nat}, 1 ≤ v →
      (nestingValue types depth v fields = 0
          ∧ ∃ f ∈ fields, isObject f = true ∧ ∀ k, typeIndex types f.cType = some k →
            depth.getD k 0 = 0)
      ∨ (v ≤ nestingValue types depth v fields
          ∧ (∀ f ∈ fields, isObject f = true → ∃ k, typeIndex types f.cType = some k
            ∧ depth.getD k 0 ≠ 0 ∧ depth.getD k 0 + 1 ≤ nestingValue types depth v fields)
          ∧ (nestingValue types depth v fields = v ∨ ∃ f ∈ fields, isObject f = true
            ∧ ∃ k, typeIndex types f.cType = some k
              ∧ nestingValue types depth v fields = depth.getD k 0 + 1)) := by
  induction fields with
  | nil =>
      intro v _
      right
      refine ⟨Nat.le_refl v, ?_, .inl rfl⟩
      intro f hf
      cases hf
  | cons f fields ih =>
      intro v hv
      rw [nestingValue]
      by_cases hobject : isObject f = true
      · rw [if_pos hobject]
        cases hindex : typeIndex types f.cType with
        | none =>
            left
            exact ⟨rfl, f, List.mem_cons_self, hobject, fun k hk => by rw [hindex] at hk; cases hk⟩
        | some k =>
            by_cases hzero : depth.getD k 0 = 0
            · left
              simp only [if_pos hzero]
              refine ⟨trivial, f, List.mem_cons_self, hobject, fun k' hk' => ?_⟩
              rw [hindex] at hk'
              cases hk'
              exact hzero
            · simp only [if_neg hzero]
              rcases ih (v := max v (depth.getD k 0 + 1)) (by omega) with
                ⟨hw, g, hg, hgo, hgz⟩ | ⟨hle, hall, hcase⟩
              · left
                exact ⟨hw, g, List.mem_cons_of_mem f hg, hgo, hgz⟩
              · right
                refine ⟨by omega, ?_, ?_⟩
                · intro g hg hgo
                  rcases List.mem_cons.mp hg with rfl | hg
                  · exact ⟨k, hindex, hzero, by omega⟩
                  · exact hall g hg hgo
                · rcases hcase with hcase | ⟨g, hg, hgo, hgk⟩
                  · by_cases hmax : v ≤ depth.getD k 0 + 1
                    · right
                      exact ⟨f, List.mem_cons_self, hobject, k, hindex, by omega⟩
                    · left
                      omega
                  · right
                    exact ⟨g, List.mem_cons_of_mem f hg, hgo, hgk⟩
      · rw [if_neg hobject]
        rcases ih hv with ⟨hw, g, hg, hgo, hgz⟩ | ⟨hle, hall, hcase⟩
        · left
          exact ⟨hw, g, List.mem_cons_of_mem f hg, hgo, hgz⟩
        · right
          refine ⟨hle, ?_, ?_⟩
          · intro g hg hgo
            rcases List.mem_cons.mp hg with rfl | hg
            · exact absurd hgo hobject
            · exact hall g hg hgo
          · rcases hcase with hcase | ⟨g, hg, hgo, hgk⟩
            · exact .inl hcase
            · exact .inr ⟨g, List.mem_cons_of_mem f hg, hgo, hgk⟩

/-- The depths that are known. -/
def known (depth : List Nat) : Nat := depth.countP (· != 0)

theorem set_length (depth : List Nat) (i : Nat) :
    (depthStep types depth i).length = depth.length := by
  rw [depthStep]
  split
  · rfl
  · split
    · rfl
    · exact List.length_set

/-- A depth that is known stays; so a step that changes the depths knows one more. -/
theorem depthStep_progresses : Progresses (depthStep types) known := by
  intro depth i
  rw [depthStep]
  by_cases hzero : depth.getD i 0 ≠ 0
  · rw [if_pos hzero]
    exact .inl rfl
  rw [if_neg hzero]
  cases types[i]? with
  | none => exact .inl rfl
  | some t =>
      by_cases hi : i < depth.length
      · have hget : depth[i] = 0 := by
          simpa [List.getD_eq_getElem?_getD, List.getElem?_eq_getElem hi] using hzero
        by_cases hvalue : nestingValue types depth 1 t.fields = 0
        · left
          show depth.set i (nestingValue types depth 1 t.fields) = depth
          rw [hvalue, ← hget, List.set_getElem_self]
        · right
          show known depth < known (depth.set i (nestingValue types depth 1 t.fields))
          rw [known, known, List.countP_set hi, hget]
          simp [hvalue]
      · left
        exact List.set_eq_of_length_le (Nat.le_of_not_lt hi)

/-! ## Depths are exact -/

/-- What a known depth says: it is the longest chain, and no type is missing. -/
def Exact (types : List ParsedType) (depth : List Nat) : Prop :=
  ∀ i, depth.getD i 0 ≠ 0 → Longest (Nests types) i (depth.getD i 0)
    ∧ ∀ j, ReflTransGen (Nests types) i j → ¬ Undeclared types j

/-- **A step keeps the depths exact.** -/
theorem depthStep_exact {depth : List Nat} (h : Exact types depth) (i : Nat) :
    Exact types (depthStep types depth i) := by
  rw [depthStep]
  by_cases hzero : depth.getD i 0 ≠ 0
  · rw [if_pos hzero]
    exact h
  rw [if_neg hzero]
  cases htype : types[i]? with
  | none => exact h
  | some t =>
      show Exact types (depth.set i (nestingValue types depth 1 t.fields))
      intro k hk
      by_cases hki : k = i
      swap
      · have hsame : (depth.set i (nestingValue types depth 1 t.fields)).getD k 0
            = depth.getD k 0 := by
          simp [List.getD_eq_getElem?_getD, List.getElem?_set_ne (Ne.symm hki)]
        rw [hsame] at hk ⊢
        exact h k hk
      subst hki
      have hlen : k < depth.length := by
        by_contra hlen
        have hsame := List.set_eq_of_length_le (a := nestingValue types depth 1 t.fields)
          (Nat.le_of_not_lt hlen)
        rw [hsame] at hk
        exact hzero hk
      have hnew : (depth.set k (nestingValue types depth 1 t.fields)).getD k 0
          = nestingValue types depth 1 t.fields := by
        simp [List.getD_eq_getElem?_getD, List.getElem?_set_self hlen]
      rw [hnew] at hk ⊢
      rcases nestingValue_spec types depth t.fields (Nat.le_refl 1) with ⟨hnone, -⟩ | ⟨hpos, hall, hcase⟩
      · exact absurd hnone hk
      -- the types nested in this one are those of its fields
      have hfields : ∀ {j}, Nests types k j → depth.getD j 0 ≠ 0
          ∧ depth.getD j 0 + 1 ≤ nestingValue types depth 1 t.fields := by
        rintro j ⟨t', f, ht', hf, hobject, hindex⟩
        obtain rfl : t = t' := Option.some.inj (htype.symm.trans ht')
        obtain ⟨k', hk', hne, hle⟩ := hall f hf hobject
        obtain rfl : j = k' := Option.some.inj (hindex.symm.trans hk')
        exact ⟨hne, hle⟩
      constructor
      · refine Longest.of_successors (fun j hj => (h j (hfields hj).1).1)
          (fun j hj => (hfields hj).2) ?_ hpos
        rcases hcase with hone | ⟨f, hf, hobject, j, hindex, hvalue⟩
        · exact .inl hone
        · exact .inr ⟨j, ⟨t, f, htype, hf, hobject, hindex⟩, hvalue⟩
      · intro j hj
        rcases ReflTransGen.cases_head hj with rfl | ⟨c, hkc, hcj⟩
        · rintro ⟨t', f, ht', hf, hobject, hindex⟩
          obtain rfl : t = t' := Option.some.inj (htype.symm.trans ht')
          obtain ⟨k', hk', -⟩ := hall f hf hobject
          rw [hindex] at hk'
          cases hk'
        · exact (h c (hfields hkc).1).2 j hcj

/-! ## All passes -/

theorem nestingDepth_eq : nestingDepth types
    = (depthPass types)^[types.length] (List.replicate types.length 0) := by
  rw [nestingDepth, List.foldl_const, List.length_range]

theorem depthPass_length (depth : List Nat) : (depthPass types depth).length = depth.length :=
  Runs.after_keeps (P := fun d => d.length = depth.length)
    (fun i _ d hd => (set_length d i).trans hd) rfl

theorem passes_length (k : Nat) (depth : List Nat) :
    ((depthPass types)^[k] depth).length = depth.length := by
  induction k with
  | zero => rfl
  | succ k ih => rw [Function.iterate_succ_apply', depthPass_length, ih]

/-- **The passes are enough**: one more changes nothing. -/
theorem depthPass_settled : depthPass types (nestingDepth types) = nestingDepth types := by
  rw [nestingDepth_eq]
  have hpass : ∀ depth, depthPass types depth = depth ∨ known depth < known (depthPass types depth) :=
    sweep_progresses depthStep_progresses (List.range types.length)
  refine sweeps_settle hpass ?_
  intro k
  refine Nat.le_trans List.countP_le_length ?_
  rw [passes_length, List.length_replicate]

theorem nestingDepth_length : (nestingDepth types).length = types.length := by
  rw [nestingDepth_eq, passes_length, List.length_replicate]

theorem nestingDepth_exact (types : List ParsedType) : Exact types (nestingDepth types) := by
  have hpass : ∀ depth, Exact types depth → Exact types (depthPass types depth) := by
    intro depth h
    exact Runs.after_keeps (P := Exact types) (fun i _ d hd => depthStep_exact hd i) h
  have hstart : Exact types (List.replicate types.length 0) := by
    intro i hi
    exfalso
    apply hi
    rw [List.getD_eq_getElem?_getD, List.getElem?_replicate]
    split <;> rfl
  rw [nestingDepth_eq]
  generalize types.length = n at hstart
  generalize List.replicate n 0 = depth at hstart
  induction n with
  | zero => exact hstart
  | succ n ih =>
      rw [Function.iterate_succ_apply']
      exact hpass _ ih

/-- What a settled depth of zero says: a nested type is missing or has no depth
    either. -/
theorem nestingDepth_zero {i : Nat} (hi : i < types.length) (hzero : (nestingDepth types).getD i 0 = 0) :
    Undeclared types i ∨ ∃ j, Nests types i j ∧ (nestingDepth types).getD j 0 = 0 := by
  have hstill : depthStep types (nestingDepth types) i = nestingDepth types :=
    sweep_still depthStep_progresses depthPass_settled i (List.mem_range.mpr hi)
  have htype : types[i]? = some types[i] := List.getElem?_eq_getElem hi
  rw [depthStep, if_neg (by rw [hzero]; simp), htype] at hstill
  have hvalue : nestingValue types (nestingDepth types) 1 types[i].fields = 0 := by
    have hget := congrArg (fun d => d.getD i 0) hstill
    simpa [List.getD_eq_getElem?_getD, List.getElem?_set_self, nestingDepth_length, hi] using
      hget.trans hzero
  rcases nestingValue_spec types (nestingDepth types) types[i].fields (Nat.le_refl 1) with ⟨-, f, hf, hobject, hmissing⟩ | ⟨hpos, -⟩
  · cases hindex : typeIndex types f.cType with
    | none => exact .inl ⟨types[i], f, htype, hf, hobject, hindex⟩
    | some j => exact .inr ⟨j, ⟨types[i], f, htype, hf, hobject, hindex⟩, hmissing j hindex⟩
  · omega

theorem typeIndex_lt {name : Bytes} {j : Nat} (h : typeIndex types name = some j) :
    j < types.length :=
  (List.findIdx?_eq_some_iff_getElem.mp h).1

theorem reached_lt {i j : Nat} (h : ReflTransGen (Nests types) i j) (hi : i < types.length) :
    j < types.length := by
  induction h with
  | refl => exact hi
  | tail _ hnests _ =>
      obtain ⟨_, _, _, _, _, hindex⟩ := hnests
      exact typeIndex_lt hindex

/-- **A depth of zero, or of more than eight, is what is refused.** -/
theorem refused_iff {i : Nat} (hi : i < types.length) :
    (nestingDepth types).getD i 0 = 0 ∨ (nestingDepth types).getD i 0 > 8 ↔ Refused types i := by
  constructor
  · rintro (hzero | hdeep)
    · by_contra hgood
      have hfinite : {j | ReflTransGen (Nests types) i j}.Finite :=
        (Set.finite_lt_nat types.length).subset fun j hj => reached_lt hj hi
      refine absurd hzero (acyclic_induction (P := fun j => (nestingDepth types).getD j 0 ≠ 0)
        hfinite (fun j hj hcycle => hgood (.cycle hj hcycle)) ?_)
      intro j hj hnested hj0
      rcases nestingDepth_zero (reached_lt hj hi) hj0 with hnone | ⟨k, hk, hk0⟩
      · exact hgood (.undeclared hj hnone)
      · exact hnested k hk hk0
    · have hexact := nestingDepth_exact types i (by omega)
      exact .deep hexact.1.chain hdeep
  · intro hrefused
    by_cases hzero : (nestingDepth types).getD i 0 = 0
    · exact .inl hzero
    · right
      obtain ⟨hlongest, hdeclared⟩ := nestingDepth_exact types i hzero
      cases hrefused with
      | cycle hreach hcycle => exact absurd hcycle (hlongest.no_cycle hreach)
      | undeclared hreach hnone => exact absurd hnone (hdeclared _ hreach)
      | deep hchain hd => exact Nat.lt_of_lt_of_le hd (hlongest.most hchain)

/-- Elements picked by a second list, through their indices. -/
theorem flatMap_zip {α β : Type} (f : α → β) (p : Nat → Bool) (xs : List α) :
    ∀ ds : List Nat, ds.length = xs.length →
      (xs.zip ds).flatMap (fun x => if p x.2 then [f x.1] else [])
        = ((List.range xs.length).filter fun i => p (ds.getD i 0)).filterMap
            fun i => xs[i]?.map f := by
  induction xs with
  | nil => intro ds _; rfl
  | cons x xs ih =>
      intro ds hds
      cases ds with
      | nil => exact nomatch hds
      | cons d ds =>
          have hrest := ih ds (Nat.succ.inj hds)
          rw [List.length_cons, List.range_succ_eq_map, List.zip_cons_cons, List.flatMap_cons, hrest]
          by_cases hp : p d = true
          · simp [hp, List.filter_map, List.filterMap_map, Function.comp_def]
          · simp [hp, List.filter_map, List.filterMap_map, Function.comp_def]

/-- **Nested types are accepted exactly when they are acyclic, declared and
    shallow.**  The errors are those of the types from which a chain of nested
    fields reaches a cycle or a type that is not declared, or has more than eight
    types, and a further pass would find no more depths. -/
theorem nesting_exact (types : List ParsedType) :
    (∃ reported : List Nat, reported.Sublist (List.range types.length)
        ∧ validateNestingDepth types = reported.filterMap (nestingError types)
        ∧ ∀ i, i < types.length → (i ∈ reported ↔ Refused types i))
      ∧ depthPass types (nestingDepth types) = nestingDepth types := by
  refine ⟨⟨(List.range types.length).filter fun i =>
    decide ((nestingDepth types).getD i 0 = 0 ∨ (nestingDepth types).getD i 0 > 8), ?_, ?_, ?_⟩,
    depthPass_settled⟩
  · exact List.filter_sublist
  · have herrors := flatMap_zip
      (fun t : ParsedType => (⟨t.line, lit "nested type cycle or depth exceeds 8: " ++ t.name⟩ :
        GeneratorError)) (fun d => decide (d = 0 ∨ d > 8)) types (nestingDepth types)
      nestingDepth_length
    simp only [decide_eq_true_eq] at herrors
    exact herrors
  · intro i hi
    rw [List.mem_filter, List.mem_range, decide_eq_true_eq, refused_iff hi]
    exact ⟨fun h => h.2, fun h => ⟨hi, h⟩⟩

end Types

end NestingDepth
