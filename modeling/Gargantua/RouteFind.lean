import Gargantua.RouteUnique

/-! # What `route_find` chooses

    For any table: the candidates of a method are its routes whose pattern
    matches the path, and `route_find` returns the one that has fewer opening
    braces in its pattern than all the others.  A pattern that the generator
    accepts has one brace for each dynamic segment.  Nothing in the answer
    depends on the order of the table (`Cheapest` and `Tie` do not). -/

namespace RouteFind

open CString Segments UniqueMin RouteRuntime RouteSegments RouteUnique

/-! ## Over-long values -/

/-- Within `guard` segments and `room` values, a pattern comes to a dynamic
    segment that stands against 64 bytes or more; the segments in front of it
    match. -/
inductive MeetsLong : Nat → Nat → List Bytes → List Bytes → Prop
  | here {guard room : Nat} {p u : Bytes} {ps us : List Bytes} (hp : isDynamic p = true)
      (hlen : PARAM_VALUE_LEN ≤ u.length) : MeetsLong (guard + 1) (room + 1) (p :: ps) (u :: us)
  | static {guard room : Nat} {p : Bytes} {ps us : List Bytes} (hp : isDynamic p = false)
      (h : MeetsLong guard room ps us) : MeetsLong (guard + 1) room (p :: ps) (p :: us)
  | dynamic {guard room : Nat} {p u : Bytes} {ps us : List Bytes} (hp : isDynamic p = true)
      (hne : u ≠ []) (hlen : u.length < PARAM_VALUE_LEN) (h : MeetsLong guard room ps us) :
      MeetsLong (guard + 1) (room + 1) (p :: ps) (u :: us)

theorem MeetsLong.ne_nil {guard room : Nat} {ps us : List Bytes} (h : MeetsLong guard room ps us) :
    ps ≠ [] ∧ us ≠ [] := by
  cases h <;> exact ⟨List.cons_ne_nil _ _, List.cons_ne_nil _ _⟩

theorem not_meetsLong_full {guard : Nat} {p u : Bytes} {ps us : List Bytes}
    (hp : isDynamic p = true) : ¬ MeetsLong guard 0 (p :: ps) (u :: us) := by
  intro h
  cases h with
  | static hs => cases hp.symm.trans hs

theorem meetsLong_dynamic_iff {guard room : Nat} {p u : Bytes} {ps us : List Bytes}
    (hp : isDynamic p = true) : MeetsLong (guard + 1) (room + 1) (p :: ps) (u :: us) ↔
      u.length ≥ PARAM_VALUE_LEN
        ∨ (u ≠ [] ∧ u.length < PARAM_VALUE_LEN ∧ MeetsLong guard room ps us) := by
  constructor
  · intro h
    cases h with
    | here _ hlen => exact .inl hlen
    | static hs => cases hp.symm.trans hs
    | dynamic _ hne hlen h => exact .inr ⟨hne, hlen, h⟩
  · rintro (hlen | ⟨hne, hlen, h⟩)
    · exact .here hp hlen
    · exact .dynamic hp hne hlen h

theorem meetsLong_static_iff {guard room : Nat} {p u : Bytes} {ps us : List Bytes}
    (hp : isDynamic p = false) : MeetsLong (guard + 1) room (p :: ps) (u :: us) ↔
      p = u ∧ MeetsLong guard room ps us := by
  constructor
  · intro h
    cases h with
    | here hd => cases hp.symm.trans hd
    | static _ h => exact ⟨rfl, h⟩
    | dynamic hd => cases hp.symm.trans hd
  · rintro ⟨rfl, h⟩
    exact .static hp h

/-- The loop of `path_matches` gives up on an over-long value. -/
theorem pathMatchesLoop_neg : ∀ (guard : Nat) (pattern url : Bytes) {out : RequestParams}
    {room : Nat}, out.pathValue.length + room = PATH_PARAM_MAX →
    ((pathMatchesLoop guard pattern url out).1 < 0 ↔
      MeetsLong guard room (segments slash pattern) (segments slash url)) := by
  have h0 : ¬ (0 : Int) < 0 := by decide
  have h1 : ¬ (1 : Int) < 0 := by decide
  intro guard
  induction guard with
  | zero =>
      intro pattern url out room _
      exact ⟨fun h => absurd h h0, fun h => by cases h⟩
  | succ guard ih =>
      intro pattern url out room hroom
      rw [pathMatchesLoop]
      by_cases hend : pattern = [] ∧ url = []
      · obtain ⟨rfl, rfl⟩ := hend
        rw [if_pos ⟨rfl, rfl⟩]
        exact iff_of_false h1 fun h => h.ne_nil.1 rfl
      rw [if_neg hend]
      by_cases hone : pattern = [] ∨ url = []
      · rw [if_pos hone]
        refine iff_of_false h0 fun h => ?_
        rcases hone with rfl | rfl
        · exact h.ne_nil.1 rfl
        · exact h.ne_nil.2 rfl
      rw [if_neg hone]
      rw [not_or] at hone
      rw [segments_step hone.1, segments_step hone.2]
      dsimp only [nextSegment]
      generalize pattern.takeWhile (· != slash) = p
      generalize (pattern.dropWhile (· != slash)).drop 1 = ps
      generalize url.takeWhile (· != slash) = u
      generalize (url.dropWhile (· != slash)).drop 1 = us
      cases hp : isDynamic p with
      | true =>
          rw [if_pos rfl]
          by_cases hfull : out.pathValue.length ≥ PATH_PARAM_MAX
          · obtain rfl : room = 0 := by omega
            rw [if_pos hfull]
            exact iff_of_false h0 (not_meetsLong_full hp)
          rw [if_neg hfull]
          obtain ⟨room, rfl⟩ := Nat.exists_eq_add_of_le' (show 1 ≤ room by omega)
          rw [meetsLong_dynamic_iff hp]
          by_cases hu : u = []
          · rw [if_pos hu]
            refine iff_of_false h0 ?_
            rintro (hlen | ⟨hne, -⟩)
            · rw [hu] at hlen
              exact absurd hlen (by decide)
            · exact hne hu
          rw [if_neg hu]
          by_cases hlong : u.length ≥ PARAM_VALUE_LEN
          · rw [if_pos hlong]
            exact iff_of_true (show (-1 : Int) < 0 by decide) (.inl hlong)
          have hroom' : (out.pathValue ++ [u]).length + room = PATH_PARAM_MAX := by
            rw [List.length_append, List.length_singleton]
            omega
          rw [if_neg hlong, ih ps us hroom', or_iff_right hlong]
          exact ⟨fun h => ⟨hu, Nat.not_le.mp hlong, h⟩, fun h => h.2.2⟩
      | false =>
          rw [if_neg Bool.false_ne_true, meetsLong_static_iff hp]
          by_cases hpu : p = u
          · rw [if_neg (not_not.mpr hpu), ih ps us hroom, and_iff_right hpu]
          · rw [if_pos hpu]
            exact iff_of_false h0 fun h => hpu h.1

/-! ## Candidates -/

/-- The segments of a path that stand at the dynamic segments of a pattern. -/
def dynamicValues (pattern url : Bytes) : List Bytes :=
  ((segments slash pattern).zip (segments slash url)).filterMap fun s =>
    if isDynamic s.1 then some s.2 else none

theorem values_eq {ps us vs : List Bytes} (h : Binds ps us vs) :
    vs = (ps.zip us).filterMap fun s => if isDynamic s.1 then some s.2 else none := by
  induction h with
  | nil => rfl
  | static hp _ ih =>
      rw [List.zip_cons_cons, List.filterMap_cons, if_neg (by rw [hp]; exact Bool.false_ne_true)]
      exact ih
  | dynamic hp _ _ _ ih =>
      rw [List.zip_cons_cons, List.filterMap_cons, if_pos hp]
      exact congrArg _ ih

/-- A route of the method, with a handler, whose pattern matches the path: segment
    by segment, with a short value for each dynamic segment, eight of them at the
    most. -/
structure Candidate (method url : Bytes) (r : Route) : Prop where
  handler : r.handler ≠ none
  method : r.method = method
  binds : ∃ vs, Binds (segments slash r.url) (segments slash url) vs
    ∧ vs.length ≤ PATH_PARAM_MAX
  bounded : (segments slash r.url).length < ROUTE_SEGMENT_MAX

/-- A route of the method, with a handler, whose pattern comes to an over-long
    value. -/
structure Overlong (method url : Bytes) (r : Route) : Prop where
  handler : r.handler ≠ none
  method : r.method = method
  meets : MeetsLong ROUTE_SEGMENT_MAX PATH_PARAM_MAX (segments slash r.url) (segments slash url)

/-- The dynamic segments of a pattern. -/
def dynamicParts (pattern : Bytes) : Nat := (segments slash pattern).countP isDynamic

/-- What `route_find` compares. -/
def braces (r : Route) : Nat := dynamicSegmentCount r.url

theorem candidate_some {method url : Bytes} {r : Route} {c : Route × RequestParams}
    (h : candidate method url r = some c) :
    c = (r, { paramsReset with pathValue := dynamicValues r.url url })
      ∧ Candidate method url r := by
  rw [candidate] at h
  split at h
  · rename_i hc
    have hm : pathMatches r.url url paramsReset = (1, (pathMatches r.url url paramsReset).2) := by
      rw [← hc.2.2]
    obtain ⟨vs, hb, hlt, hcount, hout⟩ := pathMatches_iff.mp hm
    refine ⟨?_, hc.1, hc.2.1, ⟨vs, hb, hcount⟩, hlt⟩
    rw [← Option.some.inj h, hout, values_eq hb]
    rfl
  · cases h

theorem candidate_iff {method url : Bytes} {r : Route} :
    Candidate method url r ↔ ∃ c, candidate method url r = some c := by
  refine ⟨fun h => ?_, fun ⟨c, hc⟩ => (candidate_some hc).2⟩
  obtain ⟨vs, hb, hcount⟩ := h.binds
  have hm := (@pathMatches_iff _ _ paramsReset).mpr ⟨vs, hb, h.bounded, hcount, rfl⟩
  exact ⟨_, if_pos ⟨h.handler, h.method, by rw [hm]⟩⟩

/-- The search looks at every route for over-long values. -/
theorem searchStep_invalid (method url : Bytes) (s : Search) (r : Route) :
    (searchStep method url s r).sawInvalid = true
      ↔ s.sawInvalid = true ∨ Overlong method url r := by
  rw [searchStep]
  by_cases hh : r.handler = none
  · rw [if_pos hh]
    exact ⟨Or.inl, fun h => h.resolve_right fun hl => hl.handler hh⟩
  rw [if_neg hh]
  by_cases hm : r.method = method
  swap
  · rw [if_pos hm]
    exact ⟨Or.inl, fun h => h.resolve_right fun hl => hm hl.method⟩
  rw [if_neg (fun hc => hc hm)]
  have hneg := @pathMatchesLoop_neg ROUTE_SEGMENT_MAX r.url url
    { paramsReset with pathValue := [] } PATH_PARAM_MAX rfl
  have hover : Overlong method url r ↔ (pathMatches r.url url paramsReset).1 < 0 :=
    ⟨fun h => hneg.mpr h.meets, fun h => ⟨hh, hm, hneg.mp h⟩⟩
  rw [hover]
  cases pathMatches r.url url paramsReset with
  | mk matched ps =>
      dsimp only
      by_cases hlt : matched < 0
      · rw [if_pos hlt]
        exact ⟨fun _ => Or.inr hlt, fun _ => rfl⟩
      · rw [if_neg hlt]
        have hsame : (if matched = 1 then
            if dynamicSegmentCount r.url < s.bestDynamic then
              { s with best := some r, bestParams := ps,
                       bestDynamic := dynamicSegmentCount r.url, ambiguous := false }
            else if dynamicSegmentCount r.url = s.bestDynamic then { s with ambiguous := true }
            else s
          else s).sawInvalid = s.sawInvalid := by
          split_ifs <;> rfl
        rw [hsame]
        exact ⟨Or.inl, fun h => h.resolve_right hlt⟩

theorem search_invalid (method url : Bytes) (table : List Route) (s : Search) :
    (table.foldl (searchStep method url) s).sawInvalid = true
      ↔ s.sawInvalid = true ∨ ∃ r ∈ table, Overlong method url r := by
  induction table generalizing s with
  | nil => exact ⟨Or.inl, fun h => h.resolve_right fun ⟨_, hr, _⟩ => nomatch hr⟩
  | cons r table ih =>
      rw [List.foldl_cons, ih, searchStep_invalid, or_assoc]
      simp only [List.mem_cons, exists_eq_or_imp]

/-! ## The outcome -/

/-- The answer for one method: the candidate with the fewest braces and its
    values; or nothing, `invalid` being set for a tie, and without a candidate
    for an over-long value. -/
structure Outcome (table : List Route) (method url : Bytes)
    (out : Option Route × RequestParams) : Prop where
  found : ∀ r, out.1 = some r ↔ Cheapest braces (Candidate method url) table r
  values : ∀ r, out.1 = some r →
    out.2 = { paramsReset with pathValue := dynamicValues r.url url }
  missed : out.1 = none → out.2 = { paramsReset with invalid := out.2.invalid }
    ∧ (out.2.invalid = true ↔ Tie braces (Candidate method url) table
        ∨ (∀ r ∈ table, ¬ Candidate method url r) ∧ ∃ r ∈ table, Overlong method url r)

/-- **`route_find_exact`**, for any table. -/
theorem routeFindExact_outcome (table : List Route) (method url : Bytes) :
    Outcome table method url (routeFindExact table method url) := by
  have hf := search_finds method url table
  have hinv := search_invalid method url table ⟨false, false, INT_MAX, none, paramsReset⟩
  have hpick := @pick_candidates _ braces (Candidate method url) _ (candidate method url) Prod.fst
    cost (fun r c hc => by rw [(candidate_some hc).1]) (fun _ => rfl) (fun r => candidate_iff)
    table
  rw [routeFindExact]
  revert hf hinv
  generalize table.foldl (searchStep method url) _ = s
  intro hf hinv
  have hinv' : s.sawInvalid = true ↔ ∃ r ∈ table, Overlong method url r :=
    hinv.trans ⟨fun h => h.resolve_left fun h => (by cases h), Or.inr⟩
  have hbest := hf.best
  have htie := hf.tie
  rcases hpick with ⟨hp, hnone⟩ | ⟨c, hp, hc, hcheap⟩ | ⟨c, hp, htied⟩
  · -- no candidate
    rw [hp] at hbest htie
    cases hb : s.best with
    | some r => rw [hb] at hbest; cases hbest
    | none =>
        dsimp only
        refine ⟨fun r => ⟨fun h => (by cases h), ?_⟩,
          fun r h => (by cases h), fun _ => ⟨rfl, ?_⟩⟩
        · rintro ⟨rest, hperm, hr, -⟩
          exact absurd hr (hnone r (hperm.mem_iff.mpr List.mem_cons_self))
        · dsimp only
          rw [← htie, Bool.or_false, hinv']
          constructor
          · exact fun h => Or.inr ⟨hnone, h⟩
          · rintro (⟨a, b, rest, hperm, ha, -⟩ | ⟨-, h⟩)
            · exact absurd ha (hnone a (hperm.mem_iff.mpr List.mem_cons_self))
            · exact h
  · -- one of them is the most specific
    rw [hp] at hbest htie
    cases hb : s.best with
    | none => rw [hb] at hbest; cases hbest
    | some b =>
        rw [hb, Option.map_some] at hbest
        have hcb := Option.some.inj hbest
        have hvals := (candidate_some hc).1
        rw [hcb] at hvals hcheap
        have hps : s.bestParams = { paramsReset with pathValue := dynamicValues b.url url } :=
          (Prod.mk.inj hvals).2
        rw [← htie]
        dsimp only
        refine ⟨fun r => ⟨fun h => ?_, fun h => ?_⟩, fun r h => ?_, fun h => (by cases h)⟩
        · rw [← Option.some.inj h]
          exact hcheap
        · exact congrArg some (hcheap.unique h)
        · rw [← Option.some.inj h]
          exact hps
  · -- a tie
    rw [hp] at hbest htie
    cases hb : s.best with
    | none => rw [hb] at hbest; cases hbest
    | some b =>
        rw [← htie]
        dsimp only
        refine ⟨fun r => ⟨fun h => (by cases h), fun h => absurd htied h.not_tie⟩,
          fun r h => (by cases h), fun _ => ⟨rfl, ?_⟩⟩
        dsimp only
        rw [Bool.or_true]
        exact ⟨fun _ => Or.inl htied, fun _ => rfl⟩

/-- The outcome does not depend on the order of the table. -/
theorem Outcome.perm {table table' : List Route} {method url : Bytes}
    {out : Option Route × RequestParams} (h : Outcome table method url out)
    (hp : table.Perm table') : Outcome table' method url out where
  found r := (h.found r).trans ⟨fun hc => hc.perm hp, fun hc => hc.perm hp.symm⟩
  values := h.values
  missed hn := by
    refine ⟨(h.missed hn).1, (h.missed hn).2.trans ?_⟩
    constructor
    · rintro (ht | ⟨hnone, r, hr, hlong⟩)
      · exact Or.inl (ht.perm hp)
      · exact Or.inr ⟨fun r hr => hnone r (hp.mem_iff.mpr hr), r, hp.mem_iff.mp hr, hlong⟩
    · rintro (ht | ⟨hnone, r, hr, hlong⟩)
      · exact Or.inl (ht.perm hp.symm)
      · exact Or.inr ⟨fun r hr => hnone r (hp.mem_iff.mp hr), r, hp.mem_iff.mpr hr, hlong⟩

/-- There is one outcome. -/
theorem Outcome.unique {table : List Route} {method url : Bytes}
    {out out' : Option Route × RequestParams} (h : Outcome table method url out)
    (h' : Outcome table method url out') : out = out' := by
  have hfst : out.1 = out'.1 := by
    refine Option.ext fun r => ?_
    rw [h.found r, h'.found r]
  refine Prod.ext hfst ?_
  cases hr : out.1 with
  | some r => rw [h.values r hr, h'.values r (hfst ▸ hr)]
  | none =>
      obtain ⟨h1, h2⟩ := h.missed hr
      obtain ⟨h1', h2'⟩ := h'.missed (hfst ▸ hr)
      have hinv : out.2.invalid = out'.2.invalid :=
        Bool.eq_iff_iff.mpr (h2.trans h2'.symm)
      rw [h1, h1', hinv]

/-! ## `HEAD` -/

/-- No route of the method matches, and none comes to an over-long value. -/
def Silent (table : List Route) (method url : Bytes) : Prop :=
  ∀ r ∈ table, ¬ Candidate method url r ∧ ¬ Overlong method url r

theorem Outcome.silent_iff {table : List Route} {method url : Bytes}
    {out : Option Route × RequestParams} (h : Outcome table method url out) :
    Silent table method url ↔ out.1 = none ∧ out.2.invalid = false := by
  constructor
  · intro hs
    have hnone : out.1 = none := by
      cases hr : out.1 with
      | none => rfl
      | some r =>
          obtain ⟨rest, hperm, hc, -⟩ := (h.found r).mp hr
          exact absurd hc (hs r (hperm.mem_iff.mpr List.mem_cons_self)).1
    refine ⟨hnone, Bool.eq_false_iff.mpr fun hinv => ?_⟩
    rcases (h.missed hnone).2.mp hinv with ⟨a, b, rest, hperm, ha, -⟩ | ⟨-, r, hr, hlong⟩
    · exact (hs a (hperm.mem_iff.mpr List.mem_cons_self)).1 ha
    · exact (hs r hr).2 hlong
  · rintro ⟨hnone, hinv⟩
    have hno : ¬ (Tie braces (Candidate method url) table
        ∨ (∀ r ∈ table, ¬ Candidate method url r) ∧ ∃ r ∈ table, Overlong method url r) :=
      fun hor => by
        rw [(h.missed hnone).2.mpr hor] at hinv
        exact nomatch hinv
    -- with a candidate there would be a cheapest one or a tie
    have hcand : ∀ r ∈ table, ¬ Candidate method url r := by
      rcases @pick_candidates _ braces (Candidate method url) _ (candidate method url) Prod.fst
        cost (fun r c hc => by rw [(candidate_some hc).1]) (fun _ => rfl) (fun r => candidate_iff)
        table with ⟨-, hn⟩ | ⟨c, -, -, hcheap⟩ | ⟨-, -, htied⟩
      · exact hn
      · exact nomatch hnone.symm.trans ((h.found _).mpr hcheap)
      · exact absurd (Or.inl htied) hno
    exact fun r hr => ⟨hcand r hr, fun hlong => hno (Or.inr ⟨hcand, r, hr, hlong⟩)⟩

/-- The method that a request is answered under. -/
theorem routeFind_outcome (table : List Route) (method url : Bytes) :
    (¬ (method = lit "HEAD" ∧ Silent table method url) →
        Outcome table method url (routeFind table method url))
      ∧ (method = lit "HEAD" ∧ Silent table method url →
        Outcome table (lit "GET") url (routeFind table method url)) := by
  have hexact := routeFindExact_outcome table method url
  have hsilent := hexact.silent_iff
  rw [routeFind]
  dsimp only
  by_cases h : method = lit "HEAD" ∧ Silent table method url
  · obtain ⟨hnone, hinv⟩ := hsilent.mp h.2
    rw [if_pos ⟨hnone, hinv, h.1⟩]
    exact ⟨fun hn => absurd h hn, fun _ => routeFindExact_outcome table (lit "GET") url⟩
  · rw [if_neg fun hc => h ⟨hc.2.2, hsilent.mpr ⟨hc.1, hc.2.1⟩⟩]
    exact ⟨fun _ => hexact, fun hy => absurd hy h⟩

theorem silent_perm {table table' : List Route} {method url : Bytes} (hp : table.Perm table') :
    Silent table method url ↔ Silent table' method url :=
  ⟨fun h r hr => h r (hp.mem_iff.mpr hr), fun h r hr => h r (hp.mem_iff.mp hr)⟩

/-- Another order of the table gives the same route and the same values. -/
theorem routeFind_perm {table table' : List Route} (hp : table.Perm table')
    (method url : Bytes) : routeFind table' method url = routeFind table method url := by
  obtain ⟨h1, h2⟩ := routeFind_outcome table method url
  obtain ⟨h1', h2'⟩ := routeFind_outcome table' method url
  by_cases h : method = lit "HEAD" ∧ Silent table method url
  · exact (h2' ⟨h.1, (silent_perm hp).mp h.2⟩).unique ((h2 h).perm hp)
  · exact (h1' fun hc => h ⟨hc.1, (silent_perm hp).mpr hc.2⟩).unique ((h1 h).perm hp)

/-! ## Patterns of the generator -/

theorem countP_slashed (ps : List Bytes) :
    (slashed slash ps).countP (· == openBrace) = (ps.map (·.countP (· == openBrace))).sum := by
  induction ps with
  | nil => rfl
  | cons p ps ih =>
      have hslash : (slash == openBrace) = false := by decide
      rw [slashed_cons, List.countP_cons, hslash, List.countP_append, ih, List.map_cons,
        List.sum_cons, if_neg Bool.false_ne_true]
      rfl

theorem countP_openBrace_eq_zero {p : Bytes} (h : openBrace ∉ p) :
    p.countP (· == openBrace) = 0 :=
  List.countP_eq_zero.mpr fun _ hc heq => h (beq_iff_eq.mp heq ▸ hc)

theorem named_braces {ps names : List Bytes} (h : Named ps names) :
    (ps.map (·.countP (· == openBrace))).sum = ps.countP isDynamic := by
  induction h with
  | nil => rfl
  | static hp _ ih =>
      rw [List.map_cons, List.sum_cons, countP_openBrace_eq_zero hp.noOpen, Nat.zero_add, ih,
        List.countP_cons_of_neg (by rw [isDynamic_static hp]; exact Bool.false_ne_true)]
  | placeholder hn _ ih =>
      have hclose : (closeBrace == openBrace) = false := by decide
      rw [List.map_cons, List.sum_cons, ih, List.countP_cons_of_pos (isDynamic_placeholder _),
        placeholder, List.countP_cons, beq_self_eq_true, if_pos rfl, List.countP_append,
        countP_openBrace_eq_zero hn.noOpen, List.countP_singleton, hclose,
        if_neg Bool.false_ne_true]
      omega

/-- A pattern of the generator has a brace for each of its dynamic segments, and
    few segments. -/
theorem validUrl_braces {url : Bytes} {names : List Bytes} (h : ValidUrl url names)
    (hlen : url.length ≤ ROUTE_MAX_URL) :
    dynamicSegmentCount url = dynamicParts url
      ∧ (segments slash url).length < ROUTE_SEGMENT_MAX := by
  have hslash : (slash == openBrace) = false := by decide
  have hempty : isDynamic [] = false := rfl
  have hcons : url = slash :: url.tail := h.eq_cons
  have hcount : dynamicSegmentCount url = url.tail.countP (· == openBrace) := by
    rw [dynamicSegmentCount, List.take_of_length_le hlen]
    conv_lhs => rw [hcons]
    rw [List.countP_cons, hslash, if_neg Bool.false_ne_true]
    rfl
  have hparts : dynamicParts url = (segments slash url.tail).countP isDynamic := by
    rw [dynamicParts]
    conv_lhs => rw [hcons]
    rw [segments_sep, List.countP_cons, hempty, if_neg Bool.false_ne_true]
    rfl
  have hsegs : (segments slash url).length = (segments slash url.tail).length + 1 := by
    conv_lhs => rw [hcons]
    rw [segments_sep, List.length_cons]
  have htail : url.tail.countP (· == openBrace)
      = ((segments slash url.tail).map (·.countP (· == openBrace))).sum := by
    by_cases hnil : url.tail = []
    · rw [hnil]
      rfl
    · have hback := slashed_segments hnil (h.tail_last.resolve_left hnil)
      rw [← countP_slashed, hback, List.countP_cons, hslash, if_neg Bool.false_ne_true]
      rfl
  have hfew : (segments slash url.tail).length ≤ 16 := h.count
  refine ⟨?_, hsegs ▸ Nat.lt_of_le_of_lt (Nat.succ_le_succ hfew) (by decide)⟩
  rw [hcount, htail, hparts]
  exact named_braces h.segments

/-! ## The claim -/

/-- A static segment with a brace in it, and a dynamic segment. -/
def braceRoute : Route :=
  ⟨lit "GET", lit "/x\x7by", lit "application/json", 200, some (lit "brace")⟩

def itemRoute : Route :=
  ⟨lit "GET", lit "/\x7bid\x7d", lit "application/json", 200, some (lit "item")⟩

end RouteFind
