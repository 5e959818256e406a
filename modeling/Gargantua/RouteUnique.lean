import Mathlib.Data.List.Perm.Basic
import Gargantua.Lib.UniqueMin
import Gargantua.RouteSegments

/-! # Accepted routes are never ambiguous

    The table of an accepted set of routes holds each of them once, and the
    OpenAPI entry (`emitLoop_perm`); its search is the search for the one
    cheapest element (`Finds`).  Two routes of a method that match one path
    overlap, so the generator has seen that they differ in their number of
    placeholders, and the search never ends in a tie. -/

namespace RouteUnique

open CString Segments UniqueMin RouteRuntime RouteGenerator RouteSegments

/-! ## The table -/

/-- The routes not emitted yet. -/
def pending (routes : List (Bool × ParsedRoute)) : List ParsedRoute :=
  (routes.filter fun p => !p.1).map Prod.snd

theorem bestLoop_mem : ∀ (routes : List (Bool × ParsedRoute)) (i : Nat) (best : Option Nat)
    (bestDynamic j : Nat), bestLoop routes i best bestDynamic = some j →
    best = some j ∨ ∃ k r, j = i + k ∧ routes[k]? = some (false, r) := by
  intro routes
  induction routes with
  | nil =>
      intro i best bestDynamic j h
      exact Or.inl h
  | cons p routes ih =>
      intro i best bestDynamic j h
      obtain ⟨emitted, r⟩ := p
      rw [bestLoop] at h
      split at h
      · rename_i hc
        rcases ih _ _ _ _ h with hb | ⟨k, r', hj, hk⟩
        · exact Or.inr ⟨0, r, (Option.some.inj hb).symm, by rw [hc.1]; rfl⟩
        · exact Or.inr ⟨k + 1, r', by omega, hk⟩
      · rcases ih _ _ _ _ h with hb | ⟨k, r', hj, hk⟩
        · exact Or.inl hb
        · exact Or.inr ⟨k + 1, r', by omega, hk⟩

theorem bestLoop_some : ∀ (routes : List (Bool × ParsedRoute)) (i : Nat) (best : Option Nat)
    (bestDynamic : Nat),
    best ≠ none ∨ (∃ r, (false, r) ∈ routes ∧ dynamicSegments r.url < bestDynamic) →
    ∃ j, bestLoop routes i best bestDynamic = some j := by
  intro routes
  induction routes with
  | nil =>
      rintro i best bestDynamic (h | ⟨r, hr, -⟩)
      · exact Option.ne_none_iff_exists'.mp h
      · exact nomatch hr
  | cons p routes ih =>
      intro i best bestDynamic h
      obtain ⟨emitted, r⟩ := p
      rw [bestLoop]
      split
      · exact ih _ _ _ (Or.inl (fun h => nomatch h))
      · rename_i hc
        refine ih _ _ _ ?_
        rcases h with h | ⟨r', hr', hlt⟩
        · exact Or.inl h
        · rcases List.mem_cons.mp hr' with heq | hmem
          · cases heq
            exact absurd ⟨rfl, hlt⟩ hc
          · exact Or.inr ⟨r', hmem, hlt⟩

/-- At most every byte of a path opens a placeholder. -/
theorem count_lt_INT_MAX (url : Bytes) :
    (url.take 128).countP (· == openBrace) < INT_MAX := by
  have h1 := List.countP_le_length (p := (· == openBrace)) (l := url.take 128)
  exact Nat.lt_of_le_of_lt (h1.trans (List.length_take_le 128 url)) (by decide)

/-- Marking a pending route takes it out. -/
theorem pending_set : ∀ {routes : List (Bool × ParsedRoute)} {i : Nat} {r : ParsedRoute},
    routes[i]? = some (false, r) →
    (pending routes).Perm (r :: pending (routes.set i (true, r))) := by
  intro routes
  induction routes with
  | nil =>
      intro i r h
      exact nomatch h
  | cons p routes ih =>
      intro i r h
      cases i with
      | zero =>
          obtain rfl : p = (false, r) := Option.some.inj h
          exact List.Perm.refl _
      | succ i =>
          rw [List.getElem?_cons_succ] at h
          have hp := ih h
          obtain ⟨emitted, r'⟩ := p
          cases emitted with
          | true => exact hp
          | false => exact (hp.cons r').trans (List.Perm.swap r r' _)

/-- **The emitted routes** are the pending ones, each once. -/
theorem emitLoop_perm : ∀ (n : Nat) {routes : List (Bool × ParsedRoute)},
    (pending routes).length = n → (emitLoop n routes).Perm (pending routes) := by
  intro n
  induction n with
  | zero =>
      intro routes h
      rw [List.eq_nil_of_length_eq_zero h]
      exact List.Perm.refl _
  | succ n ih =>
      intro routes h
      rw [emitLoop]
      obtain ⟨r, hr⟩ : ∃ r, r ∈ pending routes :=
        List.exists_mem_of_ne_nil _ (List.ne_nil_of_length_eq_add_one h)
      have hmem : (false, r) ∈ routes := by
        obtain ⟨⟨emitted, r'⟩, hp, rfl⟩ := List.mem_map.mp hr
        obtain ⟨hp, he⟩ := List.mem_filter.mp hp
        cases emitted with
        | true => exact nomatch he
        | false => exact hp
      obtain ⟨i, hi⟩ := bestLoop_some routes 0 none INT_MAX
        (Or.inr ⟨r, hmem, count_lt_INT_MAX r.url⟩)
      rcases bestLoop_mem routes 0 none INT_MAX i hi with hn | ⟨k, best, hk, hget⟩
      · exact nomatch hn
      obtain rfl : i = k := by omega
      have hperm := pending_set hget
      rw [hi]
      dsimp only
      rw [hget]
      have hlen := hperm.length_eq
      rw [h, List.length_cons] at hlen
      exact ((ih (Nat.add_right_cancel hlen).symm).cons best).trans hperm.symm

/-- The lines of the table behind the first one. -/
theorem emitted_perm {routes : List ParsedRoute} (h : routes.length ≤ GENERATOR_MAX_ROUTES) :
    ∃ table, emitRouteTable routes = openapiRoute :: table
      ∧ table.Perm (routes.map emitRoute) := by
  refine ⟨_, rfl, List.Perm.map _ ?_⟩
  rw [List.take_of_length_le h]
  have hp : pending (routes.map (false, ·)) = routes := by
    rw [pending, List.filter_map, List.map_map]
    have hall : routes.filter ((fun p => !p.1) ∘ fun r => (false, r)) = routes :=
      List.filter_eq_self.mpr fun r _ => rfl
    rw [hall]
    exact List.map_id routes
  have hperm : (emitLoop routes.length (routes.map (false, ·))).Perm
      (pending (routes.map (false, ·))) := emitLoop_perm routes.length (by rw [hp])
  rw [hp] at hperm
  exact hperm

/-! ## The search -/

/-- What the search makes of a route: nothing, or a match with its values. -/
def candidate (method url : Bytes) (r : Route) : Option (Route × RequestParams) :=
  if r.handler ≠ none ∧ r.method = method ∧ (pathMatches r.url url paramsReset).1 = 1 then
    some (r, (pathMatches r.url url paramsReset).2)
  else none

/-- The placeholders of a match. -/
def cost (c : Route × RequestParams) : Nat := dynamicSegmentCount c.1.url

/-- The variables of the loop hold what the abstract search has found. -/
structure Finds (s : Search) (p : Pick (Route × RequestParams)) : Prop where
  best : p.best = s.best.map fun r => (r, s.bestParams)
  tie : p.tie = s.ambiguous
  dynamic : s.bestDynamic = (s.best.map fun r => dynamicSegmentCount r.url).getD INT_MAX

theorem Finds.invalid {s : Search} {p : Pick (Route × RequestParams)} (h : Finds s p)
    (b : Bool) : Finds { s with sawInvalid := b } p := ⟨h.best, h.tie, h.dynamic⟩

/-- One round of the loop. -/
theorem Finds.step {s : Search} {p : Pick (Route × RequestParams)} (h : Finds s p)
    (method url : Bytes) (r : Route) :
    Finds (searchStep method url s r)
      ((candidate method url r).elim p fun c => p.add cost c) := by
  rw [searchStep, candidate]
  by_cases hh : r.handler = none
  · rw [if_pos hh, if_neg (fun hc => hc.1 hh)]
    exact h
  rw [if_neg hh]
  by_cases hm : r.method = method
  swap
  · rw [if_pos hm, if_neg (fun hc => hm hc.2.1)]
    exact h
  rw [if_neg (fun hc => hc hm)]
  cases hr : pathMatches r.url url paramsReset with
  | mk matched ps =>
      dsimp only
      by_cases h1 : matched = 1
      swap
      · have hno : ¬ (r.handler ≠ none ∧ r.method = method ∧ matched = 1) :=
          fun hc => h1 hc.2.2
        rw [if_neg h1, if_neg hno]
        split
        · exact h.invalid true
        · exact h
      · subst h1
        have hyes : r.handler ≠ none ∧ r.method = method ∧ (1 : Int) = 1 := ⟨hh, hm, rfl⟩
        have hpos : ¬ (1 : Int) < 0 := by decide
        rw [if_neg hpos, if_pos rfl, if_pos hyes, Option.elim_some, Pick.add, h.best,
          h.dynamic]
        have hmax : dynamicSegmentCount r.url < INT_MAX := count_lt_INT_MAX r.url
        cases hb : s.best with
        | none =>
            rw [Option.map_none, Option.map_none, Option.getD_none, if_pos hmax]
            exact ⟨rfl, rfl, rfl⟩
        | some b =>
            rw [Option.map_some, Option.map_some, Option.getD_some]
            have hcost : ∀ r ps, cost (r, ps) = dynamicSegmentCount r.url := fun _ _ => rfl
            dsimp only
            rw [hcost, hcost]
            by_cases hlt : dynamicSegmentCount r.url < dynamicSegmentCount b.url
            · rw [if_pos hlt, if_pos hlt]
              exact ⟨rfl, rfl, rfl⟩
            · rw [if_neg hlt, if_neg hlt]
              split
              · exact ⟨rfl, rfl, rfl⟩
              · exact h

/-- The whole loop, from any state of it. -/
theorem Finds.foldl {s : Search} {p : Pick (Route × RequestParams)} (h : Finds s p)
    (method url : Bytes) (table : List Route) :
    Finds (table.foldl (searchStep method url) s)
      ((table.filterMap (candidate method url)).foldl (Pick.add cost) p) := by
  induction table generalizing s p with
  | nil => exact h
  | cons r table ih =>
      rw [List.foldl_cons, List.filterMap_cons]
      have hstep := h.step method url r
      cases hc : candidate method url r with
      | none =>
          rw [hc] at hstep
          exact ih hstep
      | some c =>
          rw [hc] at hstep
          exact ih hstep

/-- The search is the abstract one over the matches. -/
theorem search_finds (method url : Bytes) (table : List Route) :
    Finds (table.foldl (searchStep method url) ⟨false, false, INT_MAX, none, paramsReset⟩)
      (pick cost (table.filterMap (candidate method url))) :=
  Finds.foldl ⟨rfl, rfl, rfl⟩ method url table

/-- **`route_find_exact`** returns the one match with the fewest placeholders. -/
theorem routeFindExact_unique {table : List Route} {method url : Bytes} {r : Route}
    {ps : RequestParams} (h : Unique cost (table.filterMap (candidate method url)) (r, ps)) :
    routeFindExact table method url = (some r, ps) := by
  have hf := search_finds method url table
  rw [h.pick] at hf
  rw [routeFindExact]
  dsimp only
  revert hf
  generalize table.foldl (searchStep method url) _ = s
  intro hf
  have hbest := hf.best
  cases hb : s.best with
  | none =>
      rw [hb] at hbest
      exact nomatch hbest
  | some b =>
      rw [hb, Option.map_some] at hbest
      obtain ⟨rfl, rfl⟩ := Prod.mk.inj (Option.some.inj hbest)
      rw [← hf.tie]

/-- Without a match it returns nothing, and not because of a tie. -/
theorem routeFindExact_none {table : List Route} {method url : Bytes}
    (h : table.filterMap (candidate method url) = []) :
    (routeFindExact table method url).1 = none := by
  have hf := search_finds method url table
  rw [h] at hf
  rw [routeFindExact]
  dsimp only
  revert hf
  generalize table.foldl (searchStep method url) _ = s
  intro hf
  have hbest := hf.best
  cases hb : s.best with
  | none => rfl
  | some b =>
      rw [hb] at hbest
      exact nomatch hbest

/-- A method that no route has finds nothing wrong either. -/
theorem routeFindExact_absent {table : List Route} {method : Bytes} (url : Bytes)
    (h : ∀ r ∈ table, r.method ≠ method) :
    routeFindExact table method url = (none, paramsReset) := by
  have hfold : ∀ s, table.foldl (searchStep method url) s = s := by
    intro s
    induction table with
    | nil => rfl
    | cons r table ih =>
        obtain ⟨hr, htable⟩ := List.forall_mem_cons.mp h
        have hstep : searchStep method url s r = s := by
          rw [searchStep, if_pos hr, ite_self]
        rw [List.foldl_cons, hstep]
        exact ih htable
  rw [routeFindExact, hfold]
  rfl

/-! ## Accepted routes -/

/-- The routes of a program that the generator accepts: each comes from an
    annotation, and validating them all reports nothing. -/
structure Accepted (types : List Bytes) (routes : List ParsedRoute) : Prop where
  armed : ∀ r ∈ routes, ∃ line, armRouteAnnotation line = some (.ok (r.method, r.url))
  few : routes.length ≤ GENERATOR_MAX_ROUTES
  valid : validateRoutes types routes = []

/-- What an accepted annotation says about its path and method. -/
structure Armed (method url : Bytes) : Prop where
  valid : ∃ names, ValidUrl url names
  short : url.length < GENERATOR_MAX_URL
  safe : ∀ c ∈ url, isUnsafe c = false
  notHead : method ≠ lit "HEAD"

theorem httpMethodFromWord_ne_head {word method : Bytes}
    (h : httpMethodFromWord word = some method) : method ≠ lit "HEAD" := by
  rw [httpMethodFromWord] at h
  repeat' split at h
  all_goals
    cases h
    try decide

theorem parseRouteUrl_ok {line word url : Bytes} (h : parseRouteUrl line word = .ok url) :
    url.length < GENERATOR_MAX_URL ∧ ∀ c ∈ url, isUnsafe c = false := by
  unfold parseRouteUrl at h
  split at h
  · exact nomatch h
  split at h
  · exact nomatch h
  rename_i q start _
  split at h
  · exact nomatch h
  dsimp only at h
  split at h
  · exact nomatch h
  rename_i hsafe
  split at h
  · exact nomatch h
  split at h
  · exact nomatch h
  rename_i hlen
  split at h
  · exact nomatch h
  split at h
  · exact nomatch h
  split at h
  · exact nomatch h
  cases h
  rw [not_or, ge_iff_le, Nat.not_le] at hlen
  refine ⟨hlen.2, fun c hc => Bool.eq_false_iff.mpr fun hu => hsafe ?_⟩
  exact List.any_eq_true.mpr ⟨c, hc, hu⟩

theorem armed_of_line {line method url : Bytes}
    (h : armRouteAnnotation line = some (.ok (method, url))) : Armed method url := by
  unfold armRouteAnnotation at h
  dsimp only at h
  split at h
  · exact nomatch h
  split at h
  · exact nomatch h
  rename_i m hm
  have h := Option.some.inj h
  split at h
  · exact nomatch h
  rename_i u hu
  split at h
  · exact nomatch h
  rename_i hv
  cases h
  obtain ⟨hlen, hsafe⟩ := parseRouteUrl_ok hu
  exact ⟨validateRouteUrl_iff.mp hv, hlen, hsafe, httpMethodFromWord_ne_head hm⟩

/-- Two routes that the generator lets stand side by side. -/
def NoClash (route other : ParsedRoute) : Prop :=
  ¬ (route.method = other.method ∧ countUrlParams route.url = countUrlParams other.url
    ∧ routePatternsOverlap route.url other.url = true)

theorem noClash_of_nil {route other : ParsedRoute} (h : validateRouteClash route other = []) :
    NoClash route other := by
  intro hc
  rw [validateRouteClash, if_pos hc] at h
  exact nomatch (List.append_eq_nil_iff.mp h).2

/-- No reported error means that no route clashes with one before it, and none
    takes the path of the OpenAPI entry. -/
theorem validateRoutesLoop_nil {types : List Bytes} : ∀ {routes prior : List ParsedRoute},
    validateRoutesLoop types prior routes = [] →
    (∀ r ∈ routes, r.url ≠ lit "/openapi.json")
      ∧ (∀ r ∈ routes, ∀ other ∈ prior, NoClash r other)
      ∧ routes.Pairwise fun other r => NoClash r other := by
  intro routes
  induction routes with
  | nil =>
      intro prior _
      exact ⟨fun r hr => (nomatch hr), fun r hr => (nomatch hr), List.Pairwise.nil⟩
  | cons route routes ih =>
      intro prior h
      rw [validateRoutesLoop, List.append_eq_nil_iff, List.append_eq_nil_iff,
        List.append_eq_nil_iff] at h
      obtain ⟨⟨⟨hreserved, -⟩, hclash⟩, hrest⟩ := h
      obtain ⟨hurls, hprior, hpair⟩ := ih hrest
      have hurl : route.url ≠ lit "/openapi.json" := by
        intro heq
        rw [if_pos (Or.inl heq)] at hreserved
        exact nomatch hreserved
      have hhead : ∀ other ∈ prior, NoClash route other := by
        intro other hother
        refine noClash_of_nil ?_
        exact List.flatMap_eq_nil_iff.mp hclash other hother
      refine ⟨List.forall_mem_cons.mpr ⟨hurl, hurls⟩, List.forall_mem_cons.mpr ⟨hhead, ?_⟩,
        List.pairwise_cons.mpr ⟨?_, hpair⟩⟩
      · intro r hr other hother
        exact hprior r hr other (List.mem_append_left _ hother)
      · intro r hr
        exact hprior r hr route (List.mem_append_right _ List.mem_cons_self)

/-! ## No two matches tie -/

/-- The path matches the route. -/
def Matches (url : Bytes) (r : Route) : Prop := (pathMatches r.url url paramsReset).1 = 1

theorem Matches.binds {url : Bytes} {r : Route} (h : Matches url r) :
    ∃ vs, Binds (segments slash r.url) (segments slash url) vs := by
  have hm : pathMatches r.url url paramsReset = (1, (pathMatches r.url url paramsReset).2) := by
    rw [← show (pathMatches r.url url paramsReset).1 = 1 from h]
  obtain ⟨vs, hb, -⟩ := pathMatches_iff.mp hm
  exact ⟨vs, hb⟩

/-- Two valid patterns that match one path overlap. -/
theorem overlap_of_matches {a b url : Bytes} {na nb va vb : List Bytes} (ha : ValidUrl a na)
    (hb : ValidUrl b nb) (hba : Binds (segments slash a) (segments slash url) va)
    (hbb : Binds (segments slash b) (segments slash url) vb) :
    routePatternsOverlap a b = true := by
  rw [ha.eq_cons] at hba
  rw [hb.eq_cons] at hbb
  obtain ⟨us, hus, hba⟩ := Binds.tail hba
  obtain ⟨us', hus', hbb⟩ := Binds.tail hbb
  obtain rfl : us = us' := (List.cons.inj (hus.symm.trans hus')).2
  exact overlapLoop_binds _ ha.segments hb.segments hba hbb ha.count (by decide)
    (ValidUrl.tail_last ha) (ValidUrl.tail_last hb)

/-- Two routes of a method that match a path differ in their placeholders. -/
def Apart (url : Bytes) (a b : Route) : Prop :=
  a.method = b.method → Matches url a → Matches url b →
    dynamicSegmentCount a.url ≠ dynamicSegmentCount b.url

theorem Apart.symm {url : Bytes} {a b : Route} (h : Apart url a b) : Apart url b a :=
  fun hm hb ha heq => h hm.symm ha hb heq.symm

/-- The static path of the OpenAPI entry is matched by no other static route. -/
theorem apart_openapi {url : Bytes} {r : ParsedRoute} (h : Armed r.method r.url)
    (hurl : r.url ≠ lit "/openapi.json") : Apart url openapiRoute (emitRoute r) := by
  intro _ ho hr heq
  obtain ⟨names, hv⟩ := h.valid
  obtain ⟨vo, hbo⟩ := ho.binds
  obtain ⟨vr, hbr⟩ := hr.binds
  have hurl' : (emitRoute r).url = r.url := rfl
  rw [hurl'] at hbr heq
  -- no byte of the path opens a placeholder, so its segments are those of the request
  have hzero : dynamicSegmentCount openapiRoute.url = 0 := by decide +kernel
  have hnone : openBrace ∉ r.url := by
    rw [hzero, dynamicSegmentCount, List.take_of_length_le (Nat.le_of_lt h.short)] at heq
    intro hmem
    exact absurd (beq_self_eq_true openBrace)
      (by simpa using List.countP_eq_zero.mp heq.symm openBrace hmem)
  have hstatic : ∀ {ps us vs : List Bytes}, Binds ps us vs → (∀ p ∈ ps, openBrace ∉ p) →
      ps = us := by
    intro ps us vs hb
    induction hb with
    | nil => exact fun _ => rfl
    | static _ _ ih =>
        intro hp
        rw [ih fun p hm => hp p (List.mem_cons_of_mem _ hm)]
    | dynamic hd =>
        intro hp
        refine absurd ?_ (hp _ List.mem_cons_self)
        rw [isDynamic, Bool.and_eq_true, Bool.and_eq_true, beq_iff_eq] at hd
        exact List.mem_of_mem_head? hd.1.2
  have hr := hstatic hbr fun p hp hc => hnone (mem_of_mem_segments hp hc)
  have ho := hstatic hbo (by decide +kernel)
  -- and the two paths have the same segments, so they are the same
  have hseg : segments slash r.url = segments slash openapiRoute.url := hr.trans ho.symm
  have hopen : segments slash openapiRoute.url = [[], lit "openapi.json"] := by decide +kernel
  rw [hv.eq_cons, segments_sep, hopen] at hseg
  have htail := (List.cons.inj hseg).2
  have hne : r.url.tail ≠ [] := by
    intro h0
    rw [h0] at htail
    cases htail
  have hback := slashed_segments hne (hv.tail_last.resolve_left hne)
  rw [htail, ← hv.eq_cons] at hback
  refine hurl (hback.symm.trans ?_)
  decide +kernel

/-- **The lines of an accepted table are pairwise apart.** -/
theorem table_apart {types : List Bytes} {routes : List ParsedRoute}
    (h : Accepted types routes) (url : Bytes) :
    (emitRouteTable routes).Pairwise (Apart url) := by
  obtain ⟨table, heq, hperm⟩ := emitted_perm h.few
  have hvalid := h.valid
  rw [validateRoutes, List.take_of_length_le h.few] at hvalid
  obtain ⟨hurls, -, hpair⟩ := validateRoutesLoop_nil hvalid
  have harmed : ∀ r ∈ routes, Armed r.method r.url := by
    intro r hr
    obtain ⟨line, hline⟩ := h.armed r hr
    exact armed_of_line hline
  rw [heq]
  refine List.pairwise_cons.mpr ⟨?_, ?_⟩
  · intro r hr
    obtain ⟨p, hp, rfl⟩ := List.mem_map.mp (hperm.mem_iff.mp hr)
    exact apart_openapi (harmed p hp) (hurls p hp)
  · refine (hperm.pairwise_iff fun h => Apart.symm h).mpr (List.pairwise_map.mpr ?_)
    refine hpair.imp_of_mem ?_
    intro a b ha hb hno hmethod hma hmb hcount
    obtain ⟨na, hna⟩ := (harmed a ha).valid
    obtain ⟨nb, hnb⟩ := (harmed b hb).valid
    obtain ⟨va, hva⟩ := hma.binds
    obtain ⟨vb, hvb⟩ := hmb.binds
    exact hno ⟨hmethod.symm, hcount.symm, overlap_of_matches hnb hna hvb hva⟩

/-! ## `route_find` -/

/-- The method serves the request: it is the same, or `GET` for `HEAD`. -/
def serves (method : Bytes) (r : Route) : Bool :=
  r.method == method || (method == lit "HEAD" && r.method == lit "GET")

/-- The routes that match a request. -/
def matching (table : List Route) (method url : Bytes) : List Route :=
  table.filter fun r => serves method r && (pathMatches r.url url paramsReset).1 == 1

/-- Every line of the table has a handler, and none is for `HEAD`. -/
theorem table_lines {types : List Bytes} {routes : List ParsedRoute}
    (h : Accepted types routes) : ∀ r ∈ emitRouteTable routes,
      r.handler ≠ none ∧ r.method ≠ lit "HEAD" := by
  obtain ⟨table, heq, hperm⟩ := emitted_perm h.few
  rw [heq]
  refine List.forall_mem_cons.mpr ⟨⟨fun h => (nomatch h), by decide +kernel⟩, ?_⟩
  intro r hr
  obtain ⟨p, hp, rfl⟩ := List.mem_map.mp (hperm.mem_iff.mp hr)
  obtain ⟨line, hline⟩ := h.armed p hp
  exact ⟨fun h => (nomatch h), (armed_of_line hline).notHead⟩

/-- The method that a request is looked up under. -/
def lookupMethod (method : Bytes) : Bytes := if method = lit "HEAD" then lit "GET" else method

/-- A route that is not for `HEAD` serves what is looked up under its method. -/
theorem serves_iff {method : Bytes} {r : Route} (hm : r.method ≠ lit "HEAD") :
    serves method r = true ↔ r.method = lookupMethod method := by
  rw [serves, lookupMethod, Bool.or_eq_true, Bool.and_eq_true, beq_iff_eq, beq_iff_eq,
    beq_iff_eq]
  by_cases hmethod : method = lit "HEAD"
  · rw [if_pos hmethod]
    constructor
    · rintro (heq | ⟨-, heq⟩)
      · exact absurd (heq.trans hmethod) hm
      · exact heq
    · exact fun heq => Or.inr ⟨hmethod, heq⟩
  · rw [if_neg hmethod]
    constructor
    · rintro (heq | ⟨hhead, -⟩)
      · exact heq
      · exact absurd hhead hmethod
    · exact Or.inl

/-- The matches are what the search looks at. -/
theorem matching_eq {table : List Route}
    (h : ∀ r ∈ table, r.handler ≠ none ∧ r.method ≠ lit "HEAD") (method url : Bytes) :
    matching table method url
      = (table.filterMap (candidate (lookupMethod method) url)).map Prod.fst := by
  rw [matching]
  induction table with
  | nil => rfl
  | cons r table ih =>
      obtain ⟨⟨hh, hm⟩, htable⟩ := List.forall_mem_cons.mp h
      have hserves : serves method r = true ↔ r.method = lookupMethod method := serves_iff hm
      rw [List.filterMap_cons, candidate]
      by_cases hc : serves method r = true ∧ (pathMatches r.url url paramsReset).1 = 1
      · rw [if_pos ⟨hh, hserves.mp hc.1, hc.2⟩, List.filter_cons_of_pos (by
          rw [hc.1, hc.2]; rfl), ih htable]
        rfl
      · rw [if_neg (fun h => hc ⟨hserves.mpr h.2.1, h.2.2⟩), List.filter_cons_of_neg (by
          simpa using hc), ih htable]

theorem Unique.fst {xs : List (Route × RequestParams)} {c : Route × RequestParams}
    (h : Unique cost xs c) :
    Unique (fun r : Route => dynamicSegmentCount r.url) (xs.map Prod.fst) c.1 := by
  obtain ⟨before, after, rfl, hlt⟩ := h
  refine ⟨before.map Prod.fst, after.map Prod.fst, by rw [List.map_append]; rfl, ?_⟩
  intro r hr
  rw [← List.map_append] at hr
  obtain ⟨y, hy, rfl⟩ := List.mem_map.mp hr
  exact hlt y hy

/-- `route_find` looks a request up under one method. -/
theorem routeFind_eq {table : List Route} (h : ∀ r ∈ table, r.method ≠ lit "HEAD")
    (method url : Bytes) :
    routeFind table method url = routeFindExact table (lookupMethod method) url := by
  rw [routeFind, lookupMethod]
  by_cases hhead : method = lit "HEAD"
  · rw [hhead, routeFindExact_absent url h]
    rfl
  · rw [if_neg hhead]
    dsimp only
    rw [if_neg fun hc => hhead hc.2.2]

/-- Among the matches in an accepted table one has the fewest placeholders. -/
theorem candidates_unique {types : List Bytes} {routes : List ParsedRoute}
    (h : Accepted types routes) {method url : Bytes}
    (hne : (emitRouteTable routes).filterMap (candidate method url) ≠ []) :
    ∃ c, Unique cost ((emitRouteTable routes).filterMap (candidate method url)) c := by
  refine exists_unique hne ((table_apart h url).filterMap _ ?_)
  intro a b hab c hc d hd
  rw [candidate] at hc hd
  split at hc
  · split at hd
    · rename_i ha hb
      cases hc
      cases hd
      exact hab (ha.2.1.trans hb.2.1.symm) ha.2.2 hb.2.2
    · exact nomatch hd
  · exact nomatch hc

/-- **Accepted routes are never ambiguous**: whenever some route of the method,
    or of `GET` for `HEAD`, matches the path, one of them has fewer placeholders
    than all the others, and `route_find` returns it. -/
theorem route_find_unambiguous {types : List Bytes} {routes : List ParsedRoute}
    (h : Accepted types routes) (method url : Bytes) :
    (matching (emitRouteTable routes) method url ≠ [] →
        ∃ r, Unique (fun r : Route => dynamicSegmentCount r.url)
            (matching (emitRouteTable routes) method url) r
          ∧ (routeFind (emitRouteTable routes) method url).1 = some r)
      ∧ (matching (emitRouteTable routes) method url = [] →
        (routeFind (emitRouteTable routes) method url).1 = none) := by
  have hlines := table_lines h
  rw [routeFind_eq (fun r hr => (hlines r hr).2), matching_eq hlines method url]
  constructor
  · intro hne
    obtain ⟨⟨r, ps⟩, hu⟩ := candidates_unique h fun h0 => hne (by rw [h0]; rfl)
    refine ⟨r, Unique.fst hu, ?_⟩
    rw [routeFindExact_unique hu]
  · intro hnil
    exact routeFindExact_none (List.map_eq_nil_iff.mp hnil)

/-! ### A set of two routes -/

def itemRoute : ParsedRoute :=
  ⟨lit "GET", lit "/items/\x7bid\x7d", lit "item", lit "str",
    [⟨lit "str", lit "id", false, false, 0⟩], 3, []⟩

def newestRoute : ParsedRoute :=
  ⟨lit "GET", lit "/items/newest", lit "newest", lit "str", [], 8, []⟩

theorem accepted_two : Accepted [] [itemRoute, newestRoute] where
  armed := by
    refine List.forall_mem_cons.mpr ⟨⟨lit "$get(\"/items/\x7bid\x7d\")", by decide +kernel⟩, ?_⟩
    exact List.forall_mem_singleton.mpr
      ⟨lit "$get(\"/items/newest\")", by decide +kernel⟩
  few := by decide
  valid := by decide +kernel

/-- Both routes match `/items/newest`; a `HEAD` request for it gets the static
    one. -/
theorem route_find_unambiguous_two :
    ∃ r, Unique (fun r : Route => dynamicSegmentCount r.url)
        (matching (emitRouteTable [itemRoute, newestRoute]) (lit "HEAD")
          (lit "/items/newest")) r
      ∧ (routeFind (emitRouteTable [itemRoute, newestRoute]) (lit "HEAD")
          (lit "/items/newest")).1 = some r :=
  (route_find_unambiguous accepted_two (lit "HEAD") (lit "/items/newest")).1
    (by decide +kernel)

end RouteUnique
