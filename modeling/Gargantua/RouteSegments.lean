import Mathlib.Data.List.Nodup
import Gargantua.Lib.Segments
import Gargantua.RouteGenerator

/-! # Patterns and paths as segments

    The generator and the server walk over patterns and paths in loops of their
    own, each with its own bounds.  Here each of them is a statement about lists
    of segments: what `validate_route_url` accepts (`ValidUrl`), what
    `path_matches` accepts (`Binds`), and that `route_patterns_overlap` holds
    for any two valid patterns with a path in common. -/

namespace RouteSegments

open CString Segments RouteRuntime RouteGenerator

/-! ## `path_matches` -/

/-- The segments of a pattern against those of a path, and the values of the
    placeholders in order. -/
inductive Binds : List Bytes → List Bytes → List Bytes → Prop
  | nil : Binds [] [] []
  | static {p : Bytes} {ps us vs : List Bytes} (hp : isDynamic p = false)
      (h : Binds ps us vs) : Binds (p :: ps) (p :: us) vs
  | dynamic {p u : Bytes} {ps us vs : List Bytes} (hp : isDynamic p = true) (hne : u ≠ [])
      (hlen : u.length < PARAM_VALUE_LEN) (h : Binds ps us vs) :
      Binds (p :: ps) (u :: us) (u :: vs)

theorem Binds.length_eq {ps us vs : List Bytes} (h : Binds ps us vs) :
    ps.length = us.length := by
  induction h with
  | nil => rfl
  | static _ _ ih => rw [List.length_cons, List.length_cons, ih]
  | dynamic _ _ _ _ ih => rw [List.length_cons, List.length_cons, ih]

/-- The values are those of the placeholders. -/
theorem Binds.values_length {ps us vs : List Bytes} (h : Binds ps us vs) :
    vs.length = ps.countP isDynamic := by
  induction h with
  | nil => rfl
  | static hp _ ih => rw [List.countP_cons_of_neg (by rw [hp]; exact Bool.false_ne_true), ih]
  | dynamic hp _ _ _ ih => rw [List.countP_cons_of_pos hp, List.length_cons, ih]

/-- A placeholder takes any segment of a length that is kept. -/
theorem binds_dynamic_iff {p u : Bytes} {ps us vs : List Bytes} (hp : isDynamic p = true) :
    Binds (p :: ps) (u :: us) vs
      ↔ u ≠ [] ∧ u.length < PARAM_VALUE_LEN ∧ ∃ ws, Binds ps us ws ∧ vs = u :: ws := by
  constructor
  · intro h
    cases h with
    | static hs => exact nomatch hp.symm.trans hs
    | dynamic _ hne hlen h => exact ⟨hne, hlen, _, h, rfl⟩
  · rintro ⟨hne, hlen, ws, h, rfl⟩
    exact .dynamic hp hne hlen h

/-- Any other segment has to be the same in the path. -/
theorem binds_static_iff {p u : Bytes} {ps us vs : List Bytes} (hp : isDynamic p = false) :
    Binds (p :: ps) (u :: us) vs ↔ p = u ∧ Binds ps us vs := by
  constructor
  · intro h
    cases h with
    | static _ h => exact ⟨rfl, h⟩
    | dynamic hd => exact nomatch hp.symm.trans hd
  · rintro ⟨rfl, h⟩
    exact .static hp h

/-- The segments behind the first ones bind. -/
theorem Binds.behind {p : Bytes} {ps us vs : List Bytes} (h : Binds (p :: ps) us vs) :
    ∃ u us' vs', us = u :: us' ∧ Binds ps us' vs' := by
  cases h with
  | static _ h => exact ⟨_, _, _, rfl, h⟩
  | dynamic _ _ _ h => exact ⟨_, _, _, rfl, h⟩

/-- The loop of `path_matches`. -/
theorem pathMatchesLoop_iff : ∀ (guard : Nat) (pattern url : Bytes) {out out' : RequestParams},
    out.pathValue.length ≤ PATH_PARAM_MAX →
    (pathMatchesLoop guard pattern url out = (1, out') ↔
      ∃ vs, Binds (segments slash pattern) (segments slash url) vs
        ∧ (segments slash pattern).length < guard
        ∧ out.pathValue.length + vs.length ≤ PATH_PARAM_MAX
        ∧ out' = { out with pathValue := out.pathValue ++ vs }) := by
  intro guard
  induction guard with
  | zero =>
      intro pattern url out out' _
      constructor
      · intro h
        exact nomatch (Prod.mk.inj h).1
      · rintro ⟨vs, -, h, -⟩
        exact absurd h (Nat.not_lt_zero _)
  | succ guard ih =>
      intro pattern url out out' hout
      -- every other return says that there is no match
      have hrefused : ∀ {P : Prop} {n : Int} {o : RequestParams}, n ≠ 1 → ¬ P →
          ((n, o) = (1, out') ↔ P) :=
        fun hn hP => iff_of_false (fun h => hn (Prod.mk.inj h).1) hP
      rw [pathMatchesLoop]
      by_cases hend : pattern = [] ∧ url = []
      · obtain ⟨rfl, rfl⟩ := hend
        rw [if_pos ⟨rfl, rfl⟩]
        constructor
        · intro h
          refine ⟨[], .nil, Nat.succ_pos guard, hout, ?_⟩
          rw [List.append_nil]
          exact (Prod.mk.inj h).2.symm
        · rintro ⟨vs, hb, -, -, rfl⟩
          cases hb
          rw [List.append_nil]
      rw [if_neg hend]
      by_cases hone : pattern = [] ∨ url = []
      · rw [if_pos hone]
        refine hrefused (by decide) ?_
        rintro ⟨vs, hb, -⟩
        -- one of the two has segments left
        have hlen := hb.length_eq
        refine hend ?_
        rcases hone with rfl | rfl
        · exact ⟨rfl, segments_eq_nil.mp (List.eq_nil_of_length_eq_zero hlen.symm)⟩
        · exact ⟨segments_eq_nil.mp (List.eq_nil_of_length_eq_zero hlen), rfl⟩
      rw [if_neg hone]
      rw [not_or] at hone
      rw [segments_step hone.1, segments_step hone.2, List.length_cons,
        Nat.add_lt_add_iff_right]
      dsimp only [nextSegment]
      generalize pattern.takeWhile (· != slash) = p
      generalize (pattern.dropWhile (· != slash)).drop 1 = ps
      generalize url.takeWhile (· != slash) = u
      generalize (url.dropWhile (· != slash)).drop 1 = us
      cases hp : isDynamic p with
      | true =>
          simp only [if_true, binds_dynamic_iff hp]
          -- no room for another value, no value, or one that is too long
          by_cases hfull : out.pathValue.length ≥ PATH_PARAM_MAX
          · rw [if_pos hfull]
            refine hrefused (by decide) ?_
            rintro ⟨vs, ⟨-, -, ws, -, rfl⟩, -, hcount, -⟩
            rw [List.length_cons] at hcount
            omega
          rw [if_neg hfull]
          by_cases hu : u = []
          · rw [if_pos hu]
            exact hrefused (by decide) fun ⟨vs, hb, _⟩ => hb.1 hu
          rw [if_neg hu]
          by_cases hlong : u.length ≥ PARAM_VALUE_LEN
          · rw [if_pos hlong]
            exact hrefused (by decide) fun ⟨vs, hb, _⟩ => Nat.not_lt.mpr hlong hb.2.1
          have hroom : (out.pathValue ++ [u]).length ≤ PATH_PARAM_MAX := by
            rw [List.length_append, List.length_singleton]
            omega
          rw [if_neg hlong, ih ps us hroom]
          dsimp only
          rw [List.length_append, List.length_singleton]
          constructor
          · rintro ⟨vs, hb, hg, hcount, rfl⟩
            refine ⟨u :: vs, ⟨hu, Nat.not_le.mp hlong, vs, hb, rfl⟩, hg, ?_, ?_⟩
            · rw [List.length_cons]
              omega
            · rw [List.append_assoc, List.singleton_append]
          · rintro ⟨_, ⟨-, -, vs, hb, rfl⟩, hg, hcount, rfl⟩
            rw [List.length_cons] at hcount
            refine ⟨vs, hb, hg, by omega, ?_⟩
            rw [List.append_assoc, List.singleton_append]
      | false =>
          rw [if_neg Bool.false_ne_true]
          simp only [binds_static_iff hp]
          -- a static segment stands in the path as it is
          by_cases hpu : p = u
          · rw [if_neg (not_not.mpr hpu), ih ps us hout]
            simp only [hpu, true_and]
          · rw [if_pos hpu]
            exact hrefused (by decide) fun ⟨vs, hb, _⟩ => hpu hb.1

/-- **`path_matches`** accepts a path exactly when its segments bind. -/
theorem pathMatches_iff {pattern url : Bytes} {out out' : RequestParams} :
    pathMatches pattern url out = (1, out') ↔
      ∃ vs, Binds (segments slash pattern) (segments slash url) vs
        ∧ (segments slash pattern).length < ROUTE_SEGMENT_MAX ∧ vs.length ≤ PATH_PARAM_MAX
        ∧ out' = { out with pathValue := vs } := by
  rw [pathMatches, pathMatchesLoop_iff _ _ _ (Nat.zero_le _)]
  dsimp only
  constructor
  · rintro ⟨vs, hb, hg, hcount, hout⟩
    rw [List.length_nil, Nat.zero_add] at hcount
    rw [List.nil_append] at hout
    exact ⟨vs, hb, hg, hcount, hout⟩
  · rintro ⟨vs, hb, hg, hcount, hout⟩
    refine ⟨vs, hb, hg, ?_, ?_⟩
    · rw [List.length_nil, Nat.zero_add]
      exact hcount
    · rw [List.nil_append]
      exact hout

/-! ## What `validate_route_url` accepts -/

/-- The segment of a placeholder. -/
def placeholder (name : Bytes) : Bytes := openBrace :: (name ++ [closeBrace])

/-- A name that a placeholder can have. -/
structure ValidName (name : Bytes) : Prop where
  noOpen : openBrace ∉ name
  noClose : closeBrace ∉ name
  short : name.length < GENERATOR_MAX_NAME
  safe : isSafeIdentifier name = true

/-- A segment without braces that is not a dot segment. -/
structure ValidStatic (p : Bytes) : Prop where
  nonempty : p ≠ []
  noDot : p ≠ lit "."
  noDots : p ≠ lit ".."
  noOpen : openBrace ∉ p
  noClose : closeBrace ∉ p

/-- Valid segments, and the names of their placeholders in order. -/
inductive Named : List Bytes → List Bytes → Prop
  | nil : Named [] []
  | static {p : Bytes} {ps names : List Bytes} (hp : ValidStatic p) (h : Named ps names) :
      Named (p :: ps) names
  | placeholder {name : Bytes} {ps names : List Bytes} (hn : ValidName name)
      (h : Named ps names) : Named (placeholder name :: ps) (name :: names)

theorem named_static_iff {p : Bytes} {ps names : List Bytes} (hp : ValidStatic p) :
    Named (p :: ps) names ↔ Named ps names := by
  constructor
  · intro h
    cases h with
    | static _ h => exact h
    | placeholder => exact absurd List.mem_cons_self hp.noOpen
  · exact fun h => .static hp h

theorem named_placeholder_iff {name : Bytes} {ps names : List Bytes} (hn : ValidName name) :
    Named (placeholder name :: ps) names ↔ ∃ others, Named ps others ∧ names = name :: others := by
  constructor
  · intro h
    generalize hq : placeholder name = q at h
    cases h with
    | static hp => exact absurd (hq ▸ List.mem_cons_self) hp.noOpen
    | @placeholder name' _ others _ h =>
        obtain rfl : name = name' := List.append_cancel_right (List.cons.inj hq).2
        exact ⟨others, h, rfl⟩
  · rintro ⟨others, h, rfl⟩
    exact .placeholder hn h

theorem Named.behind {p : Bytes} {ps names : List Bytes} (h : Named (p :: ps) names) :
    ∃ names', Named ps names' := by
  cases h with
  | static _ h => exact ⟨_, h⟩
  | placeholder _ h => exact ⟨_, h⟩

/-- A path that `validate_route_url` accepts, with the names of its
    placeholders. -/
structure ValidUrl (url : Bytes) (names : List Bytes) : Prop where
  absolute : url.head? = some slash
  clean : question ∉ url ∧ (0x23 : Byte) ∉ url ∧ backslash ∉ url
  noSlash : url.tail = [] ∨ url.getLast? ≠ some slash
  segments : Named (segments slash url.tail) names
  count : (Segments.segments slash url.tail).length ≤ GENERATOR_MAX_ROUTE_SEGMENTS
  distinct : names.Nodup
  few : names.length ≤ GENERATOR_MAX_PARAMS

/-- An identifier is not empty. -/
theorem safe_ne_nil {name : Bytes} (h : isSafeIdentifier name = true) : name ≠ [] := by
  rintro rfl
  exact absurd h (by decide)

theorem validatePlaceholder_iff {url q : Bytes} {seen seen' : List Bytes} :
    validatePlaceholder url (openBrace :: q) seen = .ok seen' ↔
      ∃ name, openBrace :: q = placeholder name ∧ ValidName name ∧ name ∉ seen
        ∧ seen.length < GENERATOR_MAX_PARAMS ∧ seen' = seen ++ [name] := by
  rw [validatePlaceholder]
  constructor
  · intro h
    split at h
    · exact nomatch h
    rename_i hshape
    rw [not_or, not_or, not_or, not_or, not_or, not_not] at hshape
    obtain ⟨hlen, hlast, hopen, hclose, hshort, hfew⟩ := hshape
    split at h
    · exact nomatch h
    rename_i hsafe
    split at h
    · exact nomatch h
    rename_i hseen
    cases h
    rw [List.length_cons] at hlen hclose hshort hsafe hseen ⊢
    rw [List.drop_one, List.tail_cons] at hopen hclose hsafe hseen ⊢
    -- the last byte of the segment closes the placeholder
    have hq : q ≠ [] := by
      rintro rfl
      exact hlen (by decide)
    rw [List.getLast?_cons] at hlast
    have hname : q.take (q.length + 1 - 2) = q.dropLast := by
      rw [List.dropLast_eq_take]
      rfl
    rw [hname] at hclose hsafe hseen ⊢
    have hsplit : q.dropLast ++ [closeBrace] = q := by
      have hl := List.getLast?_eq_some_getLast hq
      rw [hl, Option.getD_some] at hlast
      rw [← Option.some.inj hlast]
      exact List.dropLast_append_getLast hq
    refine ⟨q.dropLast, ?_, ⟨?_, hclose, ?_, ?_⟩, hseen, by omega, rfl⟩
    · rw [placeholder, hsplit]
    · exact fun h => hopen (List.dropLast_subset q h)
    · rw [List.length_dropLast]
      omega
    · exact Bool.not_eq_false _ |>.mp hsafe
  · rintro ⟨name, hq, hn, hseen, hfew, rfl⟩
    rw [placeholder] at hq
    obtain rfl : q = name ++ [closeBrace] := (List.cons.inj hq).2
    have hne := safe_ne_nil hn.safe
    have hpos : 0 < name.length := List.length_pos_iff.mpr hne
    have hname : ((openBrace :: (name ++ [closeBrace])).drop 1).take
        ((openBrace :: (name ++ [closeBrace])).length - 2) = name := by
      rw [List.drop_one, List.tail_cons, List.length_cons, List.length_append,
        List.length_singleton]
      exact List.take_left
    rw [hname, if_neg, if_neg (by rw [hn.safe]; exact Bool.noConfusion), if_neg hseen]
    rw [not_or, not_or, not_or, not_or, not_or, not_not]
    refine ⟨?_, ?_, ?_, hn.noClose, ?_, by omega⟩
    · rw [List.length_cons, List.length_append, List.length_singleton]
      omega
    · rw [List.getLast?_cons, List.getLast?_concat]
      rfl
    · rw [List.drop_one, List.tail_cons, List.mem_append, List.mem_singleton]
      rintro (h | h)
      · exact hn.noOpen h
      · exact absurd h (by decide)
    · rw [List.length_cons, List.length_append, List.length_singleton]
      have := hn.short
      omega

/-- One segment: a static one, or a placeholder whose name is new. -/
theorem validateRouteSegment_iff {url p : Bytes} {seen seen' : List Bytes} :
    validateRouteSegment url p seen = .ok seen' ↔
      (ValidStatic p ∧ seen' = seen)
        ∨ ∃ name, p = placeholder name ∧ ValidName name ∧ name ∉ seen
            ∧ seen.length < GENERATOR_MAX_PARAMS ∧ seen' = seen ++ [name] := by
  rw [validateRouteSegment]
  constructor
  · intro h
    split at h
    · exact nomatch h
    rename_i hlen
    split at h
    · exact nomatch h
    rename_i hdot
    rw [not_or] at hdot
    split at h
    · rename_i hhead
      obtain ⟨q, rfl⟩ : ∃ q, p = openBrace :: q := by
        cases p with
        | nil => exact nomatch hhead
        | cons c q => exact ⟨q, by rw [Option.some.inj hhead]⟩
      exact Or.inr (validatePlaceholder_iff.mp h)
    · split at h
      · exact nomatch h
      rename_i hbrace
      rw [not_or] at hbrace
      cases h
      exact Or.inl ⟨⟨fun h0 => hlen (by rw [h0]; rfl), hdot.1, hdot.2, hbrace.1, hbrace.2⟩, rfl⟩
  · rintro (⟨hp, rfl⟩ | ⟨name, rfl, hn, hseen, hfew, rfl⟩)
    · have hhead : p.head? ≠ some openBrace := by
        intro h
        exact hp.noOpen (List.mem_of_mem_head? h)
      rw [if_neg (fun h => hp.nonempty (List.eq_nil_of_length_eq_zero h)),
        if_neg (not_or.mpr ⟨hp.noDot, hp.noDots⟩), if_neg hhead,
        if_neg (not_or.mpr ⟨hp.noOpen, hp.noClose⟩)]
    · have hdot : ¬ (placeholder name = lit "." ∨ placeholder name = lit "..") := by
        rintro (h | h)
        · exact absurd (List.cons.inj h).1 (by decide)
        · exact absurd (List.cons.inj h).1 (by decide)
      rw [if_neg (fun h => nomatch h), if_neg hdot, if_pos (show (placeholder name).head? = some openBrace from rfl)]
      exact validatePlaceholder_iff.mpr ⟨name, rfl, hn, hseen, hfew, rfl⟩

/-- Without segments no name is added. -/
theorem named_nil_iff {left : Nat} {seen seen' : List Bytes} (hnodup : seen.Nodup)
    (hfew : seen.length ≤ GENERATOR_MAX_PARAMS) :
    (.ok seen : Checked (List Bytes)) = .ok seen' ↔
      ∃ names, Named (segments slash []) names ∧ (segments slash []).length ≤ left
        ∧ (seen ++ names).Nodup ∧ seen.length + names.length ≤ GENERATOR_MAX_PARAMS
        ∧ seen' = seen ++ names := by
  constructor
  · intro h
    cases h
    exact ⟨[], .nil, Nat.zero_le left, by rwa [List.append_nil], hfew, (List.append_nil _).symm⟩
  · rintro ⟨names, hnamed, -, -, -, rfl⟩
    cases hnamed
    rw [List.append_nil]

/-- The loop adds the names of the placeholders to those seen. -/
theorem validateLoop_iff {url : Bytes} : ∀ (left : Nat) (p : Bytes) {seen seen' : List Bytes},
    seen.Nodup → seen.length ≤ GENERATOR_MAX_PARAMS →
    (validateLoop url left p seen = .ok seen' ↔
      ∃ names, Named (segments slash p) names ∧ (segments slash p).length ≤ left
        ∧ (seen ++ names).Nodup ∧ seen.length + names.length ≤ GENERATOR_MAX_PARAMS
        ∧ seen' = seen ++ names) := by
  intro left
  induction left with
  | zero =>
      intro p seen seen' hnodup hfew
      cases p with
      | nil =>
          rw [validateLoop]
          exact named_nil_iff hnodup hfew
      | cons c p =>
          constructor
          · intro h
            cases h
          · rintro ⟨names, -, hlen, -⟩
            have hnil := List.eq_nil_of_length_eq_zero (Nat.le_zero.mp hlen)
            cases segments_eq_nil.mp hnil
  | succ left ih =>
      intro p seen seen' hnodup hfew
      cases p with
      | nil =>
          rw [validateLoop]
          exact named_nil_iff hnodup hfew
      | cons c p =>
          rw [validateLoop, segments_step (List.cons_ne_nil c p), List.length_cons,
            Nat.add_le_add_iff_right]
          generalize hs : (c :: p).takeWhile (· != slash) = s
          generalize hd : (c :: p).dropWhile (· != slash) = d
          -- behind the segment the loop goes on over the rest
          have hgo : ∀ (seen₁ : List Bytes) (r : Checked (List Bytes)), seen₁.Nodup →
              seen₁.length ≤ GENERATOR_MAX_PARAMS → (d = [] → r = .ok seen₁) →
              (∀ e p, d = e :: p → r = validateLoop url left p seen₁) →
              (r = .ok seen' ↔
              ∃ names, Named (segments slash (d.drop 1)) names
                ∧ (segments slash (d.drop 1)).length ≤ left ∧ (seen₁ ++ names).Nodup
                ∧ seen₁.length + names.length ≤ GENERATOR_MAX_PARAMS
                ∧ seen' = seen₁ ++ names) := by
            intro seen₁ r hnodup₁ hfew₁ hend hrest
            cases d with
            | nil =>
                rw [hend rfl]
                exact named_nil_iff hnodup₁ hfew₁
            | cons e d =>
                rw [hrest e d rfl]
                exact ih d hnodup₁ hfew₁
          cases hseg : validateRouteSegment url s seen with
          | error e =>
              constructor
              · intro h
                cases h
              · rintro ⟨names, hnamed, -, hnd, hcount, -⟩
                -- a valid first segment would not have been refused
                have hok : ∃ seen₁, validateRouteSegment url s seen = .ok seen₁ := by
                  cases hnamed with
                  | static hp _ => exact ⟨_, validateRouteSegment_iff.mpr (Or.inl ⟨hp, rfl⟩)⟩
                  | @placeholder name _ names hn _ =>
                      rw [List.nodup_append] at hnd
                      rw [List.length_cons] at hcount
                      refine ⟨_, validateRouteSegment_iff.mpr (Or.inr
                        ⟨_, rfl, hn, fun hmem => ?_, by omega, rfl⟩)⟩
                      exact hnd.2.2 _ hmem _ List.mem_cons_self rfl
                obtain ⟨seen₁, hok⟩ := hok
                rw [hseg] at hok
                cases hok
          | ok seen₁ =>
              dsimp only
              rcases validateRouteSegment_iff.mp hseg with
                ⟨hp, rfl⟩ | ⟨name, rfl, hn, hseen, hroom, rfl⟩
              · simp only [named_static_iff hp]
                exact hgo seen₁ _ hnodup hfew (fun h => by rw [h]) (fun e p h => by rw [h])
              · have hnodup₁ : (seen ++ [name]).Nodup :=
                  List.nodup_append.mpr ⟨hnodup, List.nodup_singleton _, by
                    intro a ha b hb
                    rw [List.mem_singleton.mp hb]
                    exact fun h => hseen (h ▸ ha)⟩
                have hlen₁ : (seen ++ [name]).length = seen.length + 1 := by
                  rw [List.length_append, List.length_singleton]
                refine (hgo _ _ hnodup₁ (by omega) (fun h => by rw [h])
                  (fun e p h => by rw [h])).trans ?_
                simp only [named_placeholder_iff hn, hlen₁, List.append_assoc,
                  List.singleton_append]
                constructor
                · rintro ⟨names, hnamed, hlen, hnd, hcount, rfl⟩
                  refine ⟨name :: names, ⟨names, hnamed, rfl⟩, hlen, hnd, ?_, rfl⟩
                  rw [List.length_cons]
                  omega
                · rintro ⟨_, ⟨names, hnamed, rfl⟩, hlen, hnd, hcount, rfl⟩
                  rw [List.length_cons] at hcount
                  exact ⟨names, hnamed, hlen, hnd, by omega, rfl⟩

/-- **`validate_route_url`** accepts the valid paths. -/
theorem validateRouteUrl_iff {url : Bytes} :
    validateRouteUrl url = .ok () ↔ ∃ names, ValidUrl url names := by
  rw [validateRouteUrl, routeUrlShapeValid]
  constructor
  · intro h
    split at h
    · exact nomatch h
    rename_i hshape
    split at hshape
    · exact nomatch hshape
    rename_i hclean
    split at hshape
    · exact nomatch hshape
    rename_i hlast
    rw [not_or, not_or, not_or, not_not] at hclean
    rw [not_and_or, not_not] at hlast
    split at h
    · exact nomatch h
    rename_i seen hloop
    obtain ⟨names, hnamed, hlen, hnodup, hcount, -⟩ :=
      (validateLoop_iff _ _ List.nodup_nil (Nat.zero_le _)).mp hloop
    rw [List.nil_append] at hnodup
    rw [List.length_nil, Nat.zero_add] at hcount
    exact ⟨names, hclean.1, ⟨hclean.2.1, hclean.2.2.1, hclean.2.2.2⟩, hlast, hnamed, hlen,
      hnodup, hcount⟩
  · rintro ⟨names, hv⟩
    rw [if_neg (by
      rw [not_or, not_or, not_or, not_not]
      exact ⟨hv.absolute, hv.clean.1, hv.clean.2.1, hv.clean.2.2⟩),
      if_neg (by
        rw [not_and_or, not_not]
        exact hv.noSlash)]
    dsimp only
    have hloop : validateLoop url GENERATOR_MAX_ROUTE_SEGMENTS url.tail [] = .ok names := by
      refine (validateLoop_iff _ _ List.nodup_nil (Nat.zero_le _)).mpr
        ⟨names, hv.segments, hv.count, ?_, ?_, rfl⟩
      · rw [List.nil_append]
        exact hv.distinct
      · rw [List.length_nil, Nat.zero_add]
        exact hv.few
    rw [hloop]

/-! ## Patterns that share a path -/

theorem placeholder_head (name : Bytes) : (placeholder name).head? = some openBrace := rfl

theorem placeholder_last (name : Bytes) :
    (placeholder name).getLast? = some closeBrace := by
  rw [placeholder, List.getLast?_cons, List.getLast?_concat]
  rfl

theorem isDynamic_placeholder (name : Bytes) : isDynamic (placeholder name) = true := by
  rw [isDynamic, placeholder_head, placeholder_last, placeholder, List.length_cons,
    List.length_append, List.length_singleton]
  simp

theorem isDynamic_static {p : Bytes} (h : ValidStatic p) : isDynamic p = false := by
  rw [isDynamic]
  have hhead : (p.head? == some openBrace) = false := by
    refine Bool.eq_false_iff.mpr fun hh => h.noOpen ?_
    exact List.mem_of_mem_head? (beq_iff_eq.mp hh)
  rw [hhead, Bool.and_false, Bool.false_and]

/-- The placeholders among valid segments. -/
theorem Named.count {ps names : List Bytes} (h : Named ps names) :
    names.length = ps.countP isDynamic := by
  induction h with
  | nil => rfl
  | static hp _ ih =>
      rw [List.countP_cons_of_neg (by rw [isDynamic_static hp]; exact Bool.false_ne_true), ih]
  | placeholder _ _ ih =>
      rw [List.countP_cons_of_pos (isDynamic_placeholder _), List.length_cons, ih]

/-- A string and its first segment start alike. -/
theorem head_takeWhile {s : Bytes} (h : s.takeWhile (· != slash) ≠ []) :
    s.head? = (s.takeWhile (· != slash)).head? := by
  cases s with
  | nil => exact absurd rfl h
  | cons c s =>
      by_cases hc : (c != slash) = true
      · rw [List.takeWhile_cons_of_pos (p := (· != slash)) hc]
        rfl
      · rw [List.takeWhile_cons_of_neg (p := (· != slash)) hc] at h
        exact absurd rfl h

/-- What is behind a slash is not empty, and ends as the whole does. -/
theorem behind_slash {s rest : Bytes} {c : Byte} (hlast : s.getLast? ≠ some slash)
    (h : s.dropWhile (· != slash) = c :: rest) : rest ≠ [] ∧ rest.getLast? ≠ some slash := by
  have hc : c = slash := by
    have hne : s.dropWhile (· != slash) ≠ [] := by
      rw [h]
      exact List.cons_ne_nil c rest
    have hd := List.head_dropWhile_not (fun c => c != slash) hne
    have hhead : (s.dropWhile (· != slash)).head hne = c := by
      simp only [h, List.head_cons]
    rw [hhead] at hd
    simpa using hd
  have hs : s = s.takeWhile (· != slash) ++ c :: rest := by
    rw [← h, List.takeWhile_append_dropWhile]
  have hne : rest ≠ [] := by
    rintro rfl
    rw [hs, List.getLast?_concat, hc] at hlast
    exact hlast rfl
  refine ⟨hne, fun hr => hlast ?_⟩
  obtain ⟨d, rest, rfl⟩ := List.exists_cons_of_ne_nil hne
  rw [hs, List.getLast?_append, List.getLast?_cons_cons, hr]
  rfl

/-- Whether a first segment is a placeholder, as `route_patterns_overlap` tests
    it. -/
theorem dynamic_iff {p : Bytes} {ps names : List Bytes}
    (h : Named (p.takeWhile (· != slash) :: ps) names) :
    (p.head? = some openBrace ∧ (p.takeWhile (· != slash)).getLast? = some closeBrace)
      ↔ isDynamic (p.takeWhile (· != slash)) = true := by
  revert h
  generalize hs : p.takeWhile (· != slash) = s
  intro h
  cases h with
  | static hp =>
      rw [head_takeWhile (by rw [hs]; exact hp.nonempty), hs, isDynamic_static hp]
      constructor
      · rintro ⟨hhead, -⟩
        exact absurd (List.mem_of_mem_head? hhead) hp.noOpen
      · intro h
        exact nomatch h
  | @placeholder name _ _ hn =>
      rw [head_takeWhile (by rw [hs]; exact List.cons_ne_nil _ _), hs, placeholder_head,
        placeholder_last, isDynamic_placeholder]
      exact ⟨fun _ => rfl, fun _ => ⟨rfl, rfl⟩⟩

/-- **`route_patterns_overlap` is complete**: two valid patterns that bind one
    path overlap. -/
theorem overlapLoop_binds : ∀ (guard : Nat) {pa pb : Bytes} {us va vb na nb : List Bytes},
    Named (segments slash pa) na → Named (segments slash pb) nb →
    Binds (segments slash pa) us va → Binds (segments slash pb) us vb →
    (segments slash pa).length ≤ guard → 0 < guard →
    (pa = [] ∨ pa.getLast? ≠ some slash) → (pb = [] ∨ pb.getLast? ≠ some slash) →
    overlapLoop guard pa pb = true := by
  intro guard
  induction guard with
  | zero =>
      intro pa pb us va vb na nb _ _ _ _ _ h0 _ _
      exact absurd h0 (Nat.lt_irrefl 0)
  | succ guard ih =>
      intro pa pb us va vb na nb hna hnb hba hbb hlen _ hla hlb
      have hlens : (segments slash pa).length = (segments slash pb).length :=
        hba.length_eq.trans hbb.length_eq.symm
      have hnil : pa = [] ↔ pb = [] := by
        have ha : segments slash pa = [] ↔ pa = [] := segments_eq_nil
        have hb : segments slash pb = [] ↔ pb = [] := segments_eq_nil
        rw [← ha, ← hb, ← List.length_eq_zero_iff, hlens, List.length_eq_zero_iff]
      rw [overlapLoop]
      by_cases hpa : pa = []
      · rw [if_pos (Or.inl hpa)]
        exact decide_eq_true ⟨hpa, hnil.mp hpa⟩
      have hpb : pb ≠ [] := fun h => hpa (hnil.mpr h)
      rw [if_neg (not_or.mpr ⟨hpa, hpb⟩)]
      rw [segments_step hpa] at hna hba hlen hlens
      rw [segments_step hpb] at hnb hbb hlens
      rw [List.length_cons] at hlen
      rw [List.length_cons, List.length_cons, Nat.add_right_cancel_iff] at hlens
      dsimp only
      -- two static first segments are both the path's
      have hfirst : ¬ (¬ (pa.head? = some openBrace
            ∧ (pa.takeWhile (· != slash)).getLast? = some closeBrace)
          ∧ ¬ (pb.head? = some openBrace
            ∧ (pb.takeWhile (· != slash)).getLast? = some closeBrace)
          ∧ pa.takeWhile (· != slash) ≠ pb.takeWhile (· != slash)) := by
        rw [dynamic_iff hna, dynamic_iff hnb]
        rintro ⟨h1, h2, h3⟩
        revert h1 h2 h3 hba hbb
        generalize pa.takeWhile (· != slash) = a
        generalize pb.takeWhile (· != slash) = b
        intro hba hbb h1 h2 h3
        cases hba with
        | dynamic hp => exact h1 hp
        | static _ _ =>
            cases hbb with
            | dynamic hp => exact h2 hp
            | static => exact h3 rfl
      rw [if_neg hfirst]
      have hla' : pa.getLast? ≠ some slash := hla.resolve_left hpa
      have hlb' : pb.getLast? ≠ some slash := hlb.resolve_left hpb
      obtain ⟨u, us, va', rfl, hba'⟩ := hba.behind
      obtain ⟨u', us', vb', hus, hbb'⟩ := hbb.behind
      obtain ⟨rfl, rfl⟩ := List.cons.inj hus
      obtain ⟨na', hna'⟩ := hna.behind
      obtain ⟨nb', hnb'⟩ := hnb.behind
      cases hda : pa.dropWhile (· != slash) with
      | nil =>
          cases hdb : pb.dropWhile (· != slash) with
          | nil => rfl
          | cons c pb' =>
              obtain ⟨hne, -⟩ := behind_slash hlb' hdb
              rw [hda, hdb] at hlens
              exact absurd (segments_eq_nil.mp (List.eq_nil_of_length_eq_zero hlens.symm)) hne
      | cons c pa' =>
          obtain ⟨hnea, hlasta⟩ := behind_slash hla' hda
          cases hdb : pb.dropWhile (· != slash) with
          | nil =>
              rw [hda, hdb] at hlens
              exact absurd (segments_eq_nil.mp (List.eq_nil_of_length_eq_zero hlens)) hnea
          | cons d pb' =>
              obtain ⟨hneb, hlastb⟩ := behind_slash hlb' hdb
              rw [hda] at hna' hba' hlen
              rw [hdb] at hnb' hbb'
              have hpos : 0 < (segments slash pa').length :=
                List.length_pos_iff.mpr fun h => hnea (segments_eq_nil.mp h)
              have hlen' : (segments slash pa').length + 1 ≤ guard + 1 := hlen
              exact ih hna' hnb' hba' hbb' (by omega) (by omega) (Or.inr hlasta)
                (Or.inr hlastb)

/-- A valid path starts with a slash. -/
theorem ValidUrl.eq_cons {url : Bytes} {names : List Bytes} (h : ValidUrl url names) :
    url = slash :: url.tail := by
  obtain ⟨c, s⟩ := url
  · exact nomatch h.absolute
  · rw [Option.some.inj h.absolute]
    rfl

theorem ValidUrl.tail_last {url : Bytes} {names : List Bytes} (h : ValidUrl url names) :
    url.tail = [] ∨ url.tail.getLast? ≠ some slash := by
  rcases h.noSlash with h0 | h0
  · exact Or.inl h0
  · by_cases hn : url.tail = []
    · exact Or.inl hn
    · refine Or.inr fun hl => h0 ?_
      obtain ⟨c, s, hs⟩ := List.exists_cons_of_ne_nil hn
      rw [h.eq_cons, hs, List.getLast?_cons_cons, ← hs]
      exact hl

/-- Behind the leading slash the same values are bound. -/
theorem Binds.tail {url u : Bytes} {vs : List Bytes}
    (h : Binds (segments slash (slash :: url)) (segments slash u) vs) :
    ∃ us, segments slash u = [] :: us ∧ Binds (segments slash url) us vs := by
  rw [segments_sep] at h
  revert h
  generalize segments slash u = us
  intro h
  cases h with
  | static _ h => exact ⟨_, rfl, h⟩
  | dynamic hp => exact nomatch hp

end RouteSegments
