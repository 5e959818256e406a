import Gargantua.JsonSound

/-! # The language of `json_parse`

    The whole loop: every turn shortens the text, so the fuel suffices, and the
    tokens that come back are those of the one value in the text. -/

namespace JsonMachine

open CString JsonParse JsonGrammar JsonLexical JsonDecode

variable {js : Bytes} {max : Nat}

/-! ## Progress -/

theorem scanValue_shorter {rest : Bytes} {toks : List JsonToken} {stack : List Frame}
    {seen done : Bool} {parent : Int} {st : Scanner}
    (h : scanValue js max ⟨rest, toks, stack, seen, done⟩ parent = some st) :
    st.rest.length < rest.length := by
  obtain ⟨-, ⟨s, rest', rfl, hrest⟩ | ⟨p, rest', rfl, -, hrest⟩ | ⟨k, rest', rfl, -, hrest⟩⟩ :=
    scanValue_cases h
  · rw [hrest, Str.quoted, List.length_append, List.length_cons]
    omega
  · obtain ⟨c, t, heq, -⟩ := Prim.render_cons p
    rw [hrest, heq, List.length_append, List.length_cons]
    omega
  · rw [hrest, List.length_cons]
    exact Nat.lt_succ_self _

theorem closeContainer_shorter {st : Scanner} {f : Frame} {c : Byte}
    (h : st.rest.head? = some c) : (closeContainer js st f).rest.length < st.rest.length := by
  rw [closeContainer]
  dsimp only
  rw [← List.cons_head?_tail h, List.tail_cons, List.length_cons]
  exact Nat.lt_succ_self _

theorem scanObjectKey_shorter {st st' : Scanner} {f : Frame}
    (h : scanObjectKey js max st f = some st') : st'.rest.length < st.rest.length := by
  obtain ⟨rest, toks, stack, seen, done⟩ := st
  rw [scanObjectKey] at h
  dsimp only at h
  by_cases hclose : rest.head? = some RBRACE
  · rw [if_pos hclose] at h
    split_ifs at h
    obtain rfl := Option.some.inj h
    exact closeContainer_shorter hclose
  rw [if_neg hclose] at h
  by_cases hq : rest.head? = some QUOTE
  · rw [if_neg (fun hne => hne hq)] at h
    obtain ⟨t, rfl⟩ : ∃ t, rest = QUOTE :: t := ⟨rest.tail, (List.cons_head?_tail hq).symm⟩
    cases hstr : tokenString js max ⟨QUOTE :: t, toks, stack, seen, done⟩ f.token with
    | none =>
        rw [hstr] at h
        cases h
    | some st1 =>
        obtain ⟨s, rest', heq, -, hrest⟩ := tokenString_sound hstr
        rw [hstr] at h
        dsimp only at h
        by_cases hcount : f.members ≥ JSON_MAX_OBJECT_KEYS
        · rw [if_pos hcount] at h
          cases h
        rw [if_neg hcount] at h
        cases hkey : st1.toks[toks.length]? with
        | none =>
            rw [hkey] at h
            cases h
        | some key =>
            rw [hkey] at h
            dsimp only at h
            split_ifs at h
            obtain rfl := Option.some.inj h
            show st1.rest.length < (QUOTE :: t).length
            rw [heq, hrest, Str.quoted, List.length_append, List.length_cons]
            omega
  · rw [if_pos hq] at h
    cases h

theorem scanArrayElement_shorter {st st' : Scanner} {f : Frame}
    (h : scanArrayElement js max st f = some st') : st'.rest.length < st.rest.length := by
  rw [scanArrayElement] at h
  by_cases hclose : st.rest.head? = some RBRACKET
  · rw [if_pos hclose] at h
    split_ifs at h
    obtain rfl := Option.some.inj h
    exact closeContainer_shorter hclose
  · rw [if_neg hclose] at h
    exact scanValue_shorter h

theorem tail_shorter {rest : Bytes} {c : Byte} (h : rest.head? = some c) :
    rest.tail.length < rest.length := by
  rw [← List.cons_head?_tail h]
  exact Nat.lt_succ_self _

theorem scanSeparator_shorter {st st' : Scanner} {f : Frame} {closer : Byte} {next : FrameState}
    (h : scanSeparator js st f closer next = some st') : st'.rest.length < st.rest.length := by
  rw [scanSeparator] at h
  split_ifs at h with hcomma hclose
  · obtain rfl := Option.some.inj h
    exact tail_shorter hcomma
  · obtain rfl := Option.some.inj h
    exact closeContainer_shorter (not_not.mp hclose)

/-- Every step consumes. -/
theorem scanStep_shorter {st st' : Scanner} (h : scanStep js max st = some st') :
    st'.rest.length < st.rest.length := by
  rw [scanStep] at h
  cases hstack : st.stack with
  | nil =>
      rw [hstack] at h
      dsimp only at h
      split_ifs at h
      obtain ⟨st1, hscan, rfl⟩ := Option.map_eq_some_iff.mp h
      have hshort : st1.rest.length < st.rest.length := scanValue_shorter hscan
      exact hshort
  | cons f stack =>
      rw [hstack] at h
      dsimp only at h
      rw [scanFrame] at h
      cases hstate : f.state with
      | objKeyOrEnd =>
          rw [hstate] at h
          exact scanObjectKey_shorter h
      | objKey =>
          rw [hstate] at h
          exact scanObjectKey_shorter h
      | objColon =>
          rw [hstate] at h
          dsimp only at h
          split_ifs at h with hcolon
          obtain rfl := Option.some.inj h
          exact tail_shorter (not_not.mp hcolon)
      | objValue =>
          rw [hstate] at h
          exact scanValue_shorter h
      | objNext =>
          rw [hstate] at h
          exact scanSeparator_shorter h
      | arrValueOrEnd =>
          rw [hstate] at h
          exact scanArrayElement_shorter h
      | arrValue =>
          rw [hstate] at h
          exact scanArrayElement_shorter h
      | arrNext =>
          rw [hstate] at h
          exact scanSeparator_shorter h

/-! ## The loop -/

theorem parseLoop_sound : ∀ {fuel : Nat} {st fin : Scanner},
    parseLoop js max fuel st = some fin →
      ∃ st' : Scanner, Reaches js max st st' ∧ skipSpace st' = fin ∧ fin.rest = [] := by
  intro fuel
  induction fuel with
  | zero =>
      intro st fin h
      cases h
  | succ fuel ih =>
      intro st fin h
      rw [parseLoop] at h
      dsimp only at h
      by_cases hend : st.rest.dropWhile isSpace = []
      · rw [if_pos hend] at h
        exact ⟨st, Relation.ReflTransGen.refl, Option.some.inj h, by
          rw [← Option.some.inj h]
          exact hend⟩
      · rw [if_neg hend] at h
        cases hstep : scanStep js max (skipSpace st) with
        | none =>
            rw [skipSpace] at hstep
            rw [hstep] at h
            cases h
        | some st1 =>
            have hturn : Turn js max st st1 := ⟨hend, hstep⟩
            rw [skipSpace] at hstep
            rw [hstep] at h
            obtain ⟨st', hreach, hfin⟩ := ih h
            exact ⟨st', Relation.ReflTransGen.head hturn hreach, hfin⟩

theorem dropWhile_length (p : Byte → Bool) (rest : Bytes) :
    (rest.dropWhile p).length ≤ rest.length :=
  (List.dropWhile_sublist p).length_le

theorem parseLoop_complete {st fin : Scanner} (hreach : Reaches js max st fin)
    (hend : (skipSpace fin).rest = []) :
    ∀ {fuel : Nat}, st.rest.length < fuel →
      parseLoop js max fuel st = some (skipSpace fin) := by
  induction hreach using Relation.ReflTransGen.head_induction_on with
  | refl =>
      intro fuel hfuel
      obtain ⟨fuel, rfl⟩ := Nat.exists_eq_add_of_le' (show 1 ≤ fuel by omega)
      rw [parseLoop]
      exact if_pos hend
  | @head a b hturn _ ih =>
      intro fuel hfuel
      obtain ⟨fuel, rfl⟩ := Nat.exists_eq_add_of_le' (show 1 ≤ fuel by omega)
      have hshort := scanStep_shorter hturn.2
      have hskip : (skipSpace a).rest.length ≤ a.rest.length := dropWhile_length isSpace a.rest
      have hstep := hturn.2
      have hne := hturn.1
      rw [skipSpace] at hstep hne
      rw [parseLoop]
      dsimp only
      rw [if_neg hne, hstep]
      exact ih (by omega)

/-! ## The whole text -/

/-- The text is one value with white space around it, within the limits. -/
structure Accepted (js : Bytes) (max : Nat) (d : Document) : Prop where
  text : js = d.render
  count : d.value.tokenCount ≤ max
  nesting : d.value.nesting ≤ JSON_MAX_DEPTH
  names : d.value.EveryObject NamesOk

/-- The tokens of a text. -/
def Document.tokens (d : Document) : List JsonToken :=
  d.value.tokens d.before.bytes.length 0 (-1)

theorem isDelimiter_after (w : Ws) : isDelimiter w.bytes = true := by
  have h := @isDelimiter_ws w [] rfl
  rw [List.append_nil] at h
  exact h

/-- A value alone in the text, run over from the first turn. -/
theorem reaches_document {d : Document} (h : Accepted js max d) :
    Reaches js max { rest := js }
      ⟨d.after.bytes, Document.tokens d, [], true, true⟩ := by
  obtain ⟨c, t, heq, hc⟩ := Json.render_cons d.value
  obtain ⟨st, hscan, hreach, hopen, hread⟩ := @runsOver js max _ d.value d.before.bytes
    d.after.bytes [] [] true false (-1) h.text
    (Json.fits_of_delimiter d.value (isDelimiter_after _))
    (by have hn := h.count; rw [List.length_nil]; omega)
    (by have hn := h.nesting; rw [List.length_nil]; omega) h.names
  -- the first turn notes that a value which is not a container ends the text
  have hturn : Turn js max { rest := js } { st with done := st.done || st.stack.isEmpty } := by
    rw [heq] at hscan
    refine @turn_of _ _ _ (t ++ d.after.bytes) _ _ _ _ _ _ d.before ?_ hc.1 ?_
    · rw [h.text, Document.render, heq]
      rfl
    · show Option.map _ (scanValue js max ⟨c :: t ++ d.after.bytes, [], [], true, false⟩ (-1)) = _
      rw [hscan]
      rfl
  cases hcont : Json.isContainer d.value with
  | false =>
      have hst := hread hcont
      subst hst
      exact Relation.ReflTransGen.single hturn
  | true =>
      obtain ⟨f, stack, hstack⟩ := List.exists_cons_of_ne_nil (hopen hcont)
      have hsame : { st with done := st.done || st.stack.isEmpty } = st := by
        rw [hstack, List.isEmpty_cons, Bool.or_false]
        rw [← hstack]
      rw [hsame] at hturn
      rw [hcont] at hreach
      exact Relation.ReflTransGen.head hturn hreach

/-- Nothing follows a complete text. -/
theorem reaches_complete {rest : Bytes} {toks : List JsonToken} {fin : Scanner}
    (h : Reaches js max ⟨rest, toks, [], true, true⟩ fin) :
    fin = ⟨rest, toks, [], true, true⟩ := by
  rcases Relation.ReflTransGen.cases_head h with heq | ⟨st, hturn, -⟩
  · exact heq.symm
  · exact nomatch hturn.2

/-- An accepted text is one value with white space around it. -/
theorem accepted_of_accepts (h : Accepts js max { rest := js }) : ∃ d, Accepted js max d := by
  obtain ⟨fin, hfin, hrest, hseen, hdone, hstack⟩ := h
  rcases Relation.ReflTransGen.cases_head hfin with rfl | ⟨st1, hturn, hfin1⟩
  · exact nomatch hseen
  obtain ⟨before, hbefore⟩ := exists_ws js
  obtain ⟨-, hstep⟩ := hturn
  obtain ⟨st, hscan, rfl⟩ : ∃ st : Scanner,
      scanValue js max ⟨js.dropWhile isSpace, [], [], true, false⟩ (-1) = some st
        ∧ { st with done := st.done || st.stack.isEmpty } = st1 :=
    Option.map_eq_some_iff.mp hstep
  have hacc : st.stack ≠ [] → Accepts js max st := by
    intro hne
    obtain ⟨f, stack, hcons⟩ := List.exists_cons_of_ne_nil hne
    have hsame : { st with done := st.done || st.stack.isEmpty } = st := by
      rw [hcons, List.isEmpty_cons, Bool.or_false]
      rw [← hcons]
    rw [hsame] at hfin1
    exact ⟨fin, hfin1, hrest, hseen, hdone, hstack⟩
  obtain ⟨v, rest', heq, hfits, hcount, hnest, hobjects⟩ :=
    @valueSound js max (js.dropWhile isSpace).length _ _ _ _ _ _ _ _ (Nat.le_refl _) hbefore
      (Nat.zero_le _) hscan hacc
  -- completeness runs over the value, and only white space is left
  obtain ⟨st', hscan', hreach, hopen, hread⟩ := @runsOver js max _ v before.bytes rest' [] [] true
    false (-1) (by rw [← heq]; exact hbefore) hfits hcount hnest hobjects
  rw [heq] at hscan
  obtain rfl := Option.some.inj (hscan.symm.trans hscan')
  have hdrop : rest'.dropWhile isSpace = [] := by
    cases hcont : Json.isContainer v with
    | false =>
        have hst := hread hcont
        subst hst
        have hlast := reaches_complete hfin1
        rw [hlast] at hrest
        exact hrest
    | true =>
        rw [hcont] at hreach
        obtain ⟨fin', hfin', hrest', hflags⟩ := (hacc (hopen hcont)).of_reaches hreach
        have hlast := reaches_complete hfin'
        rw [hlast] at hrest'
        exact hrest'
  obtain ⟨after, hafter⟩ := exists_ws rest'
  rw [hdrop, List.append_nil] at hafter
  rw [List.length_nil, Nat.zero_add] at hcount hnest
  refine ⟨⟨before, v, after⟩, ?_, hcount, hnest, hobjects⟩
  rw [Document.render]
  dsimp only
  rw [← hafter, ← heq]
  exact hbefore

/-- **`json_parse` accepts one value within the limits, and returns its tokens.** -/
theorem jsonParse_iff {js : Bytes} {max : Nat} {toks : List JsonToken} :
    jsonParse js max = some toks ↔
      js.length ≤ INT_MAX ∧ ∃ d, Accepted js max d ∧ toks = Document.tokens d := by
  constructor
  · intro h
    rw [jsonParse] at h
    split_ifs at h with hsize
    rw [not_or, not_or] at hsize
    cases hloop : parseLoop js max (js.length + 1) { rest := js } with
    | none =>
        rw [hloop] at h
        exact nomatch h
    | some fin =>
        rw [hloop] at h
        dsimp only at h
        split_ifs at h with hflags
        obtain ⟨st, hreach, rfl, hend⟩ := parseLoop_sound hloop
        obtain ⟨d, hd⟩ := accepted_of_accepts ⟨st, hreach, hend, hflags⟩
        refine ⟨by omega, d, hd, ?_⟩
        -- the run ends where completeness ends it
        have hcomplete := parseLoop_complete (reaches_document hd)
          (show d.after.bytes.dropWhile isSpace = [] from by
            have hskip := skip_ws d.after []
            rw [List.append_nil] at hskip
            exact hskip) (Nat.lt_succ_self js.length)
        rw [hcomplete] at hloop
        rw [← Option.some.inj h, ← Option.some.inj hloop]
        rfl
  · rintro ⟨hlen, d, hd, rfl⟩
    have hcomplete := parseLoop_complete (reaches_document hd)
      (show d.after.bytes.dropWhile isSpace = [] from by
        have hskip := skip_ws d.after []
        rw [List.append_nil] at hskip
        exact hskip) (Nat.lt_succ_self js.length)
    have hpos := d.value.tokenCount_pos
    have hcount := hd.count
    have hne : js.length ≠ 0 := by
      obtain ⟨c, t, heq, -⟩ := Json.render_cons d.value
      rw [hd.text, Document.render, heq]
      simp
    rw [jsonParse, if_neg (by omega), hcomplete]
    exact if_pos ⟨rfl, rfl, rfl⟩

end JsonMachine
