import Gargantua.JsonComplete

/-! # What is accepted is a derivation

    A state accepts when the turns from it end at the end of the text with
    nothing open.  The text in front of an accepting state is a piece of the
    grammar within the limits, by strong induction on the length of the text:
    the value that a turn opens is found first, completeness runs the machine
    over it, and the state behind it accepts again. -/

namespace JsonMachine

open CString JsonParse JsonGrammar JsonLexical JsonDecode

variable {js : Bytes} {max : Nat}

/-! ## The pieces of a value -/

theorem tokenAlloc_room {toks toks' : List JsonToken} {type : JsonType} {start : Nat}
    {parent : Int} (h : tokenAlloc max toks type start parent = some toks') :
    toks.length < max
      ∧ toks' = toks ++ [{ type := type, start := start, end_ := -1, parent := parent }] := by
  rw [tokenAlloc] at h
  split_ifs at h with hroom
  exact ⟨Nat.not_le.mp hroom, (Option.some.inj h).symm⟩

theorem tokenString_sound {t : Bytes} {toks : List JsonToken} {stack : List Frame}
    {seen done : Bool} {parent : Int} {st : Scanner}
    (h : tokenString js max ⟨QUOTE :: t, toks, stack, seen, done⟩ parent = some st) :
    ∃ (s : Str) (rest : Bytes), QUOTE :: t = s.quoted ++ rest ∧ toks.length < max
      ∧ st.rest = rest := by
  rw [tokenString] at h
  dsimp only at h
  cases halloc : tokenAlloc max toks .str (offset js (QUOTE :: t) + 1) parent with
  | none =>
      rw [halloc] at h
      cases h
  | some toks' =>
      rw [halloc] at h
      dsimp only at h
      cases hloop : stringLoop (QUOTE :: t).length t with
      | none =>
          rw [List.tail_cons, hloop] at h
          cases h
      | some rest =>
          obtain ⟨s, rest', heq, rfl⟩ := stringLoop_sound hloop
          rw [List.tail_cons, hloop] at h
          obtain rfl := Option.some.inj h
          refine ⟨s, rest', ?_, (tokenAlloc_room halloc).1, rfl⟩
          rw [heq, Str.quoted, List.cons_append, List.append_assoc]
          rfl

theorem tokenPrimitive_sound {rest : Bytes} {toks : List JsonToken} {stack : List Frame}
    {seen done : Bool} {parent : Int} {st : Scanner}
    (h : tokenPrimitive js max ⟨rest, toks, stack, seen, done⟩ parent = some st) :
    ∃ (p : Prim) (rest' : Bytes), rest = p.render ++ rest' ∧ isDelimiter rest' = true
      ∧ toks.length < max ∧ st.rest = rest' := by
  rw [tokenPrimitive] at h
  dsimp only at h
  cases hscan : scanPrimitive rest with
  | none =>
      rw [hscan] at h
      cases h
  | some rest' =>
      rw [hscan] at h
      dsimp only at h
      split_ifs at h with hdelim
      obtain ⟨p, hp⟩ := scanPrimitive_sound hscan
      obtain ⟨toks', halloc, rfl⟩ := Option.map_eq_some_iff.mp h
      exact ⟨p, rest', hp, hdelim, (tokenAlloc_room halloc).1, rfl⟩

/-- What `scan_value` starts with. -/
theorem scanValue_cases {rest : Bytes} {toks : List JsonToken} {stack : List Frame}
    {seen done : Bool} {parent : Int} {st : Scanner}
    (h : scanValue js max ⟨rest, toks, stack, seen, done⟩ parent = some st) :
    toks.length < max ∧
      ((∃ (s : Str) (rest' : Bytes), rest = s.quoted ++ rest' ∧ st.rest = rest')
        ∨ (∃ (p : Prim) (rest' : Bytes), rest = p.render ++ rest' ∧ isDelimiter rest' = true
            ∧ st.rest = rest')
        ∨ ∃ (k : Kind) (rest' : Bytes), rest = k.opening :: rest'
            ∧ stack.length < JSON_MAX_DEPTH ∧ st.rest = rest') := by
  rw [scanValue] at h
  cases rest with
  | nil => cases h
  | cons c t =>
      dsimp only at h
      by_cases hq : c = QUOTE
      · subst hq
        rw [if_pos rfl] at h
        obtain ⟨s, rest', heq, hroom, hrest⟩ := tokenString_sound h
        exact ⟨hroom, Or.inl ⟨s, rest', heq, hrest⟩⟩
      rw [if_neg hq] at h
      by_cases hb : c = LBRACE ∨ c = LBRACKET
      · rw [if_pos hb] at h
        by_cases hdepth : stack.length ≥ JSON_MAX_DEPTH
        · rw [if_pos hdepth] at h
          cases h
        · rw [if_neg hdepth] at h
          obtain ⟨toks', halloc, rfl⟩ := Option.map_eq_some_iff.mp h
          refine ⟨(tokenAlloc_room halloc).1, Or.inr (Or.inr ?_)⟩
          rcases hb with rfl | rfl
          · exact ⟨.obj, t, rfl, Nat.not_le.mp hdepth, rfl⟩
          · exact ⟨.arr, t, rfl, Nat.not_le.mp hdepth, rfl⟩
      · rw [if_neg hb] at h
        obtain ⟨p, rest', heq, hdelim, hroom, hrest⟩ := tokenPrimitive_sound h
        exact ⟨hroom, Or.inr (Or.inl ⟨p, rest', heq, hdelim, hrest⟩)⟩

/-! ## Acceptance -/

variable (js max)

/-- The turns from the state end at the end of the text, with nothing open. -/
def Accepts (st : Scanner) : Prop :=
  ∃ fin : Scanner, Reaches js max st fin ∧ (skipSpace fin).rest = [] ∧ fin.seen = true
    ∧ fin.done = true ∧ fin.stack = []

variable {js max}

/-- The machine is deterministic, so acceptance moves along. -/
theorem Accepts.of_reaches {st st' : Scanner} (h : Accepts js max st)
    (hreach : Reaches js max st st') : Accepts js max st' := by
  obtain ⟨fin, hfin, hrest, hflags⟩ := h
  induction hreach using Relation.ReflTransGen.head_induction_on with
  | refl => exact ⟨fin, hfin, hrest, hflags⟩
  | @head a b hturn _ ih =>
      rcases Relation.ReflTransGen.cases_head hfin with rfl | ⟨b', hturn', hfin'⟩
      · exact absurd hrest hturn.1
      · have hb : b = b' := Option.some.inj (hturn.2.symm.trans hturn'.2)
        exact ih (hb ▸ hfin')

/-- A state with something open takes a turn. -/
theorem Accepts.turn {rest : Bytes} {toks : List JsonToken} {f : Frame} {stack : List Frame}
    {seen done : Bool} (h : Accepts js max ⟨rest, toks, f :: stack, seen, done⟩) :
    ∃ (w : Ws) (c : Byte) (t : Bytes) (st : Scanner), rest = w.bytes ++ c :: t
      ∧ isSpace c = false ∧ scanFrame js max ⟨c :: t, toks, f :: stack, seen, done⟩ f = some st
      ∧ Accepts js max st := by
  obtain ⟨fin, hfin, hrest, hseen, hdone, hstack⟩ := h
  rcases Relation.ReflTransGen.cases_head hfin with rfl | ⟨st, hturn, hfin'⟩
  · exact nomatch hstack
  · obtain ⟨w, hw⟩ := exists_ws rest
    obtain ⟨hne, hstep⟩ := hturn
    rw [skipSpace] at hne hstep
    dsimp only at hne hstep
    cases hskip : rest.dropWhile isSpace with
    | nil => exact absurd hskip hne
    | cons c t =>
        rw [hskip] at hw hstep
        have hc : isSpace c = false := by
          have hself : (c :: t).dropWhile isSpace = c :: t := by
            rw [← hskip, List.dropWhile_idempotent]
          exact Bool.eq_false_iff.mpr (Scan.not_of_dropWhile_eq_self hself)
        exact ⟨w, c, t, st, hw, hc, hstep, fin, hfin', hrest, hseen, hdone, hstack⟩

/-! ## Elements -/

/-- Behind an element: a comma, or the closing bracket. -/
theorem Accepts.separator {k : Kind} {rest : Bytes} {toks : List JsonToken} {f : Frame}
    {stack : List Frame} {seen done : Bool} (hstate : f.state = Kind.next k)
    (h : Accepts js max ⟨rest, toks, f :: stack, seen, done⟩) :
    (∃ (w : Ws) (t : Bytes), rest = w.bytes ++ k.closing :: t)
      ∨ ∃ (w : Ws) (t : Bytes), rest = w.bytes ++ COMMA :: t
        ∧ Accepts js max ⟨t, toks, { f with state := Kind.required k } :: stack, seen, done⟩ := by
  obtain ⟨w, c, t, st, rfl, -, hstep, hacc⟩ := h.turn
  have hsep : scanFrame js max ⟨c :: t, toks, f :: stack, seen, done⟩ f
      = scanSeparator js ⟨c :: t, toks, f :: stack, seen, done⟩ f k.closing
          (Kind.required k) := by
    rw [scanFrame, hstate]
    cases k <;> rfl
  rw [hsep, scanSeparator] at hstep
  dsimp only at hstep
  split_ifs at hstep with hcomma hclose
  · obtain rfl := Option.some.inj hstep
    rw [Option.some.inj hcomma]
    exact Or.inr ⟨w, t, rfl, hacc⟩
  · rw [not_not] at hclose
    rw [Option.some.inj hclose]
    exact Or.inl ⟨w, t, rfl⟩

/-- What `scan_object_key` finds in front of a name. -/
theorem scanObjectKey_sound {t : Bytes} {base elems : List JsonToken} {opn : JsonToken}
    {f : Frame} {stack : List Frame} {ks : List Str} {seen done : Bool} {pre : Bytes}
    {st : Scanner} (hjs : js = pre ++ QUOTE :: t) (hopen : Open js .obj f ks base elems)
    (hnames : NamesOk ks)
    (h : scanObjectKey js max ⟨QUOTE :: t, base ++ opn :: elems, f :: stack, seen, done⟩ f
      = some st) :
    ∃ (key : Str) (rest : Bytes), QUOTE :: t = key.quoted ++ rest ∧ NamesOk (ks ++ [key])
      ∧ (base ++ opn :: elems).length < max := by
  rw [scanObjectKey] at h
  dsimp only at h
  rw [if_neg (head_ne (by decide) t), if_neg (fun h => h rfl)] at h
  cases hstr : tokenString js max ⟨QUOTE :: t, base ++ opn :: elems, f :: stack, seen, done⟩
      f.token with
  | none =>
      rw [hstr] at h
      cases h
  | some st' =>
      obtain ⟨key, rest, heq, hroom, -⟩ := tokenString_sound hstr
      rw [heq] at hjs hstr
      have hcomplete := @tokenString_complete _ _ key _ _ _ (f :: stack) seen done f.token hjs
        hroom
      rw [hcomplete] at hstr
      obtain rfl := Option.some.inj hstr
      rw [heq, hcomplete] at h
      dsimp only at h
      have hget : (base ++ opn :: elems ++ (Json.str key).tokens pre.length
          (base ++ opn :: elems).length f.token)[(base ++ opn :: elems).length]?
          = some { type := .str, start := pre.length + 1
                   end_ := (pre.length + 1 + key.render.length : Nat), parent := f.token } :=
        List.getElem?_concat_length
      rw [hget] at h
      dsimp only at h
      split_ifs at h with hcount hlen hdup
      have hshort : key.render.length < JSON_MAX_KEY_BYTES := by
        omega
      have hspans : Spans js { type := .str, start := pre.length + 1
                               end_ := (pre.length + 1 + key.render.length : Nat)
                               parent := f.token } key.render := by
        refine ⟨pre ++ [QUOTE], QUOTE :: rest, ?_, ?_, ?_⟩
        · rw [hjs, Str.quoted]
          simp only [List.append_assoc, List.cons_append, List.nil_append]
        · rw [List.length_append]
          rfl
        · rw [List.length_append]
          rfl
      have hfresh : ∀ k ∈ ks, cstr k.decode ≠ cstr key.decode := fun k hk heq' =>
        hdup ((duplicateKey_iff hopen hspans rfl hnames.short hshort).mpr ⟨k, hk, heq'⟩)
      refine ⟨key, rest, heq, ⟨?_, ?_, ?_⟩, hroom⟩
      · rw [(hopen.members rfl).1] at hcount
        rw [List.length_append, List.length_singleton]
        omega
      · intro k hk
        rcases List.mem_append.mp hk with hk | hk
        · exact hnames.short k hk
        · rw [List.mem_singleton.mp hk]
          exact hshort
      · rw [List.map_append, List.nodup_append]
        refine ⟨hnames.distinct, List.pairwise_singleton _ _, ?_⟩
        intro a ha b hb heq'
        obtain ⟨k, hk, rfl⟩ := List.mem_map.mp ha
        rw [List.map_singleton, List.mem_singleton] at hb
        exact hfresh k hk (heq'.trans hb)

/-- Behind an opening bracket or a comma: the closing bracket, or the label of an
    element and a turn into its value. -/
theorem Accepts.label {k : Kind} {pre rest : Bytes} {base elems : List JsonToken}
    {opn : JsonToken} {f : Frame} {stack : List Frame} {ks : List Str} {seen done : Bool}
    (hjs : js = pre ++ rest) (hstate : f.state = Kind.first k ∨ f.state = Kind.required k)
    (hopen : Open js k f ks base elems) (hnames : NamesOk ks)
    (hroom : (base ++ opn :: elems).length ≤ max)
    (h : Accepts js max ⟨rest, base ++ opn :: elems, f :: stack, seen, done⟩) :
    (f.state = Kind.first k ∧ ∃ (w : Ws) (t : Bytes), rest = w.bytes ++ k.closing :: t)
      ∨ ∃ (l : Label k) (rest' : Bytes) (st : Scanner), rest = l.render ++ rest'
        ∧ NamesOk (ks ++ l.keys) ∧ (base ++ opn :: elems).length + l.keys.length ≤ max
        ∧ scanValue js max ⟨rest', base ++ opn :: elems ++ l.tokens pre.length f.token,
            { f with state := Kind.next k, members := f.members + l.keys.length } :: stack, seen,
            done⟩ f.token = some st
        ∧ Accepts js max st := by
  obtain ⟨w, c, t, st, rfl, -, hstep, hacc⟩ := h.turn
  cases k with
  | arr =>
      have harr : scanFrame js max ⟨c :: t, base ++ opn :: elems, f :: stack, seen, done⟩ f
          = scanArrayElement js max ⟨c :: t, base ++ opn :: elems, f :: stack, seen, done⟩
              f := by
        rw [scanFrame]
        rcases hstate with h | h
        · rw [h]
          rfl
        · rw [h]
          rfl
      rw [harr, scanArrayElement] at hstep
      dsimp only at hstep
      split_ifs at hstep with hclose hreq
      · rw [Option.some.inj hclose]
        exact Or.inl ⟨hstate.resolve_right hreq, w, t, rfl⟩
      · refine Or.inr ⟨.item w, c :: t, st, rfl, ?_, hroom, ?_, hacc⟩
        · rw [Label.keys, List.append_nil]
          exact hnames
        · rw [Label.tokens, List.append_nil]
          exact hstep
  | obj =>
      have hobj : scanFrame js max ⟨c :: t, base ++ opn :: elems, f :: stack, seen, done⟩ f
          = scanObjectKey js max ⟨c :: t, base ++ opn :: elems, f :: stack, seen, done⟩ f := by
        rw [scanFrame]
        rcases hstate with h | h
        · rw [h]
          rfl
        · rw [h]
          rfl
      rw [hobj] at hstep
      by_cases hclose : c = RBRACE
      · subst hclose
        rw [scanObjectKey] at hstep
        dsimp only at hstep
        rw [if_pos (head_cons RBRACE t)] at hstep
        split_ifs at hstep with hreq
        exact Or.inl ⟨hstate.resolve_right hreq, w, t, rfl⟩
      · have hq : c = QUOTE := by
          rw [scanObjectKey] at hstep
          dsimp only at hstep
          rw [if_neg (head_ne hclose t)] at hstep
          by_contra hq
          rw [if_pos (head_ne hq t)] at hstep
          cases hstep
        subst hq
        have hjs' : js = (pre ++ w.bytes) ++ QUOTE :: t := by
          rw [hjs, List.append_assoc]
        obtain ⟨key, rest, heq, hnames', hroom'⟩ :=
          scanObjectKey_sound hjs' hopen hnames hstep
        rw [heq] at hjs' ⊢
        -- the turn over the name is the one that completeness takes
        have hkey := @scanStep_key js max key _ _ _ _ opn _ stack _ seen done hjs' hstate hopen
          hnames' hroom'
        have hst : scanStep js max
            ⟨key.quoted ++ rest, base ++ opn :: elems, f :: stack, seen, done⟩ = some st := by
          rw [← hstep, ← heq, ← hobj]
          rfl
        rw [hkey] at hst
        obtain rfl := Option.some.inj hst
        obtain ⟨w1, c1, t1, st1, rfl, -, hcolon, hacc1⟩ := hacc.turn
        have hc1 : c1 = COLON := by
          rw [scanFrame] at hcolon
          dsimp only at hcolon
          split_ifs at hcolon with hc1
          exact Option.some.inj (not_not.mp hc1)
        subst hc1
        obtain rfl := Option.some.inj hcolon
        obtain ⟨w2, c2, t2, st2, hrest2, -, hvalue, hacc2⟩ := hacc1.turn
        have hrest2' : t1 = w2.bytes ++ c2 :: t2 := hrest2
        subst hrest2'
        refine Or.inr ⟨.member w key w1 w2, c2 :: t2, st2, ?_, hnames', hroom', ?_, hacc2⟩
        · rw [Label.render]
          simp only [List.append_assoc, List.cons_append]
        · rw [member_tokens w key w1 w2 pre.length (base ++ opn :: elems).length,
            ← List.length_append]
          exact hvalue

/-! ## Values -/

variable (js max)

/-- Texts of at most `n` bytes that `scan_value` and an accepting run read are
    values. -/
def ValueSound (n : Nat) : Prop :=
  ∀ {pre rest : Bytes} {toks : List JsonToken} {stack : List Frame} {seen done : Bool}
    {parent : Int} {st : Scanner}, rest.length ≤ n → js = pre ++ rest →
    stack.length ≤ JSON_MAX_DEPTH →
    scanValue js max ⟨rest, toks, stack, seen, done⟩ parent = some st →
    (st.stack ≠ [] → Accepts js max st) →
    ∃ (v : Json .value) (rest' : Bytes), rest = v.render ++ rest' ∧ Json.Fits v rest'
      ∧ toks.length + v.tokenCount ≤ max ∧ stack.length + v.nesting ≤ JSON_MAX_DEPTH
      ∧ v.EveryObject NamesOk

/-- Texts of at most `n` bytes that an accepting run reads with a container open
    are its elements, or close it. -/
def ElementsSound (n : Nat) : Prop :=
  ∀ {k : Kind} {pre rest : Bytes} {base elems : List JsonToken} {opn : JsonToken} {f : Frame}
    {stack : List Frame} {ks : List Str} {seen done : Bool}, rest.length ≤ n →
    js = pre ++ rest → (f.state = Kind.first k ∨ f.state = Kind.required k) →
    Open js k f ks base elems → NamesOk ks → (base ++ opn :: elems).length ≤ max →
    stack.length + 1 ≤ JSON_MAX_DEPTH →
    Accepts js max ⟨rest, base ++ opn :: elems, f :: stack, seen, done⟩ →
    (f.state = Kind.first k ∧ ∃ (w : Ws) (t : Bytes), rest = w.bytes ++ k.closing :: t)
      ∨ ∃ (es : Json (.elements k)) (rest' : Bytes), rest = es.render ++ rest'
        ∧ NamesOk (ks ++ es.keys) ∧ (base ++ opn :: elems).length + es.tokenCount ≤ max
        ∧ stack.length + 1 + es.nesting ≤ JSON_MAX_DEPTH ∧ es.EveryObject NamesOk

variable {js max}

theorem Kind.first_ne_required (k : Kind) : ¬ Kind.required k = Kind.first k := by
  cases k <;> decide

/-- A value, when the elements of the containers in it are known. -/
theorem valueSound_of {n : Nat} (helems : ∀ m < n, ElementsSound js max m) :
    ValueSound js max n := by
  intro pre rest toks stack seen done parent st hlen hjs hstack hscan hacc
  obtain ⟨hroom, ⟨s, rest', rfl, -⟩ | ⟨p, rest', rfl, hdelim, -⟩
    | ⟨k, rest', rfl, hdepth, -⟩⟩ := scanValue_cases hscan
  · exact ⟨.str s, rest', rfl, trivial, hroom, hstack, trivial⟩
  · exact ⟨.prim p, rest', rfl, hdelim, hroom, hstack, trivial⟩
  · rw [scanValue_open k hjs hroom hdepth] at hscan
    obtain rfl := Option.some.inj hscan
    have hone : (toks ++ [{ type := k.type, start := pre.length, end_ := -1
                            parent := parent : JsonToken }]).length = toks.length + 1 := by
      rw [List.length_append, List.length_singleton]
    rcases @helems rest'.length hlen _ (pre ++ [k.opening]) _ toks [] _ _ _ [] _ _ (Nat.le_refl _)
      (by rw [hjs, List.append_assoc]; rfl) (Or.inl rfl)
      { token := rfl, members := fun _ => ⟨rfl, Members.nil⟩ } namesOk_nil
      (by rw [hone]; exact hroom) hdepth (hacc (List.cons_ne_nil _ _))
      with ⟨-, w, t, rfl⟩ | ⟨es, t, rfl, hnames, hcount, hnest, hobjects⟩
    · refine ⟨.empty k w, t, ?_, trivial, hroom, hdepth, trivial⟩
      rw [Json.render, List.cons_append, List.append_assoc]
      rfl
    · rw [hone] at hcount
      have hcount' : (Json.full k es).tokenCount = es.tokenCount + 1 := rfl
      have hnest' : (Json.full k es).nesting = es.nesting + 1 := rfl
      exact ⟨.full k es, t, rfl, trivial, by omega, by omega, hnames, hobjects⟩

/-- Elements, when the values in them and shorter elements are known. -/
theorem elementsSound_of {n : Nat} (hvalue : ValueSound js max n)
    (helems : ∀ m < n, ElementsSound js max m) : ElementsSound js max n := by
  intro k pre rest base elems opn f stack ks seen done hlen hjs hstate hopen hnames hroom hdepth
    hacc
  rcases hacc.label hjs hstate hopen hnames hroom
    with hclose | ⟨l, rest1, st, rfl, hnames', hroom', hscan, hacc'⟩
  · exact Or.inl hclose
  right
  have hjs' : js = pre ++ l.render ++ rest1 := by
    rw [hjs, List.append_assoc]
  rw [List.length_append] at hlen
  obtain ⟨v, rest2, rfl, hfits, hcount, hnest, hobjects⟩ :=
    hvalue (by omega) hjs' (by rw [List.length_cons]; exact hdepth) hscan fun _ => hacc'
  have htoks : (base ++ opn :: elems ++ l.tokens pre.length f.token).length
      = (base ++ opn :: elems).length + l.keys.length := by
    rw [List.length_append, Label.tokens_length]
  rw [List.length_cons] at hnest
  rw [htoks] at hcount
  -- the machine runs over the label and the value to the separator
  have helem := @element_complete _ max _ l v (runsOver v) _ _ _ _ opn _ stack _ seen done hjs
    hfits hstate hopen hnames' (by omega) (by omega) hobjects
  rcases (hacc.of_reaches helem).separator rfl with ⟨w, t, rfl⟩ | ⟨w, t, rfl, hacc2⟩
  · refine ⟨.last k l v w, t, ?_, hnames', ?_, ?_, hobjects⟩
    · rw [Json.render]
      simp only [List.append_assoc, List.cons_append, List.nil_append]
    · have hc : (Json.last k l v w).tokenCount = l.keys.length + v.tokenCount := rfl
      omega
    · have hn : (Json.last k l v w).nesting = v.nesting := rfl
      omega
  · have hindex : f.token < (base ++ opn :: elems).length + l.keys.length := by
      rw [hopen.token, List.length_append, List.length_cons]
      omega
    have hsize : (base ++ opn :: (elems ++ (l.tokens pre.length f.token
        ++ v.tokens (pre.length + l.render.length)
            ((base ++ opn :: elems).length + l.keys.length) f.token))).length
        = (base ++ opn :: elems).length + l.keys.length + v.tokenCount := by
      simp only [List.length_append, List.length_cons, Label.tokens_length, Json.tokens_length]
      omega
    simp only [List.length_append, List.length_cons] at hlen
    have hpos : 0 < v.render.length := by
      obtain ⟨c, u, heq, -⟩ := Json.render_cons v
      rw [heq]
      exact Nat.succ_pos _
    rcases @helems t.length (by omega) _ (pre ++ (l.render ++ (v.render ++ (w.bytes ++ [COMMA]))))
      _ _ _ _ _ _ _ _ _ (Nat.le_refl _)
      (by rw [hjs]; simp only [List.append_assoc, List.cons_append, List.nil_append]) (Or.inr rfl)
      (@Open.extend _ _ _ _ _ _ hopen l v _ _ hjs (pre.length + l.render.length) _ hindex
        (Kind.required k)) hnames' (by omega) hdepth hacc2
      with ⟨hfirst, -⟩ | ⟨es, t', rfl, hnames2, hcount2, hnest2, hobjects2⟩
    · exact absurd hfirst (Kind.first_ne_required k)
    · refine ⟨.more k l v w es, t', ?_, ?_, ?_, ?_, hobjects, hobjects2⟩
      · rw [Json.render]
        simp only [List.append_assoc, List.cons_append]
      · rw [Json.keys, ← List.append_assoc]
        exact hnames2
      · have hc : (Json.more k l v w es).tokenCount
            = l.keys.length + v.tokenCount + es.tokenCount := rfl
        omega
      · have hn : (Json.more k l v w es).nesting = Max.max v.nesting es.nesting := rfl
        omega

theorem elementsSound (n : Nat) : ElementsSound js max n := by
  induction n using Nat.strong_induction_on with
  | h n ih => exact elementsSound_of (valueSound_of ih) ih

theorem valueSound (n : Nat) : ValueSound js max n :=
  valueSound_of fun m _ => elementsSound m

end JsonMachine
