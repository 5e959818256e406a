import Gargantua.JsonMachine

/-! # Every derivation within the limits is accepted

    The machine runs over the text of a derivation, by induction on the
    derivation: a label leads to the value behind it, the value is run over by
    induction, and a comma or the closing bracket follows. -/

namespace JsonMachine

open CString JsonParse JsonGrammar JsonLexical JsonDecode

variable {js : Bytes} {max : Nat}

/-! ## Labels -/

/-- The token of a name is the token of the string. -/
theorem member_tokens (w : Ws) (key : Str) (w1 w2 : Ws) (position index : Nat) (parent : Int) :
    (Label.member w key w1 w2).tokens position parent
      = (Json.str key).tokens (position + w.bytes.length) index parent := by
  rw [Label.tokens, Json.tokens, ← Nat.add_assoc position w.bytes.length 1]

/-- A label leads from the open container to the value behind it. -/
theorem label_complete {k : Kind} (l : Label k) {pre rest t : Bytes} {c : Byte}
    {base elems : List JsonToken} {opn : JsonToken} {f : Frame} {stack : List Frame}
    {ks : List Str} {seen done : Bool} {st : Scanner}
    (hjs : js = pre ++ (l.render ++ rest)) (hrest : rest = c :: t) (hc : Starts c)
    (hstate : f.state = Kind.first k ∨ f.state = Kind.required k)
    (hopen : Open js k f ks base elems) (hnames : NamesOk (ks ++ l.keys))
    (hroom : (base ++ opn :: elems).length + l.keys.length ≤ max)
    (hscan : scanValue js max ⟨rest, base ++ opn :: elems ++ l.tokens pre.length f.token,
      { f with state := Kind.next k, members := f.members + l.keys.length } :: stack, seen,
      done⟩ f.token = some st) :
    Reaches js max ⟨l.render ++ rest, base ++ opn :: elems, f :: stack, seen, done⟩ st := by
  cases l with
  | item w =>
      refine Relation.ReflTransGen.single (turn_of w (by rw [hrest]; rfl) hc.1 ?_)
      rw [hrest] at hscan
      have hscan' : scanValue js max ⟨c :: t, base ++ opn :: elems,
          { f with state := .arrNext } :: stack, seen, done⟩ f.token = some st := by
        have h := hscan
        rw [Label.tokens, List.append_nil] at h
        exact h
      have hmain : scanArrayElement js max
          ⟨c :: t, base ++ opn :: elems, f :: stack, seen, done⟩ f = some st := by
        rw [scanArrayElement]
        dsimp only
        rw [if_neg (head_ne hc.2.1 t)]
        exact hscan'
      rw [← hmain]
      show scanFrame js max _ f = _
      rw [scanFrame]
      rcases hstate with h | h
      · rw [h]
        rfl
      · rw [h]
        rfl
  | member w key w1 w2 =>
      -- the name, the colon, and the value
      have hkey : scanStep js max
          ⟨key.quoted ++ (w1.bytes ++ 0x3A :: (w2.bytes ++ rest)), base ++ opn :: elems,
            f :: stack, seen, done⟩ = _ :=
        @scanStep_key _ _ key (pre ++ w.bytes) _ _ _ _ _ _ _ _ _ (by
          rw [hjs, Label.render]
          simp only [List.append_assoc, List.cons_append]) hstate hopen hnames (by
          have h1 : (Label.member w key w1 w2).keys.length = 1 := rfl
          omega)
      rw [List.length_append, ← member_tokens w key w1 w2] at hkey
      have h1 := @turn_of js max (w.bytes ++ (key.quoted
        ++ (w1.bytes ++ 0x3A :: (w2.bytes ++ rest)))) _ _ _ _ _ _ _ w rfl rfl hkey
      have h2 : Turn js max
          ⟨w1.bytes ++ 0x3A :: (w2.bytes ++ rest), base ++ opn :: elems
              ++ (Label.member w key w1 w2).tokens pre.length f.token,
            { f with state := .objColon, members := f.members + 1 } :: stack, seen, done⟩
          ⟨w2.bytes ++ rest, base ++ opn :: elems
              ++ (Label.member w key w1 w2).tokens pre.length f.token,
            { f with state := .objValue, members := f.members + 1 } :: stack, seen, done⟩ :=
        turn_of w1 rfl rfl rfl
      have h3 : Turn js max
          ⟨w2.bytes ++ rest, base ++ opn :: elems
              ++ (Label.member w key w1 w2).tokens pre.length f.token,
            { f with state := .objValue, members := f.members + 1 } :: stack, seen, done⟩ st :=
        turn_of w2 (by rw [hrest]) hc.1 (by rw [hrest] at hscan; exact hscan)
      have htext : (Label.member w key w1 w2).render ++ rest
          = w.bytes ++ (key.quoted ++ (w1.bytes ++ 0x3A :: (w2.bytes ++ rest))) := by
        rw [Label.render]
        simp only [List.append_assoc, List.cons_append]
      rw [htext]
      exact (Relation.ReflTransGen.single h1).trans
        ((Relation.ReflTransGen.single h2).trans (Relation.ReflTransGen.single h3))

/-- An element behind the ones that the container has. -/
theorem Open.extend {k : Kind} {f : Frame} {ks : List Str} {base elems : List JsonToken}
    (h : Open js k f ks base elems) (l : Label k) (v : Json .value) {pre rest : Bytes}
    (hjs : js = pre ++ (l.render ++ rest)) {position index : Nat} (hindex : f.token < index)
    (state : FrameState) :
    Open js k { f with state := state, members := f.members + l.keys.length } (ks ++ l.keys)
      base (elems ++ (l.tokens pre.length f.token ++ v.tokens position index f.token)) where
  token := h.token
  members := by
    rintro rfl
    obtain ⟨hcount, hmembers⟩ := h.members rfl
    cases l with
    | member w key w1 w2 =>
        refine ⟨?_, hmembers.append ?_⟩
        · rw [hcount, List.length_append]
        · have hchild := @Json.child v position index f.token (by omega)
          have hspans : Spans js { type := .str, start := pre.length + (w.bytes.length + 1)
                                   end_ := (pre.length + (w.bytes.length + 1)
                                     + key.render.length : Nat)
                                   parent := f.token } key.render := by
            refine ⟨pre ++ (w.bytes ++ [QUOTE]),
              QUOTE :: (w1.bytes ++ 0x3A :: (w2.bytes ++ rest)), ?_, ?_, ?_⟩
            · rw [hjs, Label.render, Str.quoted]
              simp only [List.append_assoc, List.cons_append, List.nil_append]
            · rw [List.length_append, List.length_append]
              rfl
            · rw [List.length_append, List.length_append]
              rfl
          have hone := Members.cons rfl rfl hspans hchild Members.nil
          rw [List.append_nil] at hone
          exact hone

/-! ## Values and elements -/

/-- The value is an array or an object. -/
def Json.isContainer : Json .value → Bool
  | .prim _ => false
  | .str _ => false
  | .empty _ _ => true
  | .full _ _ => true

/-- What the value asks of the text behind it: a primitive is read as far as it
    goes. -/
def Json.Fits : Json .value → Bytes → Prop
  | .prim _, rest => isDelimiter rest = true
  | .str _, _ => True
  | .empty _ _, _ => True
  | .full _ _, _ => True

theorem Json.fits_of_delimiter (v : Json .value) {rest : Bytes} (h : isDelimiter rest = true) :
    Json.Fits v rest := by
  cases v with
  | prim p => exact h
  | str s => trivial
  | empty k w => trivial
  | full k es => trivial

variable (js max)

/-- The machine runs over the text of the derivation and appends its tokens; the
    elements of a container are run over up to its closing bracket.  A container
    is open behind its first turn, another value is complete. -/
def RunsOver : {c : Cat} → Json c → Prop
  | .value, v =>
      ∀ {pre rest : Bytes} {toks : List JsonToken} {stack : List Frame} {seen done : Bool}
        {parent : Int}, js = pre ++ (v.render ++ rest) → Json.Fits v rest →
        toks.length + v.tokenCount ≤ max → stack.length + v.nesting ≤ JSON_MAX_DEPTH →
        v.EveryObject NamesOk →
        ∃ st : Scanner,
          scanValue js max ⟨v.render ++ rest, toks, stack, seen, done⟩ parent = some st
          ∧ Reaches js max st ⟨rest, toks ++ v.tokens pre.length toks.length parent, stack, seen,
              done || (Json.isContainer v && stack.isEmpty)⟩
          ∧ (Json.isContainer v = true → st.stack ≠ [])
          ∧ (Json.isContainer v = false →
              st = ⟨rest, toks ++ v.tokens pre.length toks.length parent, stack, seen, done⟩)
  | .elements k, es =>
      ∀ {pre rest : Bytes} {base elems : List JsonToken} {opn : JsonToken} {f : Frame}
        {stack : List Frame} {ks : List Str} {seen done : Bool},
        js = pre ++ (es.render ++ rest) →
        (f.state = Kind.first k ∨ f.state = Kind.required k) → Open js k f ks base elems →
        NamesOk (ks ++ es.keys) → (base ++ opn :: elems).length + es.tokenCount ≤ max →
        stack.length + 1 + es.nesting ≤ JSON_MAX_DEPTH → es.EveryObject NamesOk →
        Reaches js max ⟨es.render ++ rest, base ++ opn :: elems, f :: stack, seen, done⟩
          ⟨rest, base ++ { opn with end_ := (pre.length + es.render.length : Nat) }
              :: (elems ++ es.tokens pre.length (base ++ opn :: elems).length f.token),
            stack, seen, done || stack.isEmpty⟩

variable {js max}

theorem scanValue_prim {c : Byte} {t : Bytes} {toks : List JsonToken} {stack : List Frame}
    {seen done : Bool} {parent : Int} (hq : c ≠ QUOTE) (hb : ¬ (c = LBRACE ∨ c = LBRACKET)) :
    scanValue js max ⟨c :: t, toks, stack, seen, done⟩ parent
      = tokenPrimitive js max ⟨c :: t, toks, stack, seen, done⟩ parent := by
  rw [scanValue]
  dsimp only
  rw [if_neg hq, if_neg hb]

theorem runsOver_prim (p : Prim) : RunsOver js max (Json.prim p) := by
  intro pre rest toks stack seen done parent hjs hdelim hroom _ _
  have hprim := @tokenPrimitive_complete _ _ p _ _ _ stack seen done parent hjs hdelim hroom
  obtain ⟨c, t, heq, -, hq, hb⟩ := Prim.render_cons p
  rw [Json.isContainer, Bool.false_and, Bool.or_false]
  refine ⟨_, ?_, Relation.ReflTransGen.refl, fun h => (nomatch h), fun _ => rfl⟩
  show scanValue js max ⟨p.render ++ rest, _, _, _, _⟩ _ = _
  rw [← hprim, heq]
  exact scanValue_prim hq hb

theorem runsOver_str (s : Str) : RunsOver js max (Json.str s) := by
  intro pre rest toks stack seen done parent hjs _ hroom _ _
  have hstr := @tokenString_complete _ _ s _ _ _ stack seen done parent hjs hroom
  rw [Json.isContainer, Bool.false_and, Bool.or_false]
  refine ⟨_, ?_, Relation.ReflTransGen.refl, fun h => (nomatch h), fun _ => rfl⟩
  rw [← hstr]
  rfl

theorem runsOver_empty (k : Kind) (w : Ws) : RunsOver js max (Json.empty k w) := by
  intro pre rest toks stack seen done parent hjs _ hroom hdepth _
  have htext : (Json.empty k w).render ++ rest = k.opening :: (w.bytes ++ k.closing :: rest) := by
    rw [Json.render, List.cons_append, List.append_assoc]
    rfl
  rw [htext] at hjs ⊢
  refine ⟨_, scanValue_open k hjs hroom hdepth, Relation.ReflTransGen.single ?_,
    fun _ => List.cons_ne_nil _ _, fun h => (nomatch h)⟩
  have hclose := @scanStep_close js max k (pre ++ k.opening :: w.bytes) rest toks []
    { type := k.type, start := pre.length, end_ := -1, parent := parent }
    { token := toks.length, type := k.type, state := Kind.first k, members := 0 } stack seen done
    (by rw [hjs, List.append_assoc]; rfl) (Or.inl rfl) rfl
  have hlen : (pre ++ k.opening :: w.bytes).length + 1 = pre.length + (w.bytes.length + 2) := by
    rw [List.length_append, List.length_cons]
    omega
  rw [hlen] at hclose
  exact turn_of w rfl (Kind.closing_not_space k) hclose

theorem runsOver_full (k : Kind) (es : Json (.elements k)) (ih : RunsOver js max es) :
    RunsOver js max (Json.full k es) := by
  intro pre rest toks stack seen done parent hjs _ hroom hdepth hobjects
  have htext : (Json.full k es).render ++ rest = k.opening :: (es.render ++ rest) := rfl
  have hcount : (Json.full k es).tokenCount = es.tokenCount + 1 := rfl
  have hnest : (Json.full k es).nesting = es.nesting + 1 := rfl
  rw [htext] at hjs ⊢
  refine ⟨_, scanValue_open k hjs (by omega) (by omega), ?_, fun _ => List.cons_ne_nil _ _,
    fun h => (nomatch h)⟩
  have hrun := @ih (pre ++ [k.opening]) rest toks []
    { type := k.type, start := pre.length, end_ := -1, parent := parent }
    { token := toks.length, type := k.type, state := Kind.first k, members := 0 } stack [] seen
    done (by rw [hjs, List.append_assoc]; rfl) (Or.inl rfl)
    { token := rfl, members := fun _ => ⟨rfl, Members.nil⟩ } hobjects.1
    (by rw [List.length_append, List.length_singleton]; omega) (by omega) hobjects.2
  have hlen : (toks ++ [{ type := k.type, start := pre.length, end_ := -1
                          parent := parent : JsonToken }]).length = toks.length + 1 := by
    rw [List.length_append, List.length_singleton]
  rw [hlen, List.length_append, List.length_singleton, List.nil_append] at hrun
  exact hrun

/-- An element and what follows it: the part that both shapes of a list of
    elements share. -/
theorem element_complete {k : Kind} (l : Label k) (v : Json .value) (hv : RunsOver js max v)
    {pre rest : Bytes} {base elems : List JsonToken} {opn : JsonToken} {f : Frame}
    {stack : List Frame} {ks : List Str} {seen done : Bool}
    (hjs : js = pre ++ (l.render ++ (v.render ++ rest))) (hfits : Json.Fits v rest)
    (hstate : f.state = Kind.first k ∨ f.state = Kind.required k)
    (hopen : Open js k f ks base elems) (hnames : NamesOk (ks ++ l.keys))
    (hroom : (base ++ opn :: elems).length + (l.keys.length + v.tokenCount) ≤ max)
    (hdepth : stack.length + 1 + v.nesting ≤ JSON_MAX_DEPTH) (hobjects : v.EveryObject NamesOk) :
    Reaches js max
      ⟨l.render ++ (v.render ++ rest), base ++ opn :: elems, f :: stack, seen, done⟩
      ⟨rest, base ++ opn :: (elems ++ (l.tokens pre.length f.token
          ++ v.tokens (pre.length + l.render.length)
              ((base ++ opn :: elems).length + l.keys.length) f.token)),
        { f with state := Kind.next k, members := f.members + l.keys.length } :: stack, seen,
        done⟩ := by
  have htoks : (base ++ opn :: elems ++ l.tokens pre.length f.token).length
      = (base ++ opn :: elems).length + l.keys.length := by
    rw [List.length_append, Label.tokens_length]
  obtain ⟨st, hscan, hreach, -, -⟩ := @hv (pre ++ l.render) rest
    (base ++ opn :: elems ++ l.tokens pre.length f.token)
    ({ f with state := Kind.next k, members := f.members + l.keys.length } :: stack) seen done
    f.token (by rw [hjs, List.append_assoc]) hfits (by omega) (by rw [List.length_cons]; omega)
    hobjects
  obtain ⟨c, t, hv', hc⟩ := Json.render_cons v
  have hlabel := label_complete l hjs (c := c) (t := t ++ rest)
    (by rw [hv', List.cons_append]) hc hstate hopen hnames (by omega) hscan
  rw [htoks, List.length_append, List.isEmpty_cons, Bool.and_false, Bool.or_false,
    List.append_assoc, List.append_assoc, List.cons_append] at hreach
  exact hlabel.trans hreach

theorem runsOver_last (k : Kind) (l : Label k) (v : Json .value) (w : Ws)
    (ih : RunsOver js max v) : RunsOver js max (Json.last k l v w) := by
  intro pre rest base elems opn f stack ks seen done hjs hstate hopen hnames hroom hdepth hobjects
  have htext : (Json.last k l v w).render ++ rest
      = l.render ++ (v.render ++ (w.bytes ++ k.closing :: rest)) := by
    rw [Json.render]
    simp only [List.append_assoc, List.cons_append, List.nil_append]
  rw [htext] at hjs ⊢
  have helem := @element_complete _ _ _ l v ih _ _ _ _ opn _ _ _ seen done hjs
    (Json.fits_of_delimiter v (isDelimiter_ws w (isDelimiter_closing k rest))) hstate hopen hnames
    hroom hdepth hobjects
  have hclose := @scanStep_close js max k (pre ++ (l.render ++ (v.render ++ w.bytes))) rest base
    (elems ++ (l.tokens pre.length f.token
      ++ v.tokens (pre.length + l.render.length)
          ((base ++ opn :: elems).length + l.keys.length) f.token)) opn
    { f with state := Kind.next k, members := f.members + l.keys.length } stack seen done
    (by rw [hjs]; simp only [List.append_assoc]) (Or.inr rfl) hopen.token
  have hlen : (pre ++ (l.render ++ (v.render ++ w.bytes))).length + 1
      = pre.length + (Json.last k l v w).render.length := by
    rw [Json.render]
    simp only [List.length_append, List.length_cons, List.length_nil]
    omega
  rw [hlen] at hclose
  exact helem.trans (Relation.ReflTransGen.single
    (turn_of w rfl (Kind.closing_not_space k) hclose))

theorem runsOver_more (k : Kind) (l : Label k) (v : Json .value) (w : Ws)
    (es : Json (.elements k)) (ihv : RunsOver js max v) (ihes : RunsOver js max es) :
    RunsOver js max (Json.more k l v w es) := by
  intro pre rest base elems opn f stack ks seen done hjs hstate hopen hnames hroom hdepth hobjects
  have htext : (Json.more k l v w es).render ++ rest
      = l.render ++ (v.render ++ (w.bytes ++ COMMA :: (es.render ++ rest))) := by
    rw [Json.render]
    simp only [List.append_assoc, List.cons_append]
  have hcount : (Json.more k l v w es).tokenCount
      = l.keys.length + v.tokenCount + es.tokenCount := rfl
  have hnest : (Json.more k l v w es).nesting = Max.max v.nesting es.nesting := rfl
  have hkeys : ks ++ (Json.more k l v w es).keys = ks ++ l.keys ++ es.keys := by
    rw [Json.keys, List.append_assoc]
  rw [htext] at hjs ⊢
  rw [hkeys] at hnames
  have helem := @element_complete _ _ _ l v ihv _ _ _ _ opn _ stack _ seen done hjs
    (Json.fits_of_delimiter v (isDelimiter_ws w rfl)) hstate hopen hnames.left (by omega)
    (by omega) hobjects.1
  have hcomma := @turn_of js max (w.bytes ++ COMMA :: (es.render ++ rest)) _ _ _ _ _ _ _ w rfl rfl
    (@scanStep_comma _ _ k (es.render ++ rest)
      (base ++ opn :: (elems ++ (l.tokens pre.length f.token
        ++ v.tokens (pre.length + l.render.length)
            ((base ++ opn :: elems).length + l.keys.length) f.token)))
      { f with state := Kind.next k, members := f.members + l.keys.length } stack seen done rfl)
  have hindex : f.token < (base ++ opn :: elems).length + l.keys.length := by
    rw [hopen.token, List.length_append, List.length_cons]
    omega
  have hlen : (base ++ opn :: (elems ++ (l.tokens pre.length f.token
      ++ v.tokens (pre.length + l.render.length)
          ((base ++ opn :: elems).length + l.keys.length) f.token))).length
      = (base ++ opn :: elems).length + l.keys.length + v.tokenCount := by
    simp only [List.length_append, List.length_cons, Label.tokens_length, Json.tokens_length]
    omega
  have hrun := @ihes (pre ++ (l.render ++ (v.render ++ (w.bytes ++ [COMMA])))) rest _ _ opn _
    stack _ seen done
    (by rw [hjs]; simp only [List.append_assoc, List.cons_append, List.nil_append]) (Or.inr rfl)
    (@Open.extend _ _ _ _ _ _ hopen l v _ _ hjs (pre.length + l.render.length) _ hindex
      (Kind.required k))
    hnames (by omega) (by omega) hobjects.2
  have hpre : (pre ++ (l.render ++ (v.render ++ (w.bytes ++ [COMMA])))).length
      = pre.length + l.render.length + v.render.length + w.bytes.length + 1 := by
    simp only [List.length_append, List.length_cons, List.length_nil]
    omega
  have hend : pre.length + l.render.length + v.render.length + w.bytes.length + 1
      + es.render.length = pre.length + (Json.more k l v w es).render.length := by
    rw [Json.render]
    simp only [List.length_append, List.length_cons]
    omega
  rw [hlen, hpre, hend, List.append_assoc, List.append_assoc] at hrun
  exact helem.trans ((Relation.ReflTransGen.single hcomma).trans hrun)

/-- **The machine runs over every derivation within the limits.** -/
theorem runsOver {c : Cat} (t : Json c) : RunsOver js max t := by
  induction t with
  | prim p => exact runsOver_prim p
  | str s => exact runsOver_str s
  | empty k w => exact runsOver_empty k w
  | full k es ih => exact runsOver_full k es ih
  | last k l v w ih => exact runsOver_last k l v w ih
  | more k l v w es ihv ihes => exact runsOver_more k l v w es ihv ihes

end JsonMachine
