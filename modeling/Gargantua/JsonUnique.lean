import Gargantua.JsonLanguage
import Gargantua.JsonValue

/-! # One derivation for a text

    Two derivations of a text differ in proofs only.  What is compared is the
    tree with its names and strings as they are written (`Json.written`); the
    values that the derivations say are then the same. -/

namespace JsonUnique

open CString JsonParse JsonGrammar JsonLexical JsonDecode JsonMachine JsonValue

/-! ## Trees as they are written -/

/-- The name in a label as it is written. -/
def Label.written : {k : Kind} → Label k → Name k
  | _, .item _ => .item
  | _, .member _ key _ _ => .member key.render

/-- A derivation with its names and strings as they are written. -/
def Json.written : {c : Cat} → Json c → Tree c
  | _, .prim p => .prim p.render
  | _, .str s => .str s.render
  | _, .empty k _ => .container k (.nil k)
  | _, .full k es => .container k (Json.written es)
  | _, .last k l v _ => .cons (Label.written l) (Json.written v) (.nil k)
  | _, .more _ l v _ es => .cons (Label.written l) (Json.written v) (Json.written es)

/-- A string that is written the same stands for the same. -/
theorem decode_eq {s s' : Str} (h : s.render = s'.render) : s.decode = s'.decode := by
  have hs := @copyLoop_complete (s.render.length + 1) s s.render.length 0 (Nat.le_refl _) (by omega)
  have hs' := @copyLoop_complete (s'.render.length + 1) s' s'.render.length 0 (Nat.le_refl _)
    (by omega)
  rw [← hs, ← hs', h]

theorem label_meaning {k : Kind} {l l' : Label k} (h : Label.written l = Label.written l') :
    Label.name l = Label.name l' := by
  cases l with
  | item w =>
      cases l' with
      | item w' => rfl
  | member w key w1 w2 =>
      cases l' with
      | member w' key' w1' w2' => exact congrArg Name.member (decode_eq (Name.member.inj h))

/-- Derivations that are written the same say the same. -/
theorem meaning_eq {c : Cat} (t : Json c) : ∀ {t' : Json c},
    Json.written t = Json.written t' → Json.meaning t = Json.meaning t' := by
  induction t with
  | prim p =>
      intro t' h
      cases t' with
      | prim p' => exact h
      | str s => cases h
      | empty k w => cases h
      | full k es => cases h
  | str s =>
      intro t' h
      cases t' with
      | prim p' => cases h
      | str s' => exact congrArg Tree.str (decode_eq (Tree.str.inj h))
      | empty k w => cases h
      | full k es => cases h
  | empty k w =>
      intro t' h
      cases t' with
      | prim p' => cases h
      | str s => cases h
      | empty k' w' =>
          obtain ⟨rfl, -⟩ := Tree.container.inj h
          rfl
      | full k' es =>
          obtain ⟨rfl, hes⟩ := Tree.container.inj h
          cases es <;> cases hes
  | full k es ih =>
      intro t' h
      cases t' with
      | prim p' => cases h
      | str s => cases h
      | empty k' w' =>
          obtain ⟨rfl, hes⟩ := Tree.container.inj h
          cases es <;> cases hes
      | full k' es' =>
          obtain ⟨rfl, hes⟩ := Tree.container.inj h
          exact congrArg (Tree.container k) (ih (eq_of_heq hes))
  | last k l v w ih =>
      intro t' h
      cases t' with
      | last _ l' v' w' =>
          obtain ⟨hl, hv, -⟩ := Tree.cons.inj h
          rw [Json.meaning, Json.meaning, label_meaning hl, ih hv]
      | more _ l' v' w' es' =>
          obtain ⟨-, -, hes⟩ := Tree.cons.inj h
          cases es' <;> cases hes
  | more k l v w es ihv ihes =>
      intro t' h
      cases t' with
      | last _ l' v' w' =>
          obtain ⟨-, -, hes⟩ := Tree.cons.inj h
          cases es <;> cases hes
      | more _ l' v' w' es' =>
          obtain ⟨hl, hv, hes⟩ := Tree.cons.inj h
          rw [Json.meaning, Json.meaning, label_meaning hl, ihv hv, ihes hes]

/-! ## The pieces of a text -/

theorem ws_unique {w w' : Ws} {c c' : Byte} {t t' : Bytes}
    (h : w.bytes ++ c :: t = w'.bytes ++ c' :: t') (hc : isSpace c = false)
    (hc' : isSpace c' = false) : c = c' ∧ t = t' := by
  have hdrop := congrArg (List.dropWhile isSpace) h
  rw [skip_ws, skip_ws, List.dropWhile_cons_of_neg (by rw [hc]; exact Bool.false_ne_true),
    List.dropWhile_cons_of_neg (by rw [hc']; exact Bool.false_ne_true)] at hdrop
  exact List.cons.inj hdrop

theorem str_unique {s s' : Str} {r r' : Bytes} (h : s.quoted ++ r = s'.quoted ++ r') :
    s.render = s'.render ∧ r = r' := by
  have htail : ∀ (u : Str) (x : Bytes), u.quoted ++ x = QUOTE :: (u.render ++ QUOTE :: x) := by
    intro u x
    rw [Str.quoted, List.cons_append, List.append_assoc]
    rfl
  rw [htail, htail] at h
  have heq := (List.cons.inj h).2
  have hlen : ∀ u x : Bytes, u.length < (u ++ QUOTE :: x).length := by
    intro u x
    rw [List.length_append, List.length_cons]
    omega
  have h1 := stringLoop_complete s r (hlen s.render r)
  rw [heq, stringLoop_complete s' r' (hlen s'.render r')] at h1
  have hr := (List.cons.inj (Option.some.inj h1)).2
  rw [← hr] at heq
  exact ⟨List.append_cancel_right heq, hr.symm⟩

theorem prim_unique {p p' : Prim} {r r' : Bytes} (h : p.render ++ r = p'.render ++ r')
    (hr : isDelimiter r = true) (hr' : isDelimiter r' = true) : p.render = p'.render ∧ r = r' := by
  have h1 := scanPrimitive_complete p hr
  rw [h, scanPrimitive_complete p' hr'] at h1
  obtain rfl := Option.some.inj h1
  exact ⟨List.append_cancel_right h, rfl⟩

theorem label_unique {k : Kind} {l l' : Label k} {c c' : Byte} {t t' : Bytes}
    (h : l.render ++ c :: t = l'.render ++ c' :: t') (hc : Starts c) (hc' : Starts c') :
    Label.written l = Label.written l' ∧ c :: t = c' :: t' := by
  cases l with
  | item w =>
      cases l' with
      | item w' =>
          obtain ⟨rfl, rfl⟩ := ws_unique h hc.1 hc'.1
          exact ⟨rfl, rfl⟩
  | member w key w1 w2 =>
      cases l' with
      | member w' key' w1' w2' =>
          simp only [Label.render, List.append_assoc, List.cons_append] at h
          have h1 : w.bytes ++ QUOTE :: (key.render ++ [QUOTE]
                ++ (w1.bytes ++ 0x3A :: (w2.bytes ++ c :: t)))
              = w'.bytes ++ QUOTE :: (key'.render ++ [QUOTE]
                ++ (w1'.bytes ++ 0x3A :: (w2'.bytes ++ c' :: t'))) := h
          obtain ⟨-, h2⟩ := ws_unique h1 rfl rfl
          obtain ⟨hkey, h3⟩ := @str_unique key key' _ _ (congrArg (QUOTE :: ·) h2)
          obtain ⟨-, h4⟩ := ws_unique h3 rfl rfl
          obtain ⟨rfl, rfl⟩ := ws_unique h4 hc.1 hc'.1
          exact ⟨congrArg Name.member hkey, rfl⟩

/-- The shapes of a value, told apart by the first byte. -/
theorem Prim.head_ne {p : Prim} {r t : Bytes} {c : Byte} (h : p.render ++ r = c :: t) :
    c ≠ QUOTE ∧ ∀ k : Kind, c ≠ k.opening := by
  obtain ⟨d, u, heq, -, hq, hb⟩ := Prim.render_cons p
  rw [heq] at h
  obtain ⟨rfl, -⟩ := List.cons.inj h
  refine ⟨hq, ?_⟩
  rintro (_ | _) rfl
  · exact hb (Or.inr rfl)
  · exact hb (Or.inl rfl)

theorem opening_ne_quote (k : Kind) : k.opening ≠ QUOTE := by
  cases k <;> decide

theorem opening_inj {k k' : Kind} (h : k.opening = k'.opening) : k = k' := by
  cases k <;> cases k'
  · rfl
  · exact absurd h (by decide)
  · exact absurd h (by decide)
  · rfl

/-- The text of elements does not start with the closing bracket. -/
theorem elements_not_closing {k : Kind} (es : Json (.elements k)) {w : Ws} {r t : Bytes}
    (h : es.render ++ r = w.bytes ++ k.closing :: t) : False := by
  obtain ⟨l, v, u, heq⟩ : ∃ (l : Label k) (v : Json .value) (u : Bytes),
      es.render ++ r = l.render ++ (v.render ++ u) := by
    cases es with
    | last _ l v w' =>
        exact ⟨l, v, w'.bytes ++ k.closing :: r, by
          rw [Json.render]
          simp only [List.append_assoc, List.cons_append, List.nil_append]⟩
    | more _ l v w' es =>
        exact ⟨l, v, w'.bytes ++ COMMA :: (es.render ++ r), by
          rw [Json.render]
          simp only [List.append_assoc, List.cons_append]⟩
  obtain ⟨c, x, hv, hc⟩ := Json.render_cons v
  rw [heq, hv] at h
  cases l with
  | item w' =>
      obtain ⟨rfl, -⟩ := ws_unique (w := w') h hc.1 rfl
      exact hc.2.1 rfl
  | member w' key w1 w2 =>
      simp only [Label.render, List.append_assoc] at h
      obtain ⟨hq, -⟩ := ws_unique (w := w') (c := QUOTE) h rfl rfl
      exact absurd hq (by decide)

theorem comma_ne_closing (k : Kind) : ¬ COMMA = k.closing := by
  cases k <;> decide

/-- Two derivations of one text are written the same and end at the same place. -/
def Determined : {c : Cat} → Json c → Prop
  | .value, v =>
      ∀ {v' : Json .value} {r r' : Bytes}, v.render ++ r = v'.render ++ r' → Json.Fits v r →
        Json.Fits v' r' → r = r' ∧ Json.written v = Json.written v'
  | .elements k, es =>
      ∀ {es' : Json (.elements k)} {r r' : Bytes}, es.render ++ r = es'.render ++ r' →
        r = r' ∧ Json.written es = Json.written es'

/-- An element and what follows it. -/
theorem element_unique {k : Kind} {l l' : Label k} {v v' : Json .value} (hv : Determined v)
    {w w' : Ws} {c c' : Byte} {t t' : Bytes} (hc : isDelimiter [c] = true)
    (hc' : isDelimiter [c'] = true) (hs : isSpace c = false) (hs' : isSpace c' = false)
    (h : l.render ++ (v.render ++ (w.bytes ++ c :: t))
      = l'.render ++ (v'.render ++ (w'.bytes ++ c' :: t'))) :
    Label.written l = Label.written l' ∧ Json.written v = Json.written v' ∧ c = c' ∧ t = t' := by
  obtain ⟨a, x, hx, ha⟩ := Json.render_cons v
  obtain ⟨a', x', hx', ha'⟩ := Json.render_cons v'
  rw [hx, hx'] at h
  have h1 : l.render ++ a :: (x ++ (w.bytes ++ c :: t))
      = l'.render ++ a' :: (x' ++ (w'.bytes ++ c' :: t')) := h
  obtain ⟨hl, hrest⟩ := label_unique h1 ha ha'
  rw [← List.cons_append, ← List.cons_append, ← hx, ← hx'] at hrest
  obtain ⟨hr, hw⟩ := hv hrest
    (Json.fits_of_delimiter v (isDelimiter_ws w hc))
    (Json.fits_of_delimiter v' (isDelimiter_ws w' hc'))
  exact ⟨hl, hw, ws_unique hr hs hs'⟩

theorem isDelimiter_bracket (k : Kind) : isDelimiter [k.closing] = true := by
  cases k <;> rfl

/-- **A text is written in one way.** -/
theorem determined {c : Cat} (t : Json c) : Determined t := by
  induction t with
  | prim p =>
      intro v' r r' h hr hr'
      cases v' with
      | prim p' =>
          obtain ⟨hp, hrest⟩ := prim_unique h hr hr'
          exact ⟨hrest, congrArg Tree.prim hp⟩
      | str s => exact absurd rfl (Prim.head_ne h).1
      | empty k w => exact absurd rfl ((Prim.head_ne h).2 k)
      | full k es => exact absurd rfl ((Prim.head_ne h).2 k)
  | str s =>
      intro v' r r' h _ _
      cases v' with
      | prim p' => exact absurd rfl (Prim.head_ne h.symm).1
      | str s' =>
          obtain ⟨hs, hrest⟩ := str_unique h
          exact ⟨hrest, congrArg Tree.str hs⟩
      | empty k w => exact absurd (List.cons.inj h).1.symm (opening_ne_quote k)
      | full k es => exact absurd (List.cons.inj h).1.symm (opening_ne_quote k)
  | empty k w =>
      intro v' r r' h _ _
      cases v' with
      | prim p' => exact absurd rfl ((Prim.head_ne h.symm).2 k)
      | str s => exact absurd (List.cons.inj h).1 (opening_ne_quote k)
      | empty k' w' =>
          obtain rfl := opening_inj (List.cons.inj h).1
          have h1 : w.bytes ++ [k.closing] ++ r = w'.bytes ++ [k.closing] ++ r' :=
            (List.cons.inj h).2
          rw [List.append_assoc, List.append_assoc] at h1
          have hs := Kind.closing_not_space k
          exact ⟨(ws_unique h1 hs hs).2, rfl⟩
      | full k' es =>
          obtain rfl := opening_inj (List.cons.inj h).1
          have h1 : w.bytes ++ [k.closing] ++ r = es.render ++ r' := (List.cons.inj h).2
          rw [List.append_assoc] at h1
          -- an empty container closes where the other one has an element
          exact (elements_not_closing es h1.symm).elim
  | full k es ih =>
      intro v' r r' h _ _
      cases v' with
      | prim p' => exact absurd rfl ((Prim.head_ne h.symm).2 k)
      | str s => exact absurd (List.cons.inj h).1 (opening_ne_quote k)
      | empty k' w' =>
          obtain rfl := opening_inj (List.cons.inj h).1
          have h1 : es.render ++ r = w'.bytes ++ [k.closing] ++ r' := (List.cons.inj h).2
          rw [List.append_assoc] at h1
          exact (elements_not_closing es h1).elim
      | full k' es' =>
          obtain rfl := opening_inj (List.cons.inj h).1
          obtain ⟨hr, hw⟩ := ih (List.cons.inj h).2
          exact ⟨hr, congrArg (Tree.container k) hw⟩
  | last k l v w ih =>
      intro es' r r' h
      have hs := Kind.closing_not_space k
      cases es' with
      | last _ l' v' w' =>
          simp only [Json.render, List.append_assoc, List.cons_append, List.nil_append] at h
          obtain ⟨hl, hw, -, hr⟩ := element_unique ih (isDelimiter_bracket k)
            (isDelimiter_bracket k) hs hs h
          exact ⟨hr, by rw [Json.written, Json.written, hl, hw]⟩
      | more _ l' v' w' es' =>
          simp only [Json.render, List.append_assoc, List.cons_append, List.nil_append] at h
          obtain ⟨-, -, hc, -⟩ := @element_unique _ _ _ _ _ ih _ _ _ COMMA _ _
            (isDelimiter_bracket k) rfl hs rfl h
          -- behind the value there is a bracket in the one text and a comma in the other
          exact absurd hc.symm (comma_ne_closing k)
  | more k l v w es ihv ihes =>
      intro es' r r' h
      have hs := Kind.closing_not_space k
      cases es' with
      | last _ l' v' w' =>
          simp only [Json.render, List.append_assoc, List.cons_append, List.nil_append] at h
          obtain ⟨-, -, hc, -⟩ := element_unique ihv (c := COMMA) rfl (isDelimiter_bracket k) rfl
            hs h
          exact absurd hc (comma_ne_closing k)
      | more _ l' v' w' es' =>
          simp only [Json.render, List.append_assoc, List.cons_append] at h
          obtain ⟨hl, hw, -, hrest⟩ := @element_unique _ _ _ _ _ ihv _ _ COMMA COMMA _ _
            rfl rfl rfl rfl h
          obtain ⟨hr, hw'⟩ := ihes hrest
          exact ⟨hr, by rw [Json.written, Json.written, hl, hw, hw']⟩

/-- Two derivations of a document have one value. -/
theorem document_written {d d' : Document} (h : d.render = d'.render) :
    Json.written d.value = Json.written d'.value := by
  obtain ⟨c, t, heq, hc⟩ := Json.render_cons d.value
  obtain ⟨c', t', heq', hc'⟩ := Json.render_cons d'.value
  have htext := h
  rw [Document.render, Document.render, heq, heq', List.cons_append, List.cons_append] at htext
  obtain ⟨rfl, htail⟩ := ws_unique htext hc.1 hc'.1
  have hvalues : d.value.render ++ d.after.bytes = d'.value.render ++ d'.after.bytes := by
    rw [heq, heq', List.cons_append, List.cons_append, htail]
  exact (determined d.value hvalues (Json.fits_of_delimiter _ (isDelimiter_after _))
    (Json.fits_of_delimiter _ (isDelimiter_after _))).2

/-- **A text says one value.** -/
theorem says_unique {text : Bytes} {v v' : Value} (h : Says text v) (h' : Says text v') :
    v = v' := by
  obtain ⟨d, hd, rfl⟩ := h
  obtain ⟨d', hd', rfl⟩ := h'
  exact meaning_eq d.value (document_written (hd.trans hd'.symm))

end JsonUnique
