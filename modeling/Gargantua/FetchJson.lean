import Mathlib.Data.List.Find
import Mathlib.Data.List.Nodup
import Gargantua.BodyRead

/-! # Reading a field of a reply (`src/http/json.c`, `src/runtime/fetch_api.c`)

    `json_object_get` on every object of a text, nested ones included, and the
    two functions that read one member of the object a reply consists of.  The
    lookup compares C strings, so what it finds is the member of the name only
    while no name of the object stands for a NUL (`object_get_exact_iff`). -/

namespace FetchJson

open CString JsonParse JsonGrammar JsonDecode JsonMachine JsonAccess GeneratorText RuntimeBody
  BodyTree BodyBinding BodyRead

/-! ## The readers -/

/-- `FETCH_MAX_FIELD`. -/
abbrev FETCH_MAX_FIELD : Nat := 1024

section Reader

variable (intern : Bytes → Option Bytes) (body key : Option Bytes)

/-- `fetch_json_text`, `intern` being `arena_intern`: the body is the `length`
    bytes it points to. -/
def fetchJsonText : Bytes :=
  match body, key with
  | some body, some key =>
      if body.length = 0 then []
      else
        match jsonParse body JSON_MAX_TOKENS with
        | none => []
        | some tokens =>
            if tokens.length = 0 then []
            else
              match jsonObjectGet body tokens 0 key with
              | none => []
              | some slot =>
                  match tokens[slot]? with
                  | none => []
                  | some t =>
                      if t.end_ - t.start < 0 ∨ t.end_ - t.start ≥ FETCH_MAX_FIELD then []
                      else (intern (cstr (jsonCopyStr body t FETCH_MAX_FIELD))).getD []
  | _, _ => []

/-- `fetch_json_int`. -/
def fetchJsonInt (fallback : Int) : Int :=
  match body, key with
  | some body, some key =>
      if body.length = 0 then fallback
      else
        match jsonParse body JSON_MAX_TOKENS with
        | none => fallback
        | some tokens =>
            if tokens.length = 0 then fallback
            else
              match jsonObjectGet body tokens 0 key with
              | none => fallback
              | some slot =>
                  match tokens[slot]? with
                  | none => fallback
                  | some t =>
                      match jsonTokenLongChecked body t with
                      | none => fallback
                      | some value =>
                          if value < -2147483647 ∨ value > 2147483647 then fallback else value
  | _, _ => fallback

end Reader

/-! ## The values of a derivation -/

/-- A value of the derivation, with its place in the text and the index of its
    first token. -/
structure Place where
  value : Json .value
  valueAt : Nat
  index : Nat

/-- The values in a derivation, in the order of the text. -/
def places : {c : Cat} → Json c → Nat → Nat → List Place
  | _, .prim p, position, index => [⟨.prim p, position, index⟩]
  | _, .str s, position, index => [⟨.str s, position, index⟩]
  | _, .empty k w, position, index => [⟨.empty k w, position, index⟩]
  | _, .full k es, position, index =>
      ⟨.full k es, position, index⟩ :: places es (position + 1) (index + 1)
  | _, .last _ l v _, position, index =>
      places v (position + l.render.length) (index + l.keys.length)
  | _, .more _ l v w es, position, index =>
      places v (position + l.render.length) (index + l.keys.length)
        ++ places es (position + l.render.length + v.render.length + w.bytes.length + 1)
            (index + l.keys.length + v.tokenCount)

/-- The object whose token is `obj` has the members `ms`. -/
def ObjectAt (d : Document) (obj : Nat) (ms : List Member) : Prop :=
  ∃ p ∈ places d.value d.before.bytes.length 0,
    p.index = obj ∧ objectMembers p.value p.valueAt p.index = some ms

section Places

variable {toks : List JsonToken} {js : Bytes}

/-- Every value stands where its place says. -/
theorem places_stand {c : Cat} (t : Json c) :
    ∀ {position index : Nat} {parent : Int}, parent < index →
      Located toks (t.tokens position index parent) index → TextAt js position t.render →
      t.EveryObject NamesOk →
      ∀ p ∈ places t position index,
        ∃ parent, Stands toks js p.value p.valueAt p.index parent := by
  induction t with
  | prim q =>
      intro position index parent hlt hloc htext hnames p hp
      rw [List.mem_singleton.mp hp]
      exact ⟨parent, hloc, htext, hnames, hlt⟩
  | str s =>
      intro position index parent hlt hloc htext hnames p hp
      rw [List.mem_singleton.mp hp]
      exact ⟨parent, hloc, htext, hnames, hlt⟩
  | empty k w =>
      intro position index parent hlt hloc htext hnames p hp
      rw [List.mem_singleton.mp hp]
      exact ⟨parent, hloc, htext, hnames, hlt⟩
  | full k es ih =>
      intro position index parent hlt hloc htext hnames p hp
      rcases List.mem_cons.mp hp with rfl | hp
      · exact ⟨parent, hloc, htext, hnames, hlt⟩
      · have hinner : Located toks (es.tokens (position + 1) (index + 1) index) (index + 1) :=
          Located.second (a := [_]) hloc
        exact ih (by omega) hinner htext.tail hnames.2 p hp
  | last k l v w ih =>
      intro position index parent hlt hloc htext hnames p hp
      have hvalue := hloc.second
      rw [Label.tokens_length] at hvalue
      exact ih (by omega) hvalue htext.right.left hnames p hp
  | more k l v w es ihv ihes =>
      intro position index parent hlt hloc htext hnames p hp
      have hboth := hloc.second
      rw [Label.tokens_length] at hboth
      have hlt' : parent < ((index + l.keys.length : Nat) : Int) := by omega
      rcases List.mem_append.mp hp with hp | hp
      · refine ihv hlt' (value_located hlt' hboth fun tok htok => ?_) htext.right.left hnames.1 p hp
        rcases es.parent_cases tok htok with h | h
        · exact Or.inl h
        · exact Or.inr h
      · have hrest := hboth.second
        rw [Json.tokens_length] at hrest
        exact ihes (by omega) hrest htext.right.right.right.tail hnames.2 p hp

theorem label_type {k : Kind} (l : Label k) {position i : Nat} {parent : Int} {tok : JsonToken}
    (h : (l.tokens position parent)[i]? = some tok) : tok.type = .str := by
  have hmem := List.mem_of_getElem? h
  cases l with
  | item w => exact nomatch hmem
  | member w key w1 w2 => rw [List.mem_singleton.mp hmem]

/-- Every token but that of a name is the first of a value. -/
theorem places_cover {c : Cat} (t : Json c) :
    ∀ {position index : Nat} {parent : Int} {i : Nat} {tok : JsonToken},
      (t.tokens position index parent)[i]? = some tok → tok.type ≠ .str →
      ∃ p ∈ places t position index, p.index = index + i := by
  induction t with
  | prim q =>
      intro position index parent i tok hget _
      cases i with
      | zero => exact ⟨_, List.mem_cons_self, rfl⟩
      | succ i => exact nomatch hget
  | str s =>
      intro position index parent i tok hget hstr
      cases i with
      | zero => exact ⟨_, List.mem_cons_self, rfl⟩
      | succ i => exact nomatch hget
  | empty k w =>
      intro position index parent i tok hget _
      cases i with
      | zero => exact ⟨_, List.mem_cons_self, rfl⟩
      | succ i => exact nomatch hget
  | full k es ih =>
      intro position index parent i tok hget hstr
      cases i with
      | zero => exact ⟨_, List.mem_cons_self, rfl⟩
      | succ i =>
          obtain ⟨p, hp, hindex⟩ := ih hget hstr
          exact ⟨p, List.mem_cons_of_mem _ hp, by omega⟩
  | last k l v w ih =>
      intro position index parent i tok hget hstr
      rw [Json.tokens, List.getElem?_append] at hget
      rw [Label.tokens_length] at hget
      split_ifs at hget with hi
      · exact absurd (label_type l hget) hstr
      · obtain ⟨p, hp, hindex⟩ := ih hget hstr
        exact ⟨p, hp, by omega⟩
  | more k l v w es ihv ihes =>
      intro position index parent i tok hget hstr
      rw [Json.tokens, List.getElem?_append, Label.tokens_length, List.getElem?_append,
        Json.tokens_length] at hget
      split_ifs at hget with hi hj
      · exact absurd (label_type l hget) hstr
      · obtain ⟨p, hp, hindex⟩ := ihv hget hstr
        exact ⟨p, List.mem_append_left _ hp, by omega⟩
      · obtain ⟨p, hp, hindex⟩ := ihes hget hstr
        exact ⟨p, List.mem_append_right _ hp, by omega⟩

end Places

/-! ## The token of a value -/

def valueType : Json .value → JsonType
  | .prim _ => .prim
  | .str _ => .str
  | .empty k _ => k.type
  | .full k _ => k.type

/-- What the token of a value spans: a string without its quotes. -/
def valueText : Json .value → Bytes
  | .str s => s.render
  | v => v.render

/-- The text that a value stands for. -/
def valueDecode : Json .value → Bytes
  | .str s => s.decode
  | v => v.render

/-- The token of a value. -/
structure ValueToken (js : Bytes) (t : JsonToken) (v : Json .value) : Prop where
  type : t.type = valueType v
  spans : Spans js t (valueText v)

section Value

variable {toks : List JsonToken} {js : Bytes} {v : Json .value} {position index : Nat}
  {parent : Int} {t : JsonToken} {ms : List Member}

theorem valueToken_of_stands (h : Stands toks js v position index parent) :
    ∃ t, toks[index]? = some t ∧ ValueToken js t v := by
  obtain ⟨t, hget, hhead⟩ := h.head
  refine ⟨t, hget, ?_⟩
  have htext := h.text
  cases v with
  | prim p =>
      obtain rfl := Option.some.inj hhead
      exact ⟨rfl, htext.spans rfl rfl⟩
  | str s =>
      obtain rfl := Option.some.inj hhead
      rw [Json.render, Str.quoted] at htext
      exact ⟨rfl, htext.tail.left.spans rfl rfl⟩
  | empty k w =>
      obtain rfl := Option.some.inj hhead
      refine ⟨rfl, htext.spans rfl ?_⟩
      simp only [Json.render, List.length_cons, List.length_append, List.length_nil]
  | full k es =>
      obtain rfl := Option.some.inj hhead
      refine ⟨rfl, htext.spans rfl ?_⟩
      show ((position + 1 + es.render.length : Nat) : Int)
        = (position + (Json.full k es).render.length : Nat)
      rw [Json.render, List.length_cons, Nat.add_assoc, Nat.add_comm 1]

/-- What is no string is copied as it is. -/
theorem copyLoop_raw {outsz : Nat} : ∀ (s : Bytes) {fuel o : Nat}, s.length ≤ fuel →
    o + s.length < outsz → copyLoop false outsz fuel o s = s
  | [], 0, _, _, _ => rfl
  | [], _ + 1, _, _, _ => rfl
  | c :: s, 0, _, hfuel, _ => absurd hfuel (Nat.not_succ_le_zero _)
  | c :: s, fuel + 1, o, hfuel, hroom => by
      rw [List.length_cons] at hfuel hroom
      have hraw : (!false || c != BACKSLASH) = true := rfl
      rw [copyLoop, if_pos (by omega), if_pos hraw, copyLoop_raw s (by omega) (by omega)]

/-- The copy of a value that fits. -/
theorem ValueToken.jsonCopyStr (h : ValueToken js t v) {outsz : Nat}
    (hlen : (valueText v).length < outsz) :
    JsonParse.jsonCopyStr js t outsz = valueDecode v := by
  have hraw : t.type ≠ .str → JsonParse.jsonCopyStr js t outsz = valueText v := by
    intro hne
    have hslice := h.spans.slice
    obtain ⟨pre, post, -, hstart, hend⟩ := h.spans
    have htype : (t.type == JsonType.str) = false := beq_eq_false_iff_ne.mpr hne
    rw [JsonParse.jsonCopyStr, if_neg, hslice, htype]
    · exact copyLoop_raw _ (Nat.le_refl _) (by omega)
    · rw [hstart, hend]
      omega
  cases v with
  | str s => exact h.spans.jsonCopyStr h.type hlen
  | prim p => exact hraw (by rw [h.type]; exact JsonType.noConfusion)
  | empty k w => exact hraw (by rw [h.type]; cases k <;> exact JsonType.noConfusion)
  | full k es => exact hraw (by rw [h.type]; cases k <;> exact JsonType.noConfusion)

/-- The token of an object is that of a value with members. -/
theorem objectMembers_of_token (h : ValueToken js t v) (hobj : t.type = .obj)
    (position index : Nat) : ∃ ms, objectMembers v position index = some ms := by
  have htype := h.type.symm.trans hobj
  cases v with
  | prim p => exact nomatch htype
  | str s => exact nomatch htype
  | empty k w =>
      cases k with
      | arr => exact nomatch htype
      | obj => exact ⟨_, rfl⟩
  | full k es =>
      cases k with
      | arr => exact nomatch htype
      | obj => exact ⟨_, rfl⟩

/-- The names of an object differ as C strings. -/
theorem members_distinct (h : v.EveryObject NamesOk)
    (hms : objectMembers v position index = some ms) :
    (ms.map fun m => cstr m.key.decode).Nodup := by
  match v with
  | .empty .obj w =>
      obtain rfl := Option.some.inj hms
      exact List.nodup_nil
  | .full .obj es =>
      obtain rfl := Option.some.inj hms
      have hdistinct := h.1.distinct
      rw [← members_keys es (position + 1) (index + 1), List.map_map] at hdistinct
      exact hdistinct

end Value

/-! ## The lookup -/

/-- The member whose name is `key`, byte for byte. -/
def named (ms : List Member) (key : Bytes) : Option Member :=
  ms.find? fun m => m.key.decode == key

/-- No name of the object holds a NUL behind `key`. -/
def NoHiddenName (ms : List Member) (key : Bytes) : Prop :=
  ∀ m ∈ ms, (0 : Byte) ∈ m.key.decode → cstr m.key.decode ≠ key

section Lookup

variable {ms : List Member} {key : Bytes}

theorem lookup_eq_named (hkey : (0 : Byte) ∉ key) (h : NoHiddenName ms key) :
    lookup ms key = named ms key := by
  refine List.find?_congr fun m hm => ?_
  by_cases hnul : (0 : Byte) ∈ m.key.decode
  · have hcut : (cstr m.key.decode == key) = false := beq_eq_false_iff_ne.mpr (h m hm hnul)
    have hfull : (m.key.decode == key) = false :=
      beq_eq_false_iff_ne.mpr fun heq => hkey (heq ▸ hnul)
    rw [hcut, hfull]
  · rw [cstr_eq_self hnul]

/-- A name with a NUL in it hides behind the key: the lookup returns its value,
    and the object has no member of the name. -/
theorem lookup_hidden (hkey : (0 : Byte) ∉ key)
    (hdistinct : (ms.map fun m => cstr m.key.decode).Nodup) {m : Member} (hm : m ∈ ms)
    (hnul : (0 : Byte) ∈ m.key.decode) (hcut : cstr m.key.decode = key) :
    lookup ms key = some m ∧ named ms key = none := by
  have hone : ∀ m' ∈ ms, cstr m'.key.decode = key → m' = m := fun m' hm' h =>
    List.inj_on_of_nodup_map hdistinct hm' hm (h.trans hcut.symm)
  constructor
  · cases hfind : lookup ms key with
    | none =>
        have hnone := List.find?_eq_none.mp hfind m hm
        exact absurd (beq_iff_eq.mpr hcut) hnone
    | some m' =>
        obtain ⟨hm', hname⟩ := lookup_some hfind
        rw [hone m' hm' hname]
  · refine List.find?_eq_none.mpr fun m' hm' h => ?_
    have hname : m'.key.decode = key := beq_iff_eq.mp h
    have hsame := hone m' hm' (by rw [hname]; exact cstr_eq_self hkey)
    rw [hsame] at hname
    exact hkey (hname ▸ hnul)

theorem lookup_exact_iff (hkey : (0 : Byte) ∉ key)
    (hdistinct : (ms.map fun m => cstr m.key.decode).Nodup) :
    (lookup ms key).map (·.index) = (named ms key).map (·.index) ↔ NoHiddenName ms key := by
  constructor
  · intro h m hm hnul hcut
    obtain ⟨hfound, hnone⟩ := lookup_hidden hkey hdistinct hm hnul hcut
    rw [hfound, hnone] at h
    exact nomatch h
  · intro h
    rw [lookup_eq_named hkey h]

end Lookup

/-! ## The fields of a reply -/

/-- What `fetch_json_text` makes of the member it looked for. -/
def textOf (intern : Bytes → Option Bytes) : Option Member → Bytes
  | none => []
  | some m =>
      if (valueText m.value).length ≥ FETCH_MAX_FIELD then []
      else (intern (cstr (valueDecode m.value))).getD []

/-- The number that `fetch_json_int` takes from a value. -/
def valueInt (fallback : Int) : Json .value → Int
  | .prim p =>
      match checkedLong p.render with
      | none => fallback
      | some value => if value < -2147483647 ∨ value > 2147483647 then fallback else value
  | _ => fallback

/-- What `fetch_json_int` makes of the member it looked for. -/
def intOf (fallback : Int) : Option Member → Int
  | none => fallback
  | some m => valueInt fallback m.value

section Field

variable {js key : Bytes} {toks : List JsonToken} {max : Nat}

/-- The readers parse the text again, and hold fewer tokens perhaps. -/
theorem parse_again (h : jsonParse js max = some toks) :
    jsonParse js JSON_MAX_TOKENS = if toks.length ≤ JSON_MAX_TOKENS then some toks else none := by
  obtain ⟨hsize, d, hd, rfl⟩ := jsonParse_iff.mp h
  have hlen : (Document.tokens d).length = d.value.tokenCount := Json.tokens_length _ _ _ _
  by_cases hfits : (Document.tokens d).length ≤ JSON_MAX_TOKENS
  · rw [if_pos hfits]
    exact jsonParse_iff.mpr ⟨hsize, d, ⟨hd.text, hlen ▸ hfits, hd.nesting, hd.names⟩, rfl⟩
  · rw [if_neg hfits]
    cases hsecond : jsonParse js JSON_MAX_TOKENS with
    | none => rfl
    | some toks' =>
        -- with room for both, the two arrays are one
        obtain ⟨-, d', hd', rfl⟩ := jsonParse_iff.mp hsecond
        have hlen' : (Document.tokens d').length = d'.value.tokenCount :=
          Json.tokens_length _ _ _ _
        have hcount := hd'.count
        have hall : ∀ {e : Document} {m : Nat}, Accepted js m e → m ≤ max + JSON_MAX_TOKENS →
            jsonParse js (max + JSON_MAX_TOKENS) = some (Document.tokens e) :=
          fun he hm => jsonParse_iff.mpr
            ⟨hsize, _, ⟨he.text, Nat.le_trans he.count hm, he.nesting, he.names⟩, rfl⟩
        have hsame := (hall hd (by omega)).symm.trans (hall hd' (by omega))
        rw [Option.some.inj hsame] at hfits
        exact absurd (by omega) hfits

theorem parse_nonempty (h : jsonParse js max = some toks) : js.length ≠ 0 ∧ toks.length ≠ 0 := by
  obtain ⟨-, d, hd, rfl⟩ := jsonParse_iff.mp h
  have hlen : (Document.tokens d).length = d.value.tokenCount := Json.tokens_length _ _ _ _
  have hpos := d.value.tokenCount_pos
  refine ⟨?_, by omega⟩
  obtain ⟨c, t, heq, -⟩ := Json.render_cons d.value
  rw [hd.text, Document.render, heq, List.length_append, List.length_append, List.length_cons]
  omega

/-- `fetch_json_text` reads the value that the lookup finds. -/
theorem fetchJsonText_eq (h : jsonParse js max = some toks) (intern : Bytes → Option Bytes)
    {found : Option Member} (hget : jsonObjectGet js toks 0 key = found.map (·.index))
    (htoken : ∀ m ∈ found, ∃ t, toks[m.index]? = some t ∧ ValueToken js t m.value) :
    fetchJsonText intern (some js) (some key)
      = if toks.length ≤ JSON_MAX_TOKENS then textOf intern found else [] := by
  obtain ⟨hne, htoks⟩ := parse_nonempty h
  rw [fetchJsonText, if_neg hne, parse_again h]
  by_cases hfits : toks.length ≤ JSON_MAX_TOKENS
  · rw [if_pos hfits, if_pos hfits]
    dsimp only
    rw [if_neg htoks, hget]
    cases found with
    | none => rfl
    | some m =>
        obtain ⟨t, ht, hvalue⟩ := htoken m rfl
        have hspan : t.end_ - t.start = (valueText m.value).length := by
          obtain ⟨pre, post, -, hstart, hend⟩ := hvalue.spans
          rw [hstart, hend]
          omega
        rw [Option.map_some]
        dsimp only
        rw [ht, textOf]
        dsimp only
        by_cases hlen : (valueText m.value).length ≥ FETCH_MAX_FIELD
        · rw [if_pos hlen, if_pos (by omega)]
        · rw [if_neg hlen, if_neg (by omega), hvalue.jsonCopyStr (Nat.lt_of_not_le hlen)]
  · rw [if_neg hfits, if_neg hfits]

/-- `fetch_json_int` reads the value that the lookup finds. -/
theorem fetchJsonInt_eq (h : jsonParse js max = some toks) (fallback : Int)
    {found : Option Member} (hget : jsonObjectGet js toks 0 key = found.map (·.index))
    (htoken : ∀ m ∈ found, ∃ t, toks[m.index]? = some t ∧ ValueToken js t m.value) :
    fetchJsonInt (some js) (some key) fallback
      = if toks.length ≤ JSON_MAX_TOKENS then intOf fallback found else fallback := by
  obtain ⟨hne, htoks⟩ := parse_nonempty h
  rw [fetchJsonInt, if_neg hne, parse_again h]
  by_cases hfits : toks.length ≤ JSON_MAX_TOKENS
  · rw [if_pos hfits, if_pos hfits]
    dsimp only
    rw [if_neg htoks, hget]
    cases found with
    | none => rfl
    | some m =>
        obtain ⟨t, ht, hvalue⟩ := htoken m rfl
        rw [Option.map_some, intOf]
        dsimp only
        rw [ht]
        dsimp only
        have hother : t.type ≠ .prim → jsonTokenLongChecked js t = none := by
          intro htype
          rw [jsonTokenLongChecked, tokenText_other htype]
        cases hv : m.value with
        | prim p =>
            rw [hv] at hvalue
            rw [jsonTokenLongChecked_prim hvalue.type hvalue.spans]
            rfl
        | str s => rw [hother (by rw [hvalue.type, hv]; exact JsonType.noConfusion)]; rfl
        | empty k w =>
            rw [hother (by rw [hvalue.type, hv]; cases k <;> exact JsonType.noConfusion)]
            rfl
        | full k es =>
            rw [hother (by rw [hvalue.type, hv]; cases k <;> exact JsonType.noConfusion)]
            rfl
  · rw [if_neg hfits, if_neg hfits]

end Field

/-! ## Objects of an accepted text -/

section Text

variable {js key : Bytes} {toks : List JsonToken} {max obj : Nat} {d : Document}
  {ms : List Member}

theorem document_places (hd : Accepted js max d) {p : Place}
    (hp : p ∈ places d.value d.before.bytes.length 0) :
    ∃ parent, Stands (Document.tokens d) js p.value p.valueAt p.index parent := by
  have hloc : Located (Document.tokens d) (d.value.tokens d.before.bytes.length 0 (-1)) 0 :=
    ⟨[], (List.append_nil _).symm, fun t ht => (nomatch ht)⟩
  exact places_stand d.value (by decide) hloc ⟨d.before.bytes, d.after.bytes, hd.text, rfl⟩
    hd.names p hp

/-- Every object token of the text is that of an object of the derivation. -/
theorem objectAt_of_token (hd : Accepted js max d) {t : JsonToken}
    (ht : (Document.tokens d)[obj]? = some t) (htype : t.type = .obj) :
    ∃ ms, ObjectAt d obj ms := by
  obtain ⟨p, hp, hindex⟩ := places_cover d.value ht
    (by rw [htype]; exact JsonType.noConfusion)
  rw [Nat.zero_add] at hindex
  obtain ⟨parent, hstands⟩ := document_places hd hp
  obtain ⟨t', ht', hvalue⟩ := valueToken_of_stands hstands
  rw [hindex, ht] at ht'
  obtain rfl := Option.some.inj ht'
  obtain ⟨ms, hms⟩ := objectMembers_of_token hvalue htype p.valueAt p.index
  exact ⟨ms, p, hp, hindex, hms⟩

/-- What is known of an object: where the values of its members are, that its
    names differ as C strings, and what the lookup finds. -/
theorem objectAt_spec (hd : Accepted js max d) (h : ObjectAt d obj ms) :
    (∀ m ∈ ms, ∃ t, (Document.tokens d)[m.index]? = some t ∧ ValueToken js t m.value)
      ∧ (ms.map fun m => cstr m.key.decode).Nodup
      ∧ ∀ name, jsonObjectGet js (Document.tokens d) obj name
          = (lookup ms name).map (·.index) := by
  obtain ⟨p, hp, rfl, hms⟩ := h
  obtain ⟨parent, hstands⟩ := document_places hd hp
  exact ⟨fun m hm => valueToken_of_stands (hstands.member hms hm),
    members_distinct hstands.names hms,
    jsonObjectGet_eq hstands.located hms (hstands.keysAt hms)⟩

/-- The readers answer `key` with the member of that name. -/
structure ExactAt (js : Bytes) (toks : List JsonToken) (obj : Nat) (ms : List Member)
    (key : Bytes) : Prop where
  get : jsonObjectGet js toks obj key = (named ms key).map (·.index)
  text : obj = 0 → ∀ intern, fetchJsonText intern (some js) (some key)
    = if toks.length ≤ JSON_MAX_TOKENS then textOf intern (named ms key) else []
  int : obj = 0 → ∀ fallback, fetchJsonInt (some js) (some key) fallback
    = if toks.length ≤ JSON_MAX_TOKENS then intOf fallback (named ms key) else fallback

/-- **The lookup is exact where no name hides behind the key**, and nowhere
    else. -/
theorem object_get_exact_iff (h : jsonParse js max = some toks) :
    ∃ d, Accepted js max d ∧ toks = Document.tokens d
      ∧ (∀ obj t, toks[obj]? = some t → t.type = .obj → ∃ ms, ObjectAt d obj ms)
      ∧ ∀ obj ms, ObjectAt d obj ms →
          (∀ m ∈ ms, ∃ t, toks[m.index]? = some t ∧ ValueToken js t m.value)
          ∧ ∀ key, (0 : Byte) ∉ key → key.length < JSON_MAX_KEY_BYTES →
              (ExactAt js toks obj ms key ↔ NoHiddenName ms key) := by
  obtain ⟨-, d, hd, rfl⟩ := jsonParse_iff.mp h
  refine ⟨d, hd, rfl, fun obj t => objectAt_of_token hd, fun obj ms hobj => ?_⟩
  obtain ⟨htoken, hdistinct, hget⟩ := objectAt_spec hd hobj
  refine ⟨htoken, fun key hkey _ => ⟨fun hexact => ?_, fun hnames => ?_⟩⟩
  · have heq := hexact.get
    rw [hget] at heq
    exact (lookup_exact_iff hkey hdistinct).mp heq
  · have heq : jsonObjectGet js (Document.tokens d) obj key = (named ms key).map (·.index) := by
      rw [hget]
      exact (lookup_exact_iff hkey hdistinct).mpr hnames
    have hfound : ∀ m ∈ named ms key,
        ∃ t, (Document.tokens d)[m.index]? = some t ∧ ValueToken js t m.value :=
      fun m hm => htoken m (List.mem_of_find?_eq_some hm)
    exact ⟨heq, fun hroot intern => fetchJsonText_eq h intern (hroot ▸ heq) hfound,
      fun hroot fallback => fetchJsonInt_eq h fallback (hroot ▸ heq) hfound⟩

end Text

/-! ## A name behind a NUL -/

theorem noSpace_isWs : ∀ c ∈ ([] : Bytes), IsWs c := List.forall_mem_nil _

theorem zero_isHex : (0x30 ≤ (0x30 : Byte) ∧ (0x30 : Byte) ≤ 0x39)
    ∨ (0x41 ≤ (0x30 : Byte) ∧ (0x30 : Byte) ≤ 0x46) ∨ (0x61 ≤ (0x30 : Byte) ∧ (0x30 : Byte) ≤ 0x66) :=
  Or.inl ⟨by decide, by decide⟩

theorem a_unescaped : 0x20 ≤ 'a'.toNat ∧ 'a'.toNat ≠ 0x22 ∧ 'a'.toNat ≠ 0x5C := by decide

theorem b_unescaped : 0x20 ≤ 'b'.toNat ∧ 'b'.toNat ≠ 0x22 ∧ 'b'.toNat ≠ 0x5C := by decide

def noSpace : Ws := ⟨[], noSpace_isWs⟩

def zeroDigit : HexDigit := ⟨0x30, zero_isHex⟩

/-- `a\u0000b`. -/
def hiddenKey : Str :=
  [.scalar 'a' a_unescaped,
    .unicode ⟨zeroDigit, zeroDigit, zeroDigit, zeroDigit⟩ (by decide) (by decide),
    .scalar 'b' b_unescaped]

/-- The number 1. -/
def one : Number where
  minus := false
  int := ⟨[0x31], List.cons_ne_nil _ _, by decide⟩
  noLeadingZero := by decide
  frac := none
  exp := none

/-- An object with one member, of the name `hiddenKey`. -/
def hidden : Document where
  before := noSpace
  value := .full .obj (.last .obj (.member noSpace hiddenKey noSpace noSpace) (.prim (.num one))
    noSpace)
  after := noSpace

def hiddenMember : Member := ⟨hiddenKey, 2, .prim (.num one), 12, 2⟩

theorem hidden_accepted : Accepted hidden.render 256 hidden :=
  ⟨rfl, by decide, by decide, ⟨by decide, by decide, by decide⟩, trivial⟩

theorem hidden_parse : jsonParse hidden.render 256 = some (Document.tokens hidden) :=
  jsonParse_iff.mpr ⟨by decide, hidden, hidden_accepted, rfl⟩

/-- The lookup of `a` finds the value of another name, and so do the readers. -/
theorem hidden_found :
    ObjectAt hidden 0 [hiddenMember] ∧ named [hiddenMember] (lit "a") = none
      ∧ jsonObjectGet hidden.render (Document.tokens hidden) 0 (lit "a") = some 2
      ∧ fetchJsonText some (some hidden.render) (some (lit "a")) = lit "1"
      ∧ fetchJsonInt (some hidden.render) (some (lit "a")) 7 = 1
      ∧ ¬ ExactAt hidden.render (Document.tokens hidden) 0 [hiddenMember] (lit "a") := by
  have hget : jsonObjectGet hidden.render (Document.tokens hidden) 0 (lit "a") = some 2 := by
    decide
  have hnone : named [hiddenMember] (lit "a") = none := by decide
  refine ⟨⟨_, List.mem_cons_self, rfl, rfl⟩, hnone, hget, by decide, by decide, fun hexact => ?_⟩
  have heq := hexact.get
  rw [hget, hnone] at heq
  exact nomatch heq

/-- The object of one member, asked for `a`. -/
theorem object_get_exact_hidden :
    ∃ d ms, ObjectAt d 0 ms
      ∧ (ExactAt hidden.render (Document.tokens hidden) 0 ms (lit "a")
          ↔ NoHiddenName ms (lit "a")) := by
  obtain ⟨d, -, -, hall, hexact⟩ := object_get_exact_iff hidden_parse
  obtain ⟨ms, hms⟩ := hall 0 _ rfl rfl
  exact ⟨d, ms, hms, (hexact 0 ms hms).2 (lit "a") (by decide) (by decide)⟩

end FetchJson
