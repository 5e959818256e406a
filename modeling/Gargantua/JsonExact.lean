import Gargantua.JsonUnique
import Mathlib.Data.List.Nodup

/-! # Exactly the language, up to names behind an encoded NUL

    The language asks that no object has two names that decode to the same
    bytes.  `duplicate_key` compares the decoded names as C strings, so it also
    refuses two names that differ only behind an encoded NUL.  A text has one
    derivation up to the proofs in it, so whether it is such a text does not
    depend on how it is derived. -/

namespace JsonExact

open CString JsonParse JsonGrammar JsonLexical JsonDecode JsonMachine JsonValue JsonUnique

/-! ## Names as they are written -/

/-- The names of an object as they are written. -/
abbrev texts (ks : List Str) : List Bytes := ks.map Str.render

theorem names_written {c : Cat} (t : Json c) : (Json.written t).names = texts t.keys := by
  induction t with
  | prim p => rfl
  | str s => rfl
  | empty k w => rfl
  | full k es ih => rfl
  | last k l v w ih => cases l <;> rfl
  | more k l v w es ihv ihes =>
      rw [Json.written, Tree.names, ihes, Json.keys, texts, texts, List.map_append]
      cases l <;> rfl

/-- What is said of the names of every object is said of them as they are
    written. -/
theorem everyObject_written {P : List Bytes → Prop} (hnone : P []) {c : Cat} (t : Json c) :
    t.EveryObject (fun ks => P (texts ks))
      ↔ (Json.written t).Every (fun _ => True) (fun _ => True) P := by
  induction t with
  | prim p => exact Iff.rfl
  | str s => exact Iff.rfl
  | empty k w => exact iff_of_true trivial ⟨hnone, trivial⟩
  | full k es ih => rw [Json.EveryObject, Json.written, Tree.Every, ih, names_written]
  | last k l v w ih => rw [Json.EveryObject, Json.written, Tree.Every, Tree.Every, ih, and_true]
  | more k l v w es ihv ihes => rw [Json.EveryObject, Json.written, Tree.Every, ihv, ihes]

/-! ## The language -/

/-- The limits on the names of one object, with names compared as byte strings. -/
structure NamesWithin (ks : List Str) : Prop where
  count : ks.length ≤ JSON_MAX_OBJECT_KEYS
  short : ∀ k ∈ ks, k.render.length < JSON_MAX_KEY_BYTES
  distinct : (ks.map Str.decode).Nodup

/-- `d` derives the text within the limits. -/
structure Derives (js : Bytes) (max : Nat) (d : Document) : Prop where
  text : js = d.render
  count : d.value.tokenCount ≤ max
  nesting : d.value.nesting ≤ JSON_MAX_DEPTH
  names : d.value.EveryObject NamesWithin

/-- The language of the tokenizer. -/
def InLanguage (js : Bytes) (max : Nat) : Prop := ∃ d, Derives js max d

/-- `json_parse` returns a positive count on the texts of the language and `-1`
    on the others. -/
def Exact (js : Bytes) (max : Nat) : Prop :=
  (InLanguage js max → ∃ toks, jsonParse js max = some toks ∧ 0 < toks.length)
    ∧ (¬ InLanguage js max → jsonParse js max = none)

/-- Two names of one object differ, and only behind an encoded NUL. -/
def Clash (ks : List Str) : Prop :=
  ∃ a ∈ ks, ∃ b ∈ ks, a.decode ≠ b.decode ∧ cstr a.decode = cstr b.decode

/-- The text is of the language, and no object of it has such names. -/
def Clashes (js : Bytes) (max : Nat) : Prop :=
  ∃ d, Derives js max d ∧ ¬ d.value.EveryObject fun ks => ¬ Clash ks

/-! ## Names -/

theorem namesOk_iff (ks : List Str) : NamesOk ks ↔ NamesWithin ks ∧ ¬ Clash ks := by
  constructor
  · intro h
    have hinj := List.inj_on_of_nodup_map h.distinct
    have hks := h.distinct.of_map
    refine ⟨⟨h.count, h.short, hks.map_on fun a ha b hb heq => ?_⟩, ?_⟩
    · exact hinj ha hb (congrArg cstr heq)
    · rintro ⟨a, ha, b, hb, hne, heq⟩
      exact hne (congrArg Str.decode (hinj ha hb heq))
  · rintro ⟨h, hclash⟩
    have hinj := List.inj_on_of_nodup_map h.distinct
    have hks := h.distinct.of_map
    refine ⟨h.count, h.short, hks.map_on fun a ha b hb heq => ?_⟩
    by_contra hne
    exact hclash ⟨a, ha, b, hb, fun hdec => hne (hinj ha hb hdec), heq⟩

theorem accepted_iff {js : Bytes} {max : Nat} {d : Document} :
    Accepted js max d ↔ Derives js max d ∧ d.value.EveryObject fun ks => ¬ Clash ks := by
  have hnames : d.value.EveryObject NamesOk
      ↔ d.value.EveryObject NamesWithin ∧ d.value.EveryObject fun ks => ¬ Clash ks := by
    rw [← Json.everyObject_and]
    exact ⟨Json.EveryObject.imp (fun ks => (namesOk_iff ks).mp) _,
      Json.EveryObject.imp (fun ks => (namesOk_iff ks).mpr) _⟩
  constructor
  · intro h
    obtain ⟨h1, h2⟩ := hnames.mp h.names
    exact ⟨⟨h.text, h.count, h.nesting, h1⟩, h2⟩
  · rintro ⟨h, h2⟩
    exact ⟨h.text, h.count, h.nesting, hnames.mpr ⟨h.names, h2⟩⟩

/-- What a name stands for is read off its text. -/
def decodeText (text : Bytes) : Bytes := copyLoop true (text.length + 1) text.length 0 text

theorem decodeText_render (s : Str) : decodeText s.render = s.decode :=
  copyLoop_complete _ s (Nat.le_refl _) (by omega)

/-- Whether names clash is read off their texts. -/
theorem clash_iff (ks : List Str) :
    Clash ks ↔ ∃ a ∈ texts ks, ∃ b ∈ texts ks, decodeText a ≠ decodeText b
      ∧ cstr (decodeText a) = cstr (decodeText b) := by
  constructor
  · rintro ⟨a, ha, b, hb, h⟩
    refine ⟨_, List.mem_map_of_mem ha, _, List.mem_map_of_mem hb, ?_⟩
    rw [decodeText_render, decodeText_render]
    exact h
  · rintro ⟨x, hx, y, hy, h⟩
    obtain ⟨a, ha, rfl⟩ := List.mem_map.mp hx
    obtain ⟨b, hb, rfl⟩ := List.mem_map.mp hy
    rw [decodeText_render, decodeText_render] at h
    exact ⟨a, ha, b, hb, h⟩

/-- Two names clash as they are written. -/
def Clashing (xs : List Bytes) : Prop :=
  ∃ a ∈ xs, ∃ b ∈ xs, decodeText a ≠ decodeText b ∧ cstr (decodeText a) = cstr (decodeText b)

/-- Either every derivation of a text has a clash or none has. -/
theorem clash_transfer {d d' : Document} (h : d.render = d'.render)
    (hd : d.value.EveryObject fun ks => ¬ Clash ks) :
    d'.value.EveryObject fun ks => ¬ Clash ks := by
  have hnone : ¬ Clashing [] := fun ⟨_, ha, _⟩ => nomatch ha
  have hiff : (fun ks => ¬ Clash ks) = fun ks => ¬ Clashing (texts ks) := by
    funext ks
    rw [clash_iff]
    rfl
  rw [hiff, everyObject_written (P := fun xs => ¬ Clashing xs) hnone] at hd
  rw [hiff, everyObject_written (P := fun xs => ¬ Clashing xs) hnone, ← document_written h]
  exact hd

theorem jsonParse_none_iff {js : Bytes} {max : Nat} (hlen : js.length ≤ INT_MAX) :
    jsonParse js max = none ↔ ¬ ∃ d, Accepted js max d := by
  constructor
  · rintro h ⟨d, hd⟩
    have hsome := jsonParse_iff.mpr ⟨hlen, d, hd, rfl⟩
    rw [h] at hsome
    exact nomatch hsome
  · intro h
    cases hp : jsonParse js max with
    | none => rfl
    | some toks =>
        obtain ⟨-, d, hd, -⟩ := jsonParse_iff.mp hp
        exact absurd ⟨d, hd⟩ h

/-- **`json_parse` accepts exactly its language on every text in which no object
    has two names that differ only behind an encoded NUL, and on no other
    text.** -/
theorem exact_iff (js : Bytes) (max : Nat) (hlen : js.length ≤ INT_MAX) :
    Exact js max ↔ ¬ Clashes js max := by
  constructor
  · rintro ⟨hin, -⟩ ⟨d, hd, hclash⟩
    obtain ⟨toks, hparse, -⟩ := hin ⟨d, hd⟩
    obtain ⟨-, d', hd', -⟩ := jsonParse_iff.mp hparse
    have hd'' := accepted_iff.mp hd'
    exact hclash (clash_transfer (hd'.text.symm.trans hd.text) hd''.2)
  · intro h
    refine ⟨?_, ?_⟩
    · rintro ⟨d, hd⟩
      have hclash : d.value.EveryObject fun ks => ¬ Clash ks := by
        by_contra hnot
        exact h ⟨d, hd, hnot⟩
      have haccepted := accepted_iff.mpr ⟨hd, hclash⟩
      refine ⟨_, jsonParse_iff.mpr ⟨hlen, d, haccepted, rfl⟩, ?_⟩
      rw [Document.tokens, Json.tokens_length]
      exact d.value.tokenCount_pos
    · intro hnot
      rw [jsonParse_none_iff hlen]
      rintro ⟨d, hd⟩
      exact hnot ⟨d, (accepted_iff.mp hd).1⟩

theorem exact_iff_short : Exact (lit "[1]") 2 ↔ ¬ Clashes (lit "[1]") 2 :=
  exact_iff (lit "[1]") 2 (by decide)

/-! ## Two names behind a NUL -/

/-- `\u0000a` and `\u0000b`: two names that are equal up to their NUL. -/
def twoNames : Bytes := lit "\x7b\"\\u0000a\":1,\"\\u0000b\":2\x7d"

/-- The `0` of `\u0000`. -/
def zeroDigit : HexDigit := ⟨0x30, by decide⟩

/-- A name that starts with an encoded NUL. -/
def nulName (c : Char) (h : 0x20 ≤ c.toNat ∧ c.toNat ≠ 0x22 ∧ c.toNat ≠ 0x5C) : Str :=
  [.unicode ⟨zeroDigit, zeroDigit, zeroDigit, zeroDigit⟩ (by decide) (by decide), .scalar c h]

def noWs : Ws := ⟨[], fun _ hc => nomatch hc⟩

/-- A number of one digit. -/
def digit (c : Byte) (h : IsDigit c) : Json .value :=
  .prim (.num {
    minus := false
    int := ⟨[c], List.cons_ne_nil c [], fun _ hd => List.mem_singleton.mp hd ▸ h⟩
    noLeadingZero := fun h => congrArg (fun d => [d]) (Option.some.inj h)
    frac := none
    exp := none })

/-- The derivation of `twoNames`. -/
def twoNamesDocument : Document where
  before := noWs
  value := .full .obj
    (.more .obj (.member noWs (nulName 'a' (by decide)) noWs noWs) (digit 0x31 (by decide)) noWs
      (.last .obj (.member noWs (nulName 'b' (by decide)) noWs noWs) (digit 0x32 (by decide))
        noWs))
  after := noWs

theorem twoNames_derives : Derives twoNames 256 twoNamesDocument where
  text := by decide +kernel
  count := by decide
  nesting := by decide
  names := by
    refine ⟨⟨by decide, ?_, ?_⟩, trivial, trivial⟩
    · intro k hk
      rcases List.mem_cons.mp hk with rfl | hk
      · decide
      · rw [List.mem_singleton.mp hk]
        decide
    · decide +kernel

/-- The text is in the language and is refused. -/
theorem twoNames_refused : twoNames.length ≤ INT_MAX ∧ ¬ Exact twoNames 256 := by
  refine ⟨by decide, ?_⟩
  have hnone : jsonParse twoNames 256 = none := by decide +kernel
  rintro ⟨hin, -⟩
  obtain ⟨toks, h, -⟩ := hin ⟨_, twoNames_derives⟩
  rw [hnone] at h
  exact nomatch h

end JsonExact
