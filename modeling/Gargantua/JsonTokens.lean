import Gargantua.JsonDecode

/-! # The tokens of a derivation

    `tokens` reads the token array off a derivation: one token for each
    container, name, string and primitive, in the order in which the tokenizer
    allocates them.  `position` is the offset of the derivation in the text,
    `index` the index its first token gets, and `parent` the index of the
    container around it. -/

namespace JsonGrammar

open CString JsonParse JsonDecode

def Kind.type : Kind → JsonType
  | .arr => .arr
  | .obj => .obj

/-- The token of the name, in an object. -/
def Label.tokens : {k : Kind} → Label k → Nat → Int → List JsonToken
  | _, .item _, _, _ => []
  | _, .member w key _ _, position, parent =>
      [{ type := .str
         start := position + (w.bytes.length + 1)
         end_ := (position + (w.bytes.length + 1) + key.render.length : Nat)
         parent := parent }]

/-- The tokens of a derivation. -/
def Json.tokens : {c : Cat} → Json c → Nat → Nat → Int → List JsonToken
  | _, .prim p, position, _, parent =>
      [{ type := .prim, start := position, end_ := (position + p.render.length : Nat)
         parent := parent }]
  | _, .str s, position, _, parent =>
      [{ type := .str, start := position + 1, end_ := (position + 1 + s.render.length : Nat)
         parent := parent }]
  | _, .empty k w, position, _, parent =>
      [{ type := k.type, start := position, end_ := (position + (w.bytes.length + 2) : Nat)
         parent := parent }]
  | _, .full k es, position, index, parent =>
      { type := k.type, start := position, end_ := (position + 1 + es.render.length : Nat)
        parent := parent } :: es.tokens (position + 1) (index + 1) index
  | _, .last _ l v _, position, index, parent =>
      l.tokens position parent
        ++ v.tokens (position + l.render.length) (index + l.keys.length) parent
  | _, .more _ l v w es, position, index, parent =>
      l.tokens position parent
        ++ (v.tokens (position + l.render.length) (index + l.keys.length) parent
          ++ es.tokens (position + l.render.length + v.render.length + w.bytes.length + 1)
              (index + l.keys.length + v.tokenCount) parent)

namespace Label

variable {k : Kind} (l : Label k)

theorem tokens_length (position : Nat) (parent : Int) :
    (l.tokens position parent).length = l.keys.length := by
  cases l with
  | item w => rfl
  | member w key w1 w2 => rfl

theorem parent_eq {position : Nat} {parent : Int} {t : JsonToken}
    (h : t ∈ l.tokens position parent) : t.parent = parent := by
  cases l with
  | item w => exact nomatch h
  | member w key w1 w2 =>
      rw [List.mem_singleton.mp h]

end Label

namespace Json

theorem tokens_length {c : Cat} (t : Json c) :
    ∀ (position index : Nat) (parent : Int),
      (t.tokens position index parent).length = t.tokenCount := by
  induction t with
  | prim p => exact fun _ _ _ => rfl
  | str s => exact fun _ _ _ => rfl
  | empty k w => exact fun _ _ _ => rfl
  | full k es ih =>
      intro position index parent
      rw [tokens, List.length_cons, ih]
      rfl
  | last k l v w ih =>
      intro position index parent
      rw [tokens, List.length_append, Label.tokens_length, ih]
      rfl
  | more k l v w es ihv ihes =>
      intro position index parent
      rw [tokens, List.length_append, List.length_append, Label.tokens_length, ihv, ihes,
        ← Nat.add_assoc]
      rfl

/-- Every token hangs at `parent` or at a token of the derivation. -/
theorem parent_cases {c : Cat} (t : Json c) :
    ∀ {position index : Nat} {parent : Int}, ∀ tok ∈ t.tokens position index parent,
      tok.parent = parent ∨ (index : Int) ≤ tok.parent := by
  induction t with
  | prim p =>
      intro position index parent tok h
      exact Or.inl (by rw [List.mem_singleton.mp h])
  | str s =>
      intro position index parent tok h
      exact Or.inl (by rw [List.mem_singleton.mp h])
  | empty k w =>
      intro position index parent tok h
      exact Or.inl (by rw [List.mem_singleton.mp h])
  | full k es ih =>
      intro position index parent tok h
      rcases List.mem_cons.mp h with rfl | h
      · exact Or.inl rfl
      · right
        rcases ih tok h with h | h <;> omega
  | last k l v w ih =>
      intro position index parent tok h
      rcases List.mem_append.mp h with h | h
      · exact Or.inl (l.parent_eq h)
      · rcases ih tok h with h | h
        · exact Or.inl h
        · exact Or.inr (by omega)
  | more k l v w es ihv ihes =>
      intro position index parent tok h
      rcases List.mem_append.mp h with h | h
      · exact Or.inl (l.parent_eq h)
      rcases List.mem_append.mp h with h | h
      · rcases ihv tok h with h | h
        · exact Or.inl h
        · exact Or.inr (by omega)
      · rcases ihes tok h with h | h
        · exact Or.inl h
        · exact Or.inr (by omega)

end Json

/-! ## The children of a container -/

/-- A child: its own token, and behind it tokens that hang elsewhere. -/
def Child (parent : Int) (toks : List JsonToken) : Prop :=
  ∃ (t : JsonToken) (inner : List JsonToken), toks = t :: inner ∧ t.parent = parent
    ∧ ∀ u ∈ inner, u.parent ≠ parent

/-- A value is one child of the container around it. -/
theorem Json.child (v : Json .value) {position index : Nat} {parent : Int}
    (h : parent < index) : Child parent (v.tokens position index parent) := by
  cases v with
  | prim p => exact ⟨_, [], rfl, rfl, fun u hu => (nomatch hu)⟩
  | str s => exact ⟨_, [], rfl, rfl, fun u hu => (nomatch hu)⟩
  | empty k w => exact ⟨_, [], rfl, rfl, fun u hu => (nomatch hu)⟩
  | full k es =>
      refine ⟨_, _, rfl, rfl, fun u hu => ?_⟩
      rcases es.parent_cases u hu with h' | h'
      · rw [h']
        omega
      · omega

/-- The tokens of the members of an object, with their names: a name and a value
    in turn. -/
inductive Members (js : Bytes) (parent : Int) : List Str → List JsonToken → Prop
  | nil : Members js parent [] []
  | cons {key : Str} {t : JsonToken} {vs : List JsonToken} {ks : List Str}
      {toks : List JsonToken} (htype : t.type = .str) (hparent : t.parent = parent)
      (hspans : Spans js t key.render) (hchild : Child parent vs)
      (hrest : Members js parent ks toks) : Members js parent (key :: ks) (t :: (vs ++ toks))

theorem Members.append {js : Bytes} {parent : Int} {ks ks' : List Str}
    {toks toks' : List JsonToken} (h : Members js parent ks toks)
    (h' : Members js parent ks' toks') : Members js parent (ks ++ ks') (toks ++ toks') := by
  induction h with
  | nil => exact h'
  | cons htype hparent hspans hchild _ ih =>
      rw [List.cons_append, List.cons_append, List.append_assoc]
      exact .cons htype hparent hspans hchild ih

/-! ## The duplicate test -/

section Duplicate

variable {js : Bytes} {parent : Int} {decoded : Bytes}

theorem duplicateLoop_skip {inner : List JsonToken} (h : ∀ u ∈ inner, u.parent ≠ parent)
    (direct : Nat) (toks : List JsonToken) :
    duplicateLoop js parent decoded direct (inner ++ toks)
      = duplicateLoop js parent decoded direct toks := by
  induction inner with
  | nil => rfl
  | cons u inner ih =>
      rw [List.cons_append, duplicateLoop, if_pos (h u List.mem_cons_self)]
      exact ih fun v hv => h v (List.mem_cons_of_mem u hv)

/-- A child at an odd place is a value and is passed over. -/
theorem duplicateLoop_child {vs : List JsonToken} (h : Child parent vs) {direct : Nat}
    (hodd : direct % 2 = 1) (toks : List JsonToken) :
    duplicateLoop js parent decoded direct (vs ++ toks)
      = duplicateLoop js parent decoded (direct + 1) toks := by
  obtain ⟨t, inner, rfl, hparent, hinner⟩ := h
  rw [List.cons_append, duplicateLoop, if_neg (fun h => h hparent),
    if_neg (fun h => by omega), duplicateLoop_skip hinner]

/-- **The test finds a name whose C string is that of the new name.** -/
theorem duplicateLoop_iff {ks : List Str} {toks : List JsonToken}
    (h : Members js parent ks toks) (hlen : ∀ k ∈ ks, k.render.length < JSON_MAX_KEY_BYTES) :
    ∀ {direct : Nat}, direct % 2 = 0 →
      (duplicateLoop js parent decoded direct toks = true ↔
        ∃ k ∈ ks, cstr k.decode = cstr decoded) := by
  induction h with
  | nil =>
      intro direct _
      exact ⟨fun h => (nomatch h), fun ⟨_, h, _⟩ => (nomatch h)⟩
  | @cons key t vs ks toks htype hparent hspans hchild _ ih =>
      intro direct heven
      have hkey : jsonCopyStr js t JSON_MAX_KEY_BYTES = key.decode :=
        hspans.jsonCopyStr htype (hlen key List.mem_cons_self)
      have hrest := @ih (fun k hk => hlen k (List.mem_cons_of_mem key hk)) (direct + 1 + 1)
        (by omega)
      rw [duplicateLoop, if_neg (fun h => h hparent), hkey]
      by_cases heq : cstr key.decode = cstr decoded
      · rw [if_pos ⟨heven, htype, heq⟩]
        exact ⟨fun _ => ⟨key, List.mem_cons_self, heq⟩, fun _ => rfl⟩
      · rw [if_neg (fun h => heq h.2.2), duplicateLoop_child hchild (by omega), hrest]
        constructor
        · rintro ⟨k, hk, hkeq⟩
          exact ⟨k, List.mem_cons_of_mem key hk, hkeq⟩
        · rintro ⟨k, hk, hkeq⟩
          rcases List.mem_cons.mp hk with rfl | hk
          · exact absurd hkeq heq
          · exact ⟨k, hk, hkeq⟩

end Duplicate

end JsonGrammar
