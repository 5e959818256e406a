import Gargantua.Lib.Preorder
import Gargantua.JsonLanguage

/-! # Token arrays are trees

    The derivation that `json_parse` found is an ordered tree: its nodes are
    the containers, names, strings and primitives, its order is that of the
    text (`forest`).  The tokens are its preorder listing
    (`tokens_forest`), and the nodes' extents, quotes and brackets included,
    nest (`forest_nested`), so what is known of listings holds of the token
    array. -/

namespace JsonTree

open CString JsonParse JsonGrammar JsonDecode JsonMachine Preorder
open Preorder.Forest (nil node)

/-! ## The tree of a derivation -/

/-- A token but for its parent. -/
structure Node where
  type : JsonType
  start : Nat
  stop : Nat

def Node.token (n : Node) (parent : Int) : JsonToken := ⟨n.type, n.start, n.stop, parent⟩

/-- Where a node begins and ends in the text, the quotes of a string included. -/
def Node.first (n : Node) : Nat := if n.type = .str then n.start - 1 else n.start

def Node.last (n : Node) : Nat := if n.type = .str then n.stop + 1 else n.stop

/-- The node of the name, in an object, in front of `rest`. -/
def labelForest : {k : Kind} → Label k → Nat → Forest Node → Forest Node
  | _, .item _, _, rest => rest
  | _, .member w key _ _, position, rest =>
      node ⟨.str, position + (w.bytes.length + 1),
        position + (w.bytes.length + 1) + key.render.length⟩ nil rest

/-- The nodes of a derivation at a position of the text, in front of `rest`. -/
def forest : {c : Cat} → Json c → Nat → Forest Node → Forest Node
  | _, .prim p, position, rest => node ⟨.prim, position, position + p.render.length⟩ nil rest
  | _, .str s, position, rest =>
      node ⟨.str, position + 1, position + 1 + s.render.length⟩ nil rest
  | _, .empty k w, position, rest =>
      node ⟨k.type, position, position + (w.bytes.length + 2)⟩ nil rest
  | _, .full k es, position, rest =>
      node ⟨k.type, position, position + 1 + es.render.length⟩ (forest es (position + 1) nil) rest
  | _, .last _ l v _, position, rest =>
      labelForest l position (forest v (position + l.render.length) rest)
  | _, .more _ l v w es, position, rest =>
      labelForest l position (forest v (position + l.render.length)
        (forest es (position + l.render.length + v.render.length + w.bytes.length + 1) rest))

/-- The tree of a text. -/
def tree (d : Document) : Forest Node := forest d.value d.before.bytes.length nil

/-- The tokens of a forest in preorder. -/
def tokensOf (F : Forest Node) (index : Nat) (parent : Int) : List JsonToken :=
  (F.listing index parent).map fun e => e.1.token e.2

/-! ## The listing -/

theorem tokensOf_label {k : Kind} (l : Label k) (position index : Nat) (parent : Int)
    (rest : Forest Node) :
    tokensOf (labelForest l position rest) index parent
      = l.tokens position parent ++ tokensOf rest (index + l.keys.length) parent := by
  cases l with
  | item w => rfl
  | member w key w1 w2 => rfl

/-- A value is one root. -/
theorem forest_value (v : Json .value) (position : Nat) (rest : Forest Node) :
    ∃ a cs, forest v position rest = node a cs rest := by
  cases v with
  | prim p => exact ⟨_, _, rfl⟩
  | str s => exact ⟨_, _, rfl⟩
  | empty k w => exact ⟨_, _, rfl⟩
  | full k es => exact ⟨_, _, rfl⟩

theorem tokensOf_forest {c : Cat} (t : Json c) :
    ∀ (position index : Nat) (parent : Int) (rest : Forest Node),
      tokensOf (forest t position rest) index parent
        = t.tokens position index parent ++ tokensOf rest (index + t.tokenCount) parent := by
  induction t with
  | prim p => exact fun _ _ _ _ => rfl
  | str s => exact fun _ _ _ _ => rfl
  | empty k w => exact fun _ _ _ _ => rfl
  | full k es ih =>
      intro position index parent rest
      have hsize : (forest es (position + 1) nil).size = es.tokenCount := by
        have h := congrArg List.length (ih (position + 1) (index + 1) index nil)
        rw [tokensOf, List.length_map, Forest.listing_length, List.length_append,
          Json.tokens_length] at h
        exact h
      rw [forest, tokensOf, Forest.listing, List.map_cons, List.map_append, ← tokensOf, ← tokensOf,
        ih, hsize, Json.tokens, List.cons_append, Json.tokenCount]
      have hnil : tokensOf nil (index + 1 + es.tokenCount) index = [] := rfl
      rw [hnil, List.append_nil, Nat.add_right_comm index 1, Nat.add_assoc index]
      rfl
  | last k l v w ih =>
      intro position index parent rest
      rw [forest, tokensOf_label, ih, Json.tokens, List.append_assoc, Nat.add_assoc]
      rfl
  | more k l v w es ihv ihes =>
      intro position index parent rest
      rw [forest, tokensOf_label, ihv, ihes, Json.tokens, List.append_assoc, List.append_assoc]
      have hcount : index + (Json.more k l v w es).tokenCount
          = index + l.keys.length + v.tokenCount + es.tokenCount := by
        rw [Json.tokenCount]
        omega
      rw [hcount]

/-! ## Extents -/

/-- A node of this type and span, where its extent is nested. -/
theorem nested_node {n : Node} {cs rest : Forest Node} {lo hi : Nat} (first last : Nat)
    (hfirst : n.first = first) (hlast : n.last = last) (hlo : lo ≤ first) (hlt : first < last)
    (hhi : last ≤ hi) (hcs : Nested Node.first Node.last (first + 1) last cs)
    (hrest : Nested Node.first Node.last last hi rest) :
    Nested Node.first Node.last lo hi (node n cs rest) := by
  subst hfirst hlast
  exact ⟨hlo, hlt, hhi, hcs, hrest⟩

theorem label_nested {k : Kind} (l : Label k) {position lo hi : Nat} {rest : Forest Node}
    (hlo : lo ≤ position) (hhi : position + l.render.length ≤ hi)
    (hrest : Nested Node.first Node.last (position + l.render.length) hi rest) :
    Nested Node.first Node.last lo hi (labelForest l position rest) := by
  cases l with
  | item w => exact hrest.mono (by omega) (Nat.le_refl _)
  | member w key w1 w2 =>
      have hlen : (Label.member w key w1 w2).render.length
          = w.bytes.length + (key.render.length + 2) + (w1.bytes.length + (w2.bytes.length + 1)) := by
        simp only [Label.render, Str.quoted, List.length_append, List.length_cons, List.length_nil]
        omega
      rw [hlen] at hhi hrest
      exact nested_node (position + w.bytes.length)
        (position + (w.bytes.length + 1) + key.render.length + 1) rfl rfl (by omega)
        (by omega) (by omega) trivial (hrest.mono (by omega) (Nat.le_refl _))

theorem Kind.type_ne_str (k : Kind) : k.type ≠ .str := by
  cases k with
  | arr => exact JsonType.noConfusion
  | obj => exact JsonType.noConfusion

/-- **The extents of the nodes nest**, between where a derivation begins and
    where it ends. -/
theorem forest_nested {c : Cat} (t : Json c) :
    ∀ {position lo hi : Nat} {rest : Forest Node}, lo ≤ position →
      position + t.render.length ≤ hi →
      Nested Node.first Node.last (position + t.render.length) hi rest →
      Nested Node.first Node.last lo hi (forest t position rest) := by
  induction t with
  | prim p =>
      intro position lo hi rest hlo hhi hrest
      obtain ⟨c, u, heq, -⟩ := Prim.render_cons p
      have hpos : 0 < p.render.length := by
        rw [heq, List.length_cons]
        omega
      exact nested_node position (position + p.render.length) rfl rfl hlo (by omega) hhi trivial hrest
  | str s =>
      intro position lo hi rest hlo hhi hrest
      have hlen : (Json.str s).render.length = s.render.length + 2 := by
        simp only [Json.render, Str.quoted, List.length_append, List.length_cons, List.length_nil]
      rw [hlen] at hhi hrest
      exact nested_node position (position + 1 + s.render.length + 1) rfl rfl
        hlo (by omega) (by omega) trivial (hrest.mono (by omega) (Nat.le_refl _))
  | empty k w =>
      intro position lo hi rest hlo hhi hrest
      have hlen : (Json.empty k w).render.length = w.bytes.length + 2 := by
        simp only [Json.render, List.length_append, List.length_cons, List.length_nil]
      rw [hlen] at hhi hrest
      exact nested_node position (position + (w.bytes.length + 2)) (if_neg (Kind.type_ne_str k))
        (if_neg (Kind.type_ne_str k)) hlo (by omega) hhi trivial hrest
  | full k es ih =>
      intro position lo hi rest hlo hhi hrest
      have hlen : (Json.full k es).render.length = es.render.length + 1 := rfl
      rw [hlen] at hhi hrest
      exact nested_node position (position + 1 + es.render.length) (if_neg (Kind.type_ne_str k))
        (if_neg (Kind.type_ne_str k)) hlo (by omega) (by omega)
        (ih (Nat.le_refl _) (Nat.le_refl _) trivial) (hrest.mono (by omega) (Nat.le_refl _))
  | last k l v w ih =>
      intro position lo hi rest hlo hhi hrest
      have hlen : (Json.last k l v w).render.length
          = l.render.length + (v.render.length + (w.bytes.length + 1)) := by
        simp only [Json.render, List.length_append, List.length_cons, List.length_nil]
      rw [hlen] at hhi hrest
      exact label_nested l hlo (by omega) (ih (Nat.le_refl _) (by omega)
        (hrest.mono (by omega) (Nat.le_refl _)))
  | more k l v w es ihv ihes =>
      intro position lo hi rest hlo hhi hrest
      have hlen : (Json.more k l v w es).render.length
          = l.render.length + (v.render.length + (w.bytes.length + (es.render.length + 1))) := by
        simp only [Json.render, List.length_append, List.length_cons]
      rw [hlen] at hhi hrest
      exact label_nested l hlo (by omega) (ihv (Nat.le_refl _) (by omega)
        (ihes (by omega) (by omega) (hrest.mono (by omega) (Nat.le_refl _))))

/-! ## Nodes and the text -/

/-- A name and a value in turn. -/
inductive Alternates : Forest Node → Prop
  | nil : Alternates nil
  | pair {key value : Node} {cs rest : Forest Node} (hkey : key.type = .str)
      (h : Alternates rest) : Alternates (node key nil (node value cs rest))

theorem elements_alternate : ∀ (es : Json (.elements .obj)) {position : Nat} {rest : Forest Node},
    Alternates rest → Alternates (forest es position rest)
  | .last _ (.member _ _ _ _) v _, position, rest, h => by
      rw [forest, labelForest]
      obtain ⟨a, cs, heq⟩ := forest_value v (position + _) rest
      rw [heq]
      exact .pair rfl h
  | .more _ (.member _ _ _ _) v _ es, position, rest, h => by
      rw [forest, labelForest]
      obtain ⟨a, cs, heq⟩ := forest_value v (position + _) (forest es _ rest)
      rw [heq]
      exact .pair rfl (elements_alternate es h)

/-- The container that a value is. -/
def containerOf : Json .value → Option Kind
  | .prim _ => none
  | .str _ => none
  | .empty k _ => some k
  | .full k _ => some k

/-- The text from `start` to `stop`. -/
def Covers (js : Bytes) (start stop : Nat) (text : Bytes) : Prop :=
  ∃ pre post : Bytes, js = pre ++ (text ++ post) ∧ pre.length = start
    ∧ start + text.length = stop

/-- A container runs from its opening to just past its closing bracket. -/
def Bracketed (js : Bytes) (k : Kind) (start stop : Nat) : Prop :=
  ∃ (v : Json .value) (body : Bytes), containerOf v = some k ∧ Covers js start stop v.render
    ∧ v.render = k.opening :: (body ++ [k.closing])

/-- What the span of a token covers: a literal, what stands between the quotes of
    a string, a container with its brackets. -/
def Spelled (js : Bytes) (type : JsonType) (start stop : Nat) : Prop :=
  match type with
  | .prim => ∃ p : Prim, Covers js start stop p.render
  | .str => ∃ s : Str, 1 ≤ start ∧ start ≤ stop ∧ Covers js start stop s.render
      ∧ Covers js (start - 1) (stop + 1) s.quoted
  | .arr => Bracketed js .arr start stop
  | .obj => Bracketed js .obj start stop
  | .undef => False

/-- What is true of every node: it is spelled in the text, only a container has
    children, and those of an object alternate. -/
structure Sound (js : Bytes) (n : Node) (cs : Forest Node) : Prop where
  spelled : Spelled js n.type n.start n.stop
  container : cs ≠ nil → n.type = .arr ∨ n.type = .obj
  alternates : n.type = .obj → Alternates cs

theorem str_spelled {js : Bytes} {s : Str} {pre post : Bytes} (hjs : js = pre ++ (s.quoted ++ post))
    {start stop : Nat} (hstart : start = pre.length + 1) (hstop : stop = start + s.render.length) :
    Spelled js .str start stop := by
  subst hstart hstop
  refine ⟨s, by omega, by omega, ⟨pre ++ [QUOTE], QUOTE :: post, ?_, by simp, rfl⟩,
    pre, post, hjs, by omega, ?_⟩
  · rw [hjs, Str.quoted]
    simp only [List.append_assoc, List.cons_append, List.nil_append]
  · simp only [Str.quoted, List.length_append, List.length_cons, List.length_nil]
    omega

theorem elements_close {k : Kind} : ∀ es : Json (.elements k),
    ∃ body, es.render = body ++ [k.closing]
  | .last _ l v w => ⟨l.render ++ (v.render ++ w.bytes), by
      simp only [Json.render, List.append_assoc]⟩
  | .more _ l v w es => by
      obtain ⟨body, h⟩ := elements_close es
      refine ⟨l.render ++ (v.render ++ (w.bytes ++ 0x2C :: body)), ?_⟩
      simp only [Json.render, h, List.append_assoc, List.cons_append]

theorem container_spelled {js : Bytes} {v : Json .value} {k : Kind} (hk : containerOf v = some k)
    {pre post : Bytes} (hjs : js = pre ++ (v.render ++ post)) {start stop : Nat}
    (hstart : start = pre.length) (hstop : stop = start + v.render.length) :
    Spelled js k.type start stop := by
  have hbrackets : ∃ body, v.render = k.opening :: (body ++ [k.closing]) := by
    cases v with
    | prim p => exact nomatch hk
    | str s => exact nomatch hk
    | empty k' w =>
        obtain rfl := Option.some.inj hk
        exact ⟨w.bytes, rfl⟩
    | full k' es =>
        obtain rfl := Option.some.inj hk
        obtain ⟨body, h⟩ := elements_close es
        exact ⟨body, by rw [Json.render, h]⟩
  obtain ⟨body, hbody⟩ := hbrackets
  have h : Bracketed js k start stop :=
    ⟨v, body, hk, ⟨pre, post, hjs, hstart.symm, hstop.symm⟩, hbody⟩
  cases k with
  | arr => exact h
  | obj => exact h

theorem Kind.type_container (k : Kind) : k.type = .arr ∨ k.type = .obj := by
  cases k with
  | arr => exact .inl rfl
  | obj => exact .inr rfl

/-- **Every node is sound.** -/
theorem forest_sound {js : Bytes} {c : Cat} (t : Json c) :
    ∀ {pre post : Bytes} {rest : Forest Node}, js = pre ++ (t.render ++ post) →
      rest.Everywhere (Sound js) → (forest t pre.length rest).Everywhere (Sound js) := by
  have hleaf : (nil : Forest Node).Everywhere (Sound js) := trivial
  have hlabel : ∀ {k : Kind} (l : Label k) {pre post : Bytes} {rest : Forest Node},
      js = pre ++ (l.render ++ post) → rest.Everywhere (Sound js) →
        (labelForest l pre.length rest).Everywhere (Sound js) := by
    intro k l pre post rest hjs hrest
    cases l with
    | item w => exact hrest
    | member w key w1 w2 =>
        refine ⟨⟨?_, fun h => absurd rfl h, fun h => by cases h⟩, hleaf, hrest⟩
        refine @str_spelled js key (pre ++ w.bytes) (w1.bytes ++ 0x3A :: (w2.bytes ++ post)) ?_
          _ _ ?_ rfl
        · rw [hjs, Label.render]
          simp only [List.append_assoc, List.cons_append]
        · rw [List.length_append]
          dsimp only
          omega
  induction t with
  | prim p =>
      intro pre post rest hjs hrest
      exact ⟨⟨⟨p, pre, post, hjs, rfl, rfl⟩, fun h => absurd rfl h, fun h => by cases h⟩, hleaf, hrest⟩
  | str s =>
      intro pre post rest hjs hrest
      exact ⟨⟨str_spelled hjs rfl rfl, fun h => absurd rfl h, fun h => by cases h⟩, hleaf, hrest⟩
  | empty k w =>
      intro pre post rest hjs hrest
      refine ⟨⟨@container_spelled js (.empty k w) k rfl _ _ hjs _ _ rfl ?_, fun h => absurd rfl h,
        fun _ => .nil⟩, hleaf, hrest⟩
      simp only [Json.render, List.length_append, List.length_cons, List.length_nil]
  | full k es ih =>
      intro pre post rest hjs hrest
      have hinner := @ih (pre ++ [k.opening]) post nil
        (by rw [hjs, List.append_assoc]; rfl) hleaf
      rw [List.length_append, List.length_singleton] at hinner
      refine ⟨⟨@container_spelled js (.full k es) k rfl _ _ hjs _ _ rfl ?_, fun _ => Kind.type_container k,
        fun h => ?_⟩, hinner, hrest⟩
      · rw [Json.render, List.length_cons]
        dsimp only
        omega
      · cases k with
        | arr => cases h
        | obj => exact elements_alternate es .nil
  | last k l v w ih =>
      intro pre post rest hjs hrest
      have hvalue := @ih (pre ++ l.render) (w.bytes ++ [k.closing] ++ post) rest
        (by rw [hjs, Json.render]; simp only [List.append_assoc]) hrest
      rw [List.length_append] at hvalue
      exact hlabel l (by rw [hjs, Json.render, List.append_assoc]) hvalue
  | more k l v w es ihv ihes =>
      intro pre post rest hjs hrest
      have hes := @ihes (pre ++ (l.render ++ (v.render ++ (w.bytes ++ [0x2C])))) post rest
        (by rw [hjs, Json.render]; simp only [List.append_assoc, List.cons_append, List.nil_append])
        hrest
      have hlen : (pre ++ (l.render ++ (v.render ++ (w.bytes ++ [0x2C])))).length
          = pre.length + l.render.length + v.render.length + w.bytes.length + 1 := by
        simp only [List.length_append, List.length_cons, List.length_nil]
        omega
      rw [hlen] at hes
      have hvalue := @ihv (pre ++ l.render) (w.bytes ++ 0x2C :: es.render ++ post) _
        (by rw [hjs, Json.render]; simp only [List.append_assoc]) hes
      rw [List.length_append] at hvalue
      exact hlabel l (by rw [hjs, Json.render, List.append_assoc]) hvalue

/-! ## Entries and tokens -/

/-- The entry of a token. -/
theorem exists_token {F : Forest Node} {i : Nat} {t : JsonToken}
    (h : (tokensOf F 0 (-1))[i]? = some t) :
    ∃ n q cs, Entry F 0 (-1) i n q cs ∧ t = n.token q := by
  rw [tokensOf, List.getElem?_map] at h
  obtain ⟨⟨n, q⟩, hn, rfl⟩ := Option.map_eq_some_iff.mp h
  obtain ⟨cs, hentry⟩ := exists_entry hn
  rw [Nat.zero_add] at hentry
  exact ⟨n, q, cs, hentry, rfl⟩

theorem entry_token {F : Forest Node} {i : Nat} {n : Node} {q : Int} {cs : Forest Node}
    (h : Entry F 0 (-1) i n q cs) : (tokensOf F 0 (-1))[i]? = some (n.token q) := by
  have hl := h.listed
  rw [Nat.sub_zero] at hl
  rw [tokensOf, List.getElem?_map, hl]
  rfl

/-- In a tree, the root alone has no parent. -/
theorem parent_of_tree {a n : Node} {cs ds : Forest Node} {i : Nat} {q : Int}
    (h : Entry (node a cs nil) 0 (-1) i n q ds) (hi : 0 < i) : q ≠ -1 := by
  cases h with
  | here => exact absurd hi (Nat.lt_irrefl 0)
  | inside h =>
      rcases h.parent_cases with rfl | ⟨m, c, q', es, rfl, -⟩
      · decide
      · omega
  | after h => exact nomatch h

/-- The span of a sound node stands in its extent; a string leaves room for its
    quotes. -/
theorem Sound.extent {js : Bytes} {n : Node} {cs : Forest Node} (h : Sound js n cs)
    (hlt : n.first < n.last) :
    n.first ≤ n.start ∧ n.start ≤ n.stop ∧ n.stop ≤ n.last
      ∧ (n.first = n.start → n.start < n.stop) ∧ (n.stop = n.last → n.start < n.stop) := by
  rw [Node.first, Node.last] at hlt ⊢
  by_cases hstr : n.type = .str
  · have hs := h.spelled
    rw [hstr] at hs
    obtain ⟨s, h1, h2, -⟩ := hs
    rw [if_pos hstr] at hlt ⊢
    rw [if_pos hstr] at hlt ⊢
    omega
  · rw [if_neg hstr] at hlt ⊢
    rw [if_neg hstr] at hlt ⊢
    omega

/-- A container reaches as far as its brackets. -/
theorem extent_container {n : Node} (h : n.type = .arr ∨ n.type = .obj) :
    n.first = n.start ∧ n.last = n.stop := by
  have hstr : n.type ≠ .str := by
    rcases h with h | h
    · rw [h]
      exact JsonType.noConfusion
    · rw [h]
      exact JsonType.noConfusion
  exact ⟨if_neg hstr, if_neg hstr⟩

/-! ## The claim -/

def Container (t : JsonToken) : Prop := t.type = .arr ∨ t.type = .obj

/-- The span of `t` stands in that of `u`. -/
def Encloses (u t : JsonToken) : Prop := u.start ≤ t.start ∧ t.end_ ≤ u.end_

/-- The indices of a name and, right behind it, of its value, in turn. -/
inductive Pairs (toks : List JsonToken) : List Nat → Prop
  | nil : Pairs toks []
  | cons {key : Nat} {t : JsonToken} {rest : List Nat} (hkey : toks[key]? = some t)
      (hstr : t.type = .str) (h : Pairs toks rest) : Pairs toks (key :: (key + 1) :: rest)

/-- The token array is the tree of the text. -/
structure Faithful (js : Bytes) (toks : List JsonToken) : Prop where
  preorder : ∃ d : Document, js = d.render ∧ toks = tokensOf (tree d) 0 (-1)
  root : ∃ t, toks[0]? = some t ∧ t.parent = -1
  parent : ∀ (i : Nat) (t : JsonToken), toks[i]? = some t → 0 < i →
    ∃ (p : Nat) (u : JsonToken), t.parent = p ∧ p < i ∧ toks[p]? = some u ∧ Container u
      ∧ Encloses u t ∧ ∀ (k : Nat) (c : JsonToken), toks[k]? = some c → k ≠ i → Container c →
        Encloses c t → Encloses c u
  siblings : ∀ (i j : Nat) (t u : JsonToken), i < j → toks[i]? = some t → toks[j]? = some u →
    t.parent = u.parent → t.end_ ≤ u.start
  spelled : ∀ t ∈ toks, ∃ stop : Nat, t.end_ = stop ∧ Spelled js t.type t.start stop
  members : ∀ (j : Nat) (t : JsonToken), toks[j]? = some t → t.type = .obj →
    Pairs toks (childrenFrom (toks.map (·.parent)) 0 j)

theorem pairs_roots {toks : List JsonToken} {ds : Forest Node} (h : Alternates ds) :
    ∀ {index : Nat} {parent : Int},
      (∀ k n q cs, Entry ds index parent k n q cs → toks[k]? = some (n.token q)) →
      Pairs toks (ds.roots index) := by
  induction h with
  | nil => exact fun _ => .nil
  | @pair key value cs rest hkey _ ih =>
      intro index parent hget
      have hrest := ih fun k n q es he => hget k n q es (.after (.after he))
      exact .cons (hget index key parent nil .here) hkey hrest

/-- The listing of a tree whose nodes are sound and nested. -/
theorem faithful_of {js : Bytes} {d : Document} (hjs : js = d.render) {a : Node}
    {cs : Forest Node} (htree : tree d = node a cs nil)
    (hnested : Nested Node.first Node.last 0 js.length (tree d))
    (hsound : (tree d).Everywhere (Sound js)) : Faithful js (tokensOf (tree d) 0 (-1)) := by
  have hroot : (-1 : Int) < (0 : Nat) := by decide
  have hextent : ∀ {i n q ds}, Entry (tree d) 0 (-1) i n q ds →
      n.first ≤ n.start ∧ n.start ≤ n.stop ∧ n.stop ≤ n.last
        ∧ (n.first = n.start → n.start < n.stop) ∧ (n.stop = n.last → n.start < n.stop) :=
    fun h => (h.everywhere hsound).extent (h.within hnested).2.1
  refine ⟨⟨d, hjs, rfl⟩, ⟨a.token (-1), ?_, rfl⟩, ?_, ?_, ?_, ?_⟩
  · rw [htree]
    exact entry_token .here
  · intro i t ht hi
    obtain ⟨n, q, ds, hn, rfl⟩ := exists_token ht
    have htop : q ≠ -1 := parent_of_tree (htree ▸ hn) hi
    obtain ⟨p, u, qu, es, rfl, hu, hlt, hne, hfirst, hlast⟩ := hn.parent_around hnested hroot htop
    have hcontainer := (hu.everywhere hsound).container hne
    obtain ⟨hu1, hu2⟩ := extent_container hcontainer
    have hextn := hextent hn
    refine ⟨p, u.token qu, rfl, hlt, entry_token hu, hcontainer, ⟨?_, ?_⟩, ?_⟩
    · show u.start ≤ n.start
      omega
    · show (n.stop : Int) ≤ u.stop
      omega
    · intro k c hc hki hcc henc
      obtain ⟨c, qc, fs, hentry, rfl⟩ := exists_token hc
      obtain ⟨hc1, hc2⟩ := extent_container hcc
      have hstart : c.start ≤ n.start := henc.1
      have hstop : n.stop ≤ c.stop := Int.ofNat_le.mp henc.2
      change c.start ≤ u.start ∧ (u.stop : Int) ≤ c.stop
      rcases Nat.lt_or_gt_of_ne hki with hlt | hlt
      · rcases Entry.laminar hnested hroot hentry hn hlt with
          hapart | ⟨-, -, -, m, c', q', es', hm, -, hm', hf, hl⟩
        · omega
        · obtain rfl := Int.ofNat_inj.mp hm
          obtain ⟨rfl, -, -⟩ := hm'.unique hu
          omega
      · rcases Entry.laminar hnested hroot hn hentry hlt with hapart | ⟨hne', hf, -, -⟩
        · omega
        · -- what stands around its own descendant is a container
          obtain ⟨hn1, -⟩ := extent_container ((hn.everywhere hsound).container hne')
          omega
  · intro i j t u hij ht hu hparent
    obtain ⟨n, q, ds, hn, rfl⟩ := exists_token ht
    obtain ⟨m, r, es, hm, rfl⟩ := exists_token hu
    obtain rfl : q = r := hparent
    have h := Entry.siblings hnested hroot hn hm hij
    have hextn := hextent hn
    have hextm := hextent hm
    show (n.stop : Int) ≤ m.start
    omega
  · intro t ht
    obtain ⟨i, hi⟩ := List.mem_iff_getElem?.mp ht
    obtain ⟨n, q, ds, hn, rfl⟩ := exists_token hi
    exact ⟨n.stop, rfl, (hn.everywhere hsound).spelled⟩
  · intro j t ht hobj
    obtain ⟨n, q, ds, hn, rfl⟩ := exists_token ht
    have hmap : (tokensOf (tree d) 0 (-1)).map (·.parent) = parents (tree d) 0 (-1) := by
      rw [tokensOf, List.map_map, parents]
      rfl
    rw [hmap, hn.children hroot]
    exact pairs_roots ((hn.everywhere hsound).alternates hobj) fun k m r es he =>
      entry_token (hn.trans he)

/-- The tree of a text has one root, its extents nest, its nodes are sound, and
    the tokens are its listing. -/
theorem tree_spec {js : Bytes} {d : Document} (h : js = d.render) :
    (∃ a cs, tree d = node a cs nil) ∧ Nested Node.first Node.last 0 js.length (tree d)
      ∧ (tree d).Everywhere (Sound js) ∧ Document.tokens d = tokensOf (tree d) 0 (-1) := by
  have hrender : js = d.before.bytes ++ (d.value.render ++ d.after.bytes) := h
  refine ⟨forest_value d.value d.before.bytes.length nil,
    forest_nested _ (Nat.zero_le _) ?_ trivial, forest_sound _ hrender trivial, ?_⟩
  · rw [hrender, List.length_append, List.length_append]
    omega
  · rw [tree, tokensOf_forest]
    exact (List.append_nil _).symm

/-- **Token arrays are faithful trees.** -/
theorem jsonParse_faithful {js : Bytes} {max : Nat} {toks : List JsonToken}
    (h : jsonParse js max = some toks) : Faithful js toks := by
  obtain ⟨-, d, hd, rfl⟩ := jsonParse_iff.mp h
  obtain ⟨⟨a, cs, htree⟩, hnested, hsound, htokens⟩ := tree_spec hd.text
  rw [htokens]
  exact faithful_of hd.text htree hnested hsound

/-- An object with an array in it. -/
theorem jsonParse_faithful_object :
    Faithful (lit " \x7b\"a\": [1, \"\"]\x7d") [⟨.obj, 1, 15, -1⟩, ⟨.str, 3, 4, 0⟩,
      ⟨.arr, 7, 14, 0⟩, ⟨.prim, 8, 9, 2⟩, ⟨.str, 12, 12, 2⟩] :=
  @jsonParse_faithful _ 8 _ (by decide +kernel)

end JsonTree
