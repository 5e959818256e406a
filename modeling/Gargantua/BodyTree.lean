import Gargantua.RuntimeBody

/-! # The members of an object, in the text and among the tokens

    An object of the derivation is a list of members, each with the place of its
    name and its value in the text and the index of its value among the tokens.
    The tokenizer's view and the text agree with that list as long as the names
    are intact, which decoding a value where it stands does not change. -/

namespace BodyTree

open CString JsonParse JsonGrammar JsonDecode JsonMachine JsonAccess RuntimeTypes RuntimeError
  RuntimeObject RuntimeBody

/-! ## Places in the text -/

/-- `text` stands in `js` at `position`. -/
def TextAt (js : Bytes) (position : Nat) (text : Bytes) : Prop :=
  ∃ pre post : Bytes, js = pre ++ (text ++ post) ∧ pre.length = position

theorem TextAt.left {js : Bytes} {position : Nat} {a b : Bytes} (h : TextAt js position (a ++ b)) :
    TextAt js position a := by
  obtain ⟨pre, post, hjs, hpre⟩ := h
  exact ⟨pre, b ++ post, by rw [hjs, List.append_assoc], hpre⟩

theorem TextAt.right {js : Bytes} {position : Nat} {a b : Bytes}
    (h : TextAt js position (a ++ b)) : TextAt js (position + a.length) b := by
  obtain ⟨pre, post, hjs, hpre⟩ := h
  exact ⟨pre ++ a, post, by rw [hjs]; simp only [List.append_assoc], by
    rw [List.length_append, hpre]⟩

theorem TextAt.tail {js : Bytes} {position : Nat} {c : Byte} {b : Bytes}
    (h : TextAt js position (c :: b)) : TextAt js (position + 1) b :=
  TextAt.right (a := [c]) h

theorem TextAt.length_le {js : Bytes} {position : Nat} {text : Bytes}
    (h : TextAt js position text) : position + text.length ≤ js.length := by
  obtain ⟨pre, post, hjs, rfl⟩ := h
  rw [hjs, List.length_append, List.length_append]
  omega

theorem TextAt.spans {js : Bytes} {position : Nat} {text : Bytes} (h : TextAt js position text)
    {t : JsonToken} (hstart : t.start = position) (hend : t.end_ = (position + text.length : Nat)) :
    Spans js t text := by
  obtain ⟨pre, post, hjs, hpre⟩ := h
  exact ⟨pre, post, hjs, by rw [hstart, hpre], by rw [hend, hpre]⟩

/-- The texts differ at most from `lo` up to `hi`. -/
def SameOutside (js js' : Bytes) (lo hi : Nat) : Prop :=
  js'.length = js.length ∧ ∀ i, i < lo ∨ hi ≤ i → js'[i]? = js[i]?

theorem SameOutside.refl (js : Bytes) (lo hi : Nat) : SameOutside js js lo hi :=
  ⟨rfl, fun _ _ => rfl⟩

theorem SameOutside.trans {js js' js'' : Bytes} {lo hi : Nat} (h : SameOutside js js' lo hi)
    (h' : SameOutside js' js'' lo hi) : SameOutside js js'' lo hi :=
  ⟨h'.1.trans h.1, fun i hi => (h'.2 i hi).trans (h.2 i hi)⟩

theorem SameOutside.mono {js js' : Bytes} {lo hi lo' hi' : Nat} (h : SameOutside js js' lo hi)
    (hlo : lo' ≤ lo) (hhi : hi ≤ hi') : SameOutside js js' lo' hi' :=
  ⟨h.1, fun i hi => h.2 i (by omega)⟩

/-- A text is still there when none of its bytes changed. -/
theorem TextAt.of_agree {js js' : Bytes} {position : Nat} {text : Bytes}
    (h : TextAt js position text) (hlen : js'.length = js.length)
    (hget : ∀ k, position ≤ k → k < position + text.length → js'[k]? = js[k]?) :
    TextAt js' position text := by
  obtain ⟨pre, post, hjs, hpre⟩ := h
  have hjslen : js.length = position + text.length + post.length := by
    rw [hjs, List.length_append, List.length_append, hpre]
    omega
  have htext : (js'.drop position).take text.length = text := by
    refine List.ext_getElem? fun i => ?_
    by_cases hi : i < text.length
    · rw [List.getElem?_take_of_lt hi, List.getElem?_drop,
        hget (position + i) (Nat.le_add_right _ _) (by omega), hjs,
        List.getElem?_append_right (by omega), List.getElem?_append_left (by omega)]
      congr 1
      omega
    · rw [List.getElem?_eq_none (by rw [List.length_take]; omega),
        List.getElem?_eq_none (Nat.not_lt.mp hi)]
  refine ⟨js'.take position, (js'.drop position).drop text.length, ?_, ?_⟩
  · rw [← htext, List.length_take, List.length_drop]
    have hmin : min text.length (js'.length - position) = text.length := by omega
    rw [hmin, List.take_append_drop, List.take_append_drop]
  · rw [List.length_take]
    omega

/-- A text outside the range is still there. -/
theorem TextAt.of_sameOutside {js js' : Bytes} {position lo hi : Nat} {text : Bytes}
    (h : TextAt js position text) (hsame : SameOutside js js' lo hi)
    (hapart : position + text.length ≤ lo ∨ hi ≤ position) : TextAt js' position text :=
  h.of_agree hsame.1 fun k hlo hhi => hsame.2 k (by omega)

theorem overwrite_sameOutside (js : Bytes) {start : Nat} {bytes : Bytes}
    (h : start + bytes.length ≤ js.length) :
    SameOutside js (overwrite js start bytes) start (start + bytes.length) := by
  have hlen : (js.take start).length = start := by
    rw [List.length_take]
    omega
  refine ⟨?_, fun i hi => ?_⟩
  · rw [overwrite, List.length_append, List.length_append, hlen, List.length_drop]
    omega
  · rw [overwrite]
    rcases hi with hi | hi
    · rw [List.getElem?_append_left (by omega), List.getElem?_take_of_lt hi]
    · rw [List.getElem?_append_right (by omega), hlen, List.getElem?_append_right (by omega),
        List.getElem?_drop]
      congr 1
      omega

theorem overwrite_textAt (js : Bytes) {start : Nat} {bytes : Bytes} (h : start ≤ js.length) :
    TextAt (overwrite js start bytes) start bytes :=
  ⟨js.take start, js.drop (start + bytes.length), rfl, by
    rw [List.length_take]
    omega⟩

/-- The text that a pointer into the body points to. -/
theorem cstr_textAt {js text : Bytes} {position : Nat} (h : TextAt js position (text ++ [0]))
    (hnul : (0 : Byte) ∉ text) : cstr (js.drop position) = text := by
  obtain ⟨pre, post, hjs, rfl⟩ := h
  rw [hjs, List.drop_left, List.append_assoc]
  exact cstr_append_nul hnul post

/-! ## Members -/

/-- A member of an object. -/
structure Member where
  key : Str
  keyAt : Nat
  value : Json .value
  valueAt : Nat
  index : Nat

/-- The member that a label and a value make, in an object. -/
def labelMembers : {k : Kind} → Label k → Json .value → Nat → Nat → List Member
  | _, .item _, _, _, _ => []
  | _, .member w key w1 w2, v, position, index =>
      [{ key := key
         keyAt := position + (w.bytes.length + 1)
         value := v
         valueAt := position + (Label.member w key w1 w2).render.length
         index := index + 1 }]

/-- The members among the elements, at a place of the text and of the tokens. -/
def members : {c : Cat} → Json c → Nat → Nat → List Member
  | _, .prim _, _, _ => []
  | _, .str _, _, _ => []
  | _, .empty _ _, _, _ => []
  | _, .full _ _, _, _ => []
  | _, .last _ l v _, position, index => labelMembers l v position index
  | _, .more _ l v w es, position, index =>
      labelMembers l v position index
        ++ members es (position + l.render.length + v.render.length + w.bytes.length + 1)
            (index + l.keys.length + v.tokenCount)

/-- The members of a value, if it is an object. -/
def objectMembers : Json .value → Nat → Nat → Option (List Member)
  | .prim _, _, _ => none
  | .str _, _, _ => none
  | .empty .arr _, _, _ => none
  | .empty .obj _, _, _ => some []
  | .full .arr _, _, _ => none
  | .full .obj es, position, index => some (members es (position + 1) (index + 1))

/-- The names of the members are those of the elements. -/
theorem members_keys : ∀ (es : Json (.elements .obj)) (position index : Nat),
    (members es position index).map (·.key) = es.keys
  | .last _ (.member _ _ _ _) _ _, _, _ => rfl
  | .more _ (.member _ key _ _) _ _ es, _, _ =>
      congrArg (key :: ·) (members_keys es _ _)

/-- Where a member stands between `lo` and `hi`. -/
structure Between (lo hi : Nat) (m : Member) : Prop where
  low : lo < m.keyAt
  key : m.keyAt + m.key.render.length < m.valueAt
  value : m.valueAt + m.value.render.length < hi

theorem label_between (w : Ws) (key : Str) (w1 w2 : Ws) (v : Json .value)
    {position hi index : Nat}
    (h : position + (Label.member w key w1 w2).render.length + v.render.length < hi) :
    ∀ m ∈ labelMembers (Label.member w key w1 w2) v position index, Between position hi m := by
  intro m hm
  rw [List.mem_singleton.mp hm]
  have hlen : (Label.member w key w1 w2).render.length
      = w.bytes.length + (key.render.length + 2) + (w1.bytes.length + (w2.bytes.length + 1)) := by
    simp only [Label.render, Str.quoted, List.length_append, List.length_cons, List.length_nil]
    omega
  exact ⟨by dsimp only; omega, by dsimp only; omega, h⟩

/-- The members stand in order between the brackets. -/
theorem members_between : ∀ (es : Json (.elements .obj)) (position index : Nat),
    ∀ m ∈ members es position index, Between position (position + es.render.length) m
  | .last _ (.member w key w1 w2) v w', position, index => by
      refine label_between w key w1 w2 v ?_
      simp only [Json.render, List.length_append, List.length_cons, List.length_nil]
      omega
  | .more _ (.member w key w1 w2) v w' es, position, index => by
      have hlen : (Json.more .obj (Label.member w key w1 w2) v w' es).render.length
          = (Label.member w key w1 w2).render.length + v.render.length + w'.bytes.length + 1
            + es.render.length := by
        simp only [Json.render, List.length_append, List.length_cons]
        omega
      intro m hm
      rcases List.mem_append.mp hm with hm | hm
      · exact label_between w key w1 w2 v (by omega) m hm
      · have hb := members_between es _ _ m hm
        exact ⟨by have hl := hb.low; omega, hb.key, by have hv := hb.value; omega⟩

theorem members_pairwise : ∀ (es : Json (.elements .obj)) (position index : Nat),
    (members es position index).Pairwise fun m m' =>
      m.valueAt + m.value.render.length < m'.keyAt
  | .last _ (.member _ _ _ _) _ _, _, _ => List.pairwise_singleton _ _
  | .more _ (.member w key w1 w2) v w' es, position, index => by
      refine List.pairwise_append.mpr ⟨List.pairwise_singleton _ _, members_pairwise es _ _, ?_⟩
      intro m hm m' hm'
      rw [List.mem_singleton.mp hm]
      have hl := (members_between es _ _ m' hm').low
      dsimp only
      omega

/-- The names and values of the members are in the text. -/
theorem members_textAt {js : Bytes} : ∀ (es : Json (.elements .obj)) (position index : Nat),
    TextAt js position es.render →
      ∀ m ∈ members es position index, TextAt js m.keyAt m.key.render
        ∧ TextAt js m.valueAt m.value.render
  | .last _ (.member w key w1 w2) v w', position, index => by
      intro h m hm
      rw [List.mem_singleton.mp hm]
      exact ⟨by
        have hkey := h.left
        rw [Label.render, Str.quoted] at hkey
        exact hkey.right.left.tail.left, h.right.left⟩
  | .more _ (.member w key w1 w2) v w' es, position, index => by
      intro h m hm
      rcases List.mem_append.mp hm with hm | hm
      · rw [List.mem_singleton.mp hm]
        exact ⟨by
          have hkey := h.left
          rw [Label.render, Str.quoted] at hkey
          exact hkey.right.left.tail.left, h.right.left⟩
      · exact members_textAt es _ _ h.right.right.right.tail m hm

/-! ## Places among the tokens -/

/-- The tokens `ts` stand at `index`, and no token behind them hangs at one of
    them. -/
def Located (toks ts : List JsonToken) (index : Nat) : Prop :=
  ∃ post, toks.drop index = ts ++ post
    ∧ ∀ t ∈ post, t.parent < index ∨ ((index + ts.length : Nat) : Int) ≤ t.parent

theorem Located.first {toks a b : List JsonToken} {index : Nat} (h : Located toks (a ++ b) index)
    (hb : ∀ t ∈ b, t.parent < index ∨ ((index + a.length : Nat) : Int) ≤ t.parent) :
    Located toks a index := by
  obtain ⟨post, hdrop, hpost⟩ := h
  refine ⟨b ++ post, by rw [hdrop, List.append_assoc], fun t ht => ?_⟩
  rcases List.mem_append.mp ht with ht | ht
  · exact hb t ht
  · have h := hpost t ht
    rw [List.length_append] at h
    omega

theorem Located.second {toks a b : List JsonToken} {index : Nat}
    (h : Located toks (a ++ b) index) : Located toks b (index + a.length) := by
  obtain ⟨post, hdrop, hpost⟩ := h
  refine ⟨post, ?_, fun t ht => ?_⟩
  · rw [← List.drop_drop, hdrop, List.append_assoc, List.drop_left]
  · have h := hpost t ht
    rw [List.length_append] at h
    omega

theorem Located.get {toks ts : List JsonToken} {index : Nat} (h : Located toks ts index) {i : Nat}
    (hi : i < ts.length) : toks[index + i]? = ts[i]? := by
  obtain ⟨post, hdrop, -⟩ := h
  rw [← List.getElem?_drop, hdrop, List.getElem?_append_left hi]

/-- A value and what follows it among the elements. -/
theorem value_located {toks : List JsonToken} {v : Json .value} {b : List JsonToken}
    {position index : Nat} {parent : Int} (hparent : parent < index)
    (h : Located toks (v.tokens position index parent ++ b) index)
    (hb : ∀ t ∈ b, t.parent = parent ∨ ((index + v.tokenCount : Nat) : Int) ≤ t.parent) :
    Located toks (v.tokens position index parent) index := by
  refine h.first fun t ht => ?_
  rw [Json.tokens_length]
  rcases hb t ht with h | h
  · left
    omega
  · exact Or.inr h

/-- The values of the members stand at their indices. -/
theorem members_located {toks : List JsonToken} {parent : Int} :
    ∀ (es : Json (.elements .obj)) (position index : Nat), parent < index →
      Located toks (es.tokens position index parent) index →
        ∀ m ∈ members es position index,
          Located toks (m.value.tokens m.valueAt m.index parent) m.index ∧ parent < m.index
  | .last _ (.member w key w1 w2) v w', position, index => by
      intro hparent h m hm
      rw [List.mem_singleton.mp hm]
      have hlt : parent < ((index + 1 : Nat) : Int) := by omega
      exact ⟨value_located (b := []) hlt (by rw [List.append_nil]; exact h.second)
        fun t ht => (nomatch ht), hlt⟩
  | .more _ (.member w key w1 w2) v w' es, position, index => by
      intro hparent h m hm
      have h1 := h.second
      have hlt : parent < ((index + 1 : Nat) : Int) := by omega
      rcases List.mem_append.mp hm with hm | hm
      · rw [List.mem_singleton.mp hm]
        refine ⟨value_located hlt h1 fun t ht => ?_, hlt⟩
        rcases es.parent_cases t ht with h | h
        · exact Or.inl h
        · exact Or.inr h
      · have h2 := h1.second
        rw [Json.tokens_length] at h2
        have hlt2 : parent < ((index + 1 + v.tokenCount : Nat) : Int) := by omega
        exact members_located es _ _ hlt2 h2 m hm

/-- Every token of the elements starts in front of their end. -/
theorem tokens_start {c : Cat} (t : Json c) :
    ∀ {position index : Nat} {parent : Int}, ∀ tok ∈ t.tokens position index parent,
      tok.start < position + t.render.length := by
  induction t with
  | prim p =>
      intro position index parent tok h
      rw [List.mem_singleton.mp h]
      obtain ⟨c, u, heq, -⟩ := Prim.render_cons p
      show position < position + p.render.length
      rw [heq, List.length_cons]
      omega
  | str s =>
      intro position index parent tok h
      rw [List.mem_singleton.mp h]
      simp only [Json.render, Str.quoted, List.length_append, List.length_cons]
      omega
  | empty k w =>
      intro position index parent tok h
      rw [List.mem_singleton.mp h]
      simp only [Json.render, List.length_append, List.length_cons]
      omega
  | full k es ih =>
      intro position index parent tok h
      have hlen : (Json.full k es).render.length = es.render.length + 1 := rfl
      rcases List.mem_cons.mp h with rfl | h
      · dsimp only
        omega
      · have hs := ih tok h
        omega
  | last k l v w ih =>
      intro position index parent tok h
      have hlen : (Json.last k l v w).render.length
          = l.render.length + v.render.length + w.bytes.length + 1 := by
        simp only [Json.render, List.length_append, List.length_cons, List.length_nil]
        omega
      rcases List.mem_append.mp h with h | h
      · cases l with
        | item w' => cases h
        | member w' key w1 w2 =>
            rw [List.mem_singleton.mp h]
            simp only [Json.render, Label.render, Str.quoted, List.length_append,
              List.length_cons]
            omega
      · have hs := ih tok h
        omega
  | more k l v w es ihv ihes =>
      intro position index parent tok h
      have hlen : (Json.more k l v w es).render.length
          = l.render.length + v.render.length + w.bytes.length + 1 + es.render.length := by
        simp only [Json.render, List.length_append, List.length_cons]
        omega
      rcases List.mem_append.mp h with h | h
      · cases l with
        | item w' => cases h
        | member w' key w1 w2 =>
            rw [List.mem_singleton.mp h]
            simp only [Json.render, Label.render, Str.quoted, List.length_append,
              List.length_cons]
            omega
      rcases List.mem_append.mp h with h | h
      · have hs := ihv tok h
        omega
      · have hs := ihes tok h
        omega

/-! ## The loops over an object -/

/-- The names of the members are intact, and as short as the tokenizer asks. -/
def KeysAt (json : Bytes) (ms : List Member) : Prop :=
  ∀ m ∈ ms, TextAt json m.keyAt m.key.render ∧ m.key.render.length < JSON_MAX_KEY_BYTES

theorem KeysAt.left {json : Bytes} {a b : List Member} (h : KeysAt json (a ++ b)) :
    KeysAt json a :=
  fun m hm => h m (List.mem_append_left b hm)

theorem KeysAt.right {json : Bytes} {a b : List Member} (h : KeysAt json (a ++ b)) :
    KeysAt json b :=
  fun m hm => h m (List.mem_append_right a hm)

/-- The token of a name. -/
structure KeyToken (json : Bytes) (root : Nat) (t : JsonToken) (key : Str) : Prop where
  type : t.type = .str
  parent : t.parent = root
  spans : Spans json t key.render

/-- The token of the name of a member. -/
theorem label_token {json : Bytes} {w w1 w2 : Ws} {key : Str} {v : Json .value}
    {position index root : Nat}
    (h : KeysAt json (labelMembers (Label.member w key w1 w2) v position index)) :
    ∃ t, (Label.member w key w1 w2).tokens position root = [t] ∧ KeyToken json root t key
      ∧ key.render.length < JSON_MAX_KEY_BYTES := by
  obtain ⟨htext, hlen⟩ := h _ List.mem_cons_self
  exact ⟨_, rfl, ⟨rfl, rfl, htext.spans rfl rfl⟩, hlen⟩

section Keys

variable {json : Bytes} {info : TypeInfo} {root : Nat} {path : Bytes}

/-- The name is one that the type declares. -/
def KnownKey (info : TypeInfo) (m : Member) : Prop :=
  (0 : Byte) ∉ m.key.decode ∧ ∃ f ∈ info.fields, f.name = m.key.decode

theorem keysLoop_inner {inner : List JsonToken} (h : ∀ u ∈ inner, u.parent ≠ root)
    (toks : List JsonToken) (failed : Bool) (fail : Failure) :
    keysLoop json info root path false (inner ++ toks) failed fail
      = keysLoop json info root path false toks failed fail := by
  induction inner with
  | nil => rfl
  | cons u inner ih =>
      rw [List.cons_append, keysLoop, if_pos (Or.inl (h u List.mem_cons_self))]
      exact ih fun v hv => h v (List.mem_cons_of_mem u hv)

/-- The value behind a name is skipped, with what is in it. -/
theorem keysLoop_child {vs : List JsonToken} (h : Child root vs) (toks : List JsonToken)
    (failed : Bool) (fail : Failure) :
    keysLoop json info root path true (vs ++ toks) failed fail
      = keysLoop json info root path false toks failed fail := by
  obtain ⟨t, inner, rfl, -, hinner⟩ := h
  rw [List.cons_append, keysLoop]
  exact keysLoop_inner hinner toks failed fail

/-- Once the loop has failed it fails. -/
theorem keysLoop_sticky (toks : List JsonToken) :
    ∀ (skip : Bool) (fail : Failure),
      (keysLoop json info root path skip toks true fail).1 = true := by
  induction toks with
  | nil =>
      intro skip fail
      cases skip <;> rfl
  | cons t toks ih =>
      intro skip fail
      cases skip with
      | true => exact ih false fail
      | false =>
          rw [keysLoop]
          dsimp only
          split_ifs
          · exact ih false fail
          · exact ih false _
          · exact ih true fail
          · exact ih true _

theorem any_name_iff (info : TypeInfo) (key : Bytes) :
    (info.fields.any fun f => f.name == key) = true ↔ ∃ f ∈ info.fields, f.name = key := by
  rw [List.any_eq_true]
  exact exists_congr fun f => and_congr_right fun _ => beq_iff_eq

/-- The loop at a name: it goes on behind a name that is known, and fails at one
    that is not. -/
theorem keysLoop_key {t : JsonToken} {key : Str} (ht : KeyToken json root t key)
    (hlen : key.render.length < JSON_MAX_KEY_BYTES) (toks : List JsonToken) (fail : Failure) :
    ((0 : Byte) ∉ key.decode → (∃ f ∈ info.fields, f.name = key.decode) →
        ∀ failed, keysLoop json info root path false (t :: toks) failed fail
          = keysLoop json info root path true toks failed fail)
      ∧ (¬ ((0 : Byte) ∉ key.decode ∧ ∃ f ∈ info.fields, f.name = key.decode) →
        ∀ failed, (keysLoop json info root path false (t :: toks) failed fail).1 = true) := by
  have hchild : ¬ (t.parent ≠ root ∨ t.type ≠ .str) := by
    rw [not_or, not_not, not_not]
    exact ⟨ht.parent, ht.type⟩
  have hnul := stringHasNoNul_iff ht.spans
  have hcopy := ht.spans.jsonCopyStr ht.type hlen
  constructor
  · intro h1 h2 failed
    have hstr := hnul.mpr h1
    rw [keysLoop, if_neg hchild, if_neg (by rw [hstr]; exact Bool.noConfusion), hcopy,
      cstr_eq_self h1]
    exact if_pos ((any_name_iff info key.decode).mpr h2)
  · intro h failed
    by_cases h1 : (0 : Byte) ∈ key.decode
    · have hstr : stringHasNoNul json t = false :=
        Bool.eq_false_iff.mpr fun hs => hnul.mp hs h1
      rw [keysLoop, if_neg hchild, if_pos hstr]
      exact keysLoop_sticky _ _ _
    · have hstr := hnul.mpr h1
      have h2 : ¬ (info.fields.any fun f => f.name == key.decode) = true := by
        rw [any_name_iff]
        exact fun hx => h ⟨h1, hx⟩
      rw [keysLoop, if_neg hchild, if_neg (by rw [hstr]; exact Bool.noConfusion), hcopy,
        cstr_eq_self h1]
      dsimp only
      rw [if_neg h2]
      exact keysLoop_sticky _ _ _

/-- A member with a name that is known is passed over. -/
theorem keysLoop_member {t : JsonToken} {key : Str} {vs : List JsonToken}
    (ht : KeyToken json root t key) (hlen : key.render.length < JSON_MAX_KEY_BYTES)
    (hchild : Child root vs)
    (hknown : (0 : Byte) ∉ key.decode ∧ ∃ f ∈ info.fields, f.name = key.decode)
    (toks : List JsonToken) (failed : Bool) (fail : Failure) :
    keysLoop json info root path false (t :: (vs ++ toks)) failed fail
      = keysLoop json info root path false toks failed fail := by
  rw [(keysLoop_key ht hlen _ fail).1 hknown.1 hknown.2]
  exact keysLoop_child hchild toks failed fail

/-- **The first loop goes over an object whose names are all known**, and leaves
    the failure of the request alone. -/
theorem keysLoop_known : ∀ (es : Json (.elements .obj)) (position index : Nat),
    root < index → KeysAt json (members es position index) →
    (∀ m ∈ members es position index, KnownKey info m) →
    ∀ (post : List JsonToken) (failed : Bool) (fail : Failure),
      keysLoop json info root path false (es.tokens position index root ++ post) failed fail
        = keysLoop json info root path false post failed fail
  | .last _ (.member w key w1 w2) v w', position, index => by
      intro hlt hkeys hknown post failed fail
      obtain ⟨t, ht, htok, hlen⟩ := @label_token _ _ _ _ _ _ _ _ root hkeys
      have hchild := @Json.child v (position + (Label.member w key w1 w2).render.length)
        (index + 1) root (by omega)
      rw [Json.tokens, ht, List.append_assoc, List.singleton_append]
      exact keysLoop_member htok hlen hchild (hknown _ List.mem_cons_self) post failed fail
  | .more _ (.member w key w1 w2) v w' es, position, index => by
      intro hlt hkeys hknown post failed fail
      obtain ⟨t, ht, htok, hlen⟩ := @label_token _ _ _ _ _ _ _ _ root hkeys.left
      have hchild := @Json.child v (position + (Label.member w key w1 w2).render.length)
        (index + 1) root (by omega)
      rw [Json.tokens, ht, List.append_assoc, List.singleton_append, List.append_assoc]
      refine (keysLoop_member htok hlen hchild
        (hknown _ (List.mem_append_left _ List.mem_cons_self)) _ failed fail).trans ?_
      exact keysLoop_known es _ _ (by omega) hkeys.right
        (fun m hm => hknown m (List.mem_append_right _ hm)) post failed fail

/-- The first loop fails over an object with another name. -/
theorem keysLoop_unknown : ∀ (es : Json (.elements .obj)) (position index : Nat),
    root < index → KeysAt json (members es position index) →
    (∃ m ∈ members es position index, ¬ KnownKey info m) →
    ∀ (post : List JsonToken) (failed : Bool) (fail : Failure),
      (keysLoop json info root path false (es.tokens position index root ++ post) failed fail).1
        = true
  | .last _ (.member w key w1 w2) v w', position, index => by
      rintro hlt hkeys ⟨m, hm, hunknown⟩ post failed fail
      obtain ⟨t, ht, htok, hlen⟩ := @label_token _ _ _ _ _ _ _ _ root hkeys
      rw [List.mem_singleton.mp hm] at hunknown
      rw [Json.tokens, ht, List.append_assoc, List.singleton_append]
      exact (keysLoop_key htok hlen _ fail).2 hunknown failed
  | .more _ (.member w key w1 w2) v w' es, position, index => by
      rintro hlt hkeys ⟨m, hm, hunknown⟩ post failed fail
      obtain ⟨t, ht, htok, hlen⟩ := @label_token _ _ _ _ _ _ _ _ root hkeys.left
      have hchild := @Json.child v (position + (Label.member w key w1 w2).render.length)
        (index + 1) root (by omega)
      rw [Json.tokens, ht, List.append_assoc, List.singleton_append]
      -- a known name is passed over; the unknown one is further on
      by_cases hfirst : (0 : Byte) ∉ key.decode ∧ ∃ f ∈ info.fields, f.name = key.decode
      · rw [List.append_assoc]
        refine (congrArg Prod.fst
          (keysLoop_member htok hlen hchild hfirst _ failed fail)).trans ?_
        rcases List.mem_append.mp hm with hm | hm
        · rw [List.mem_singleton.mp hm] at hunknown
          exact absurd hfirst hunknown
        · exact keysLoop_unknown es _ _ (by omega) hkeys.right ⟨m, hm, hunknown⟩ post failed fail
      · exact (keysLoop_key htok hlen _ fail).2 hfirst failed

end Keys

/-! ## Looking up a name -/

/-- The member that `json_object_get` finds: the first whose name is `name` as a
    C string. -/
def lookup (ms : List Member) (name : Bytes) : Option Member :=
  ms.find? fun m => cstr m.key.decode == name

theorem lookup_cons_pos {m : Member} {name : Bytes} (h : cstr m.key.decode = name)
    (ms : List Member) : lookup (m :: ms) name = some m := by
  rw [lookup, List.find?_cons_of_pos]
  exact beq_iff_eq.mpr h

theorem lookup_cons_neg {m : Member} {name : Bytes} (h : ¬ cstr m.key.decode = name)
    (ms : List Member) : lookup (m :: ms) name = lookup ms name := by
  rw [lookup, List.find?_cons_of_neg]
  · rfl
  · exact fun hb => h (beq_iff_eq.mp hb)

theorem lookup_some {ms : List Member} {name : Bytes} {m : Member}
    (h : lookup ms name = some m) : m ∈ ms ∧ cstr m.key.decode = name := by
  rw [lookup] at h
  have hp := List.find?_some h
  exact ⟨List.mem_of_find?_eq_some h, beq_iff_eq.mp hp⟩

section Get

variable {json : Bytes} {ntok root : Nat} {objEnd : Int} {name : Bytes}

theorem objectGetLoop_inner {inner : List JsonToken} (h : ∀ u ∈ inner, u.parent ≠ root)
    (hstart : ∀ u ∈ inner, (u.start : Int) < objEnd) (toks : List JsonToken) (direct : Nat) :
    ∀ i, objectGetLoop json ntok root objEnd name i direct (inner ++ toks)
      = objectGetLoop json ntok root objEnd name (i + inner.length) direct toks := by
  induction inner with
  | nil => exact fun i => rfl
  | cons u inner ih =>
      intro i
      rw [List.cons_append, objectGetLoop,
        if_neg (fun hn => hn (hstart u List.mem_cons_self)),
        if_pos (h u List.mem_cons_self),
        ih (fun v hv => h v (List.mem_cons_of_mem u hv))
          (fun v hv => hstart v (List.mem_cons_of_mem u hv)), List.length_cons]
      congr 1
      omega

/-- A value is passed over. -/
theorem objectGetLoop_child {vs : List JsonToken} (h : Child root vs)
    (hstart : ∀ u ∈ vs, (u.start : Int) < objEnd) (toks : List JsonToken) {direct : Nat}
    (hodd : direct % 2 = 1) (i : Nat) :
    objectGetLoop json ntok root objEnd name i direct (vs ++ toks)
      = objectGetLoop json ntok root objEnd name (i + vs.length) (direct + 1) toks := by
  obtain ⟨t, inner, rfl, hparent, hinner⟩ := h
  rw [List.cons_append, objectGetLoop, if_neg (fun hn => hn (hstart t List.mem_cons_self)),
    if_neg (fun hne => hne hparent), if_neg (fun h => by omega),
    objectGetLoop_inner hinner fun u hu => hstart u (List.mem_cons_of_mem t hu), List.length_cons]
  congr 1
  omega

/-- At a name: its value is found, or the loop goes on at the value. -/
theorem objectGetLoop_key {t : JsonToken} {key : Str} (ht : KeyToken json root t key)
    (hlen : key.render.length < JSON_MAX_KEY_BYTES) (hstart : (t.start : Int) < objEnd)
    {i direct : Nat} (heven : direct % 2 = 0) (hnext : i + 1 < ntok) (toks : List JsonToken) :
    objectGetLoop json ntok root objEnd name i direct (t :: toks)
      = if cstr key.decode = name then some (i + 1)
        else objectGetLoop json ntok root objEnd name (i + 1) (direct + 1) toks := by
  have hraw : 0 ≤ t.end_ - t.start ∧ t.end_ - t.start < JSON_MAX_KEY_BYTES := by
    obtain ⟨pre, post, -, hs, he⟩ := ht.spans
    rw [hs, he]
    omega
  rw [objectGetLoop, if_neg (fun hn => hn hstart), if_neg (fun hne => hne ht.parent),
    ht.spans.jsonCopyStr ht.type hlen]
  by_cases heq : cstr key.decode = name
  · rw [if_pos ⟨heven, ht.type, hraw.1, hraw.2, heq⟩, if_pos hnext, if_pos heq]
  · rw [if_neg (fun h => heq h.2.2.2.2), if_neg heq]

/-- At a member: its value is found, or the loop goes on behind the value. -/
theorem objectGetLoop_member {t : JsonToken} {key : Str} {vs : List JsonToken}
    (ht : KeyToken json root t key) (hlen : key.render.length < JSON_MAX_KEY_BYTES)
    (hchild : Child root vs) (hstart : ∀ u ∈ t :: vs, (u.start : Int) < objEnd)
    {i direct : Nat} (heven : direct % 2 = 0) (hnext : i + 1 < ntok) (toks : List JsonToken) :
    objectGetLoop json ntok root objEnd name i direct (t :: (vs ++ toks))
      = if cstr key.decode = name then some (i + 1)
        else objectGetLoop json ntok root objEnd name (i + 1 + vs.length) (direct + 2) toks := by
  rw [objectGetLoop_key ht hlen (hstart t List.mem_cons_self) heven hnext,
    objectGetLoop_child hchild (fun u hu => hstart u (List.mem_cons_of_mem t hu)) toks (by omega)]

/-- **The lookup finds the first member of the name**, or goes on behind the
    object. -/
theorem objectGetLoop_members : ∀ (es : Json (.elements .obj)) (position index : Nat),
    root < index → KeysAt json (members es position index) →
    ((position + es.render.length : Nat) : Int) ≤ objEnd → index + es.tokenCount ≤ ntok →
    ∀ (post : List JsonToken) {direct : Nat}, direct % 2 = 0 →
      objectGetLoop json ntok root objEnd name index direct
          (es.tokens position index root ++ post)
        = match lookup (members es position index) name with
          | some m => some m.index
          | none => objectGetLoop json ntok root objEnd name (index + es.tokenCount)
              (direct + 2 * (members es position index).length) post
  | .last _ (.member w key w1 w2) v w', position, index => by
      intro hlt hkeys hend hntok post direct heven
      obtain ⟨t, ht, htok, hlen⟩ := @label_token _ _ _ _ _ _ _ _ root hkeys
      have hcount : (Json.last .obj (.member w key w1 w2) v w').tokenCount = 1 + v.tokenCount :=
        rfl
      have hpos := v.tokenCount_pos
      have hstart : ∀ u ∈ (Json.last .obj (.member w key w1 w2) v w').tokens position index root,
          (u.start : Int) < objEnd := by
        intro u hu
        have h := tokens_start _ u hu
        omega
      have hone : (Label.member w key w1 w2).keys.length = 1 := rfl
      rw [Json.tokens, ht, hone] at hstart ⊢
      have hchild := @Json.child v (position + (Label.member w key w1 w2).render.length)
        (index + 1) root (by omega)
      have hmembers : members (Json.last .obj (.member w key w1 w2) v w') position index
          = [⟨key, position + (w.bytes.length + 1), v,
              position + (Label.member w key w1 w2).render.length, index + 1⟩] := rfl
      rw [List.append_assoc, List.singleton_append,
        objectGetLoop_member htok hlen hchild hstart heven (by omega), hmembers]
      by_cases heq : cstr key.decode = name
      · rw [if_pos heq, lookup_cons_pos heq]
      · rw [if_neg heq, lookup_cons_neg heq, Json.tokens_length, hcount, Nat.add_assoc]
        rfl
  | .more _ (.member w key w1 w2) v w' es, position, index => by
      intro hlt hkeys hend hntok post direct heven
      obtain ⟨t, ht, htok, hlen⟩ := @label_token _ _ _ _ _ _ _ _ root hkeys.left
      have hcount : (Json.more .obj (.member w key w1 w2) v w' es).tokenCount
          = 1 + v.tokenCount + es.tokenCount := rfl
      have hsize : (Json.more .obj (.member w key w1 w2) v w' es).render.length
          = (Label.member w key w1 w2).render.length + v.render.length + w'.bytes.length + 1
            + es.render.length := by
        simp only [Json.render, List.length_append, List.length_cons]
        omega
      have hpos := v.tokenCount_pos
      have hstart : ∀ u ∈ (Json.more .obj (.member w key w1 w2) v w' es).tokens position index
          root, (u.start : Int) < objEnd := by
        intro u hu
        have h := tokens_start _ u hu
        omega
      have hone : (Label.member w key w1 w2).keys.length = 1 := rfl
      rw [Json.tokens, ht, hone] at hstart ⊢
      have hchild := @Json.child v (position + (Label.member w key w1 w2).render.length)
        (index + 1) root (by omega)
      have hmembers : members (Json.more .obj (.member w key w1 w2) v w' es) position index
          = ⟨key, position + (w.bytes.length + 1), v,
              position + (Label.member w key w1 w2).render.length, index + 1⟩
            :: members es (position + (Label.member w key w1 w2).render.length + v.render.length
                + w'.bytes.length + 1) (index + 1 + v.tokenCount) := rfl
      have hfirst : ∀ u ∈ t :: v.tokens (position + (Label.member w key w1 w2).render.length)
          (index + 1) root, (u.start : Int) < objEnd := by
        intro u hu
        refine hstart u (List.mem_cons.mpr ((List.mem_cons.mp hu).imp_right ?_))
        exact List.mem_append_left _
      rw [List.append_assoc, List.singleton_append, List.append_assoc,
        objectGetLoop_member htok hlen hchild hfirst heven (by omega), hmembers]
      by_cases heq : cstr key.decode = name
      · rw [if_pos heq, lookup_cons_pos heq]
      · -- another name: behind the value the rest of the object is searched
        rw [if_neg heq, lookup_cons_neg heq, Json.tokens_length]
        refine (objectGetLoop_members es _ (index + 1 + v.tokenCount) (by omega) hkeys.right
          (by omega) (by omega) post (by omega)).trans ?_
        rw [hcount, List.length_cons, Nat.mul_succ, Nat.add_right_comm direct, Nat.add_assoc direct,
          ← Nat.add_assoc index, ← Nat.add_assoc index]

theorem objectGetLoop_foreign {post : List JsonToken} (h : ∀ t ∈ post, t.parent ≠ root) :
    ∀ (i direct : Nat), objectGetLoop json ntok root objEnd name i direct post = none := by
  induction post with
  | nil => exact fun _ _ => rfl
  | cons t post ih =>
      intro i direct
      rw [objectGetLoop]
      rw [if_pos (h t List.mem_cons_self),
        ih (fun u hu => h u (List.mem_cons_of_mem t hu)), ite_self]

end Get

end BodyTree
