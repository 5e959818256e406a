import Gargantua.BodyTree
import Gargantua.JsonTree
import Gargantua.JsonUnique

/-! # Unescaping in place (`unescape_in_place`, `json_copy_str`)

    The body reader lets `json_copy_str` write a string over its own token: each
    round reads behind what was written, because an escape is never shorter than
    what it stands for.  So the loop in one buffer writes what the loop between
    two buffers writes (`copyInPlace_eq`), and as the tokens of a text are apart,
    strings may be unescaped one after another in any order
    (`unescape_in_place`). -/

namespace UnescapeInPlace

open CString JsonParse JsonGrammar JsonDecode JsonMachine JsonAccess BodyTree

/-! ## The source -/

/-- The bytes from `i` on, up to the end of the token. -/
def window (json : Bytes) (stop i : Nat) : Bytes := (json.take stop).drop i

/-- The loop of `json_copy_str` where `out` is `js + t->start`: `i` is read next,
    `o` bytes are written.  A round that ends the loop writes the terminator. -/
def copyInPlace (isStr : Bool) (start stop outsz : Nat) : Nat → Bytes → Nat → Nat → Bytes
  | 0, json, _, o => json.set (start + o) 0
  | fuel + 1, json, i, o =>
      match window json stop i with
      | [] => json.set (start + o) 0
      | c :: rest =>
          if o + 1 < outsz then
            if !isStr || c != BACKSLASH then
              copyInPlace isStr start stop outsz fuel (json.set (start + o) c) (i + 1) (o + 1)
            else
              -- the escape is read as a whole before anything is written
              match copyEscape (outsz - o - 1) rest with
              | none => json.set (start + o) 0
              | some (out, rest) =>
                  copyInPlace isStr start stop outsz fuel (overwrite json (start + o) out)
                    (stop - rest.length) (o + out.length)
          else json.set (start + o) 0

/-- `json_copy_str(json, t, json + t->start, outsz)`. -/
def jsonCopyStrInPlace (json : Bytes) (t : JsonToken) (outsz : Nat) : Bytes :=
  if outsz = 0 then json
  else if t.end_ < t.start then json.set t.start 0
  else
    copyInPlace (t.type == .str) t.start t.end_.toNat outsz (t.end_.toNat - t.start) json t.start 0

/-- `unescape_in_place`: the buffer behind it, where it returns `0`. -/
def unescapeInPlace (json : Bytes) (t : JsonToken) : Option Bytes :=
  if stringHasNoNul json t then some (jsonCopyStrInPlace json t ((t.end_ - t.start).toNat + 1))
  else none

/-- `unescape_in_place` for the tokens of these indices, one after another. -/
def unescapeAll (toks : List JsonToken) : List Nat → Bytes → Option Bytes
  | [], json => some json
  | i :: order, json =>
      match toks[i]? with
      | none => none
      | some t =>
          match unescapeInPlace json t with
          | none => none
          | some json => unescapeAll toks order json

/-! ## Writes -/

theorem set_eq_overwrite (json : Bytes) {position : Nat} (h : position < json.length) (c : Byte) :
    json.set position c = overwrite json position [c] := by
  rw [List.set_eq_take_append_cons_drop, if_pos h, overwrite]
  rfl

theorem overwrite_length (json : Bytes) {position : Nat} {bytes : Bytes}
    (h : position + bytes.length ≤ json.length) :
    (overwrite json position bytes).length = json.length :=
  (overwrite_sameOutside json h).1

/-- Two writes, one behind the other. -/
theorem overwrite_overwrite (json : Bytes) {position : Nat} (a b : Bytes)
    (h : position ≤ json.length) :
    overwrite (overwrite json position a) (position + a.length) b
      = overwrite json position (a ++ b) := by
  have htake : (json.take position).length = position := List.length_take_of_le h
  have hfront : (json.take position ++ a).length = position + a.length := by
    rw [List.length_append, htake]
  have hassoc : overwrite json position a
      = (json.take position ++ a) ++ json.drop (position + a.length) := by
    rw [overwrite, List.append_assoc]
  rw [overwrite, hassoc, ← hfront, List.take_left, ← List.drop_drop, List.drop_left, overwrite,
    List.drop_drop, hfront, List.length_append]
  simp only [List.append_assoc, Nat.add_assoc]

/-- A write in front of the window leaves it as it is. -/
theorem window_overwrite (json : Bytes) {position i : Nat} (stop : Nat) {bytes : Bytes}
    (h : position + bytes.length ≤ i) (hi : i ≤ json.length) :
    window (overwrite json position bytes) stop i = window json stop i := by
  have hsame := overwrite_sameOutside json (Nat.le_trans h hi)
  refine List.ext_getElem? fun k => ?_
  rw [window, window, List.getElem?_drop, List.getElem?_drop, List.getElem?_take,
    List.getElem?_take, hsame.2 (i + k) (.inr (by omega))]

/-! ## The write index stays behind -/

theorem utf8Encode_length (cp cap : Nat) : (utf8Encode cp cap).length ≤ 4 := by
  rw [utf8Encode]
  split_ifs
  all_goals simp

theorem readHex4_length {js : Bytes} {n : Nat} (h : readHex4 js = some n) : 4 ≤ js.length := by
  rw [readHex4] at h
  split at h
  · cases h
  · omega

/-- **An escape is no shorter than what is written for it**: `n` bytes behind the
    backslash are read, and at most one more is written. -/
theorem copyEscape_length {cap : Nat} {js out rest : Bytes}
    (h : copyEscape cap js = some (out, rest)) :
    ∃ n, rest = js.drop n ∧ n ≤ js.length ∧ out.length ≤ n + 1 := by
  cases js with
  | nil => cases h
  | cons c js =>
      have hletter : ∀ b : Byte, some ([b], js) = some (out, rest) →
          ∃ n, rest = (c :: js).drop n ∧ n ≤ (c :: js).length ∧ out.length ≤ n + 1 := by
        intro b hb
        obtain ⟨rfl, rfl⟩ := Prod.mk.inj (Option.some.inj hb)
        exact ⟨1, rfl, by rw [List.length_cons]; omega, by simp⟩
      have hcode : ∀ (code n : Nat), n ≤ js.length → 4 ≤ n →
          some (utf8Encode code cap, js.drop n) = some (out, rest) →
          ∃ n, rest = (c :: js).drop n ∧ n ≤ (c :: js).length ∧ out.length ≤ n + 1 := by
        intro code n hn hfour hb
        obtain ⟨rfl, rfl⟩ := Prod.mk.inj (Option.some.inj hb)
        have hlen := utf8Encode_length code cap
        exact ⟨n + 1, rfl, by rw [List.length_cons]; omega, by omega⟩
      rw [copyEscape] at h
      split at h
      · exact hletter _ h
      split at h
      · exact hletter _ h
      split at h
      · exact hletter _ h
      split at h
      · exact hletter _ h
      split at h
      · exact hletter _ h
      split at h
      · exact hletter _ h
      split at h
      · split at h
        · cases h
        rename_i first hfirst
        have hlen := readHex4_length hfirst
        split at h
        · rename_i hpair
          rw [List.length_drop] at hpair
          split at h
          · cases h
          · exact hcode _ 10 (by omega) (by decide) h
        · exact hcode _ 4 hlen (by decide) h
      · cases h

/-! ## One buffer or two -/

theorem window_cons {json rest : Bytes} {stop i : Nat} {c : Byte} (h : window json stop i = c :: rest) :
    i < stop ∧ i < json.length ∧ rest = window json stop (i + 1) := by
  have hlen := congrArg List.length h
  rw [window, List.length_drop, List.length_take, List.length_cons] at hlen
  refine ⟨by omega, by omega, ?_⟩
  rw [window, ← List.tail_drop, ← window, h]
  rfl

/-- **The loop in one buffer writes what the loop between two buffers writes**:
    as long as no more was written than was read, every round reads the text of
    the token. -/
theorem copyInPlace_eq (isStr : Bool) {start stop outsz : Nat} (fuel : Nat) :
    ∀ {json : Bytes} {i o : Nat}, start + o ≤ i → i ≤ stop → stop < json.length →
      copyInPlace isStr start stop outsz fuel json i o
        = overwrite json (start + o) (copyLoop isStr outsz fuel o (window json stop i) ++ [0]) := by
  induction fuel with
  | zero =>
      intro json i o ho hi hstop
      rw [copyInPlace, copyLoop, List.nil_append, set_eq_overwrite json (by omega)]
  | succ fuel ih =>
      intro json i o ho hi hstop
      have hend : json.set (start + o) 0 = overwrite json (start + o) ([] ++ [0]) := by
        rw [List.nil_append, set_eq_overwrite json (by omega)]
      rw [copyInPlace]
      cases hwindow : window json stop i with
      | nil => exact hend
      | cons c rest =>
          obtain ⟨hlt, -, hrest⟩ := window_cons hwindow
          rw [copyLoop]
          by_cases hroom : o + 1 < outsz
          swap
          · rw [if_neg hroom]
            simp only [if_neg hroom]
            exact hend
          simp only [if_pos hroom]
          by_cases hplain : (!isStr || c != BACKSLASH) = true
          · have hone : start + o + [c].length ≤ i + 1 := by
              rw [List.length_singleton]
              omega
            have hlen : (overwrite json (start + o) [c]).length = json.length :=
              overwrite_length json (by omega)
            rw [if_pos hplain, if_pos hplain, set_eq_overwrite json (by omega),
              ih (by omega) (by omega) (by omega), window_overwrite json stop hone (by omega), ← hrest,
              ← Nat.add_assoc]
            exact overwrite_overwrite json [c] _ (by omega)
          · rw [if_neg hplain, if_neg hplain]
            cases hescape : copyEscape (outsz - o - 1) rest with
            | none => exact hend
            | some r =>
                obtain ⟨out, behind⟩ := r
                obtain ⟨n, rfl, hn, hout⟩ := copyEscape_length hescape
                -- the escape is read up to here
                have hread : stop - (rest.drop n).length = i + 1 + n := by
                  rw [hrest] at hn ⊢
                  rw [window, List.length_drop, List.length_take] at hn
                  rw [window, List.length_drop, List.length_drop, List.length_take]
                  omega
                have hbehind : rest.drop n = window json stop (i + 1 + n) := by
                  rw [hrest, window, window, List.drop_drop]
                have hbound : i + 1 + n ≤ stop := by
                  rw [hrest, window, List.length_drop, List.length_take] at hn
                  omega
                have hlen : (overwrite json (start + o) out).length = json.length :=
                  overwrite_length json (by omega)
                have hwindow : window (overwrite json (start + o) out) stop (i + 1 + n)
                    = window json stop (i + 1 + n) :=
                  window_overwrite json stop (by omega) (by omega)
                have hrun := @ih (overwrite json (start + o) out) (i + 1 + n) (o + out.length)
                  (by omega) hbound (by omega)
                dsimp only
                rw [hread, hrun, hwindow, ← hbehind, ← Nat.add_assoc]
                rw [List.append_assoc]
                exact overwrite_overwrite json out _ (by omega)

/-- **`unescape_in_place`** writes the copy of the string over its token. -/
theorem unescapeInPlace_eq {json : Bytes} {t : JsonToken} (hspan : (t.start : Int) ≤ t.end_)
    (hstop : t.end_ < json.length) : unescapeInPlace json t = JsonAccess.unescapeInPlace json t := by
  have hcap : ¬ (t.end_ - t.start).toNat + 1 = 0 := by omega
  have hcopy : ¬ ((t.end_ - t.start).toNat + 1 = 0 ∨ t.end_ < t.start) := by omega
  rw [unescapeInPlace, JsonAccess.unescapeInPlace, jsonCopyStrInPlace, jsonCopyStr, if_neg hcap,
    if_neg (Int.not_lt.mpr hspan), if_neg hcopy]
  have hslice : slice json t = window json t.end_.toNat t.start := by
    rw [slice, window, List.drop_take]
  have hlen : (slice json t).length = t.end_.toNat - t.start := by
    rw [slice, List.length_take, List.length_drop]
    omega
  have hloop := @copyInPlace_eq (t.type == .str) t.start t.end_.toNat
    ((t.end_ - t.start).toNat + 1) (t.end_.toNat - t.start) json t.start 0 (Nat.le_refl _)
    (by omega) (by omega)
  rw [← hslice] at hloop
  rw [hloop, hlen]
  rfl

/-! ## Tokens are apart -/

/-- A string and another string or primitive have no byte in common, the closing
    quotes included. -/
def Apart (toks : List JsonToken) : Prop :=
  ∀ (i j : Nat) (t u : JsonToken), i ≠ j → toks[i]? = some t → toks[j]? = some u →
    t.type = .str → u.type = .str ∨ u.type = .prim → t.end_ < u.start ∨ u.end_ < t.start

/-- The text of a string token, and its closing quote. -/
theorem string_spans {js : Bytes} {n : JsonTree.Node} {cs : Preorder.Forest JsonTree.Node}
    (h : JsonTree.Sound js n cs) (hstr : n.type = .str) :
    ∃ s : Str, 1 ≤ n.start ∧ n.stop < js.length ∧ ∀ q, Spans js (n.token q) s.render := by
  have hspelled := h.spelled
  rw [hstr] at hspelled
  obtain ⟨s, hone, hle, ⟨pre, post, hjs, hpre, hlen⟩, pre', post', hjs', hpre', hlen'⟩ := hspelled
  refine ⟨s, hone, ?_, fun q => ⟨pre, post, hjs, hpre.symm, ?_⟩⟩
  · rw [hjs', List.length_append, List.length_append]
    omega
  · rw [hpre, hlen]
    rfl

theorem prim_spans {js : Bytes} {n : JsonTree.Node} {cs : Preorder.Forest JsonTree.Node}
    (h : JsonTree.Sound js n cs) (hprim : n.type = .prim) :
    ∃ p : Prim, ∀ q, Spans js (n.token q) p.render := by
  have hspelled := h.spelled
  rw [hprim] at hspelled
  obtain ⟨p, pre, post, hjs, hpre, hlen⟩ := hspelled
  refine ⟨p, fun q => ⟨pre, post, hjs, hpre.symm, ?_⟩⟩
  rw [hpre, hlen]
  rfl

/-- The extents of two leaves, the first of them a string. -/
theorem nodes_apart {js : Bytes} {n m : JsonTree.Node} {cs ds : Preorder.Forest JsonTree.Node}
    (hn : JsonTree.Sound js n cs) (hm : JsonTree.Sound js m ds) (hstr : n.type = .str)
    (hleaf : m.type = .str ∨ m.type = .prim) (h : n.last ≤ m.first ∨ m.last ≤ n.first) :
    n.stop < m.start ∨ m.stop < n.start := by
  obtain ⟨-, hone, -⟩ := string_spans hn hstr
  rw [JsonTree.Node.last, JsonTree.Node.first, JsonTree.Node.last, JsonTree.Node.first, if_pos hstr,
    if_pos hstr] at h
  rcases hleaf with hm' | hm'
  · obtain ⟨-, hone', -⟩ := string_spans hm hm'
    rw [if_pos hm', if_pos hm'] at h
    omega
  · have hne : m.type ≠ .str := by
      rw [hm']
      exact JsonType.noConfusion
    rw [if_neg hne, if_neg hne] at h
    omega

/-- **The strings and primitives of a text are apart.** -/
theorem jsonParse_apart {js : Bytes} {max : Nat} {toks : List JsonToken}
    (h : jsonParse js max = some toks) : Apart toks := by
  obtain ⟨-, d, hd, rfl⟩ := jsonParse_iff.mp h
  obtain ⟨-, hnested, hsound, htokens⟩ := JsonTree.tree_spec hd.text
  intro i j t u hij ht hu hstr hleaf
  rw [htokens] at ht hu
  obtain ⟨n, q, cs, hn, rfl⟩ := JsonTree.exists_token ht
  obtain ⟨m, r, ds, hm, rfl⟩ := JsonTree.exists_token hu
  have hroot : (-1 : Int) < (0 : Nat) := by decide
  have hsn := hn.everywhere hsound
  have hsm := hm.everywhere hsound
  change n.type = .str at hstr
  change m.type = .str ∨ m.type = .prim at hleaf
  -- neither has anything below it
  have hcs : ¬ cs ≠ Preorder.Forest.nil := by
    intro hne
    have hcontainer := hsn.container hne
    rw [hstr] at hcontainer
    exact hcontainer.elim JsonType.noConfusion JsonType.noConfusion
  have hds : ¬ ds ≠ Preorder.Forest.nil := by
    intro hne
    have hcontainer := hsm.container hne
    rcases hleaf with hleaf | hleaf
    · rw [hleaf] at hcontainer
      exact hcontainer.elim JsonType.noConfusion JsonType.noConfusion
    · rw [hleaf] at hcontainer
      exact hcontainer.elim JsonType.noConfusion JsonType.noConfusion
  have hextents : n.last ≤ m.first ∨ m.last ≤ n.first := by
    rcases Nat.lt_or_gt_of_ne hij with hlt | hlt
    · rcases Preorder.Entry.laminar hnested hroot hn hm hlt with h | ⟨hne, -⟩
      · exact .inl h
      · exact absurd hne hcs
    · rcases Preorder.Entry.laminar hnested hroot hm hn hlt with h | ⟨hne, -⟩
      · exact .inr h
      · exact absurd hne hds
  have hstops := nodes_apart hsn hsm hstr hleaf hextents
  show (n.stop : Int) < m.start ∨ (m.stop : Int) < n.start
  omega

/-! ## One string after another -/

/-- A byte of one of these tokens, the closing quote included. -/
def Belongs (toks : List JsonToken) (order : List Nat) (k : Nat) : Prop :=
  ∃ i ∈ order, ∃ t, toks[i]? = some t ∧ t.start ≤ k ∧ (k : Int) ≤ t.end_

/-- No byte changed but those of these tokens. -/
def Frame (toks : List JsonToken) (order : List Nat) (js json : Bytes) : Prop :=
  json.length = js.length ∧ ∀ k, ¬ Belongs toks order k → json[k]? = js[k]?

/-- A string without an encoded NUL. -/
structure Ready (toks : List JsonToken) (json : Bytes) (i : Nat) (t : JsonToken) (s : Str) :
    Prop where
  token : toks[i]? = some t
  type : t.type = .str
  spans : Spans json t s.render
  stop : t.end_ < json.length
  noNul : (0 : Byte) ∉ s.decode

theorem Belongs.head {toks : List JsonToken} {i k : Nat} {order : List Nat} {t : JsonToken}
    (ht : toks[i]? = some t) (hlo : t.start ≤ k) (hhi : (k : Int) ≤ t.end_) :
    Belongs toks (i :: order) k :=
  ⟨i, List.mem_cons_self, t, ht, hlo, hhi⟩

theorem Belongs.tail {toks : List JsonToken} {i k : Nat} {order : List Nat}
    (h : Belongs toks order k) : Belongs toks (i :: order) k := by
  obtain ⟨j, hj, hrest⟩ := h
  exact ⟨j, List.mem_cons_of_mem i hj, hrest⟩

/-- The bytes of another token are not among them. -/
theorem Apart.not_belongs {toks : List JsonToken} (hapart : Apart toks) {order : List Nat}
    (horder : ∀ i ∈ order, ∃ t, toks[i]? = some t ∧ t.type = .str) {j k : Nat} {u : JsonToken}
    (hj : j ∉ order) (hu : toks[j]? = some u) (hleaf : u.type = .str ∨ u.type = .prim)
    (hlo : u.start ≤ k) (hhi : (k : Int) ≤ u.end_) : ¬ Belongs toks order k := by
  rintro ⟨i, hi, t, ht, hlo', hhi'⟩
  obtain ⟨t', ht', hstr⟩ := horder i hi
  obtain rfl : t = t' := Option.some.inj (ht.symm.trans ht')
  have hij : i ≠ j := fun heq => hj (heq ▸ hi)
  rcases hapart i j t u hij ht hu hstr hleaf with h | h
  · omega
  · omega

theorem Spans.textAt {js text : Bytes} {t : JsonToken} (h : Spans js t text) :
    TextAt js t.start text ∧ t.end_ = (t.start + text.length : Nat) := by
  obtain ⟨pre, post, hjs, hstart, hend⟩ := h
  exact ⟨⟨pre, post, hjs, hstart.symm⟩, by rw [hstart, hend]⟩

/-- A token none of whose bytes changed is still spelled the same. -/
theorem Frame.spans {toks : List JsonToken} {order : List Nat} {js json text : Bytes}
    (hframe : Frame toks order js json) {u : JsonToken} (h : Spans js u text)
    (hsame : ∀ k : Nat, u.start ≤ k → (k : Int) ≤ u.end_ → ¬ Belongs toks order k) :
    Spans json u text := by
  obtain ⟨htext, hend⟩ := Spans.textAt h
  refine TextAt.spans (htext.of_agree hframe.1 fun k hlo hhi => ?_) rfl hend
  exact hframe.2 k (hsame k hlo (by omega))

/-- A string is unescaped over its own text, its terminator at most over the
    closing quote. -/
theorem unescapeInPlace_step {toks : List JsonToken} {json : Bytes} {i : Nat} {t : JsonToken}
    {s : Str} (h : Ready toks json i t s) :
    ∃ json', unescapeInPlace json t = some json' ∧ TextAt json' t.start (s.decode ++ [0])
      ∧ SameOutside json json' t.start (t.start + (s.render.length + 1)) := by
  obtain ⟨htext, hend⟩ := Spans.textAt h.spans
  have hstop := h.stop
  have hcap : s.render.length < (t.end_ - t.start).toNat + 1 := by omega
  have hlen : (s.decode ++ [0]).length ≤ s.render.length + 1 := by
    rw [List.length_append, List.length_singleton]
    exact Nat.succ_le_succ (Str.decode_length s)
  refine ⟨overwrite json t.start (s.decode ++ [0]), ?_, overwrite_textAt json (by omega), ?_⟩
  · rw [unescapeInPlace_eq (by omega) hstop, JsonAccess.unescapeInPlace,
      if_pos ((stringHasNoNul_iff h.spans).mpr h.noNul), h.spans.jsonCopyStr h.type hcap]
  · exact (overwrite_sameOutside json (by omega)).mono (Nat.le_refl _) (by omega)

/-- **Strings unescaped one after another** are all there in the end, and nothing
    else changed. -/
theorem unescapeAll_run {toks : List JsonToken} (hapart : Apart toks) {order : List Nat} :
    ∀ {json : Bytes}, order.Nodup → (∀ i ∈ order, ∃ t s, Ready toks json i t s) →
      ∃ json', unescapeAll toks order json = some json' ∧ Frame toks order json json'
        ∧ ∀ i ∈ order, ∀ t s, Ready toks json i t s → TextAt json' t.start (s.decode ++ [0]) := by
  induction order with
  | nil => exact fun {json} _ _ => ⟨json, rfl, ⟨rfl, fun _ _ => rfl⟩, fun _ hi => nomatch hi⟩
  | cons i order ih =>
      intro json hnodup hready
      obtain ⟨hi, hnodup⟩ := List.nodup_cons.mp hnodup
      obtain ⟨t, s, ht⟩ := hready i List.mem_cons_self
      obtain ⟨json1, hstep, htext1, hsame1⟩ := unescapeInPlace_step ht
      obtain ⟨-, hend⟩ := Spans.textAt ht.spans
      -- the strings to come are still spelled the same
      have hnext : ∀ j ∈ order, ∀ u s', Ready toks json j u s' → Ready toks json1 j u s' := by
        intro j hj u s' hu
        have hij : i ≠ j := fun heq => hi (heq ▸ hj)
        obtain ⟨htextu, hendu⟩ := Spans.textAt hu.spans
        have hbytes := hapart i j t u hij ht.token hu.token ht.type (.inl hu.type)
        have hspans : Spans json1 u s'.render :=
          TextAt.spans (htextu.of_sameOutside hsame1 (by omega)) rfl hendu
        exact ⟨hu.token, hu.type, hspans, hsame1.1 ▸ hu.stop, hu.noNul⟩
      have hready1 : ∀ j ∈ order, ∃ u s', Ready toks json1 j u s' := by
        intro j hj
        obtain ⟨u, s', hu⟩ := hready j (List.mem_cons_of_mem i hj)
        exact ⟨u, s', hnext j hj u s' hu⟩
      obtain ⟨json2, hrun, hframe, htexts⟩ := ih hnodup hready1
      have horder : ∀ j ∈ order, ∃ u, toks[j]? = some u ∧ u.type = .str := by
        intro j hj
        obtain ⟨u, s', hu⟩ := hready1 j hj
        exact ⟨u, hu.token, hu.type⟩
      refine ⟨json2, ?_, ⟨hframe.1.trans hsame1.1, fun k hk => ?_⟩, ?_⟩
      · rw [unescapeAll, ht.token]
        dsimp only
        rw [hstep]
        exact hrun
      · have hout : k < t.start ∨ t.start + (s.render.length + 1) ≤ k := by
          by_contra hin
          exact hk (.head ht.token (by omega) (by omega))
        exact (hframe.2 k fun h => hk h.tail).trans (hsame1.2 k hout)
      · intro j hj u s' hu
        rcases List.mem_cons.mp hj with rfl | hj
        · obtain rfl : t = u := Option.some.inj (ht.token.symm.trans hu.token)
          have hdecode : s'.decode = s.decode :=
            JsonUnique.decode_eq (hu.spans.slice.symm.trans ht.spans.slice)
          have hlen := Str.decode_length s
          rw [hdecode]
          refine htext1.of_agree hframe.1 fun k hlo hhi => hframe.2 k ?_
          rw [List.length_append, List.length_singleton] at hhi
          exact hapart.not_belongs horder hi ht.token (.inl ht.type) hlo (by omega)
        · exact htexts j hj u s' (hnext j hj u s' hu)

/-! ## A body -/

/-- A token reads as it did before. -/
structure ReadsAlike (js json : Bytes) (t : JsonToken) : Prop where
  slice : slice json t = slice js t
  copy : ∀ outsz, jsonCopyStr json t outsz = jsonCopyStr js t outsz
  long : jsonTokenLongChecked json t = jsonTokenLongChecked js t
  double : ∀ strtod, jsonTokenDoubleChecked strtod json t = jsonTokenDoubleChecked strtod js t
  bool : jsonTokenBoolChecked json t = jsonTokenBoolChecked js t
  null : RuntimeBody.nullToken json t = RuntimeBody.nullToken js t

theorem ReadsAlike.of_slice {js json : Bytes} {t : JsonToken}
    (h : JsonParse.slice json t = JsonParse.slice js t) : ReadsAlike js json t where
  slice := h
  copy outsz := by rw [jsonCopyStr, jsonCopyStr, h]
  long := by rw [jsonTokenLongChecked, jsonTokenLongChecked, tokenText, tokenText, h]
  double strtod := by rw [jsonTokenDoubleChecked, jsonTokenDoubleChecked, tokenText, tokenText, h]
  bool := by rw [jsonTokenBoolChecked, jsonTokenBoolChecked, h]
  null := by rw [RuntimeBody.nullToken, RuntimeBody.nullToken, h]

/-- The body after these strings were unescaped: each is there, terminated, where
    its token starts, no byte outside of them changed, and the other leaves read
    as before. -/
structure Unescaped (toks : List JsonToken) (order : List Nat) (js json : Bytes) : Prop where
  decoded : ∀ i ∈ order, ∀ (t : JsonToken) (s : Str), toks[i]? = some t → Spans js t s.render →
    TextAt json t.start (s.decode ++ [0]) ∧ cstr (json.drop t.start) = s.decode
  frame : Frame toks order js json
  others : ∀ (j : Nat) (u : JsonToken), j ∉ order → toks[j]? = some u →
    u.type = .str ∨ u.type = .prim → ReadsAlike js json u

/-- A string or a primitive spells something. -/
theorem leaf_spans {js : Bytes} {max : Nat} {toks : List JsonToken}
    (h : jsonParse js max = some toks) {i : Nat} {t : JsonToken} (ht : toks[i]? = some t) :
    (t.type = .str → ∃ s : Str, Spans js t s.render ∧ t.end_ < js.length)
      ∧ (t.type = .prim → ∃ p : Prim, Spans js t p.render) := by
  obtain ⟨-, d, hd, rfl⟩ := jsonParse_iff.mp h
  obtain ⟨-, -, hsound, htokens⟩ := JsonTree.tree_spec hd.text
  rw [htokens] at ht
  obtain ⟨n, q, cs, hn, rfl⟩ := JsonTree.exists_token ht
  have hsn := hn.everywhere hsound
  refine ⟨fun hstr => ?_, fun hprim => ?_⟩
  · obtain ⟨s, -, hstop, hspans⟩ := string_spans hsn hstr
    exact ⟨s, hspans q, Int.ofNat_lt.mpr hstop⟩
  · obtain ⟨p, hspans⟩ := prim_spans hsn hprim
    exact ⟨p, hspans q⟩

/-- **Unescaping in place**: for every accepted text and strings of it without an
    encoded NUL, in every order. -/
theorem unescape_in_place {js : Bytes} {max : Nat} {toks : List JsonToken} {order : List Nat}
    (hparse : jsonParse js max = some toks) (hnodup : order.Nodup)
    (hstrings : ∀ i ∈ order, ∃ t, toks[i]? = some t ∧ t.type = .str
      ∧ ∀ s : Str, Spans js t s.render → (0 : Byte) ∉ s.decode) :
    ∃ json, unescapeAll toks order js = some json ∧ Unescaped toks order js json := by
  have hapart := jsonParse_apart hparse
  have hready : ∀ i ∈ order, ∀ t s, toks[i]? = some t → Spans js t s.render →
      Ready toks js i t s := by
    intro i hi t s ht hs
    obtain ⟨t', ht', hstr, hnul⟩ := hstrings i hi
    obtain rfl : t = t' := Option.some.inj (ht.symm.trans ht')
    obtain ⟨-, -, hstop⟩ := (leaf_spans hparse ht).1 hstr
    exact ⟨ht, hstr, hs, hstop, hnul s hs⟩
  have hall : ∀ i ∈ order, ∃ t s, Ready toks js i t s := by
    intro i hi
    obtain ⟨t, ht, hstr, -⟩ := hstrings i hi
    obtain ⟨s, hs, -⟩ := (leaf_spans hparse ht).1 hstr
    exact ⟨t, s, hready i hi t s ht hs⟩
  obtain ⟨json, hrun, hframe, htexts⟩ := unescapeAll_run hapart hnodup hall
  refine ⟨json, hrun, ⟨fun i hi t s ht hs => ?_, hframe, fun j u hj hu hleaf => ?_⟩⟩
  · have h := hready i hi t s ht hs
    have htext := htexts i hi t s h
    exact ⟨htext, cstr_textAt htext h.noNul⟩
  · have horder : ∀ i ∈ order, ∃ t, toks[i]? = some t ∧ t.type = .str := by
      intro i hi
      obtain ⟨t, ht, hstr, -⟩ := hstrings i hi
      exact ⟨t, ht, hstr⟩
    have hbytes : ∀ k : Nat, u.start ≤ k → (k : Int) ≤ u.end_ → ¬ Belongs toks order k :=
      fun k hlo hhi => hapart.not_belongs horder hj hu hleaf hlo hhi
    have hspans : ∃ text, Spans js u text := by
      rcases hleaf with hstr | hprim
      · obtain ⟨s, hs, -⟩ := (leaf_spans hparse hu).1 hstr
        exact ⟨_, hs⟩
      · obtain ⟨p, hp⟩ := (leaf_spans hparse hu).2 hprim
        exact ⟨_, hp⟩
    obtain ⟨text, htext⟩ := hspans
    exact .of_slice ((hframe.spans htext hbytes).slice.trans htext.slice.symm)

/-- Two strings, the second one first. -/
theorem unescape_in_place_two :
    ∃ json, unescapeAll [⟨.arr, 0, 10, -1⟩, ⟨.str, 2, 4, 0⟩, ⟨.str, 7, 8, 0⟩] [2, 1]
        (lit "[\"\\n\",\"a\"]") = some json
      ∧ Unescaped [⟨.arr, 0, 10, -1⟩, ⟨.str, 2, 4, 0⟩, ⟨.str, 7, 8, 0⟩] [2, 1]
          (lit "[\"\\n\",\"a\"]") json := by
  refine @unescape_in_place _ 8 _ _ (by decide +kernel) (by decide) fun i hi => ?_
  rcases List.mem_cons.mp hi with rfl | hi
  · exact ⟨_, rfl, rfl, fun s hs => (stringHasNoNul_iff hs).mp (by decide)⟩
  · obtain rfl := List.mem_singleton.mp hi
    exact ⟨_, rfl, rfl, fun s hs => (stringHasNoNul_iff hs).mp (by decide)⟩

end UnescapeInPlace
