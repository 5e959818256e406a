import Gargantua.JsonLexical

/-! # What `json_copy_str` writes

    A string token is decoded by a loop of its own, which checks the escapes
    again and stops where the output is full.  Over the text of a string it
    never stops early: it writes the text that the string stands for. -/

namespace JsonDecode

open CString JsonParse JsonGrammar JsonLexical

/-! ## Encoding -/

theorem or_lead {x : Nat} : ∀ {n : Nat}, n < 2 ^ x → ∀ a : Nat, (a <<< x) ||| n = a <<< x + n :=
  fun h _ => (Nat.shiftLeft_add_eq_or_of_lt h _).symm

theorem or_tail (n : Nat) : 0x80 ||| (n &&& 0x3F) = 0x80 + n % 64 := by
  have hand : n &&& 0x3F = n % 64 := Nat.and_two_pow_sub_one_eq_mod n 6
  rw [hand]
  exact or_lead (x := 6) (n := n % 64) (Nat.mod_lt n (by decide)) 2

theorem shift_div (n k : Nat) : n >>> k = n / 2 ^ k := Nat.shiftRight_eq_div_pow n k

theorem encode_length (c : Char) :
    0 < (String.utf8EncodeChar c).length ∧ (String.utf8EncodeChar c).length ≤ 4 := by
  by_cases h1 : c.toNat ≤ 0x7F
  · rw [Utf8.encode_one h1]
    exact ⟨by simp, by simp⟩
  by_cases h2 : c.toNat ≤ 0x7FF
  · rw [Utf8.encode_two (by omega) h2]
    exact ⟨by simp, by simp⟩
  by_cases h3 : c.toNat ≤ 0xFFFF
  · rw [Utf8.encode_three (by omega) h3]
    exact ⟨by simp, by simp⟩
  · rw [Utf8.encode_four (by omega)]
    exact ⟨by simp, by simp⟩

/-- `utf8_encode` with room for the encoding is the encoder of the library. -/
theorem utf8Encode_eq (c : Char) {cap : Nat} (hcap : (String.utf8EncodeChar c).length ≤ cap) :
    utf8Encode c.toNat cap = String.utf8EncodeChar c := by
  have hmax := Utf8.toNat_le c
  rw [utf8Encode]
  by_cases h1 : c.toNat ≤ 0x7F
  · rw [Utf8.encode_one h1] at hcap ⊢
    rw [if_pos ⟨h1, hcap⟩]
  by_cases h2 : c.toNat ≤ 0x7FF
  · have hlead : 0xC0 ||| c.toNat >>> 6 = 0xC0 + c.toNat / 64 := by
      rw [shift_div]
      exact or_lead (x := 5) (show c.toNat / 64 < 2 ^ 5 by omega) 6
    rw [Utf8.encode_two (by omega) h2] at hcap ⊢
    rw [if_neg (fun h => h1 h.1), if_pos ⟨h2, hcap⟩, hlead, or_tail]
  by_cases h3 : c.toNat ≤ 0xFFFF
  · have hlead : 0xE0 ||| c.toNat >>> 12 = 0xE0 + c.toNat / 4096 := by
      rw [shift_div]
      exact or_lead (x := 4) (show c.toNat / 4096 < 2 ^ 4 by omega) 14
    have hmid : c.toNat >>> 6 = c.toNat / 64 := shift_div _ 6
    rw [Utf8.encode_three (by omega) h3] at hcap ⊢
    rw [if_neg (fun h => h1 h.1), if_neg (fun h => h2 h.1), if_pos ⟨h3, hcap⟩, hlead, or_tail,
      or_tail, hmid]
  · have hlead : 0xF0 ||| c.toNat >>> 18 = 0xF0 + c.toNat / 262144 := by
      rw [shift_div]
      exact or_lead (x := 3) (show c.toNat / 262144 < 2 ^ 3 by omega) 30
    have hmid : c.toNat >>> 12 = c.toNat / 4096 := shift_div _ 12
    have hmid' : c.toNat >>> 6 = c.toNat / 64 := shift_div _ 6
    rw [Utf8.encode_four (by omega)] at hcap ⊢
    rw [if_neg (fun h => h1 h.1), if_neg (fun h => h2 h.1), if_neg (fun h => h3 h.1),
      if_pos ⟨hmax, hcap⟩, hlead, or_tail, or_tail, or_tail, hmid, hmid']

/-- How long an encoding is, by the ranges that `utf8_encode` compares with. -/
theorem encode_length_le (c : Char) :
    (c.toNat ≤ 0x7F → (String.utf8EncodeChar c).length ≤ 1)
      ∧ (c.toNat ≤ 0x7FF → (String.utf8EncodeChar c).length ≤ 2)
      ∧ (c.toNat ≤ 0xFFFF → (String.utf8EncodeChar c).length ≤ 3) := by
  by_cases h1 : c.toNat ≤ 0x7F
  · rw [Utf8.encode_one h1]
    simp
  by_cases h2 : c.toNat ≤ 0x7FF
  · rw [Utf8.encode_two (by omega) h2]
    simp [h1]
  by_cases h3 : c.toNat ≤ 0xFFFF
  · rw [Utf8.encode_three (by omega) h3]
    simp [h1, h2]
  · exact ⟨fun h => absurd h h1, fun h => absurd h h2, fun h => absurd h h3⟩

/-- Without that room it writes nothing. -/
theorem utf8Encode_nil (c : Char) {cap : Nat} (hcap : cap < (String.utf8EncodeChar c).length) :
    utf8Encode c.toNat cap = [] := by
  obtain ⟨h1, h2, h3⟩ := encode_length_le c
  have h4 := (encode_length c).2
  have hone : ¬ (c.toNat ≤ 0x7F ∧ cap ≥ 1) := fun h => by
    have hlen := h1 h.1
    omega
  have htwo : ¬ (c.toNat ≤ 0x7FF ∧ cap ≥ 2) := fun h => by
    have hlen := h2 h.1
    omega
  have hthree : ¬ (c.toNat ≤ 0xFFFF ∧ cap ≥ 3) := fun h => by
    have hlen := h3 h.1
    omega
  have hfour : ¬ (c.toNat ≤ 0x10FFFF ∧ cap ≥ 4) := fun h => by omega
  rw [utf8Encode, if_neg hone, if_neg htwo, if_neg hthree, if_neg hfour]

/-! ## Lengths -/

/-- A character stands for no more bytes than it is written with. -/
theorem Chr.decode_length (ch : Chr) : ch.decode.length ≤ ch.render.length := by
  cases ch with
  | scalar c h => exact Nat.le_refl _
  | escape e => exact Nat.le_succ 1
  | unicode u h1 h2 =>
      have hlen : (Chr.unicode u h1 h2).render.length = 6 := rfl
      have henc := encode_length (Utf8.scalar u.value (unicode_valid h1 h2))
      rw [Chr.decode]
      omega
  | pair hi lo h1 h2 =>
      have hlen : (Chr.pair hi lo h1 h2).render.length = 12 := rfl
      have henc := encode_length (Utf8.scalar (pairValue hi lo) (pair_valid h1 h2))
      rw [Chr.decode]
      omega

theorem Str.decode_length (s : Str) : s.decode.length ≤ s.render.length := by
  induction s with
  | nil => exact Nat.le_refl _
  | cons ch s ih =>
      have hdec : (Str.decode (ch :: s)).length = ch.decode.length + (Str.decode s).length :=
        List.length_append
      have hren : (Str.render (ch :: s)).length = ch.render.length + (Str.render s).length :=
        List.length_append
      have hch := Chr.decode_length ch
      omega

/-! ## The loop -/

theorem copyEscape_letter (e : Escape) (cap : Nat) (js : Bytes) :
    copyEscape cap (e.letter :: js) = some ([e.byte], js) := by
  cases e <;> rfl

theorem copyEscape_hex (u : Hex4) (cap : Nat) (js : Bytes) :
    copyEscape cap (0x75 :: (u.render ++ js))
      = if 0xD800 ≤ u.value ∧ u.value ≤ 0xDBFF ∧ js.length ≥ 6
            ∧ js.head? = some BACKSLASH ∧ (js.drop 1).head? = some 0x75 then
          match readHex4 (js.drop 2) with
          | none => none
          | some second =>
              some (utf8Encode ((0x10000 + (u.value - 0xD800) <<< 10
                + (second + 2 ^ 32 - 0xDC00)) % 2 ^ 32) cap, js.drop 6)
        else some (utf8Encode u.value cap, js) := by
  have h : copyEscape cap (0x75 :: (u.render ++ js))
      = match readHex4 (u.render ++ js) with
        | none => none
        | some first =>
            if 0xD800 ≤ first ∧ first ≤ 0xDBFF ∧ ((u.render ++ js).drop 4).length ≥ 6
                ∧ ((u.render ++ js).drop 4).head? = some BACKSLASH
                ∧ ((u.render ++ js).drop 5).head? = some 0x75 then
              match readHex4 ((u.render ++ js).drop 6) with
              | none => none
              | some second =>
                  some (utf8Encode ((0x10000 + (first - 0xD800) <<< 10
                    + (second + 2 ^ 32 - 0xDC00)) % 2 ^ 32) cap, (u.render ++ js).drop 10)
            else some (utf8Encode first cap, (u.render ++ js).drop 4) := rfl
  rw [h, readHex4_complete]
  rfl

theorem copyEscape_unicode {u : Hex4} (h1 : ¬ IsHighSurrogate u.value)
    (h2 : ¬ IsLowSurrogate u.value) (cap : Nat) (js : Bytes) :
    copyEscape cap (0x75 :: (u.render ++ js))
      = some (utf8Encode (Utf8.scalar u.value (unicode_valid h1 h2)).toNat cap, js) := by
  rw [copyEscape_hex, if_neg (fun h => h1 ⟨h.1, h.2.1⟩), Utf8.scalar_toNat]

theorem copyEscape_pair {hi lo : Hex4} (h1 : IsHighSurrogate hi.value)
    (h2 : IsLowSurrogate lo.value) (cap : Nat) (js : Bytes) :
    copyEscape cap (0x75 :: (hi.render ++ 0x5C :: 0x75 :: (lo.render ++ js)))
      = some (utf8Encode (Utf8.scalar (pairValue hi lo) (pair_valid h1 h2)).toNat cap, js) := by
  have hvalue : (0x10000 + (hi.value - 0xD800) <<< 10
      + (lo.value + 2 ^ 32 - 0xDC00)) % 2 ^ 32 = pairValue hi lo := by
    -- the sum passes `2^32` once, where the low half is subtracted
    have hb := pairValue_bounds h1 h2 rfl
    have hshift : (hi.value - 0xD800) <<< 10 = (hi.value - 0xD800) * 1024 :=
      Nat.shiftLeft_eq _ _
    have hp : pairValue hi lo
        = 0x10000 + (hi.value - 0xD800) * 1024 + (lo.value - 0xDC00) := rfl
    have hlow : 0xDC00 ≤ lo.value := h2.1
    rw [hshift]
    omega
  have hlen := pair_length lo js
  rw [copyEscape_hex, if_pos ⟨h1.1, h1.2, Nat.not_lt.mp hlen, rfl, rfl⟩]
  show (match readHex4 (lo.render ++ js) with
    | none => none
    | some second => some (utf8Encode ((0x10000 + (hi.value - 0xD800) <<< 10
        + (second + 2 ^ 32 - 0xDC00)) % 2 ^ 32) cap, js)) = _
  rw [readHex4_complete]
  dsimp only
  rw [hvalue, Utf8.scalar_toNat]

section Loop

variable (outsz : Nat)

/-- Bytes that are no backslash are copied. -/
theorem copyLoop_plain {bs : Bytes} (hbs : ∀ c ∈ bs, c ≠ BACKSLASH) (js : Bytes) :
    ∀ {fuel o : Nat}, o + bs.length < outsz →
      copyLoop true outsz (bs.length + fuel) o (bs ++ js)
        = bs ++ copyLoop true outsz fuel (o + bs.length) js := by
  induction bs with
  | nil =>
      intro fuel o _
      rw [List.length_nil, Nat.zero_add, Nat.add_zero, List.nil_append, List.nil_append]
  | cons c bs ih =>
      intro fuel o ho
      rw [List.length_cons] at ho
      have hc : (!true || c != BACKSLASH) = true := by
        rw [Bool.or_eq_true]
        exact Or.inr (bne_iff_ne.mpr (hbs c List.mem_cons_self))
      have hfuel : (c :: bs).length + fuel = (bs.length + fuel) + 1 := by
        rw [List.length_cons]
        omega
      rw [hfuel, List.cons_append, copyLoop, if_pos (by omega), if_pos hc,
        ih (fun d hd => hbs d (List.mem_cons_of_mem c hd)) (by omega), List.length_cons,
        Nat.add_assoc, Nat.add_comm 1 bs.length]
      rfl

/-- An escape is decoded. -/
theorem copyLoop_escape {fuel o : Nat} {esc js out : Bytes} (ho : o + 1 < outsz)
    (h : copyEscape (outsz - o - 1) (esc ++ js) = some (out, js)) :
    copyLoop true outsz (fuel + 1) o (BACKSLASH :: (esc ++ js))
      = out ++ copyLoop true outsz fuel (o + out.length) js := by
  rw [copyLoop, if_pos ho, if_neg (by decide), h]

/-- A scalar value stands unescaped without a backslash. -/
theorem scalar_no_backslash {c : Char} (h : c.toNat ≠ 0x5C) :
    ∀ b ∈ String.utf8EncodeChar c, b ≠ BACKSLASH := by
  intro b hb heq
  have hnat : b.toNat = 0x5C := congrArg UInt8.toNat heq
  rcases Utf8.encode_bytes hb with ⟨-, hc, -⟩ | ⟨-, h80⟩
  · exact h (hc.symm.trans hnat)
  · rw [UInt8.le_iff_toNat_le, hnat] at h80
    exact absurd h80 (by decide)

/-- One character: the loop writes what it stands for, and has fuel left for the
    text behind it. -/
theorem copyLoop_char (ch : Chr) (js : Bytes) {fuel o : Nat}
    (hfuel : ch.render.length + js.length ≤ fuel) (ho : o + ch.render.length < outsz) :
    ∃ fuel' : Nat, js.length ≤ fuel' ∧
      copyLoop true outsz fuel o (ch.render ++ js)
        = ch.decode ++ copyLoop true outsz fuel' (o + ch.decode.length) js := by
  cases ch with
  | scalar c h =>
      obtain ⟨k, rfl⟩ := Nat.exists_eq_add_of_le (Nat.le_trans (Nat.le_add_right _ _) hfuel)
      exact ⟨k, by omega, copyLoop_plain outsz (scalar_no_backslash h.2.2) js ho⟩
  | escape e =>
      have hlen : (Chr.escape e).render.length = 2 := rfl
      obtain ⟨k, rfl⟩ := Nat.exists_eq_add_of_le' (show 1 ≤ fuel by omega)
      exact ⟨k, by omega, @copyLoop_escape outsz _ _ ([e.letter]) _ _ (by omega)
        (copyEscape_letter e _ js)⟩
  | unicode u h1 h2 =>
      have hlen : (Chr.unicode u h1 h2).render.length = 6 := rfl
      obtain ⟨k, rfl⟩ := Nat.exists_eq_add_of_le' (show 1 ≤ fuel by omega)
      have hesc := copyEscape_unicode h1 h2 (outsz - o - 1) js
      rw [utf8Encode_eq _ (Nat.le_trans (encode_length _).2 (by omega))] at hesc
      exact ⟨k, by omega, @copyLoop_escape outsz _ _ (0x75 :: u.render) _ _ (by omega) hesc⟩
  | pair hi lo h1 h2 =>
      have hlen : (Chr.pair hi lo h1 h2).render.length = 12 := rfl
      obtain ⟨k, rfl⟩ := Nat.exists_eq_add_of_le' (show 1 ≤ fuel by omega)
      have hesc := copyEscape_pair h1 h2 (outsz - o - 1) js
      rw [utf8Encode_eq _ (Nat.le_trans (encode_length _).2 (by omega))] at hesc
      exact ⟨k, by omega, @copyLoop_escape outsz _ _
        (0x75 :: (hi.render ++ 0x5C :: 0x75 :: lo.render)) _ _ (by omega) hesc⟩

/-- **Over the text of a string the loop writes what the string stands for**,
    when the output has room for as many bytes as the text. -/
theorem copyLoop_complete (s : Str) :
    ∀ {fuel o : Nat}, s.render.length ≤ fuel → o + s.render.length < outsz →
      copyLoop true outsz fuel o s.render = s.decode := by
  induction s with
  | nil =>
      intro fuel o _ _
      cases fuel <;> rfl
  | cons ch s ih =>
      intro fuel o hfuel ho
      have hlen : (Str.render (ch :: s)).length = ch.render.length + (Str.render s).length :=
        List.length_append
      have hdec := Chr.decode_length ch
      rw [hlen] at hfuel ho
      obtain ⟨fuel', hf, heq⟩ :=
        copyLoop_char outsz ch (Str.render s) hfuel (o := o) (by omega)
      show copyLoop true outsz fuel o (ch.render ++ Str.render s) = _
      rw [heq, ih hf (by omega)]
      rfl

end Loop

/-! ## Tokens -/

/-- The token spans `text`. -/
def Spans (js : Bytes) (t : JsonToken) (text : Bytes) : Prop :=
  ∃ pre post : Bytes, js = pre ++ (text ++ post) ∧ t.start = pre.length
    ∧ t.end_ = (pre.length + text.length : Nat)

theorem Spans.slice {js : Bytes} {t : JsonToken} {text : Bytes} (h : Spans js t text) :
    slice js t = text := by
  obtain ⟨pre, post, hjs, hstart, hend⟩ := h
  rw [JsonParse.slice, hjs, hstart, hend, List.drop_left, Int.toNat_natCast,
    Nat.add_sub_cancel_left, List.take_left]

/-- `json_copy_str` of a string token decodes it, when the output has room. -/
theorem Spans.jsonCopyStr {js : Bytes} {t : JsonToken} {s : Str} (h : Spans js t s.render)
    (htype : t.type = .str) {outsz : Nat} (hsize : s.render.length < outsz) :
    jsonCopyStr js t outsz = s.decode := by
  have hslice := h.slice
  obtain ⟨pre, post, -, hstart, hend⟩ := h
  rw [JsonParse.jsonCopyStr, if_neg, hslice, htype]
  · exact copyLoop_complete outsz s (Nat.le_refl _) (by omega)
  · rw [hstart, hend]
    omega

end JsonDecode
