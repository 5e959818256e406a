import Gargantua.GeneratorText
import Gargantua.JsonLanguage

/-! # Reading tokens (`src/http/json.c`, `src/runtime/runtime_body.c`)

    What the body reader asks of the token array: the value of a name in an
    object, a number or a boolean, and a string decoded where it stands in the
    text.  Each is related to the derivation that the tokens come from. -/

namespace JsonAccess

open CString JsonParse JsonGrammar JsonDecode JsonMachine GeneratorText

/-! ## Names -/

section Object

variable (js : Bytes) (ntok obj : Nat) (objEnd : Int) (key : Bytes)

/-- The loop of `json_object_get`, from the token at `i` on. -/
def objectGetLoop : Nat → Nat → List JsonToken → Option Nat
  | _, _, [] => none
  | i, direct, t :: toks =>
      if ¬ (t.start : Int) < objEnd then none
      else if t.parent ≠ obj then objectGetLoop (i + 1) direct toks
      else if direct % 2 = 0 ∧ t.type = .str ∧ 0 ≤ t.end_ - t.start
          ∧ t.end_ - t.start < JSON_MAX_KEY_BYTES
          ∧ cstr (jsonCopyStr js t JSON_MAX_KEY_BYTES) = key then
        if i + 1 < ntok then some (i + 1) else none
      else objectGetLoop (i + 1) (direct + 1) toks

end Object

/-- `json_object_get`, `-1` being `none`. -/
def jsonObjectGet (js : Bytes) (toks : List JsonToken) (obj : Nat) (key : Bytes) : Option Nat :=
  match toks[obj]? with
  | none => none
  | some t =>
      if t.type ≠ .obj then none
      else if key.length ≥ JSON_MAX_KEY_BYTES then none
      else objectGetLoop js toks.length obj t.end_ key (obj + 1) 0 (toks.drop (obj + 1))

/-! ## Numbers and booleans -/

/-- `token_text`. -/
def tokenText (js : Bytes) (t : JsonToken) (cap : Nat) : Option Bytes :=
  if t.type ≠ .prim ∨ t.end_ ≤ t.start then none
  else if (slice js t).length ≥ cap then none
  else some (slice js t)

/-- `json_token_long_checked`. -/
def jsonTokenLongChecked (js : Bytes) (t : JsonToken) : Option Int :=
  match tokenText js t 128 with
  | none => none
  | some text =>
      if (strtol text).errno ∨ (strtol text).found = false ∨ (strtol text).rest ≠ [] then none
      else some (strtol text).value

/-- `strtod`, of the C library. -/
abbrev Strtod := Bytes → GeneratorText.Number LongDouble

/-- `json_token_double_checked`. -/
def jsonTokenDoubleChecked (strtod : Strtod) (js : Bytes) (t : JsonToken) : Option LongDouble :=
  match tokenText js t 128 with
  | none => none
  | some text =>
      if (strtod text).errno ∨ (strtod text).found = false ∨ (strtod text).rest ≠ []
          ∨ (strtod text).value.isFinite = false then none
      else some (strtod text).value

/-- `json_token_bool_checked`. -/
def jsonTokenBoolChecked (js : Bytes) (t : JsonToken) : Option Bool :=
  if t.type ≠ .prim ∨ t.end_ < t.start then none
  else if slice js t = lit "true" then some true
  else if slice js t = lit "false" then some false
  else none

/-! ## Strings -/

/-- The loop of `string_has_no_nul`. -/
def noNulLoop : Nat → Bytes → Bool
  | 0, _ => true
  | _ + 1, [] => true
  | fuel + 1, c :: s =>
      if c ≠ BACKSLASH then noNulLoop fuel s
      else
        match s with
        | [] => false
        | d :: s =>
            if d = 0x75 then
              if s.length < 4 then false
              else if s.take 4 = lit "0000" then false
              else noNulLoop fuel (s.drop 4)
            else noNulLoop fuel s

/-- `string_has_no_nul(js, t) == 0`. -/
def stringHasNoNul (js : Bytes) (t : JsonToken) : Bool :=
  noNulLoop (slice js t).length (slice js t)

/-- `memcpy(js + start, bytes, n)`. -/
def overwrite (js : Bytes) (start : Nat) (bytes : Bytes) : Bytes :=
  js.take start ++ (bytes ++ js.drop (start + bytes.length))

/-- `unescape_in_place`: the text behind it. -/
def unescapeInPlace (js : Bytes) (t : JsonToken) : Option Bytes :=
  if stringHasNoNul js t then
    some (overwrite js t.start (jsonCopyStr js t ((t.end_ - t.start).toNat + 1) ++ [0]))
  else none

/-! ## Encoded NULs -/

theorem scalar_no_nul {c : Char} (h : 0x20 ≤ c.toNat) : (0 : Byte) ∉ String.utf8EncodeChar c := by
  have hmax := Utf8.toNat_le c
  have hbyte : ∀ n : Nat, n < 256 → n ≠ 0 → (0 : Byte) ≠ UInt8.ofNat n := by
    intro n hn hne heq
    apply hne
    rw [← UInt8.toNat_ofNat_of_lt' (show n < 256 from hn), ← heq]
    rfl
  by_cases h1 : c.toNat ≤ 0x7F
  · rw [Utf8.encode_one h1]
    simp only [List.mem_singleton]
    exact hbyte _ (by omega) (by omega)
  by_cases h2 : c.toNat ≤ 0x7FF
  · rw [Utf8.encode_two (by omega) h2]
    simp only [List.mem_cons, List.not_mem_nil, or_false, not_or]
    exact ⟨hbyte _ (by omega) (by omega), hbyte _ (by omega) (by omega)⟩
  by_cases h3 : c.toNat ≤ 0xFFFF
  · rw [Utf8.encode_three (by omega) h3]
    simp only [List.mem_cons, List.not_mem_nil, or_false, not_or]
    exact ⟨hbyte _ (by omega) (by omega), hbyte _ (by omega) (by omega),
      hbyte _ (by omega) (by omega)⟩
  · rw [Utf8.encode_four (by omega)]
    simp only [List.mem_cons, List.not_mem_nil, or_false, not_or]
    exact ⟨hbyte _ (by omega) (by omega), hbyte _ (by omega) (by omega),
      hbyte _ (by omega) (by omega), hbyte _ (by omega) (by omega)⟩

/-- Four digits spell zero when each is `0`. -/
theorem Hex4.value_eq_zero_iff (u : Hex4) : u.value = 0 ↔ u.render = lit "0000" := by
  have hdigit : ∀ h : HexDigit, h.value = 0 ↔ h.byte = 0x30 := by
    rintro ⟨b, hb⟩
    rw [HexDigit.value]
    have h0 : b = 0x30 ↔ b.toNat = 48 := UInt8.toNat_inj.symm
    simp only [UInt8.le_iff_toNat_le, UInt8.reduceToNat] at hb ⊢
    rw [h0]
    split_ifs
    · omega
    · exact ⟨False.elim, fun h => by omega⟩
    · exact ⟨False.elim, fun h => by omega⟩
  have hren : u.render = lit "0000"
      ↔ u.a.byte = 0x30 ∧ u.b.byte = 0x30 ∧ u.c.byte = 0x30 ∧ u.d.byte = 0x30 := by
    show [u.a.byte, u.b.byte, u.c.byte, u.d.byte] = [0x30, 0x30, 0x30, 0x30] ↔ _
    simp only [List.cons.injEq, and_true]
  rw [hren, ← hdigit, ← hdigit, ← hdigit, ← hdigit, Hex4.value]
  omega

/-- What a scalar value encodes to holds a NUL only if it is zero. -/
theorem encode_nul_iff (n : Nat) (h : n.isValidChar) :
    (0 : Byte) ∈ String.utf8EncodeChar (Utf8.scalar n h) ↔ n = 0 := by
  have hn := Utf8.scalar_toNat n h
  by_cases h0 : n = 0
  · subst h0
    rw [Utf8.encode_one (by omega), hn]
    exact ⟨fun _ => rfl, fun _ => List.mem_cons_self⟩
  · refine ⟨fun hmem => ?_, fun h' => absurd h' h0⟩
    by_cases h1 : n ≤ 0x7F
    · rw [Utf8.encode_one (by omega), hn, List.mem_singleton] at hmem
      have hz : (UInt8.ofNat n).toNat = n := UInt8.toNat_ofNat_of_lt' (show n < 256 by omega)
      rw [← hmem] at hz
      exact hz.symm
    · exact absurd hmem (scalar_no_nul (by omega))

theorem surrogate_not_zero {u : Hex4} (h : 0xD800 ≤ u.value) : ¬ u.render = lit "0000" := by
  rw [← Hex4.value_eq_zero_iff]
  omega

/-- The loop over one escape of four digits. -/
theorem noNulLoop_hex (u : Hex4) (fuel : Nat) (s : Bytes) :
    noNulLoop (fuel + 1) (BACKSLASH :: 0x75 :: (u.render ++ s))
      = if u.render = lit "0000" then false else noNulLoop fuel s := by
  have hlen : ¬ (u.render ++ s).length < 4 := by
    have h4 : u.render.length = 4 := rfl
    rw [List.length_append, h4]
    omega
  have htake : (u.render ++ s).take 4 = u.render := rfl
  have hdrop : (u.render ++ s).drop 4 = s := rfl
  show (if BACKSLASH ≠ BACKSLASH then _ else if (0x75 : Byte) = 0x75 then
    if (u.render ++ s).length < 4 then false
    else if (u.render ++ s).take 4 = lit "0000" then false
    else noNulLoop fuel ((u.render ++ s).drop 4) else _) = _
  rw [if_neg (fun h => h rfl), if_pos rfl, if_neg hlen, htake, hdrop]

theorem noNulLoop_cons {c : Byte} (h : c ≠ BACKSLASH) (fuel : Nat) (s : Bytes) :
    noNulLoop (fuel + 1) (c :: s) = noNulLoop fuel s :=
  if_pos h

theorem noNulLoop_plain {bs : Bytes} (hbs : ∀ c ∈ bs, c ≠ BACKSLASH) (fuel : Nat) (s : Bytes) :
    noNulLoop (bs.length + fuel) (bs ++ s) = noNulLoop fuel s := by
  induction bs with
  | nil => rw [List.length_nil, Nat.zero_add, List.nil_append]
  | cons c bs ih =>
      have hfuel : (c :: bs).length + fuel = (bs.length + fuel) + 1 := by
        rw [List.length_cons]
        omega
      rw [hfuel, List.cons_append, noNulLoop_cons (hbs c List.mem_cons_self)]
      exact ih fun d hd => hbs d (List.mem_cons_of_mem c hd)

/-- One character: the loop fails if it stands for NUL, and else goes on behind
    it. -/
theorem noNulLoop_char (ch : Chr) (s : Bytes) {fuel : Nat}
    (hfuel : ch.render.length + s.length ≤ fuel) :
    ∃ fuel' : Nat, s.length ≤ fuel' ∧
      noNulLoop fuel (ch.render ++ s)
        = (if (0 : Byte) ∈ ch.decode then false else noNulLoop fuel' s) := by
  cases ch with
  | scalar c h =>
      obtain ⟨k, rfl⟩ := Nat.exists_eq_add_of_le (Nat.le_trans (Nat.le_add_right _ _) hfuel)
      refine ⟨k, by omega, ?_⟩
      rw [Chr.decode, if_neg (scalar_no_nul h.1)]
      exact noNulLoop_plain (scalar_no_backslash h.2.2) k s
  | escape e =>
      have hlen : (Chr.escape e).render.length = 2 := rfl
      obtain ⟨k, rfl⟩ := Nat.exists_eq_add_of_le' (show 1 ≤ fuel by omega)
      refine ⟨k, by omega, ?_⟩
      cases e <;> rfl
  | unicode u h1 h2 =>
      have hlen : (Chr.unicode u h1 h2).render.length = 6 := rfl
      obtain ⟨k, rfl⟩ := Nat.exists_eq_add_of_le' (show 1 ≤ fuel by omega)
      refine ⟨k, by omega, ?_⟩
      have hnul : (0 : Byte) ∈ (Chr.unicode u h1 h2).decode ↔ u.render = lit "0000" := by
        rw [← Hex4.value_eq_zero_iff]
        exact encode_nul_iff u.value (unicode_valid h1 h2)
      simp only [hnul]
      exact noNulLoop_hex u k s
  | pair hi lo h1 h2 =>
      have hlen : (Chr.pair hi lo h1 h2).render.length = 12 := rfl
      obtain ⟨k, rfl⟩ := Nat.exists_eq_add_of_le' (show 2 ≤ fuel by omega)
      refine ⟨k, by omega, ?_⟩
      have hb := pairValue_bounds h1 h2 rfl
      have hnul : ¬ (0 : Byte) ∈ (Chr.pair hi lo h1 h2).decode := by
        intro hmem
        have hzero := (encode_nul_iff (pairValue hi lo) (pair_valid h1 h2)).mp hmem
        omega
      have hlow : 0xD800 ≤ lo.value := Nat.le_trans (by decide) h2.1
      rw [if_neg hnul]
      show noNulLoop (k + 1 + 1) (BACKSLASH :: 0x75 :: (hi.render
        ++ BACKSLASH :: 0x75 :: (lo.render ++ s))) = _
      rw [noNulLoop_hex, if_neg (surrogate_not_zero h1.1), noNulLoop_hex,
        if_neg (surrogate_not_zero hlow)]

/-- **The test finds the strings that stand for no NUL.** -/
theorem noNulLoop_iff (s : Str) :
    ∀ {fuel : Nat}, s.render.length ≤ fuel →
      (noNulLoop fuel s.render = true ↔ (0 : Byte) ∉ s.decode) := by
  induction s with
  | nil =>
      intro fuel _
      cases fuel
      · exact ⟨fun _ h => (nomatch h), fun _ => rfl⟩
      · exact ⟨fun _ h => (nomatch h), fun _ => rfl⟩
  | cons ch s ih =>
      intro fuel hfuel
      have hlen : (Str.render (ch :: s)).length = ch.render.length + (Str.render s).length :=
        List.length_append
      have hdec : Str.decode (ch :: s) = ch.decode ++ Str.decode s := rfl
      rw [hlen] at hfuel
      obtain ⟨fuel', hf, heq⟩ := noNulLoop_char ch (Str.render s) hfuel
      show noNulLoop fuel (ch.render ++ Str.render s) = true ↔ _
      rw [heq, hdec, List.mem_append, not_or]
      by_cases hnul : (0 : Byte) ∈ ch.decode
      · rw [if_pos hnul]
        exact ⟨fun h => (nomatch h), fun h => absurd hnul h.1⟩
      · rw [if_neg hnul, ih hf]
        exact ⟨fun h => ⟨hnul, h⟩, fun h => h.2⟩

theorem stringHasNoNul_iff {js : Bytes} {t : JsonToken} {s : Str} (h : Spans js t s.render) :
    stringHasNoNul js t = true ↔ (0 : Byte) ∉ s.decode := by
  rw [stringHasNoNul, h.slice]
  exact noNulLoop_iff s (Nat.le_refl _)

end JsonAccess
