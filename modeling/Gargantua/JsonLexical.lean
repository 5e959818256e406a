import Gargantua.Lib.Scan
import Gargantua.JsonParse
import Gargantua.JsonGrammar

/-! # The scanners of the tokenizer against the grammar

    Each scanning function of `json.c` moves over exactly one piece of the
    grammar.  A scanner is characterised twice: what it moves over is the text
    of a piece (sound), and in front of the text of a piece it moves over that
    text (complete).  Numbers are read as far as they go, so their second half
    asks for a delimiter behind them. -/

namespace JsonLexical

open CString JsonParse JsonGrammar

/-! ## Hexadecimal digits -/

theorem hexDigit_complete (h : HexDigit) : hexDigit h.byte = some h.value := by
  have hx := h.isHex
  rw [hexDigit, HexDigit.value]
  simp only [UInt8.le_iff_toNat_le, UInt8.reduceToNat] at hx ⊢
  rcases hx with hx | hx | hx
  · rw [if_pos hx, if_pos hx.2]
  · rw [if_neg (by omega), if_neg (by omega), if_pos hx, if_neg (by omega), if_pos hx.2]
  · rw [if_neg (by omega), if_pos hx, if_neg (by omega), if_neg (by omega)]

theorem hexDigit_sound {c : Byte} {v : Nat} (h : hexDigit c = some v) :
    ∃ d : HexDigit, d.byte = c ∧ d.value = v := by
  have hx : (0x30 ≤ c ∧ c ≤ 0x39) ∨ (0x41 ≤ c ∧ c ≤ 0x46) ∨ (0x61 ≤ c ∧ c ≤ 0x66) := by
    rw [hexDigit] at h
    split_ifs at h with h1 h2 h3
    · exact Or.inl h1
    · exact Or.inr (Or.inr h2)
    · exact Or.inr (Or.inl h3)
  have hc := hexDigit_complete ⟨c, hx⟩
  rw [h] at hc
  exact ⟨⟨c, hx⟩, rfl, (Option.some.inj hc).symm⟩

theorem shift_or {v d : Nat} (h : d < 16) : v <<< 4 ||| d = v * 16 + d := by
  rw [← Nat.shiftLeft_add_eq_or_of_lt (i := 4) h, Nat.shiftLeft_eq]

theorem readHex4_complete (u : Hex4) (rest : Bytes) :
    readHex4 (u.render ++ rest) = some u.value := by
  have hlen : ¬ (u.render ++ rest).length < 4 := by
    rw [List.length_append]
    exact Nat.not_lt.mpr (Nat.le_add_right 4 rest.length)
  rw [readHex4, if_neg hlen]
  simp only [Hex4.render, List.cons_append, readHexLoop, hexDigit_complete,
    shift_or (HexDigit.value_lt _), Nat.zero_mul, Nat.zero_add, Hex4.value]

theorem readHexLoop_cons {n value v : Nat} {js : Bytes}
    (h : readHexLoop (n + 1) value js = some v) :
    ∃ (d : HexDigit) (js' : Bytes), js = d.byte :: js'
      ∧ readHexLoop n (value * 16 + d.value) js' = some v := by
  cases js with
  | nil => exact nomatch h
  | cons c js =>
      rw [readHexLoop] at h
      cases hd : hexDigit c with
      | none =>
          rw [hd] at h
          exact nomatch h
      | some x =>
          obtain ⟨d, rfl, rfl⟩ := hexDigit_sound hd
          rw [hd] at h
          refine ⟨d, js, rfl, ?_⟩
          rw [← shift_or d.value_lt]
          exact h

theorem readHex4_sound {js : Bytes} {v : Nat} (h : readHex4 js = some v) :
    ∃ (u : Hex4) (rest : Bytes), js = u.render ++ rest ∧ v = u.value := by
  rw [readHex4] at h
  split_ifs at h
  obtain ⟨a, js1, rfl, h1⟩ := readHexLoop_cons h
  obtain ⟨b, js2, rfl, h2⟩ := readHexLoop_cons h1
  obtain ⟨c, js3, rfl, h3⟩ := readHexLoop_cons h2
  obtain ⟨d, js4, rfl, h4⟩ := readHexLoop_cons h3
  refine ⟨⟨a, b, c, d⟩, js4, rfl, ?_⟩
  rw [Nat.zero_mul, Nat.zero_add] at h4
  exact (Option.some.inj h4).symm

/-! ## UTF-8 -/

/-- `utf8_advance` moves over a lead byte, a byte in the range the lead byte
    asks for, and the remaining continuation bytes. -/
theorem utf8Advance_iff {a lo hi : Byte} {n : Nat}
    (hlead : utf8Lead a = some (n + 1, lo, hi)) {js rest : Bytes} :
    utf8Advance (a :: js) = some rest ↔
      ∃ (b : Byte) (cs : Bytes), js = b :: (cs ++ rest) ∧ (lo ≤ b ∧ b ≤ hi)
        ∧ cs.length = n ∧ ∀ c ∈ cs, 0x80 ≤ c ∧ c ≤ 0xBF := by
  have hdef : utf8Advance (a :: js)
      = if js.length < n + 1 then none
        else if js.headD 0 < lo ∨ js.headD 0 > hi then none
        else if ((js.take (n + 1)).drop 1).all fun c => 0x80 ≤ c && c ≤ 0xBF then
          some (js.drop (n + 1))
        else none := by
    rw [utf8Advance, hlead]
  rw [hdef]
  constructor
  · intro h
    split_ifs at h with h1 h2 h3
    cases js with
    | nil => exact absurd (Nat.succ_pos n) h1
    | cons b js =>
        have hb : lo ≤ b ∧ b ≤ hi := by
          rw [not_or] at h2
          exact ⟨UInt8.not_lt.mp h2.1, UInt8.not_lt.mp h2.2⟩
        obtain rfl := Option.some.inj h
        refine ⟨b, js.take n, ?_, hb, ?_, ?_⟩
        · rw [List.drop_succ_cons, List.take_append_drop]
        · rw [List.length_take]
          rw [List.length_cons] at h1
          omega
        · intro c hc
          have hall := List.all_eq_true.mp h3 c hc
          simp only [Bool.and_eq_true, decide_eq_true_eq] at hall
          exact hall
  · rintro ⟨b, cs, rfl, hb, rfl, hcs⟩
    rw [if_neg (by simp), if_neg, if_pos]
    · rw [List.drop_succ_cons, List.drop_left]
    · rw [List.take_succ_cons, List.drop_succ_cons, List.drop_zero, List.take_left,
        List.all_eq_true]
      intro c hc
      simp only [Bool.and_eq_true, decide_eq_true_eq]
      exact hcs c hc
    · rw [List.headD_cons, not_or]
      exact ⟨UInt8.not_lt.mpr hb.1, UInt8.not_lt.mpr hb.2⟩

/-- A byte given by its value is in a range that holds the value. -/
theorem ofNat_range {lo hi : Byte} {n : Nat} (h1 : lo.toNat ≤ n) (h2 : n ≤ hi.toNat) :
    lo ≤ UInt8.ofNat n ∧ UInt8.ofNat n ≤ hi := by
  have hn : (UInt8.ofNat n).toNat = n :=
    UInt8.toNat_ofNat_of_lt' (Nat.lt_of_le_of_lt h2 hi.toNat_lt)
  rw [UInt8.le_iff_toNat_le, UInt8.le_iff_toNat_le, hn]
  exact ⟨h1, h2⟩

/-- A continuation byte is in its range. -/
theorem tail_range (n : Nat) :
    (0x80 : Byte) ≤ UInt8.ofNat (0x80 + n % 64) ∧ UInt8.ofNat (0x80 + n % 64) ≤ 0xBF :=
  ofNat_range (show 0x80 ≤ _ by omega) (show _ ≤ 0xBF by omega)

theorem utf8Lead_two {n : Nat} (h : 0xC2 ≤ n ∧ n ≤ 0xDF) :
    utf8Lead (UInt8.ofNat n) = some (0 + 1, 0x80, 0xBF) := by
  rw [utf8Lead, if_pos (ofNat_range h.1 h.2)]

theorem utf8Lead_three {a : Byte} (h : 0xE0 ≤ a ∧ a ≤ 0xEF) :
    utf8Lead a
      = some (1 + 1, if a = 0xE0 then 0xA0 else 0x80, if a = 0xED then 0x9F else 0xBF) := by
  rw [utf8Lead, if_neg, if_pos h]
  simp only [UInt8.le_iff_toNat_le, UInt8.reduceToNat] at h ⊢
  omega

theorem utf8Lead_four {a : Byte} (h : 0xF0 ≤ a ∧ a ≤ 0xF4) :
    utf8Lead a
      = some (2 + 1, if a = 0xF0 then 0x90 else 0x80, if a = 0xF4 then 0x8F else 0xBF) := by
  rw [utf8Lead, if_neg, if_neg, if_pos h]
  all_goals
    simp only [UInt8.le_iff_toNat_le, UInt8.reduceToNat] at h ⊢
    omega

/-- The range of the second byte, narrowed behind two of the lead bytes. -/
theorem narrowed_iff {a x y b lo hi : Byte} (hlo : 0x80 ≤ lo.toNat) (hhi : hi.toNat ≤ 0xBF) :
    ((if a = x then lo else 0x80) ≤ b ∧ b ≤ (if a = y then hi else 0xBF)) ↔
      (0x80 ≤ b.toNat ∧ b.toNat ≤ 0xBF) ∧ (a.toNat = x.toNat → lo.toNat ≤ b.toNat)
        ∧ (a.toNat = y.toNat → b.toNat ≤ hi.toNat) := by
  have hlow : (if a = x then lo else 0x80) ≤ b
      ↔ 0x80 ≤ b.toNat ∧ (a.toNat = x.toNat → lo.toNat ≤ b.toNat) := by
    rw [UInt8.toNat_inj, UInt8.le_iff_toNat_le]
    split_ifs with h
    · exact ⟨fun hb => ⟨Nat.le_trans hlo hb, fun _ => hb⟩, fun hb => hb.2 h⟩
    · exact ⟨fun hb => ⟨hb, fun h' => absurd h' h⟩, fun hb => hb.1⟩
  have hhigh : b ≤ (if a = y then hi else 0xBF)
      ↔ b.toNat ≤ 0xBF ∧ (a.toNat = y.toNat → b.toNat ≤ hi.toNat) := by
    rw [UInt8.toNat_inj, UInt8.le_iff_toNat_le]
    split_ifs with h
    · exact ⟨fun hb => ⟨Nat.le_trans hb hhi, fun _ => hb⟩, fun hb => hb.2 h⟩
    · exact ⟨fun hb => ⟨hb, fun h' => absurd h' h⟩, fun hb => hb.1⟩
  rw [hlow, hhigh]
  exact and_and_and_comm

/-- `utf8_advance` moves over the encoding of a scalar value. -/
theorem utf8Advance_complete {c : Char} (h : 0x80 ≤ c.toNat) (rest : Bytes) :
    utf8Advance (String.utf8EncodeChar c ++ rest) = some rest := by
  have hmax := Utf8.toNat_le c
  have hsur := Utf8.not_surrogate c
  by_cases h2 : c.toNat ≤ 0x7FF
  · rw [Utf8.encode_two h h2]
    exact (utf8Advance_iff (utf8Lead_two (by omega))).mpr
      ⟨_, [], rfl, tail_range _, rfl, fun c hc => (nomatch hc)⟩
  by_cases h3 : c.toNat ≤ 0xFFFF
  · rw [Utf8.encode_three (by omega) h3]
    have hlead := utf8Lead_three (a := UInt8.ofNat (0xE0 + c.toNat / 4096))
      (ofNat_range (show 0xE0 ≤ _ by omega) (show _ ≤ 0xEF by omega))
    refine (utf8Advance_iff hlead).mpr ⟨_, [_], rfl, ?_, rfl, ?_⟩
    · -- the range of the second byte keeps long forms and surrogates out
      rw [narrowed_iff (by decide) (by decide),
        UInt8.toNat_ofNat_of_lt' (show _ < 256 by omega),
        UInt8.toNat_ofNat_of_lt' (show _ < 256 by omega)]
      simp only [UInt8.reduceToNat]
      omega
    · intro d hd
      rw [List.mem_singleton.mp hd]
      exact tail_range _
  · rw [Utf8.encode_four (by omega)]
    have hlead := utf8Lead_four (a := UInt8.ofNat (0xF0 + c.toNat / 262144))
      (ofNat_range (show 0xF0 ≤ _ by omega) (show _ ≤ 0xF4 by omega))
    refine (utf8Advance_iff hlead).mpr ⟨_, [_, _], rfl, ?_, rfl, ?_⟩
    · -- the range of the second byte keeps long forms and large values out
      rw [narrowed_iff (by decide) (by decide),
        UInt8.toNat_ofNat_of_lt' (show _ < 256 by omega),
        UInt8.toNat_ofNat_of_lt' (show _ < 256 by omega)]
      simp only [UInt8.reduceToNat]
      omega
    · intro d hd
      rcases List.mem_cons.mp hd with rfl | hd
      · exact tail_range _
      · rw [List.mem_singleton.mp hd]
        exact tail_range _

/-- What `utf8_advance` moves over is the encoding of a scalar value. -/
theorem utf8Advance_sound {js rest : Bytes} (h : utf8Advance js = some rest) :
    ∃ c : Char, 0x80 ≤ c.toNat ∧ js = String.utf8EncodeChar c ++ rest := by
  cases js with
  | nil => exact nomatch h
  | cons a js =>
      by_cases h2 : 0xC2 ≤ a ∧ a ≤ 0xDF
      · have hlead : utf8Lead a = some (0 + 1, 0x80, 0xBF) := by
          rw [utf8Lead, if_pos h2]
        obtain ⟨b, cs, rfl, hb, hlen, -⟩ := (utf8Advance_iff hlead).mp h
        obtain rfl := List.length_eq_zero_iff.mp hlen
        obtain ⟨c, hc, henc⟩ := Utf8.exists_two h2 hb
        exact ⟨c, hc, by rw [henc]; rfl⟩
      by_cases h3 : 0xE0 ≤ a ∧ a ≤ 0xEF
      · obtain ⟨b, cs, rfl, hb, hlen, hcs⟩ := (utf8Advance_iff (utf8Lead_three h3)).mp h
        obtain ⟨d, rfl⟩ := List.length_eq_one_iff.mp hlen
        obtain ⟨hb', hlow, hsur⟩ := (narrowed_iff (by decide) (by decide)).mp hb
        obtain ⟨c, hc, henc⟩ :=
          Utf8.exists_three h3 hb' (hcs d List.mem_cons_self) hlow hsur
        exact ⟨c, hc, by rw [henc]; rfl⟩
      by_cases h4 : 0xF0 ≤ a ∧ a ≤ 0xF4
      · obtain ⟨b, cs, rfl, hb, hlen, hcs⟩ := (utf8Advance_iff (utf8Lead_four h4)).mp h
        obtain ⟨d, e, rfl⟩ := List.length_eq_two.mp hlen
        obtain ⟨hb', hlow, hmax⟩ := (narrowed_iff (by decide) (by decide)).mp hb
        obtain ⟨c, hc, henc⟩ := Utf8.exists_four h4 hb' (hcs d List.mem_cons_self)
          (hcs e (List.mem_cons_of_mem d List.mem_cons_self)) hlow hmax
        exact ⟨c, hc, by rw [henc]; rfl⟩
      · have hlead : utf8Lead a = none := by
          rw [utf8Lead, if_neg h2, if_neg h3, if_neg h4]
        rw [utf8Advance, hlead] at h
        exact nomatch h

/-! ## Characters -/

theorem isSimpleEscape_iff {c : Byte} : isSimpleEscape c = true ↔ ∃ e : Escape, e.letter = c := by
  rw [isSimpleEscape]
  constructor
  · intro h
    simp only [Bool.or_eq_true, beq_iff_eq] at h
    rcases h with ((((((h | h) | h) | h) | h) | h) | h) | h
    · exact ⟨.quote, h.symm⟩
    · exact ⟨.backslash, h.symm⟩
    · exact ⟨.slash, h.symm⟩
    · exact ⟨.b, h.symm⟩
    · exact ⟨.f, h.symm⟩
    · exact ⟨.n, h.symm⟩
    · exact ⟨.r, h.symm⟩
    · exact ⟨.t, h.symm⟩
  · rintro ⟨e, rfl⟩
    cases e <;> rfl

/-- The escape branch behind `\u` and four digits. -/
theorem scanEscape_unicode (u : Hex4) (js : Bytes) :
    scanEscape (0x75 :: (u.render ++ js))
      = if 0xD800 ≤ u.value ∧ u.value ≤ 0xDBFF then
          if js.length < 6 ∨ js.head? ≠ some BACKSLASH ∨ (js.drop 1).head? ≠ some 0x75 then none
          else
            match readHex4 (js.drop 2) with
            | none => none
            | some second =>
                if second < 0xDC00 ∨ second > 0xDFFF then none else some (js.drop 6)
        else if 0xDC00 ≤ u.value ∧ u.value ≤ 0xDFFF then none
        else some js := by
  rw [scanEscape, if_neg (by decide), if_neg (by decide), readHex4_complete]
  rfl

theorem pair_length (lo : Hex4) (js : Bytes) :
    ¬ (0x5C :: 0x75 :: (lo.render ++ js) : Bytes).length < 6 := by
  rw [List.length_cons, List.length_cons, List.length_append]
  have h4 : lo.render.length = 4 := rfl
  omega

/-- The escape branch moves over every escape. -/
theorem scanChar_complete (ch : Chr) (rest : Bytes) :
    scanChar (ch.render ++ rest) = some rest := by
  cases ch with
  | scalar c h =>
      obtain ⟨h1, h2, h3⟩ := h
      obtain ⟨a, t, henc, hlow, hhigh⟩ := Utf8.encode_cons c
      by_cases hc : 0x80 ≤ c.toNat
      · have hadv := utf8Advance_complete hc rest
        have ha : (0x80 : Byte) ≤ a := hhigh hc
        have h5 : a ≠ BACKSLASH := by
          rintro rfl
          exact absurd ha (by decide)
        have h6 : ¬ a < 0x20 := UInt8.not_lt.mpr (UInt8.le_trans (by decide) ha)
        rw [henc] at hadv
        rw [Chr.render, henc, List.cons_append, scanChar, if_neg h5, if_neg h6, if_pos ha]
        exact hadv
      · have ha := hlow (by omega)
        rw [Utf8.encode_one (by omega)] at henc
        obtain ⟨-, rfl⟩ := List.cons.inj henc
        have h5 : a ≠ BACKSLASH := by
          rintro rfl
          exact h3 ha.symm
        have h6 : ¬ a < 0x20 := by
          rw [UInt8.lt_iff_toNat_lt, ha]
          exact Nat.not_lt.mpr h1
        have h7 : ¬ 0x80 ≤ a := by
          rw [UInt8.le_iff_toNat_le, ha]
          exact hc
        rw [Chr.render, Utf8.encode_one (by omega), henc, List.cons_append, scanChar, if_neg h5,
          if_neg h6, if_neg h7, List.nil_append]
  | escape e =>
      show scanChar (0x5C :: e.letter :: rest) = _
      rw [scanChar, if_pos rfl, scanEscape, if_pos (isSimpleEscape_iff.mpr ⟨e, rfl⟩)]
  | unicode u h1 h2 =>
      show scanChar (0x5C :: 0x75 :: (u.render ++ rest)) = _
      have h1' : ¬ (0xD800 ≤ u.value ∧ u.value ≤ 0xDBFF) := h1
      have h2' : ¬ (0xDC00 ≤ u.value ∧ u.value ≤ 0xDFFF) := h2
      rw [scanChar, if_pos rfl, scanEscape_unicode, if_neg h1', if_neg h2']
  | pair hi lo h1 h2 =>
      show scanChar (0x5C :: 0x75 :: (hi.render ++ 0x5C :: 0x75 :: (lo.render ++ rest))) = _
      have hfmt : ¬ ((0x5C :: 0x75 :: (lo.render ++ rest) : Bytes).length < 6
          ∨ (0x5C :: 0x75 :: (lo.render ++ rest) : Bytes).head? ≠ some BACKSLASH
          ∨ ((0x5C :: 0x75 :: (lo.render ++ rest) : Bytes).drop 1).head? ≠ some 0x75) := by
        rintro (h | h | h)
        · exact pair_length lo rest h
        · exact h rfl
        · exact h rfl
      have h1' : 0xD800 ≤ hi.value ∧ hi.value ≤ 0xDBFF := h1
      rw [scanChar, if_pos rfl, scanEscape_unicode, if_pos h1', if_neg hfmt]
      show (match readHex4 (lo.render ++ rest) with
        | none => none
        | some second => if second < 0xDC00 ∨ second > 0xDFFF then none else some rest) = _
      rw [readHex4_complete]
      exact if_neg (not_or.mpr ⟨Nat.not_lt.mpr h2.1, Nat.not_lt.mpr h2.2⟩)

/-- What the escape branch moves over is an escape. -/
theorem scanEscape_sound {js rest : Bytes} (h : scanEscape js = some rest) :
    ∃ ch : Chr, BACKSLASH :: js = ch.render ++ rest := by
  cases js with
  | nil => exact nomatch h
  | cons c js =>
      by_cases hs : isSimpleEscape c = true
      · rw [scanEscape, if_pos hs] at h
        obtain ⟨e, rfl⟩ := isSimpleEscape_iff.mp hs
        obtain rfl := Option.some.inj h
        exact ⟨.escape e, rfl⟩
      by_cases hu : c = 0x75
      · subst hu
        cases hx : readHex4 js with
        | none =>
            rw [scanEscape, if_neg hs, if_neg (by decide), hx] at h
            exact nomatch h
        | some v =>
            obtain ⟨u, js, rfl, -⟩ := readHex4_sound hx
            rw [scanEscape_unicode] at h
            split_ifs at h with h1 h2 h3
            · -- a high surrogate, with the low one behind it
              rw [not_or, not_or, not_not, not_not] at h2
              obtain ⟨-, hb, hu'⟩ := h2
              obtain ⟨js, rfl⟩ : ∃ t, js = BACKSLASH :: 0x75 :: t := by
                match js, hb, hu' with
                | a :: b :: t, hb, hu' =>
                    exact ⟨t, by rw [Option.some.inj hb, Option.some.inj hu']⟩
              cases hx2 : readHex4 js with
              | none =>
                  rw [show (BACKSLASH :: 0x75 :: js).drop 2 = js from rfl, hx2] at h
                  exact nomatch h
              | some v2 =>
                  obtain ⟨lo, js, rfl, rfl⟩ := readHex4_sound hx2
                  rw [show (BACKSLASH :: 0x75 :: (lo.render ++ js)).drop 2 = lo.render ++ js
                    from rfl, hx2] at h
                  dsimp only at h
                  split_ifs at h with h4
                  rw [not_or] at h4
                  obtain rfl := Option.some.inj h
                  exact ⟨.pair u lo h1 ⟨Nat.not_lt.mp h4.1, Nat.not_lt.mp h4.2⟩, rfl⟩
            · obtain rfl := Option.some.inj h
              exact ⟨.unicode u h1 h3, rfl⟩
      · rw [scanEscape, if_neg hs, if_pos hu] at h
        exact nomatch h

/-- What one turn of the loop of `token_string` moves over is a character. -/
theorem scanChar_sound {c : Byte} {js rest : Bytes} (hc : c ≠ QUOTE)
    (h : scanChar (c :: js) = some rest) : ∃ ch : Chr, c :: js = ch.render ++ rest := by
  rw [scanChar] at h
  split_ifs at h with h1 h2 h3
  · subst h1
    exact scanEscape_sound h
  · obtain ⟨s, hs, heq⟩ := utf8Advance_sound h
    exact ⟨.scalar s ⟨by omega, by omega, by omega⟩, heq⟩
  · obtain rfl := Option.some.inj h
    have h4 : c.toNat ≤ 0x7F := by
      simp only [ge_iff_le, UInt8.le_iff_toNat_le, UInt8.reduceToNat] at h3
      omega
    have hv : c.toNat.isValidChar := Or.inl (by omega)
    have hn := Utf8.scalar_toNat c.toNat hv
    refine ⟨.scalar (Utf8.scalar c.toNat hv) ?_, ?_⟩
    · rw [hn]
      refine ⟨?_, fun h => hc (UInt8.toNat_inj.mp h), fun h => h1 (UInt8.toNat_inj.mp h)⟩
      rw [UInt8.lt_iff_toNat_lt] at h2
      exact Nat.not_lt.mp h2
    · rw [Chr.render, Utf8.encode_one (by omega), hn, UInt8.ofNat_toNat]
      rfl

/-! ## Strings -/

/-- A character is not empty and starts with no quote. -/
theorem Chr.render_cons (ch : Chr) :
    ∃ (a : Byte) (t : Bytes), ch.render = a :: t ∧ a ≠ QUOTE := by
  cases ch with
  | scalar c h =>
      obtain ⟨a, t, henc, hlow, hhigh⟩ := Utf8.encode_cons c
      refine ⟨a, t, henc, ?_⟩
      rintro rfl
      by_cases hc : c.toNat ≤ 0x7F
      · exact h.2.1 (hlow hc).symm
      · exact absurd (hhigh (by omega)) (by decide)
  | escape e => exact ⟨0x5C, _, rfl, by decide⟩
  | unicode u h1 h2 => exact ⟨0x5C, _, rfl, by decide⟩
  | pair hi lo h1 h2 => exact ⟨0x5C, _, rfl, by decide⟩

/-- The loop of `token_string` runs to the closing quote. -/
theorem stringLoop_complete (s : Str) (rest : Bytes) :
    ∀ {fuel : Nat}, s.render.length < fuel →
      stringLoop fuel (s.render ++ QUOTE :: rest) = some (QUOTE :: rest) := by
  induction s with
  | nil =>
      intro fuel hf
      cases fuel with
      | zero => exact absurd hf (Nat.not_lt_zero _)
      | succ fuel =>
          show stringLoop (fuel + 1) (QUOTE :: rest) = _
          rw [stringLoop, if_pos rfl]
  | cons ch s ih =>
      intro fuel hf
      cases fuel with
      | zero => exact absurd hf (Nat.not_lt_zero _)
      | succ fuel =>
          have hscan := scanChar_complete ch (Str.render s ++ QUOTE :: rest)
          obtain ⟨a, t, hren, hq⟩ := Chr.render_cons ch
          have hlen : (Str.render (ch :: s)).length
              = t.length + 1 + (Str.render s).length := by
            show (ch.render ++ Str.render s).length = _
            rw [List.length_append, hren, List.length_cons]
          have heq : Str.render (ch :: s) ++ QUOTE :: rest
              = a :: (t ++ (Str.render s ++ QUOTE :: rest)) := by
            show ch.render ++ Str.render s ++ _ = _
            rw [hren, List.append_assoc, List.cons_append]
          rw [hren, List.cons_append] at hscan
          rw [heq, stringLoop, if_neg hq, hscan]
          exact ih (by omega)

/-- What the loop of `token_string` runs over is the text of a string. -/
theorem stringLoop_sound : ∀ {fuel : Nat} {js rest : Bytes},
    stringLoop fuel js = some rest →
      ∃ (s : Str) (rest' : Bytes), js = s.render ++ rest ∧ rest = QUOTE :: rest' := by
  intro fuel
  induction fuel with
  | zero =>
      intro js rest h
      exact nomatch h
  | succ fuel ih =>
      intro js rest h
      cases js with
      | nil => exact nomatch h
      | cons c js =>
          rw [stringLoop] at h
          split_ifs at h with hc
          · obtain rfl := Option.some.inj h
            exact ⟨[], js, rfl, by rw [hc]⟩
          · cases hs : scanChar (c :: js) with
            | none =>
                rw [hs] at h
                exact nomatch h
            | some js' =>
                rw [hs] at h
                obtain ⟨ch, hch⟩ := scanChar_sound hc hs
                obtain ⟨s, rest', rfl, hrest⟩ := ih h
                refine ⟨ch :: s, rest', ?_, hrest⟩
                rw [hch, ← List.append_assoc]
                rfl

/-! ## Numbers -/

theorem isDigit_iff {c : Byte} : JsonParse.isDigit c = true ↔ IsDigit c := by
  rw [JsonParse.isDigit, IsDigit, Bool.and_eq_true, decide_eq_true_eq, decide_eq_true_eq]

/-- The text does not go on with a byte that satisfies `p`. -/
def Ends (p : Byte → Prop) (rest : Bytes) : Prop := ∀ c t, rest = c :: t → ¬ p c

theorem ends_nil {p : Byte → Prop} : Ends p [] := fun _ _ h => (nomatch h)

theorem ends_cons {p : Byte → Prop} {c : Byte} {t : Bytes} (h : ¬ p c) : Ends p (c :: t) :=
  fun _ _ heq => (List.cons.inj heq).1 ▸ h

theorem dropWhile_digits {ds rest : Bytes} (hds : ∀ c ∈ ds, IsDigit c)
    (hrest : Ends IsDigit rest) : (ds ++ rest).dropWhile JsonParse.isDigit = rest := by
  rw [List.dropWhile_append_of_pos fun c hc => isDigit_iff.mpr (hds c hc)]
  cases rest with
  | nil => rfl
  | cons c t =>
      exact List.dropWhile_cons_of_neg fun h => hrest c t rfl (isDigit_iff.mp h)

theorem dropWhile_digits_ends (js : Bytes) : Ends IsDigit (js.dropWhile JsonParse.isDigit) := by
  intro c t h hc
  have hself : (c :: t).dropWhile JsonParse.isDigit = c :: t := by
    rw [← h, List.dropWhile_idempotent]
  exact Scan.not_of_dropWhile_eq_self hself (isDigit_iff.mpr hc)

theorem dropWhile_digits_split (js : Bytes) :
    ∃ ds : Bytes, js = ds ++ js.dropWhile JsonParse.isDigit ∧ ∀ c ∈ ds, IsDigit c := by
  obtain ⟨ds, heq, hds⟩ := Scan.dropWhile_split JsonParse.isDigit js
  exact ⟨ds, heq, fun c hc => isDigit_iff.mp (hds c hc)⟩

theorem scanDigits_complete (ds : Digits) {rest : Bytes} (hrest : Ends IsDigit rest) :
    scanDigits (ds.bytes ++ rest) = some rest := by
  obtain ⟨ds, hne, hds⟩ := ds
  cases ds with
  | nil => exact absurd rfl hne
  | cons c ds =>
      have hc := isDigit_iff.mpr (hds c List.mem_cons_self)
      show scanDigits (c :: (ds ++ rest)) = _
      rw [scanDigits, if_pos hc,
        dropWhile_digits (fun d hd => hds d (List.mem_cons_of_mem c hd)) hrest]

theorem scanDigits_sound {js rest : Bytes} (h : scanDigits js = some rest) :
    ∃ ds : Digits, js = ds.bytes ++ rest ∧ Ends IsDigit rest := by
  cases js with
  | nil => exact nomatch h
  | cons c js =>
      rw [scanDigits] at h
      split_ifs at h with hc
      obtain ⟨ds, heq, hds⟩ := dropWhile_digits_split js
      obtain rfl := Option.some.inj h
      refine ⟨⟨c :: ds, List.cons_ne_nil c ds, ?_⟩, ?_, dropWhile_digits_ends js⟩
      · intro d hd
        rcases List.mem_cons.mp hd with rfl | hd
        · exact isDigit_iff.mp hc
        · exact hds d hd
      · rw [List.cons_append, ← heq]

theorem scanInt_complete (ds : Digits) (hzero : ds.bytes.head? = some 0x30 → ds.bytes = [0x30])
    {rest : Bytes} (hrest : Ends IsDigit rest) : scanInt (ds.bytes ++ rest) = some rest := by
  obtain ⟨ds, hne, hds⟩ := ds
  cases ds with
  | nil => exact absurd rfl hne
  | cons c ds =>
      have hc := hds c List.mem_cons_self
      by_cases h0 : c = 0x30
      · -- a leading zero is the whole integer part
        subst h0
        obtain ⟨-, rfl⟩ := List.cons.inj (hzero rfl)
        show scanInt (0x30 :: rest) = _
        rw [scanInt, if_pos rfl, if_neg]
        intro h
        cases rest with
        | nil => exact nomatch h
        | cons d t => exact hrest d t rfl (isDigit_iff.mp h)
      · have h1 : 0x31 ≤ c ∧ c ≤ 0x39 := by
          obtain ⟨hlow, hhigh⟩ := hc
          refine ⟨?_, hhigh⟩
          rw [← UInt8.toNat_inj] at h0
          simp only [UInt8.le_iff_toNat_le, UInt8.reduceToNat] at hlow h0 ⊢
          omega
        show scanInt (c :: (ds ++ rest)) = _
        rw [scanInt, if_neg h0, if_pos h1,
          dropWhile_digits (fun d hd => hds d (List.mem_cons_of_mem c hd)) hrest]

theorem scanInt_sound {js rest : Bytes} (h : scanInt js = some rest) :
    ∃ ds : Digits, js = ds.bytes ++ rest ∧ (ds.bytes.head? = some 0x30 → ds.bytes = [0x30])
      ∧ Ends IsDigit rest := by
  cases js with
  | nil => exact nomatch h
  | cons c js =>
      rw [scanInt] at h
      split_ifs at h with h0 hany h1
      · obtain rfl := Option.some.inj h
        refine ⟨⟨[c], List.cons_ne_nil c [], ?_⟩, rfl, ?_, ?_⟩
        · intro d hd
          rw [List.mem_singleton.mp hd, h0]
          decide
        · intro _
          exact congrArg (fun d => [d]) h0
        · intro d t heq hd
          rw [heq] at hany
          exact hany (isDigit_iff.mpr hd)
      · obtain ⟨ds, heq, hds⟩ := dropWhile_digits_split js
        obtain rfl := Option.some.inj h
        refine ⟨⟨c :: ds, List.cons_ne_nil c ds, ?_⟩, ?_, ?_, dropWhile_digits_ends js⟩
        · intro d hd
          rcases List.mem_cons.mp hd with rfl | hd
          · exact ⟨UInt8.le_trans (by decide) h1.1, h1.2⟩
          · exact hds d hd
        · rw [List.cons_append, ← heq]
        · intro hhead
          exact absurd (Option.some.inj hhead) h0

/-- Bytes a fraction or an exponent starts with. -/
abbrev IsExp (c : Byte) : Prop := c = 0x65 ∨ c = 0x45

theorem scanFrac_complete (frac : Option Digits) {rest : Bytes} (hdig : Ends IsDigit rest)
    (hdot : Ends (· = 0x2E) rest) : scanFrac (renderFrac frac ++ rest) = some rest := by
  cases frac with
  | none =>
      cases rest with
      | nil => rfl
      | cons c t =>
          show scanFrac (c :: t) = _
          rw [scanFrac, if_neg (hdot c t rfl)]
  | some ds =>
      show scanFrac (0x2E :: (ds.bytes ++ rest)) = _
      rw [scanFrac, if_pos rfl, scanDigits_complete ds hdig]

theorem scanFrac_sound {js rest : Bytes} (h : scanFrac js = some rest) :
    ∃ frac : Option Digits, js = renderFrac frac ++ rest := by
  cases js with
  | nil =>
      obtain rfl := Option.some.inj h
      exact ⟨none, rfl⟩
  | cons c js =>
      rw [scanFrac] at h
      split_ifs at h with hc
      · obtain ⟨ds, rfl, -⟩ := scanDigits_sound h
        exact ⟨some ds, by rw [hc]; rfl⟩
      · obtain rfl := Option.some.inj h
        exact ⟨none, rfl⟩

/-- A run of digits starts with no sign. -/
theorem Digits.cons (ds : Digits) :
    ∃ (d : Byte) (t : Bytes), ds.bytes = d :: t ∧ IsDigit d ∧ ¬ (d = 0x2B ∨ d = 0x2D) := by
  obtain ⟨ds, hne, hds⟩ := ds
  cases ds with
  | nil => exact absurd rfl hne
  | cons d t =>
      have hd := hds d List.mem_cons_self
      refine ⟨d, t, rfl, hd, ?_⟩
      rintro (rfl | rfl)
      · exact absurd hd.1 (by decide)
      · exact absurd hd.1 (by decide)

theorem scanExp_cons (c : Byte) (js : Bytes) :
    scanExp (c :: js)
      = if IsExp c then
          match js with
          | [] => none
          | d :: ds => if d = 0x2B ∨ d = 0x2D then scanDigits ds else scanDigits (d :: ds)
        else some (c :: js) := rfl

theorem scanExp_complete (exp : Option Exponent) {rest : Bytes} (hdig : Ends IsDigit rest)
    (hexp : Ends IsExp rest) : scanExp (renderExp exp ++ rest) = some rest := by
  cases exp with
  | none =>
      cases rest with
      | nil => rfl
      | cons c t =>
          show scanExp (c :: t) = _
          rw [scanExp_cons, if_neg (hexp c t rfl)]
  | some e =>
      have hc : (if e.upper then 0x45 else 0x65 : Byte) = 0x65
          ∨ (if e.upper then 0x45 else 0x65 : Byte) = 0x45 := by
        cases e.upper
        · exact Or.inl rfl
        · exact Or.inr rfl
      have hd := scanDigits_complete e.digits hdig
      show scanExp ((if e.upper then 0x45 else 0x65)
        :: (renderSign e.minus ++ e.digits.bytes ++ rest)) = _
      rw [scanExp_cons, if_pos hc]
      obtain ⟨d, t, heq, -, hsign⟩ := Digits.cons e.digits
      rcases e.minus with _ | _ | _
      · rw [heq] at hd ⊢
        show (if d = 0x2B ∨ d = 0x2D then scanDigits (t ++ rest)
          else scanDigits (d :: (t ++ rest))) = _
        rw [if_neg hsign]
        exact hd
      · exact hd
      · exact hd

theorem scanExp_sound {js rest : Bytes} (h : scanExp js = some rest) :
    ∃ exp : Option Exponent, js = renderExp exp ++ rest := by
  cases js with
  | nil =>
      obtain rfl := Option.some.inj h
      exact ⟨none, rfl⟩
  | cons c js =>
      rw [scanExp_cons] at h
      split_ifs at h with hc
      · -- the letter, then the sign, then the digits
        obtain ⟨upper, rfl⟩ : ∃ upper : Bool, c = if upper then 0x45 else 0x65 := by
          rcases hc with rfl | rfl
          · exact ⟨false, rfl⟩
          · exact ⟨true, rfl⟩
        cases js with
        | nil => exact nomatch h
        | cons d ds =>
            dsimp only at h
            split_ifs at h with hs
            · obtain ⟨digits, rfl, -⟩ := scanDigits_sound h
              rcases hs with rfl | rfl
              · exact ⟨some ⟨upper, some false, digits⟩, rfl⟩
              · exact ⟨some ⟨upper, some true, digits⟩, rfl⟩
            · obtain ⟨digits, heq, -⟩ := scanDigits_sound h
              exact ⟨some ⟨upper, none, digits⟩, by rw [heq]; rfl⟩
      · obtain rfl := Option.some.inj h
        exact ⟨none, rfl⟩

/-- A fraction starts with its point, or the text goes on behind it. -/
theorem ends_renderFrac {p : Byte → Prop} (hdot : ¬ p 0x2E) (frac : Option Digits)
    {rest : Bytes} (h : Ends p rest) : Ends p (renderFrac frac ++ rest) := by
  cases frac with
  | none => exact h
  | some ds => exact ends_cons hdot

theorem ends_renderExp {p : Byte → Prop} (hlow : ¬ p 0x65) (hup : ¬ p 0x45)
    (exp : Option Exponent) {rest : Bytes} (h : Ends p rest) :
    Ends p (renderExp exp ++ rest) := by
  cases exp with
  | none => exact h
  | some e =>
      refine ends_cons ?_
      cases e.upper
      · exact hlow
      · exact hup

/-- A delimiter is none of the bytes a number goes on with. -/
theorem ends_of_delimiter {p : Byte → Prop} {rest : Bytes}
    (h : ∀ c, isDelimiter [c] = true → ¬ p c) (hrest : isDelimiter rest = true) :
    Ends p rest := by
  rintro c t rfl
  exact h c hrest

theorem delimiter_cases {c : Byte} (h : isDelimiter [c] = true) :
    c = 0x20 ∨ c = 0x09 ∨ c = 0x0D ∨ c = 0x0A ∨ c = COMMA ∨ c = RBRACKET ∨ c = RBRACE := by
  simpa [isDelimiter, isSpace, or_assoc] using h

theorem delimiter_ends_digit {rest : Bytes} (h : isDelimiter rest = true) :
    Ends IsDigit rest := by
  refine ends_of_delimiter (fun c hc hd => ?_) h
  rcases delimiter_cases hc with rfl | rfl | rfl | rfl | rfl | rfl | rfl <;>
    exact absurd hd (by decide)

theorem delimiter_ends_dot {rest : Bytes} (h : isDelimiter rest = true) :
    Ends (· = 0x2E) rest := by
  refine ends_of_delimiter (fun c hc hd => ?_) h
  subst hd
  exact absurd hc (by decide)

theorem delimiter_ends_exp {rest : Bytes} (h : isDelimiter rest = true) :
    Ends IsExp rest := by
  refine ends_of_delimiter (fun c hc hd => ?_) h
  rcases hd with rfl | rfl <;> exact absurd hc (by decide)

/-- The sign in front of a number is skipped, and only a sign is. -/
theorem skip_minus (n : Number) (rest : Bytes) :
    (if (n.render ++ rest).head? = some 0x2D then (n.render ++ rest).tail else n.render ++ rest)
      = n.int.bytes ++ (renderFrac n.frac ++ (renderExp n.exp ++ rest)) := by
  have hassoc : n.render ++ rest = renderMinus n.minus
      ++ (n.int.bytes ++ (renderFrac n.frac ++ (renderExp n.exp ++ rest))) := by
    simp only [Number.render, List.append_assoc]
  rw [hassoc]
  cases n.minus with
  | true => exact if_pos rfl
  | false =>
      obtain ⟨d, t, heq, -, hsign⟩ := Digits.cons n.int
      rw [heq]
      exact if_neg fun h => hsign (Or.inr (Option.some.inj h))

/-- `scan_number` moves over every number that a delimiter ends. -/
theorem scanNumber_complete (n : Number) {rest : Bytes} (h : isDelimiter rest = true) :
    scanNumber (n.render ++ rest) = some rest := by
  have hdig := delimiter_ends_digit h
  have hexp : Ends IsDigit (renderExp n.exp ++ rest) :=
    ends_renderExp (by decide) (by decide) n.exp hdig
  have hdot : Ends (· = 0x2E) (renderExp n.exp ++ rest) :=
    ends_renderExp (by decide) (by decide) n.exp (delimiter_ends_dot h)
  have hfrac : Ends IsDigit (renderFrac n.frac ++ (renderExp n.exp ++ rest)) :=
    ends_renderFrac (by decide) n.frac hexp
  rw [scanNumber, skip_minus, scanInt_complete n.int n.noLeadingZero hfrac]
  dsimp only
  rw [scanFrac_complete n.frac hexp hdot]
  dsimp only
  rw [scanExp_complete n.exp hdig (delimiter_ends_exp h)]
  exact if_pos h

/-- What `scan_number` moves over is a number. -/
theorem scanNumber_sound {js rest : Bytes} (h : scanNumber js = some rest) :
    ∃ n : Number, js = n.render ++ rest := by
  obtain ⟨minus, js', hminus, hskip⟩ : ∃ (minus : Bool) (js' : Bytes),
      js = renderMinus minus ++ js'
        ∧ (if js.head? = some 0x2D then js.tail else js) = js' := by
    split_ifs with hm
    · exact ⟨true, js.tail, (List.cons_head?_tail hm).symm, rfl⟩
    · exact ⟨false, js, rfl, rfl⟩
  rw [scanNumber, hskip] at h
  cases h1 : scanInt js' with
  | none =>
      rw [h1] at h
      exact nomatch h
  | some js1 =>
      obtain ⟨ds, hds, hzero, -⟩ := scanInt_sound h1
      rw [h1] at h
      dsimp only at h
      cases h2 : scanFrac js1 with
      | none =>
          rw [h2] at h
          exact nomatch h
      | some js2 =>
          obtain ⟨frac, hfrac⟩ := scanFrac_sound h2
          rw [h2] at h
          dsimp only at h
          cases h3 : scanExp js2 with
          | none =>
              rw [h3] at h
              exact nomatch h
          | some js3 =>
              obtain ⟨exp, hexp⟩ := scanExp_sound h3
              rw [h3] at h
              dsimp only at h
              split_ifs at h
              obtain rfl := Option.some.inj h
              refine ⟨⟨minus, ds, hzero, frac, exp⟩, ?_⟩
              simp only [Number.render, List.append_assoc]
              rw [hminus, hds, hfrac, hexp]

/-! ## Primitives -/

/-- A number starts with a sign or a digit. -/
theorem Number.render_cons (n : Number) :
    ∃ (c : Byte) (t : Bytes), n.render = c :: t ∧ (c = 0x2D ∨ IsDigit c) := by
  obtain ⟨d, t, heq, hd, -⟩ := Digits.cons n.int
  rw [Number.render]
  cases n.minus with
  | true => exact ⟨0x2D, _, rfl, Or.inl rfl⟩
  | false => exact ⟨d, _, by rw [heq]; rfl, Or.inr hd⟩

/-- No literal is the beginning of a number. -/
theorem literal_not_number {c : Byte} {t : Bytes} (h : c = 0x2D ∨ IsDigit c) (l : Bytes)
    (hl : ¬ (l.headD 0 = 0x2D ∨ IsDigit (l.headD 0))) (hne : l ≠ []) :
    ¬ l.isPrefixOf (c :: t) = true := by
  cases l with
  | nil => exact absurd rfl hne
  | cons a l =>
      intro hp
      rw [List.isPrefixOf, Bool.and_eq_true, beq_iff_eq] at hp
      rw [List.headD_cons, hp.1] at hl
      exact hl h

/-- `token_primitive` moves over every primitive that a delimiter ends. -/
theorem scanPrimitive_complete (p : Prim) {rest : Bytes} (h : isDelimiter rest = true) :
    scanPrimitive (p.render ++ rest) = some rest := by
  have hlit : ∀ l : Bytes, l.isPrefixOf (l ++ rest) = true :=
    fun l => List.isPrefixOf_iff_prefix.mpr (List.prefix_append l rest)
  cases p with
  | true_ => exact if_pos (hlit (lit "true"))
  | false_ =>
      show scanPrimitive (lit "false" ++ rest) = _
      rw [scanPrimitive, if_neg (by exact Bool.false_ne_true), if_pos (hlit _)]
      rfl
  | null =>
      show scanPrimitive (lit "null" ++ rest) = _
      rw [scanPrimitive, if_neg (by exact Bool.false_ne_true),
        if_neg (by exact Bool.false_ne_true), if_pos (hlit _)]
      rfl
  | num n =>
      obtain ⟨c, t, heq, hc⟩ := Number.render_cons n
      have hscan := scanNumber_complete n h
      show scanPrimitive (n.render ++ rest) = _
      rw [heq] at hscan ⊢
      rw [List.cons_append, scanPrimitive,
        if_neg (literal_not_number hc (lit "true") (by decide) (by decide)),
        if_neg (literal_not_number hc (lit "false") (by decide) (by decide)),
        if_neg (literal_not_number hc (lit "null") (by decide) (by decide))]
      exact hscan

/-- What `token_primitive` moves over is a primitive. -/
theorem scanPrimitive_sound {js rest : Bytes} (h : scanPrimitive js = some rest) :
    ∃ p : Prim, js = p.render ++ rest := by
  have hlit : ∀ l : Bytes, l.isPrefixOf js = true → js = l ++ js.drop l.length := by
    intro l hl
    obtain ⟨t, rfl⟩ := List.isPrefixOf_iff_prefix.mp hl
    rw [List.drop_left]
  rw [scanPrimitive] at h
  split_ifs at h with h1 h2 h3
  · obtain rfl := Option.some.inj h
    exact ⟨.true_, hlit _ h1⟩
  · obtain rfl := Option.some.inj h
    exact ⟨.false_, hlit _ h2⟩
  · obtain rfl := Option.some.inj h
    exact ⟨.null, hlit _ h3⟩
  · obtain ⟨n, hn⟩ := scanNumber_sound h
    exact ⟨.num n, hn⟩

end JsonLexical
