import Mathlib.Data.List.TakeWhile
import Mathlib.Data.List.DropRight
import Mathlib.Tactic.Ring

/-! # UTF-8, byte by byte

    The encoding of a Unicode scalar value is the library's
    `String.utf8EncodeChar`; well-formed UTF-8 is what it produces.  A decoder
    written by hand never sees scalar values, it compares bytes with ranges.
    This file relates the two: the bytes of an encoding, by its length, and for
    each row of the range table the scalar value that its bytes encode.  Then it
    says where a text may be cut, and where it stays text. -/

namespace Utf8

/-- The scalar value of a number that is one. -/
def scalar (n : Nat) (h : n.isValidChar) : Char :=
  Char.ofNatAux n h

theorem scalar_toNat (n : Nat) (h : n.isValidChar) : (scalar n h).toNat = n := by
  have hn : n < 2 ^ 32 := by
    rcases h with h | ⟨-, h⟩ <;> omega
  show (UInt32.ofNatLT n _).toNat = n
  rfl

/-- A byte is the byte of its own value. -/
theorem byte_eq {a : UInt8} {n : Nat} (h : n = a.toNat) : UInt8.ofNat n = a := by
  rw [h, UInt8.ofNat_toNat]

/-- The largest scalar value. -/
theorem toNat_le (c : Char) : c.toNat ≤ 0x10FFFF := by
  rcases c.valid with h | ⟨-, h⟩
  · exact Nat.le_trans (Nat.le_of_lt h) (by decide)
  · exact Nat.le_of_lt_succ h

/-- A scalar value is no surrogate. -/
theorem not_surrogate (c : Char) : ¬ (0xD800 ≤ c.toNat ∧ c.toNat ≤ 0xDFFF) := by
  rintro ⟨h1, h2⟩
  have hv := c.valid
  rcases hv with h | ⟨h, -⟩
  · exact absurd (show c.toNat < 0xD800 from h) (Nat.not_lt.mpr h1)
  · exact absurd (show 0xDFFF < c.toNat from h) (Nat.not_lt.mpr h2)

/-! ## The bytes of an encoding -/

theorem encode_one {c : Char} (h : c.toNat ≤ 0x7F) :
    String.utf8EncodeChar c = [UInt8.ofNat c.toNat] := by
  show ite _ _ _ = _
  rw [if_pos (show c.val.toNat ≤ 0x7F from h)]
  rfl

theorem encode_two {c : Char} (h1 : 0x80 ≤ c.toNat) (h2 : c.toNat ≤ 0x7FF) :
    String.utf8EncodeChar c
      = [UInt8.ofNat (0xC0 + c.toNat / 64), UInt8.ofNat (0x80 + c.toNat % 64)] := by
  have ha : c.toNat / 64 % 32 + 0xC0 = 0xC0 + c.toNat / 64 := by omega
  have hb : c.toNat % 64 + 0x80 = 0x80 + c.toNat % 64 := by omega
  rw [← ha, ← hb]
  show ite _ _ (ite _ _ _) = _
  rw [if_neg (show ¬ c.val.toNat ≤ 0x7F from Nat.not_le.mpr h1),
    if_pos (show c.val.toNat ≤ 0x7FF from h2)]
  rfl

theorem encode_three {c : Char} (h1 : 0x800 ≤ c.toNat) (h2 : c.toNat ≤ 0xFFFF) :
    String.utf8EncodeChar c
      = [UInt8.ofNat (0xE0 + c.toNat / 4096),
         UInt8.ofNat (0x80 + c.toNat / 64 % 64), UInt8.ofNat (0x80 + c.toNat % 64)] := by
  have ha : c.toNat / 4096 % 16 + 0xE0 = 0xE0 + c.toNat / 4096 := by omega
  have hb : c.toNat / 64 % 64 + 0x80 = 0x80 + c.toNat / 64 % 64 := by omega
  have hc : c.toNat % 64 + 0x80 = 0x80 + c.toNat % 64 := by omega
  rw [← ha, ← hb, ← hc]
  have h3 : ¬ c.val.toNat ≤ 0x7F := Nat.not_le.mpr (Nat.le_trans (by decide) h1)
  show ite _ _ (ite _ _ (ite _ _ _)) = _
  rw [if_neg h3, if_neg (show ¬ c.val.toNat ≤ 0x7FF from Nat.not_le.mpr h1),
    if_pos (show c.val.toNat ≤ 0xFFFF from h2)]
  rfl

theorem encode_four {c : Char} (h1 : 0x10000 ≤ c.toNat) :
    String.utf8EncodeChar c
      = [UInt8.ofNat (0xF0 + c.toNat / 262144),
         UInt8.ofNat (0x80 + c.toNat / 4096 % 64),
         UInt8.ofNat (0x80 + c.toNat / 64 % 64), UInt8.ofNat (0x80 + c.toNat % 64)] := by
  have hmax := toNat_le c
  have ha : c.toNat / 262144 % 8 + 0xF0 = 0xF0 + c.toNat / 262144 := by omega
  have hb : c.toNat / 4096 % 64 + 0x80 = 0x80 + c.toNat / 4096 % 64 := by omega
  have hc : c.toNat / 64 % 64 + 0x80 = 0x80 + c.toNat / 64 % 64 := by omega
  have hd : c.toNat % 64 + 0x80 = 0x80 + c.toNat % 64 := by omega
  rw [← ha, ← hb, ← hc, ← hd]
  have h3 : ¬ c.val.toNat ≤ 0x7F := Nat.not_le.mpr (Nat.le_trans (by decide) h1)
  have h4 : ¬ c.val.toNat ≤ 0x7FF := Nat.not_le.mpr (Nat.le_trans (by decide) h1)
  show ite _ _ (ite _ _ (ite _ _ _)) = _
  rw [if_neg h3, if_neg h4,
    if_neg (show ¬ c.val.toNat ≤ 0xFFFF from Nat.not_le.mpr h1)]
  rfl

/-- ASCII is encoded as itself, and everything else starts above it. -/
theorem encode_cons (c : Char) :
    ∃ (a : UInt8) (t : List UInt8), String.utf8EncodeChar c = a :: t
      ∧ (c.toNat ≤ 0x7F → a.toNat = c.toNat) ∧ (0x80 ≤ c.toNat → 0x80 ≤ a.toNat) := by
  have hmax := toNat_le c
  have hbyte : ∀ n : Nat, n < 256 → (UInt8.ofNat n).toNat = n :=
    fun n h => UInt8.toNat_ofNat_of_lt' h
  by_cases h1 : c.toNat ≤ 0x7F
  · exact ⟨_, _, encode_one h1, fun _ => hbyte _ (by omega), fun h => by omega⟩
  by_cases h2 : c.toNat ≤ 0x7FF
  · refine ⟨_, _, encode_two (by omega) h2, fun h => absurd h h1, fun _ => ?_⟩
    rw [hbyte _ (by omega)]
    omega
  by_cases h3 : c.toNat ≤ 0xFFFF
  · refine ⟨_, _, encode_three (by omega) h3, fun h => absurd h h1, fun _ => ?_⟩
    rw [hbyte _ (by omega)]
    omega
  · refine ⟨_, _, encode_four (by omega), fun h => absurd h h1, fun _ => ?_⟩
    rw [hbyte _ (by omega)]
    omega

/-! ## The scalar value of a byte sequence -/

/-- Two bytes of the first row of the table encode a scalar value. -/
theorem exists_two {a b : UInt8} (ha : 0xC2 ≤ a.toNat ∧ a.toNat ≤ 0xDF)
    (hb : 0x80 ≤ b.toNat ∧ b.toNat ≤ 0xBF) :
    ∃ c : Char, 0x80 ≤ c.toNat ∧ String.utf8EncodeChar c = [a, b] := by
  obtain ⟨n, hn⟩ : ∃ n, n = (a.toNat - 0xC0) * 64 + (b.toNat - 0x80) := ⟨_, rfl⟩
  have hv : n.isValidChar := Or.inl (by omega)
  refine ⟨scalar n hv, ?_, ?_⟩
  · rw [scalar_toNat]
    omega
  · rw [encode_two (by rw [scalar_toNat]; omega) (by rw [scalar_toNat]; omega),
      scalar_toNat, byte_eq (a := a) (by omega), byte_eq (a := b) (by omega)]

/-- Three bytes whose value is in range and no surrogate encode a scalar value. -/
theorem exists_three {a b c : UInt8} (ha : 0xE0 ≤ a.toNat ∧ a.toNat ≤ 0xEF)
    (hb : 0x80 ≤ b.toNat ∧ b.toNat ≤ 0xBF) (hc : 0x80 ≤ c.toNat ∧ c.toNat ≤ 0xBF)
    (hlow : a.toNat = 0xE0 → 0xA0 ≤ b.toNat)
    (hsur : a.toNat = 0xED → b.toNat ≤ 0x9F) :
    ∃ s : Char, 0x80 ≤ s.toNat ∧ String.utf8EncodeChar s = [a, b, c] := by
  obtain ⟨n, hn⟩ : ∃ n, n = (a.toNat - 0xE0) * 4096 + (b.toNat - 0x80) * 64
      + (c.toNat - 0x80) := ⟨_, rfl⟩
  have hv : n.isValidChar := by
    by_cases h : a.toNat ≤ 0xED
    · exact Or.inl (by omega)
    · exact Or.inr ⟨by omega, by omega⟩
  refine ⟨scalar n hv, ?_, ?_⟩
  · rw [scalar_toNat]
    omega
  · rw [encode_three (by rw [scalar_toNat]; omega) (by rw [scalar_toNat]; omega),
      scalar_toNat, byte_eq (a := a) (by omega), byte_eq (a := b) (by omega),
      byte_eq (a := c) (by omega)]

/-- Four bytes whose value is in range encode a scalar value. -/
theorem exists_four {a b c d : UInt8} (ha : 0xF0 ≤ a.toNat ∧ a.toNat ≤ 0xF4)
    (hb : 0x80 ≤ b.toNat ∧ b.toNat ≤ 0xBF) (hc : 0x80 ≤ c.toNat ∧ c.toNat ≤ 0xBF)
    (hd : 0x80 ≤ d.toNat ∧ d.toNat ≤ 0xBF)
    (hlow : a.toNat = 0xF0 → 0x90 ≤ b.toNat)
    (hmax : a.toNat = 0xF4 → b.toNat ≤ 0x8F) :
    ∃ s : Char, 0x80 ≤ s.toNat ∧ String.utf8EncodeChar s = [a, b, c, d] := by
  obtain ⟨n, hn⟩ : ∃ n, n = (a.toNat - 0xF0) * 262144 + (b.toNat - 0x80) * 4096
      + (c.toNat - 0x80) * 64 + (d.toNat - 0x80) := ⟨_, rfl⟩
  have hv : n.isValidChar := Or.inr ⟨by omega, by omega⟩
  refine ⟨scalar n hv, ?_, ?_⟩
  · rw [scalar_toNat]
    omega
  · rw [encode_four (by rw [scalar_toNat]; omega), scalar_toNat,
      byte_eq (a := a) (by omega), byte_eq (a := b) (by omega),
      byte_eq (a := c) (by omega), byte_eq (a := d) (by omega)]

/-! ## Well-formed text -/

/-- Text in UTF-8: the encodings of scalar values, one behind the other. -/
def WellFormed (s : List UInt8) : Prop := ∃ cs : List Char, s = cs.flatMap String.utf8EncodeChar

theorem wellFormed_nil : WellFormed [] := ⟨[], rfl⟩

theorem wellFormed_encode (c : Char) : WellFormed (String.utf8EncodeChar c) :=
  ⟨[c], (List.append_nil _).symm⟩

theorem WellFormed.append {s t : List UInt8} (hs : WellFormed s) (ht : WellFormed t) :
    WellFormed (s ++ t) := by
  obtain ⟨cs, rfl⟩ := hs
  obtain ⟨ds, rfl⟩ := ht
  exact ⟨cs ++ ds, List.flatMap_append.symm⟩

theorem wellFormed_flatMap {α : Type} {f : α → List UInt8} {l : List α}
    (h : ∀ a ∈ l, WellFormed (f a)) : WellFormed (l.flatMap f) := by
  induction l with
  | nil => exact wellFormed_nil
  | cons a l ih =>
      exact (h a List.mem_cons_self).append (ih fun b hb => h b (List.mem_cons_of_mem a hb))

/-- No encoding begins another one. -/
theorem encode_append_inj {c d : Char} {s t : List UInt8}
    (h : String.utf8EncodeChar c ++ s = String.utf8EncodeChar d ++ t) : c = d ∧ s = t := by
  have hdecode : ∀ (c : Char) (s : List UInt8),
      ByteArray.utf8DecodeChar? (String.utf8EncodeChar c ++ s).toByteArray 0 = some c := by
    intro c s
    rw [List.toByteArray_append]
    exact ByteArray.utf8DecodeChar?_utf8EncodeChar_append
  have hc := hdecode c s
  rw [h, hdecode d t] at hc
  obtain rfl := Option.some.inj hc
  exact ⟨rfl, List.append_cancel_left h⟩

theorem WellFormed.of_encode_append {c : Char} {s : List UInt8}
    (h : WellFormed (String.utf8EncodeChar c ++ s)) : WellFormed s := by
  obtain ⟨cs, hcs⟩ := h
  cases cs with
  | nil => exact absurd (List.append_eq_nil_iff.mp hcs).1 String.utf8EncodeChar_ne_nil
  | cons d ds => exact ⟨ds, (encode_append_inj hcs).2⟩

/-- A byte of ASCII is a text of its own. -/
theorem wellFormed_ascii {b : UInt8} (h : b < 0x80) : WellFormed [b] := by
  have hv : b.toNat.isValidChar := .inl (by
    have hb : b.toNat < 0x80 := h
    omega)
  have hone : (scalar b.toNat hv).toNat ≤ 0x7F := by
    have hb : b.toNat < 0x80 := h
    rw [scalar_toNat]
    omega
  have henc := wellFormed_encode (scalar b.toNat hv)
  rw [encode_one hone, scalar_toNat, UInt8.ofNat_toNat] at henc
  exact henc

theorem wellFormed_cons {b : UInt8} {s : List UInt8} (hb : b < 0x80) (hs : WellFormed s) :
    WellFormed (b :: s) :=
  (wellFormed_ascii hb).append hs

theorem wellFormed_of_ascii {s : List UInt8} (h : ∀ b ∈ s, b < 0x80) : WellFormed s := by
  induction s with
  | nil => exact wellFormed_nil
  | cons b s ih =>
      exact (wellFormed_ascii (h b List.mem_cons_self)).append
        (ih fun c hc => h c (List.mem_cons_of_mem b hc))

/-- A byte of an encoding is ASCII only where the scalar value is. -/
theorem encode_bytes {c : Char} {b : UInt8} (hb : b ∈ String.utf8EncodeChar c) :
    String.utf8EncodeChar c = [b] ∧ b.toNat = c.toNat ∧ b < 0x80
      ∨ 0x80 ≤ c.toNat ∧ 0x80 ≤ b := by
  have hmax := toNat_le c
  have hbyte : ∀ n : Nat, n < 256 → 0x80 ≤ n → 0x80 ≤ UInt8.ofNat n := by
    intro n hn h
    rw [UInt8.le_iff_toNat_le, UInt8.toNat_ofNat_of_lt' (show n < 256 from hn)]
    exact h
  by_cases h1 : c.toNat ≤ 0x7F
  · rw [encode_one h1] at hb ⊢
    have hnat : (UInt8.ofNat c.toNat).toNat = c.toNat :=
      UInt8.toNat_ofNat_of_lt' (show c.toNat < 256 by omega)
    rw [List.mem_singleton.mp hb]
    refine .inl ⟨rfl, hnat, ?_⟩
    rw [UInt8.lt_iff_toNat_lt, hnat]
    exact Nat.lt_succ_of_le h1
  refine .inr ⟨Nat.lt_of_not_le h1, ?_⟩
  by_cases h2 : c.toNat ≤ 0x7FF
  · rw [encode_two (by omega) h2] at hb
    simp only [List.mem_cons, List.not_mem_nil, or_false] at hb
    rcases hb with rfl | rfl
    · exact hbyte _ (by omega) (by omega)
    · exact hbyte _ (by omega) (by omega)
  by_cases h3 : c.toNat ≤ 0xFFFF
  · rw [encode_three (by omega) h3] at hb
    simp only [List.mem_cons, List.not_mem_nil, or_false] at hb
    rcases hb with rfl | rfl | rfl
    · exact hbyte _ (by omega) (by omega)
    · exact hbyte _ (by omega) (by omega)
    · exact hbyte _ (by omega) (by omega)
  · rw [encode_four (by omega)] at hb
    simp only [List.mem_cons, List.not_mem_nil, or_false] at hb
    rcases hb with rfl | rfl | rfl | rfl
    · exact hbyte _ (by omega) (by omega)
    · exact hbyte _ (by omega) (by omega)
    · exact hbyte _ (by omega) (by omega)
    · exact hbyte _ (by omega) (by omega)

/-- **Well-formed text splits at a byte of ASCII.** -/
theorem WellFormed.split {b : UInt8} (hb : b < 0x80) : ∀ {s t : List UInt8},
    WellFormed (s ++ b :: t) → WellFormed s ∧ WellFormed t := by
  rintro s t ⟨cs, hcs⟩
  induction cs generalizing s with
  | nil => exact absurd (List.append_eq_nil_iff.mp hcs).2 (List.cons_ne_nil _ _)
  | cons c cs ih =>
      rw [List.flatMap_cons] at hcs
      rcases List.append_eq_append_iff.mp hcs with ⟨u, hc, htail⟩ | ⟨u, rfl, htail⟩
      · -- the split lies in the first encoding
        cases u with
        | nil =>
            rw [List.append_nil] at hc
            obtain ⟨hs, ht⟩ := @ih [] htail
            exact ⟨hc ▸ wellFormed_encode c, ht⟩
        | cons a u =>
            obtain ⟨rfl, rfl⟩ := List.cons.inj htail
            have hmem : b ∈ String.utf8EncodeChar c := by
              rw [hc]
              exact List.mem_append_right s List.mem_cons_self
            rcases encode_bytes hmem with ⟨hone, -, -⟩ | ⟨-, h80⟩
            · rw [hone] at hc
              rcases List.append_eq_singleton_iff.mp hc.symm with ⟨rfl, hu⟩ | ⟨-, hu⟩
              · obtain ⟨-, rfl⟩ := List.cons.inj hu
                exact ⟨wellFormed_nil, ⟨cs, rfl⟩⟩
              · exact nomatch hu
            · exact absurd hb (UInt8.not_lt.mpr h80)
      · obtain ⟨hs, ht⟩ := ih htail.symm
        exact ⟨(wellFormed_encode c).append hs, ht⟩

theorem WellFormed.tail {b : UInt8} {s : List UInt8} (hb : b < 0x80) (h : WellFormed (b :: s)) :
    WellFormed s :=
  (@WellFormed.split b hb [] s h).2

/-! ## Text that is taken apart

    A program that cuts only at bytes of ASCII, and drops only such bytes at the
    edges, leaves text. -/

/-- The bytes that `p` picks are ASCII. -/
def OnlyAscii (p : UInt8 → Bool) : Prop := ∀ b, p b = true → b < 0x80

theorem WellFormed.dropWhile {p : UInt8 → Bool} (hp : OnlyAscii p) {s : List UInt8}
    (h : WellFormed s) : WellFormed (s.dropWhile p) := by
  induction s with
  | nil => exact h
  | cons b s ih =>
      by_cases hb : p b = true
      · rw [List.dropWhile_cons_of_pos hb]
        exact ih (h.tail (hp b hb))
      · rw [List.dropWhile_cons_of_neg hb]
        exact h

theorem WellFormed.rdropWhile {p : UInt8 → Bool} (hp : OnlyAscii p) {s : List UInt8}
    (h : WellFormed s) : WellFormed (s.rdropWhile p) := by
  induction s using List.reverseRecOn with
  | nil => exact h
  | append_singleton s b ih =>
      by_cases hb : p b = true
      · rw [List.rdropWhile_concat_pos p _ _ hb]
        exact ih (h.split (hp b hb)).1
      · rw [List.rdropWhile_concat_neg p _ _ hb]
        exact h

/-- The text in front of a byte of ASCII, and the text behind it. -/
theorem WellFormed.around {c d : UInt8} (hc : c < 0x80) {s t : List UInt8} (h : WellFormed s)
    (hs : s.dropWhile (· != c) = d :: t) : WellFormed (s.takeWhile (· != c)) ∧ WellFormed t := by
  have hd : d = c := by
    have hhead := List.head_dropWhile_not (· != c) (hs ▸ List.cons_ne_nil d t)
    simpa [hs] using hhead
  rw [← @List.takeWhile_append_dropWhile _ (· != c) s, hs, hd] at h
  exact h.split hc

/-- The lines of a text are text. -/
theorem WellFormed.lines {p : UInt8 → Bool} (hp : OnlyAscii p) : ∀ {s front : List UInt8},
    WellFormed (front ++ s) → ∀ l ∈ (s.splitOnP p).modifyHead (front ++ ·), WellFormed l := by
  intro s
  induction s with
  | nil =>
      intro front h l hl
      obtain rfl := List.mem_singleton.mp hl
      exact h
  | cons b s ih =>
      intro front h l hl
      rw [List.splitOnP_cons_eq_if_modifyHead] at hl
      by_cases hb : p b = true
      · rw [if_pos hb] at hl
        obtain ⟨hfront, hs⟩ := h.split (hp b hb)
        rcases List.mem_cons.mp hl with rfl | hl
        · show WellFormed (front ++ [])
          rw [List.append_nil]
          exact hfront
        · refine @ih [] hs l ?_
          rwa [show (([] : List UInt8) ++ ·) = id from rfl, List.modifyHead_id]
      · rw [if_neg hb, List.modifyHead_modifyHead] at hl
        refine @ih (front ++ [b]) (by rwa [List.append_assoc]) l ?_
        rwa [show ((front ++ [b]) ++ ·) = (front ++ ·) ∘ List.cons b from
          funext fun t => List.append_assoc ..]

/-- The first `n` bytes of `s` are whole characters: what stands behind them
    begins one. -/
def Whole (n : Nat) (s : List UInt8) : Prop := ∀ b, s[n]? = some b → b.IsUTF8FirstByte

instance (n : Nat) (s : List UInt8) : Decidable (Whole n s) :=
  match h : s[n]? with
  | none => .isTrue fun _ hb => nomatch h.symm.trans hb
  | some b => decidable_of_iff b.IsUTF8FirstByte
      ⟨fun hf _ hc => Option.some.inj (h.symm.trans hc) ▸ hf, fun hw => hw b h⟩

theorem whole_of_length_le {n : Nat} {s : List UInt8} (h : s.length ≤ n) : Whole n s :=
  fun _ hb => nomatch (List.getElem?_eq_none h).symm.trans hb

/-- **A cut leaves text exactly where it falls between two characters.** -/
theorem wellFormed_take_iff {s : List UInt8} (hs : WellFormed s) : ∀ n : Nat,
    WellFormed (s.take n) ↔ Whole n s := by
  obtain ⟨cs, rfl⟩ := hs
  induction cs with
  | nil =>
      intro n
      rw [List.flatMap_nil, List.take_nil]
      exact iff_of_true wellFormed_nil (whole_of_length_le (Nat.zero_le n))
  | cons c cs ih =>
      intro n
      rw [List.flatMap_cons]
      rcases Nat.lt_or_ge n (String.utf8EncodeChar c).length with hlt | hge
      · -- the cut falls into the first character, or in front of it
        have hwhole : Whole n (String.utf8EncodeChar c ++ cs.flatMap String.utf8EncodeChar)
            ↔ n = 0 := by
          rw [Whole, List.getElem?_append_left hlt, List.getElem?_eq_getElem hlt,
            ← @UInt8.isUTF8FirstByte_getElem_utf8EncodeChar c n hlt]
          exact ⟨fun h => h _ rfl, fun h b hb => Option.some.inj hb ▸ h⟩
        rw [hwhole, List.take_append_of_le_length (Nat.le_of_lt hlt)]
        constructor
        · rintro ⟨ds, hds⟩
          cases ds with
          | nil =>
              rcases List.take_eq_nil_iff.mp hds with h | h
              · exact h
              · exact absurd h String.utf8EncodeChar_ne_nil
          | cons d ds =>
              rw [List.flatMap_cons] at hds
              have hsplit := List.take_append_drop n (String.utf8EncodeChar c)
              rw [hds, List.append_assoc] at hsplit
              have hnil : String.utf8EncodeChar c ++ [] = String.utf8EncodeChar c := List.append_nil _
              obtain ⟨rfl, hrest⟩ := encode_append_inj (hsplit.trans hnil.symm)
              have hlen := congrArg List.length hds
              rw [List.length_take, List.length_append] at hlen
              omega
        · rintro rfl
          exact wellFormed_nil
      · have hshift : Whole n (String.utf8EncodeChar c ++ cs.flatMap String.utf8EncodeChar)
            ↔ Whole (n - (String.utf8EncodeChar c).length) (cs.flatMap String.utf8EncodeChar) := by
          rw [Whole, Whole, List.getElem?_append_right hge]
        rw [hshift, ← ih, List.take_append, List.take_of_length_le hge]
        exact ⟨WellFormed.of_encode_append, (wellFormed_encode c).append⟩

end Utf8
