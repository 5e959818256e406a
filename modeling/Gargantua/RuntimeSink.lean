import Gargantua.JsonUnique
import Gargantua.RuntimeTypes
import Gargantua.Lib.Bounded

/-! # The text sink (`src/runtime/runtime.c`)

    A sink writes text into a buffer of a fixed size and notes when something
    did not fit.  What it holds is the text it was given, while that is shorter
    than the buffer. -/

namespace RuntimeSink

open CString RuntimeTypes JsonGrammar JsonValue

/-- `Sink`: the buffer up to `len`. -/
structure Sink where
  cap : Nat
  buf : Bytes := []
  overflow : Bool := false

/-- `HEX_DIGIT`. -/
def HEX_DIGIT : Bytes := lit "0123456789abcdef"

/-- `sink_init`. -/
def sinkInit (cap : Nat) : Sink := { cap := cap }

/-- `sink_add_bytes`. -/
def sinkAddBytes (s : Sink) (text : Bytes) : Sink :=
  if s.overflow then s
  else if text.length ≥ s.cap - s.buf.length then { s with overflow := true }
  else { s with buf := s.buf ++ text }

/-- `sink_add`. -/
def sinkAdd (s : Sink) (text : Bytes) : Sink := sinkAddBytes s (cstr text)

/-- `sink_put`. -/
def sinkPut (s : Sink) (c : Byte) : Sink :=
  if s.overflow then s
  else if s.buf.length + 1 ≥ s.cap then { s with overflow := true }
  else { s with buf := s.buf ++ [c] }

/-- The `switch` of `sink_add_escaped`. -/
def addEscape (s : Sink) (c : Byte) : Sink :=
  if c = 0x22 then sinkAddBytes s (lit "\\\"")
  else if c = 0x5C then sinkAddBytes s (lit "\\\\")
  else if c = 0x0A then sinkAddBytes s (lit "\\n")
  else if c = 0x0D then sinkAddBytes s (lit "\\r")
  else if c = 0x09 then sinkAddBytes s (lit "\\t")
  else
    sinkPut (sinkPut (sinkAddBytes s (lit "\\u00"))
      (HEX_DIGIT.getD ((c >>> 4) &&& 0x0F).toNat 0)) (HEX_DIGIT.getD (c &&& 0x0F).toNat 0)

/-- The run from `plain` to `i`, if there is one. -/
def flushPlain (s : Sink) (plain : Bytes) : Sink :=
  if plain.length > 0 then sinkAddBytes s plain else s

/-- The loop of `sink_add_escaped`, with the bytes from `plain` to `i`. -/
def escapedLoop (s : Sink) (i : Nat) (plain : Bytes) : Bytes → Sink × Bytes
  | [] => (s, plain)
  | c :: text =>
      if i < RUNTIME_MAX_TEXT ∧ c ≠ 0 then
        if 0x20 ≤ c ∧ c ≠ 0x22 ∧ c ≠ 0x5C then escapedLoop s (i + 1) (plain ++ [c]) text
        else escapedLoop (addEscape (flushPlain s plain) c) (i + 1) [] text
      else (s, plain)

/-- `sink_add_escaped`. -/
def sinkAddEscaped (s : Sink) (text : Bytes) : Sink :=
  let r := escapedLoop s 0 [] text
  flushPlain r.1 r.2

/-- `sink_quoted` (`src/runtime/runtime_error.c`). -/
def sinkQuoted (s : Sink) (text : Bytes) : Sink :=
  sinkPut (sinkAddEscaped (sinkPut s 0x22) text) 0x22

/-! ## What a sink holds -/

/-- The text in a sink, unless something did not fit. -/
def Sink.text (s : Sink) : Option Bytes := if s.overflow then none else some s.buf

/-- The sink has its size, and holds `content`. -/
structure Holds (cap : Nat) (content : Option Bytes) (s : Sink) : Prop where
  cap_eq : s.cap = cap
  fits : s.buf.length < cap
  text_eq : s.text = content

variable {cap : Nat} {content : Option Bytes} {s : Sink}

theorem holds_init (h : 0 < cap) : Holds cap (some []) (sinkInit cap) := ⟨rfl, h, rfl⟩

/-- `sink_put` is `sink_add_bytes` of one byte. -/
theorem sinkPut_eq (s : Sink) (c : Byte) : sinkPut s c = sinkAddBytes s [c] := by
  have hsize : (s.buf.length + 1 ≥ s.cap) = ([c].length ≥ s.cap - s.buf.length) := by
    rw [List.length_singleton]
    exact propext (by omega)
  rw [sinkPut, sinkAddBytes]
  congr 2

theorem holds_addBytes (h : Holds cap content s) (text : Bytes) :
    Holds cap (Bounded.put (cap - 1) content text) (sinkAddBytes s text) := by
  obtain ⟨rfl, hfits, rfl⟩ := h
  rw [sinkAddBytes, Sink.text]
  cases ho : s.overflow with
  | true =>
      rw [if_pos rfl, if_pos rfl]
      exact ⟨rfl, hfits, by rw [Sink.text, ho]; rfl⟩
  | false =>
      rw [if_neg Bool.false_ne_true, if_neg Bool.false_ne_true, Bounded.put_some]
      by_cases hn : text.length ≥ s.cap - s.buf.length
      · rw [if_pos hn, if_neg (by omega)]
        exact ⟨rfl, hfits, rfl⟩
      · rw [if_neg hn, if_pos (by omega)]
        refine ⟨rfl, ?_, ?_⟩
        · rw [List.length_append]
          omega
        · rfl

theorem holds_add (h : Holds cap content s) (text : Bytes) :
    Holds cap (Bounded.put (cap - 1) content (cstr text)) (sinkAdd s text) :=
  holds_addBytes h (cstr text)

theorem holds_put (h : Holds cap content s) (c : Byte) :
    Holds cap (Bounded.put (cap - 1) content [c]) (sinkPut s c) := by
  rw [sinkPut_eq]
  exact holds_addBytes h [c]

/-! ## Escapes -/

/-- How `sink_add_escaped` writes a byte. -/
def escape (c : Byte) : Bytes :=
  if IsPlain c then [c]
  else if c = 0x22 then lit "\\\""
  else if c = 0x5C then lit "\\\\"
  else if c = 0x0A then lit "\\n"
  else if c = 0x0D then lit "\\r"
  else if c = 0x09 then lit "\\t"
  else lit "\\u00" ++ [HEX_DIGIT.getD ((c >>> 4) &&& 0x0F).toNat 0,
    HEX_DIGIT.getD (c &&& 0x0F).toNat 0]

theorem escape_plain {c : Byte} (h : IsPlain c) : escape c = [c] := if_pos h

theorem holds_escape (h : Holds cap content s) {c : Byte} (hc : ¬ IsPlain c) :
    Holds cap (Bounded.put (cap - 1) content (escape c)) (addEscape s c) := by
  rw [addEscape, escape, if_neg hc]
  split_ifs
  · exact holds_addBytes h _
  · exact holds_addBytes h _
  · exact holds_addBytes h _
  · exact holds_addBytes h _
  · exact holds_addBytes h _
  · have hputs := holds_put (holds_put (holds_addBytes h (lit "\\u00"))
      (HEX_DIGIT.getD ((c >>> 4) &&& 0x0F).toNat 0)) (HEX_DIGIT.getD (c &&& 0x0F).toNat 0)
    rw [Bounded.put_put, Bounded.put_put] at hputs
    exact hputs

theorem Holds.nil (h : Holds cap content s) : Bounded.put (cap - 1) content [] = content := by
  obtain ⟨rfl, hfits, rfl⟩ := h
  rw [Sink.text]
  cases s.overflow with
  | true => rfl
  | false => exact Bounded.put_nil _ (by omega)

theorem holds_flush (h : Holds cap content s) (plain : Bytes) :
    Holds cap (Bounded.put (cap - 1) content plain) (flushPlain s plain) := by
  rw [flushPlain]
  split
  · exact holds_addBytes h plain
  · rename_i hlen
    obtain rfl := List.length_eq_zero_iff.mp (Nat.eq_zero_of_not_pos hlen)
    rw [h.nil]
    exact h

/-- The loop writes every byte up to the end of the C string or the limit, the
    run that is pending at the end aside. -/
theorem escapedLoop_holds (text : Bytes) : ∀ {content : Option Bytes} {s : Sink} {i : Nat}
    {plain : Bytes}, Holds cap content s → (∀ c ∈ plain, IsPlain c) →
      let r := escapedLoop s i plain text
      Holds cap (Bounded.put (cap - 1) content
        (plain ++ ((cstr text).take (RUNTIME_MAX_TEXT - i)).flatMap escape))
        (flushPlain r.1 r.2) := by
  induction text with
  | nil =>
      intro content s i plain h _
      have hnil : plain ++ ((cstr []).take (RUNTIME_MAX_TEXT - i)).flatMap escape = plain := by
        rw [cstr, List.takeWhile_nil, List.take_nil, List.flatMap_nil, List.append_nil]
      dsimp only
      rw [hnil]
      exact holds_flush h plain
  | cons c text ih =>
      intro content s i plain h hplain
      dsimp only
      rw [escapedLoop]
      by_cases hgo : i < RUNTIME_MAX_TEXT ∧ c ≠ 0
      · have hsucc : RUNTIME_MAX_TEXT - i = (RUNTIME_MAX_TEXT - (i + 1)) + 1 := by omega
        have hstep : ((cstr (c :: text)).take (RUNTIME_MAX_TEXT - i)).flatMap escape
            = escape c ++ ((cstr text).take (RUNTIME_MAX_TEXT - (i + 1))).flatMap escape := by
          have hcons : cstr (c :: text) = c :: cstr text :=
            List.takeWhile_cons_of_pos (bne_iff_ne.mpr hgo.2)
          rw [hcons, hsucc, List.take_succ_cons, List.flatMap_cons]
        rw [if_pos hgo, hstep]
        by_cases hc : IsPlain c
        · rw [if_pos (show 0x20 ≤ c ∧ c ≠ 0x22 ∧ c ≠ 0x5C from hc), escape_plain hc]
          have hih := @ih content s (i + 1) (plain ++ [c]) h fun d hd =>
            (List.mem_append.mp hd).elim (hplain d) fun hd => List.mem_singleton.mp hd ▸ hc
          rw [List.append_assoc] at hih
          exact hih
        · rw [if_neg (show ¬ (0x20 ≤ c ∧ c ≠ 0x22 ∧ c ≠ 0x5C) from hc)]
          have hih := @ih _ _ (i + 1) [] (holds_escape (holds_flush h plain) hc)
            fun _ hd => by cases hd
          rw [Bounded.put_put, Bounded.put_put, List.nil_append] at hih
          exact hih
      · have hstop : (cstr (c :: text)).take (RUNTIME_MAX_TEXT - i) = [] := by
          rcases Decidable.not_and_iff_or_not.mp hgo with hi | hc
          · rw [Nat.sub_eq_zero_of_le (Nat.not_lt.mp hi), List.take_zero]
          · rw [cstr, List.takeWhile_cons_of_neg (by simpa using hc), List.take_nil]
        rw [if_neg hgo, hstop, List.flatMap_nil, List.append_nil]
        exact holds_flush h plain

/-- The part of a text that `sink_add_escaped` writes. -/
def written (text : Bytes) : Bytes := (cstr text).take RUNTIME_MAX_TEXT

theorem holds_quoted (h : Holds cap content s) (text : Bytes) :
    Holds cap (Bounded.put (cap - 1) content (quote escape (written text))) (sinkQuoted s text) := by
  have hloop := @escapedLoop_holds cap text _ _ 0 [] (holds_put h 0x22) fun _ hc => by cases hc
  have hend := holds_put hloop 0x22
  rw [Bounded.put_put, Bounded.put_put, List.nil_append] at hend
  exact hend

/-- A byte below `0x80` may be written with two hexadecimal digits. -/
theorem exists_unicode {c hi lo : Byte} (h : c < 0x80)
    (hhi : (0x30 ≤ hi ∧ hi ≤ 0x39) ∨ (0x41 ≤ hi ∧ hi ≤ 0x46) ∨ (0x61 ≤ hi ∧ hi ≤ 0x66))
    (hlo : (0x30 ≤ lo ∧ lo ≤ 0x39) ∨ (0x41 ≤ lo ∧ lo ≤ 0x46) ∨ (0x61 ≤ lo ∧ lo ≤ 0x66))
    (hvalue : c.toNat = (HexDigit.mk hi hhi).value * 16 + (HexDigit.mk lo hlo).value) :
    ∃ ch : Chr, ch.render = lit "\\u00" ++ [hi, lo] ∧ ch.decode = [c] := by
  have hzero : (0x30 ≤ (0x30 : Byte) ∧ (0x30 : Byte) ≤ 0x39)
      ∨ (0x41 ≤ (0x30 : Byte) ∧ (0x30 : Byte) ≤ 0x46)
      ∨ (0x61 ≤ (0x30 : Byte) ∧ (0x30 : Byte) ≤ 0x66) := .inl (by decide)
  have hu : (Hex4.mk ⟨0x30, hzero⟩ ⟨0x30, hzero⟩ ⟨hi, hhi⟩ ⟨lo, hlo⟩).value = c.toNat := by
    have h0 : (HexDigit.mk 0x30 hzero).value = 0 := rfl
    simp only [Hex4.value, h0]
    omega
  have hsmall : c.toNat < 0x80 := h
  have h1 : ¬ IsHighSurrogate
      (Hex4.mk ⟨0x30, hzero⟩ ⟨0x30, hzero⟩ ⟨hi, hhi⟩ ⟨lo, hlo⟩).value := by
    rw [hu, IsHighSurrogate]
    omega
  have h2 : ¬ IsLowSurrogate
      (Hex4.mk ⟨0x30, hzero⟩ ⟨0x30, hzero⟩ ⟨hi, hhi⟩ ⟨lo, hlo⟩).value := by
    rw [hu, IsLowSurrogate]
    omega
  refine ⟨.unicode _ h1 h2, rfl, ?_⟩
  rw [Chr.decode, Utf8.encode_one (by rw [Utf8.scalar_toNat, hu]; omega), Utf8.scalar_toNat, hu,
    UInt8.ofNat_toNat]

/-- The digits of a control character. -/
theorem hex_digits {c : Byte} (h : c < 0x20) :
    ∃ hhi hlo, c.toNat = (HexDigit.mk (HEX_DIGIT.getD ((c >>> 4) &&& 0x0F).toNat 0) hhi).value * 16
      + (HexDigit.mk (HEX_DIGIT.getD (c &&& 0x0F).toNat 0) hlo).value := by
  revert h
  cases c with
  | ofBitVec b =>
      revert b
      decide +kernel

/-- **The escapes of the sink are JSON's.** -/
theorem escapes : Escapes escape where
  plain := fun _ => escape_plain
  special := by
    intro c hc
    rw [escape, if_neg hc]
    split_ifs with h1 h2 h3 h4 h5
    · exact ⟨.escape .quote, rfl, h1 ▸ rfl⟩
    · exact ⟨.escape .backslash, rfl, h2 ▸ rfl⟩
    · exact ⟨.escape .n, rfl, h3 ▸ rfl⟩
    · exact ⟨.escape .r, rfl, h4 ▸ rfl⟩
    · exact ⟨.escape .t, rfl, h5 ▸ rfl⟩
    · have hlow : c < 0x20 := by
        by_contra hge
        exact hc ⟨UInt8.not_lt.mp hge, h1, h2⟩
      obtain ⟨hhi, hlo, hvalue⟩ := hex_digits hlow
      exact exists_unicode (special_ascii hc) hhi hlo hvalue
  ascii := by
    intro c
    cases c with
    | ofBitVec b =>
        revert b
        decide +kernel

end RuntimeSink
