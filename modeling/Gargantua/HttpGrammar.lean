import Gargantua.HttpParse

/-! # The message grammar `http_parse_request` accepts

    A request message is written down as data: the request line, the header
    lines with their optional blanks, the body.  `Head.bytes` is its wire form
    and `Head.WF` the grammar, over a parameter for the token characters of
    method and header names: RFC 9110's `tchar`, or the characters the code
    takes for one.

    Every parsing function gets one lemma that says exactly which inputs it
    splits and how; the parser of the whole head is then the grammar over
    `isTokenChar` (`parseHead_iff`), and `http_parse_request` is that grammar
    with a body behind it (`httpParseRequest_ok_iff`). -/

namespace HttpGrammar

open CString Scan HttpParse

/-! ## Character classes -/

/-- RFC 9110's `tchar`. -/
def tchar (c : Byte) : Bool :=
  isDigit c || isAlpha c || tokenPunctuation.contains c

/-- The code's token characters are `tchar` and NUL: `strchr` also finds the
    terminator of the string it searches. -/
theorem isTokenChar_iff (c : Byte) :
    isTokenChar c = true ↔ tchar c = true ∨ c = 0 := by
  cases c with
  | ofBitVec b =>
      revert b
      decide +kernel

theorem tchar_ne_nul {c : Byte} (h : tchar c = true) : c ≠ 0 := by
  rintro rfl
  exact absurd h (by decide)

/-- A byte of a request target. -/
def TargetChar (c : Byte) : Prop := 0x20 < c ∧ c ≠ 0x7F ∧ c ≠ 0x23

/-- A byte of a header value. -/
def ValueChar (c : Byte) : Prop := c = HT ∨ (0x20 ≤ c ∧ c ≠ 0x7F)

theorem isTargetChar_iff (c : Byte) : isTargetChar c = true ↔ TargetChar c := by
  simp [isTargetChar, TargetChar, and_assoc]

theorem isValueChar_iff (c : Byte) : isValueChar c = true ↔ ValueChar c := by
  simp only [isValueChar, ValueChar, Bool.not_eq_true', Bool.or_eq_false_iff, Bool.and_eq_false_iff,
    decide_eq_false_iff_not, UInt8.not_lt, bne_eq_false_iff_eq, beq_eq_false_iff_ne]
  constructor
  · rintro ⟨h | h, h'⟩
    · exact .inr ⟨h, h'⟩
    · exact .inl h
  · rintro (rfl | h)
    · decide
    · exact ⟨.inl h.1, h.2⟩

/-- Blanks are not the bytes that stop a scan, and are value bytes. -/
theorem isOws_value {c : Byte} (h : isOws c = true) : ValueChar c := by
  rw [isOws, Bool.or_eq_true, beq_iff_eq, beq_iff_eq] at h
  rcases h with rfl | rfl
  · exact .inr (by decide)
  · exact .inl rfl

theorem valueChar_not_stop {c : Byte} (h : ValueChar c) :
    (c == CR || c == LF) = false := by
  rw [Bool.or_eq_false_iff, beq_eq_false_iff_ne, beq_eq_false_iff_ne]
  constructor
  · rintro rfl
    exact absurd h (by unfold ValueChar; decide)
  · rintro rfl
    exact absurd h (by unfold ValueChar; decide)

theorem isTokenChar_not {c : Byte} (h : isTokenChar c = true) :
    c ≠ CR ∧ c ≠ SP ∧ c ≠ COLON := by
  refine ⟨?_, ?_, ?_⟩
  all_goals
    rintro rfl
    exact absurd h (by decide)

theorem targetChar_not {c : Byte} (h : TargetChar c) : c ≠ CR ∧ c ≠ SP := by
  refine ⟨?_, ?_⟩
  all_goals
    rintro rfl
    exact absurd h (by unfold TargetChar; decide)

/-! ## Decimal numbers -/

/-- The number a string of digits denotes. -/
def decimalValue (s : Bytes) : Nat :=
  s.foldl (fun v c => v * 10 + (c.toNat - 48)) 0

/-- A decimal number within `LONG_MAX`. -/
def Decimal (s : Bytes) : Prop :=
  s ≠ [] ∧ (∀ c ∈ s, isDigit c = true) ∧ decimalValue s ≤ LONG_MAX

/-- Reading digits from a running value only makes it larger. -/
theorem le_foldl_digits (s : Bytes) :
    ∀ v : Nat, v ≤ s.foldl (fun v c => v * 10 + (c.toNat - 48)) v := by
  induction s with
  | nil => intro v; exact Nat.le_refl v
  | cons c cs ih =>
      intro v
      calc v ≤ v * 10 + (c.toNat - 48) := by omega
        _ ≤ _ := ih (v * 10 + (c.toNat - 48))

/-- The overflow test refuses exactly the numbers above `LONG_MAX`. -/
theorem parseContentLengthLoop_iff (s : Bytes) :
    ∀ v n : Nat, v ≤ LONG_MAX →
      (parseContentLengthLoop v s = some n ↔
        (∀ c ∈ s, isDigit c = true)
          ∧ n = s.foldl (fun v c => v * 10 + (c.toNat - 48)) v ∧ n ≤ LONG_MAX) := by
  induction s with
  | nil =>
      intro v n hv
      constructor
      · intro h
        obtain rfl := Option.some.inj h
        exact ⟨fun c hc => (nomatch hc), rfl, hv⟩
      · rintro ⟨-, rfl, -⟩
        rfl
  | cons c cs ih =>
      intro v n hv
      rw [parseContentLengthLoop, List.foldl_cons]
      by_cases hd : isDigit c = true
      · rw [if_pos hd]
        have hdig : c.toNat - 48 ≤ 9 := by
          have h9 : c ≤ 0x39 := by
            simp only [isDigit, Bool.and_eq_true, decide_eq_true_eq] at hd
            exact hd.2
          have : c.toNat ≤ 57 := UInt8.le_iff_toNat_le.mp h9
          omega
        have hmax : 9 ≤ LONG_MAX := by decide
        show (if v > (LONG_MAX - (c.toNat - 48)) / 10 then none
          else parseContentLengthLoop (v * 10 + (c.toNat - 48)) cs) = some n ↔ _
        by_cases hov : v > (LONG_MAX - (c.toNat - 48)) / 10
        · rw [if_pos hov]
          constructor
          · intro h
            exact nomatch h
          · rintro ⟨-, rfl, hn⟩
            have hle := le_foldl_digits cs (v * 10 + (c.toNat - 48))
            omega
        · rw [if_neg hov, ih _ n (by omega)]
          constructor
          · rintro ⟨h1, h2⟩
            exact ⟨List.forall_mem_cons.mpr ⟨hd, h1⟩, h2⟩
          · rintro ⟨h1, h2⟩
            exact ⟨(List.forall_mem_cons.mp h1).2, h2⟩
      · rw [if_neg hd]
        constructor
        · intro h
          exact nomatch h
        · rintro ⟨h1, -⟩
          exact absurd (h1 c List.mem_cons_self) hd

theorem parseContentLength_iff (s : Bytes) (n : Nat) :
    parseContentLength s = some n ↔ Decimal s ∧ n = decimalValue s := by
  unfold parseContentLength
  by_cases hs : s = []
  · rw [if_pos hs]
    constructor
    · intro h
      exact nomatch h
    · rintro ⟨⟨hne, -⟩, -⟩
      exact absurd hs hne
  · rw [if_neg hs, parseContentLengthLoop_iff s 0 n (Nat.zero_le _)]
    constructor
    · rintro ⟨h1, rfl, h3⟩
      exact ⟨⟨hs, h1, h3⟩, rfl⟩
    · rintro ⟨⟨-, h1, h3⟩, rfl⟩
      exact ⟨h1, rfl, h3⟩

/-! ## The grammar as data -/

/-- A header line `name:OWS value OWS CRLF`. -/
structure Field where
  name : Bytes
  before : Bytes
  value : Bytes
  after : Bytes
  deriving Repr, DecidableEq

/-- The header a line carries. -/
def Field.header (f : Field) : HttpHeader := ⟨f.name, f.value⟩

/-- The bytes of a header line. -/
def Field.bytes (f : Field) : Bytes :=
  f.name ++ COLON :: (f.before ++ (f.value ++ (f.after ++ CRLF)))

/-- A well-formed header line, `tok` being the token characters. -/
structure Field.WF (tok : Byte → Bool) (f : Field) : Prop where
  name_ne : f.name ≠ []
  name_tok : ∀ c ∈ f.name, tok c = true
  before_ows : ∀ c ∈ f.before, isOws c = true
  after_ows : ∀ c ∈ f.after, isOws c = true
  value_char : ∀ c ∈ f.value, ValueChar c
  value_left : f.value.dropWhile isOws = f.value
  value_right : f.value.rdropWhile isOws = f.value

/-- The headers the parser counts. -/
inductive Known where
  | host | contentLength | transferEncoding | authorization | contentType | expect
  deriving Repr, DecidableEq

/-- The name of a counted header. -/
def Known.name : Known → Bytes
  | .host => lit "Host"
  | .contentLength => lit "Content-Length"
  | .transferEncoding => lit "Transfer-Encoding"
  | .authorization => lit "Authorization"
  | .contentType => lit "Content-Type"
  | .expect => lit "Expect"

/-- Header names are compared up to ASCII case. -/
def Known.is (k : Known) (h : HttpHeader) : Bool :=
  h.name.map toLower == k.name.map toLower

/-- The headers with a counted name. -/
def named (k : Known) (hs : List HttpHeader) : List HttpHeader :=
  hs.filter k.is

/-- A `Host` value: nonempty, without space, tab or comma. -/
def HostValue (v : Bytes) : Prop :=
  v ≠ [] ∧ ∀ c ∈ v, c ≠ SP ∧ c ≠ HT ∧ c ≠ 0x2C

/-- The conditions on the headers of one head, taken together. -/
structure HeadersOk (minor : Nat) (hs : List HttpHeader) : Prop where
  noTransferEncoding : named .transferEncoding hs = []
  once : ∀ k, (named k hs).length ≤ 1
  hostPresent : minor = 1 → named .host hs ≠ []
  hostValid : ∀ h ∈ named .host hs, HostValue h.value
  lengthValid : ∀ h ∈ named .contentLength hs, Decimal h.value

/-- The declared body length, `-1` without a `Content-Length`. -/
def declaredLength (hs : List HttpHeader) : Int :=
  match named .contentLength hs with
  | [] => -1
  | h :: _ => (decimalValue h.value : Int)

/-- A request head. -/
structure Head where
  method : Bytes
  target : Bytes
  minor : Nat
  fields : List Field
  deriving Repr, DecidableEq

/-- The headers of a head, in order. -/
def Head.headers (H : Head) : List HttpHeader := H.fields.map Field.header

/-- The bytes of the request line. -/
def Head.line (H : Head) : Bytes :=
  H.method ++ SP :: (H.target ++ SP :: (lit "HTTP/1." ++ (0x30 + H.minor.toUInt8) :: CRLF))

/-- The bytes of a head, its empty line included. -/
def Head.bytes (H : Head) : Bytes :=
  H.line ++ (H.fields.flatMap Field.bytes ++ CRLF)

/-- A well-formed head, `tok` being the token characters. -/
structure Head.WF (tok : Byte → Bool) (H : Head) : Prop where
  method_len : 1 ≤ H.method.length ∧ H.method.length ≤ 15
  method_tok : ∀ c ∈ H.method, tok c = true
  target_len : 1 ≤ H.target.length ∧ H.target.length ≤ 511
  target_char : ∀ c ∈ H.target, TargetChar c
  target_form : H.target.head? = some 0x2F ∨ H.target = [0x2A]
  version : H.minor = 0 ∨ H.minor = 1
  fields_len : H.fields.length ≤ 64
  fields_wf : ∀ f ∈ H.fields, f.WF tok
  headers_ok : HeadersOk H.minor H.headers

/-- The request a head denotes, before its body is read. -/
def Head.request (H : Head) : HttpRequest :=
  { method := H.method, path := H.target, minorVersion := H.minor,
    headers := H.headers, contentLength := declaredLength H.headers }

/-- A complete message: a head of at most 32768 bytes and the declared body. -/
structure Message where
  head : Head
  body : Bytes
  deriving Repr, DecidableEq

def Message.bytes (m : Message) : Bytes := m.head.bytes ++ m.body

structure Message.WF (tok : Byte → Bool) (m : Message) : Prop where
  head_wf : m.head.WF tok
  head_len : m.head.bytes.length ≤ 32768
  body_len : (m.body.length : Int) = max (declaredLength m.head.headers) 0

/-- The request a message denotes: exactly its parts. -/
def Message.request (m : Message) : HttpRequest :=
  { m.head.request with
      body := m.body, bodyLen := m.body.length,
      headerLen := m.head.bytes.length, messageLen := m.bytes.length }

/-! ## One lemma for each parsing function -/

theorem expectCrlf_iff {p rest : Bytes} :
    expectCrlf p = some rest ↔ p = CRLF ++ rest := by
  constructor
  · intro h
    match p, h with
    | c :: d :: q, h =>
        rw [expectCrlf] at h
        by_cases hcd : c = CR ∧ d = LF
        · rw [if_pos hcd] at h
          rw [hcd.1, hcd.2, Option.some.inj h]
          rfl
        · rw [if_neg hcd] at h
          exact nomatch h
  · rintro rfl
    rfl

theorem readToken_iff {cap : Nat} {p out rest : Bytes} :
    readToken cap p = some (out, rest) ↔
      p = out ++ rest ∧ out ≠ [] ∧ out.length < cap
        ∧ (∀ c ∈ out, isTokenChar c = true)
        ∧ Stops (fun c => !isTokenChar c) rest := by
  constructor
  · intro h
    unfold readToken at h
    split at h
    · exact nomatch h
    · rename_i out' rest' hs
      by_cases hne : out' = []
      · rw [if_pos hne] at h
        exact nomatch h
      · rw [if_neg hne] at h
        obtain ⟨rfl, rfl⟩ := Prod.mk.inj (Option.some.inj h)
        obtain ⟨hscan, hlen⟩ := scanCap_eq_some_iff.mp hs
        obtain ⟨h1, h2, h3⟩ := scan_sound hscan
        refine ⟨h1, hne, ?_, ?_, h3⟩
        · rcases hlen with h0 | h0
          · exact absurd h0 hne
          · omega
        · intro c hc
          have := (h2 c hc).1
          rwa [Bool.not_eq_false'] at this
  · rintro ⟨rfl, hne, hlen, htok, hstop⟩
    have hscan : scan (fun c => !isTokenChar c) (fun _ => true) (out ++ rest)
        = some (out, rest) := by
      refine scan_complete hstop ?_
      intro c hc
      exact ⟨by rw [htok c hc]; rfl, rfl⟩
    rw [readToken, scanCap_eq_some_iff.mpr ⟨hscan, Or.inr (by omega)⟩]
    exact if_neg hne

theorem readTarget_iff {p out rest : Bytes} :
    readTarget p = some (out, rest) ↔
      p = out ++ SP :: rest ∧ 1 ≤ out.length ∧ out.length ≤ 511
        ∧ (∀ c ∈ out, TargetChar c)
        ∧ (out.head? = some 0x2F ∨ out = [0x2A]) := by
  constructor
  · intro h
    unfold readTarget at h
    split at h
    · exact nomatch h
    · rename_i out' rest' hs
      split at h
      · exact nomatch h
      · rename_i hc
        obtain ⟨rfl, rfl⟩ := Prod.mk.inj (Option.some.inj h)
        rw [not_or, not_or, not_not, not_not] at hc
        obtain ⟨hne, hsp, hform⟩ := hc
        obtain ⟨hscan, hlen⟩ := scanCap_eq_some_iff.mp hs
        obtain ⟨h1, h2, -⟩ := scan_sound hscan
        have hpos : 0 < out'.length := List.length_pos_iff.mpr hne
        refine ⟨?_, hpos, ?_, ?_, ?_⟩
        · rw [h1]
          cases rest' with
          | nil => exact nomatch hsp
          | cons d ds => rw [Option.some.inj hsp]; rfl
        · rcases hlen with h0 | h0
          · exact absurd h0 hne
          · have hlt : 0 + out'.length < 512 := h0
            omega
        · intro c hc
          exact (isTargetChar_iff c).mp (h2 c hc).2
        · rcases hform with hf | ⟨hl, hh⟩
          · exact Or.inl hf
          · refine Or.inr ?_
            obtain ⟨a, rfl⟩ := List.length_eq_one_iff.mp hl
            rw [Option.some.inj hh]
  · rintro ⟨rfl, hpos, hlen, hchar, hform⟩
    have hne : out ≠ [] := List.length_pos_iff.mp hpos
    have hscan : scan (· == SP) isTargetChar (out ++ SP :: rest)
        = some (out, SP :: rest) := by
      refine scan_complete (by rfl) ?_
      intro c hc
      exact ⟨beq_eq_false_iff_ne.mpr (targetChar_not (hchar c hc)).2,
        (isTargetChar_iff c).mpr (hchar c hc)⟩
    have hcap := scanCap_eq_some_iff.mpr
      ⟨hscan, Or.inr (show 0 + out.length < 512 by omega)⟩
    rw [readTarget, hcap]
    refine if_neg ?_
    rw [not_or, not_or, not_not, not_not]
    refine ⟨hne, rfl, ?_⟩
    rcases hform with hf | rfl
    · exact Or.inl hf
    · exact Or.inr ⟨rfl, rfl⟩

/-- A list read at a position it has continues with that element. -/
theorem drop_eq_cons {α : Type} {p : List α} {n : Nat} {a : α}
    (h : (p.drop n).head? = some a) : p.drop n = a :: p.drop (n + 1) := by
  cases hq : p.drop n with
  | nil => rw [hq] at h; exact nomatch h
  | cons b q =>
      rw [hq] at h
      rw [Option.some.inj h, ← List.drop_drop, hq]
      rfl

theorem readVersion_iff {p rest : Bytes} {n : Nat} :
    readVersion p = some (n, rest) ↔
      (n = 0 ∨ n = 1) ∧ p = lit "HTTP/1." ++ (0x30 + n.toUInt8) :: rest := by
  constructor
  · intro h
    unfold readVersion at h
    split at h
    · exact nomatch h
    · rename_i hc
      rw [not_or, not_or, not_not, not_and_or, not_not, not_not] at hc
      obtain ⟨hlen, htake, hdig⟩ := hc
      obtain ⟨hn, rfl⟩ := Prod.mk.inj (Option.some.inj h)
      have hp : p = lit "HTTP/1." ++ p.drop 7 := by
        rw [← htake, List.take_append_drop]
      rcases hdig with hd | hd
      · rw [drop_eq_cons hd] at hn hp
        exact ⟨Or.inl hn.symm, by rw [← hn]; exact hp⟩
      · rw [drop_eq_cons hd] at hn hp
        exact ⟨Or.inr hn.symm, by rw [← hn]; exact hp⟩
  · rintro ⟨hn, rfl⟩
    refine (if_neg ?_).trans ?_
    · rintro (hlen | htake | hdig)
      · have h8 : rest.length + 8 < 8 := hlen
        omega
      · exact htake rfl
      · rcases hn with rfl | rfl
        · exact hdig.1 rfl
        · exact hdig.2 rfl
    · rcases hn with rfl | rfl <;> rfl

/-- The request line, split. -/
theorem parseRequestLine_iff {p rest : Bytes} {req : HttpRequest} :
    parseRequestLine p {} = some (rest, req) ↔
      ∃ method target : Bytes, ∃ minor : Nat,
        p = method ++ SP :: (target ++ SP ::
              (lit "HTTP/1." ++ (0x30 + minor.toUInt8) :: (CRLF ++ rest)))
        ∧ (1 ≤ method.length ∧ method.length ≤ 15)
        ∧ (∀ c ∈ method, isTokenChar c = true)
        ∧ (1 ≤ target.length ∧ target.length ≤ 511)
        ∧ (∀ c ∈ target, TargetChar c)
        ∧ (target.head? = some 0x2F ∨ target = [0x2A])
        ∧ (minor = 0 ∨ minor = 1)
        ∧ req = { method := method, path := target, minorVersion := minor } := by
  constructor
  · intro h
    unfold parseRequestLine at h
    split at h
    · cases h
    · rename_i method p₁ hm
      split at h
      · cases h
      · rename_i hsp
        rw [not_not] at hsp
        split at h
        · cases h
        · rename_i target p₂ ht
          split at h
          · cases h
          · rename_i minor p₃ hv
            obtain ⟨p₄, hc, heq⟩ := Option.map_eq_some_iff.mp h
            obtain ⟨rfl, rfl⟩ := Prod.mk.inj heq
            obtain ⟨rfl, hne, hlen, htok, -⟩ := readToken_iff.mp hm
            obtain ⟨ht1, ht2, ht3, ht4, ht5⟩ := readTarget_iff.mp ht
            obtain ⟨hv1, rfl⟩ := readVersion_iff.mp hv
            obtain rfl := expectCrlf_iff.mp hc
            refine ⟨method, target, minor, ?_, ⟨List.length_pos_iff.mpr hne, ?_⟩,
              htok, ⟨ht2, ht3⟩, ht4, ht5, hv1, rfl⟩
            · rw [← ht1]
              cases p₁ with
              | nil => cases hsp
              | cons a q => rw [Option.some.inj hsp]; rfl
            · have hlt : method.length < 16 := hlen
              omega
  · rintro ⟨method, target, minor, rfl, ⟨hm1, hm2⟩, htok, ⟨ht1, ht2⟩, ht3, ht4, hv, rfl⟩
    have hm : readToken HTTP_MAX_METHOD (method ++ SP :: (target ++ SP ::
        (lit "HTTP/1." ++ (0x30 + minor.toUInt8) :: (CRLF ++ rest))))
        = some (method, SP :: (target ++ SP ::
          (lit "HTTP/1." ++ (0x30 + minor.toUInt8) :: (CRLF ++ rest)))) :=
      readToken_iff.mpr ⟨rfl, List.length_pos_iff.mp hm1,
        show method.length < 16 by omega, htok, by rfl⟩
    have ht : readTarget (target ++ SP ::
        (lit "HTTP/1." ++ (0x30 + minor.toUInt8) :: (CRLF ++ rest)))
        = some (target, lit "HTTP/1." ++ (0x30 + minor.toUInt8) :: (CRLF ++ rest)) :=
      readTarget_iff.mpr ⟨rfl, ht1, ht2, ht3, ht4⟩
    have hvv : readVersion (lit "HTTP/1." ++ (0x30 + minor.toUInt8) :: (CRLF ++ rest))
        = some (minor, CRLF ++ rest) := readVersion_iff.mpr ⟨hv, rfl⟩
    rw [parseRequestLine, hm]
    dsimp only
    rw [if_neg (not_not.mpr List.head?_cons), List.tail_cons, ht]
    dsimp only
    rw [hvv]
    dsimp only
    rw [expectCrlf_iff.mpr rfl]
    rfl

/-! ## Header lines -/

theorem parseHeaderName_iff {p name rest : Bytes} :
    parseHeaderName p = some (name, rest) ↔
      ∃ before, p = name ++ COLON :: (before ++ rest) ∧ name ≠ []
        ∧ (∀ c ∈ name, isTokenChar c = true)
        ∧ (∀ c ∈ before, isOws c = true) ∧ rest.dropWhile isOws = rest := by
  constructor
  · intro h
    unfold parseHeaderName at h
    split at h
    · exact nomatch h
    · rename_i name' rest' hs
      by_cases hc : name' = [] ∨ rest' = []
      · rw [if_pos hc] at h
        exact nomatch h
      · rw [if_neg hc] at h
        rw [not_or] at hc
        obtain ⟨rfl, rfl⟩ := Prod.mk.inj (Option.some.inj h)
        obtain ⟨h1, h2, h3⟩ := scan_sound hs
        cases rest' with
        | nil => exact absurd rfl hc.2
        | cons d q =>
            have hd : d = COLON := beq_iff_eq.mp h3
            obtain ⟨before, hb, hall⟩ := dropWhile_split isOws q
            refine ⟨before, ?_, hc.1, fun c hc' => (h2 c hc').2, hall, ?_⟩
            · rw [h1, hd, List.tail_cons, ← hb]
            · rw [List.tail_cons]
              exact List.dropWhile_idempotent isOws q
  · rintro ⟨before, rfl, hne, htok, hows, hrest⟩
    have hs : scan (· == COLON) isTokenChar (name ++ COLON :: (before ++ rest))
        = some (name, COLON :: (before ++ rest)) := by
      refine scan_complete (by rfl) ?_
      intro c hc
      exact ⟨beq_eq_false_iff_ne.mpr (isTokenChar_not (htok c hc)).2.2, htok c hc⟩
    rw [parseHeaderName, hs]
    refine (if_neg ?_).trans ?_
    · rintro (h | h)
      · exact hne h
      · exact nomatch h
    · rw [List.tail_cons, List.dropWhile_append_of_pos hows, hrest]

theorem parseHeaderValue_iff {p value rest : Bytes} :
    parseHeaderValue p = some (value, rest) ↔
      ∃ after, p = value ++ (after ++ rest)
        ∧ (∀ c ∈ value, ValueChar c) ∧ (∀ c ∈ after, isOws c = true)
        ∧ value.rdropWhile isOws = value
        ∧ Stops (fun c => c == CR || c == LF) rest := by
  constructor
  · intro h
    obtain ⟨⟨raw, rest'⟩, hs, heq⟩ := Option.map_eq_some_iff.mp h
    obtain ⟨rfl, rfl⟩ := Prod.mk.inj heq
    obtain ⟨h1, h2, h3⟩ := scan_sound hs
    obtain ⟨after, hsplit, hall⟩ := rdropWhile_split isOws raw
    refine ⟨after, ?_, ?_, hall, ?_, h3⟩
    · rw [h1, ← List.append_assoc, ← hsplit]
    · intro c hc
      refine (isValueChar_iff c).mp (h2 c ?_).2
      rw [hsplit]
      exact List.mem_append_left after hc
    · exact List.rdropWhile_idempotent isOws raw
  · rintro ⟨after, rfl, hchar, hows, hval, hstop⟩
    have hs : scan (fun c => c == CR || c == LF) isValueChar
        ((value ++ after) ++ rest) = some (value ++ after, rest) := by
      refine scan_complete hstop ?_
      intro c hc
      have hv : ValueChar c := by
        rcases List.mem_append.mp hc with h | h
        · exact hchar c h
        · exact isOws_value (hows c h)
      exact ⟨valueChar_not_stop hv, (isValueChar_iff c).mpr hv⟩
    rw [← List.append_assoc, parseHeaderValue, hs]
    show some ((value ++ after).rdropWhile isOws, rest) = some (value, rest)
    rw [rdropWhile_append_of_all hows hval]

/-- A header line, split. -/
theorem parseHeaderLine_iff {p rest : Bytes} {h : HttpHeader} :
    parseHeaderLine p = some (h, rest) ↔
      ∃ f : Field, f.WF isTokenChar ∧ h = f.header ∧ p = f.bytes ++ rest := by
  constructor
  · intro hp
    unfold parseHeaderLine at hp
    split at hp
    · cases hp
    · rename_i name p₁ hn
      split at hp
      · cases hp
      · rename_i value p₂ hv
        obtain ⟨p₃, hc, heq⟩ := Option.map_eq_some_iff.mp hp
        obtain ⟨rfl, rfl⟩ := Prod.mk.inj heq
        obtain ⟨before, h1, h2, h3, h4, h5⟩ := parseHeaderName_iff.mp hn
        obtain ⟨after, h6, h7, h8, h9, -⟩ := parseHeaderValue_iff.mp hv
        obtain rfl := expectCrlf_iff.mp hc
        refine ⟨⟨name, before, value, after⟩, ⟨h2, h3, h4, h8, h7, ?_, h9⟩, rfl, ?_⟩
        · -- the scan of the value started behind the blanks
          cases value with
          | nil => rfl
          | cons c cs =>
              rw [h6, List.cons_append] at h5
              exact List.dropWhile_cons_of_neg (not_of_dropWhile_eq_self h5)
        · rw [h1, h6, Field.bytes]
          simp only [List.append_assoc, List.cons_append]
  · rintro ⟨f, hf, rfl, rfl⟩
    -- an empty value lets the blanks in front of it swallow those behind it
    have hname : ∃ q, parseHeaderName (f.bytes ++ rest) = some (f.name, q)
        ∧ parseHeaderValue q = some (f.value, CRLF ++ rest) := by
      by_cases hv : f.value = []
      · refine ⟨CRLF ++ rest, parseHeaderName_iff.mpr
          ⟨f.before ++ f.after, ?_, hf.name_ne, hf.name_tok, ?_, rfl⟩,
          parseHeaderValue_iff.mpr ⟨[], ?_, ?_, fun c hc => (by cases hc), ?_, rfl⟩⟩
        · rw [Field.bytes, hv]
          simp only [List.append_assoc, List.cons_append, List.nil_append]
        · intro c hc
          rcases List.mem_append.mp hc with h | h
          · exact hf.before_ows c h
          · exact hf.after_ows c h
        · rw [hv]
          rfl
        · exact hf.value_char
        · exact hf.value_right
      · refine ⟨f.value ++ (f.after ++ (CRLF ++ rest)), parseHeaderName_iff.mpr
          ⟨f.before, ?_, hf.name_ne, hf.name_tok, hf.before_ows, ?_⟩,
          parseHeaderValue_iff.mpr
            ⟨f.after, rfl, hf.value_char, hf.after_ows, hf.value_right, rfl⟩⟩
        · rw [Field.bytes]
          simp only [List.append_assoc, List.cons_append]
        · have hleft := hf.value_left
          cases hval : f.value with
          | nil => exact absurd hval hv
          | cons c cs =>
              rw [hval] at hleft
              rw [List.cons_append]
              exact List.dropWhile_cons_of_neg (not_of_dropWhile_eq_self hleft)
    obtain ⟨q, hn, hval⟩ := hname
    rw [parseHeaderLine, hn]
    dsimp only
    rw [hval]
    dsimp only
    rw [expectCrlf_iff.mpr rfl]
    rfl

end HttpGrammar
