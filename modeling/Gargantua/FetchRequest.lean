import Gargantua.Lib.Decimal
import Gargantua.HttpExact

/-! # Requests that go out (`fetch.c`, `build_request`)

    A URL is cut into host, port and path, each with its own set of bytes, and
    the request is printed with one format string.  `http_parse_request` is the
    strict reader it is held against: what it makes of the printed bytes is a
    head of the grammar (`requestHead`), unless the path holds a `#`. -/

namespace FetchRequest

open CString HttpParse HttpGrammar HttpExact

/-- `FETCH_MAX_URL`, `FETCH_MAX_HOST`, `FETCH_MAX_PATH` and the size of `port`. -/
abbrev FETCH_MAX_URL : Nat := 512
abbrev FETCH_MAX_HOST : Nat := 256
abbrev FETCH_MAX_PATH : Nat := 384
abbrev PORT_SIZE : Nat := 8

abbrev slash : Byte := 0x2F
abbrev hash : Byte := 0x23

/-! ## The code -/

/-- `Target`. -/
structure Target where
  secure : Bool
  host : Bytes
  port : Bytes
  path : Bytes
  deriving Repr, DecidableEq

/-- A byte that `header_value_safe` lets through. -/
def headerCharSafe (c : Byte) : Bool := !(c < 0x20 || c > 0x7E || c == 0x22)

/-- `header_value_safe`. -/
def headerValueSafe (value : Bytes) : Bool :=
  if value.length = 0 ∨ value.length > 128 then false
  else if !value.all headerCharSafe then false
  else value.count slash == 1

/-- `url_char_safe`. -/
def urlCharSafe (c : Byte) : Bool := c > 0x20 && c < 0x7F

/-- A byte of a host. -/
def hostChar (c : Byte) : Bool := isAlpha c || isDigit c || c == 0x2E || c == 0x2D

/-- `take_authority`, over the bytes in front of `end`. -/
def takeAuthority (authority : Bytes) (target : Target) : Option Target :=
  let host := authority.takeWhile (· != COLON)
  if host.length = 0 ∨ host.length ≥ FETCH_MAX_HOST then none
  else if !host.all hostChar then none
  else
    match authority.dropWhile (· != COLON) with
    | [] => some { target with host := host }
    | _ :: port =>
        if port.length = 0 ∨ port.length ≥ PORT_SIZE then none
        else if !port.all isDigit then none
        else some { target with host := host, port := port }

/-- The scheme of a URL: the target so far and what stands behind it. -/
def takeScheme (url : Bytes) : Option (Target × Bytes) :=
  if url.take 7 = lit "http://" then some (⟨false, [], lit "80", []⟩, url.drop 7)
  else if url.take 8 = lit "https://" then some (⟨true, [], lit "443", []⟩, url.drop 8)
  else none

/-- `parse_url`. -/
def parseUrl (url : Bytes) : Option Target :=
  if url.length = 0 ∨ url.length ≥ FETCH_MAX_URL then none
  else if !url.all urlCharSafe then none
  else
    match takeScheme url with
    | none => none
    | some (target, rest) =>
        let authority := rest.takeWhile (· != slash)
        if (0x40 : Byte) ∈ authority then none
        else
          match takeAuthority authority target with
          | none => none
          | some target =>
              let behind := rest.dropWhile (· != slash)
              let path := if behind = [] then lit "/" else behind
              if path.length ≥ FETCH_MAX_PATH then none
              else some { target with path := path }

/-- What `build_request` prints, in one format. -/
def requestText (method : Bytes) (target : Target) (contentType : Option Bytes) (bodyLen : Nat) :
    Bytes :=
  method ++ lit " " ++ target.path ++ lit " HTTP/1.1\r\n"
    ++ lit "Host: " ++ target.host ++ lit "\r\n"
    ++ lit "User-Agent: gargantua\r\n"
    ++ lit "Accept: */*\r\n"
    ++ lit "Connection: close\r\n"
    ++ (match contentType with
      | none => []
      | some value => lit "Content-Type: " ++ value ++ lit "\r\n")
    ++ lit "Content-Length: " ++ Decimal.print bodyLen ++ lit "\r\n"
    ++ lit "\r\n"

/-- `build_request`: the bytes in `out`, `none` for `-1`. -/
def buildRequest (cap : Nat) (method : Bytes) (target : Target) (contentType : Option Bytes)
    (bodyLen : Nat) : Option Bytes :=
  let text := requestText method target contentType bodyLen
  if text.length ≥ cap then none else some text

/-! ## What a URL says -/

/-- The parts of a URL: the port is written or left out, and without a path the
    path is a slash. -/
def Denotes (url : Bytes) (target : Target) : Prop :=
  ∃ scheme port behind : Bytes,
    (scheme = lit "http://" ∨ scheme = lit "https://")
      ∧ url = scheme ++ (target.host ++ (port ++ behind))
      ∧ (port = [] ∨ port = COLON :: target.port)
      ∧ ((behind = [] ∧ target.path = lit "/") ∨ (behind.head? = some slash ∧ target.path = behind))

/-- A target whose parts hold the bytes `parse_url` allows. -/
structure Safe (target : Target) : Prop where
  host_ne : target.host ≠ []
  host_len : target.host.length < FETCH_MAX_HOST
  host_char : ∀ c ∈ target.host, hostChar c = true
  path_len : target.path.length < FETCH_MAX_PATH
  path_head : target.path.head? = some slash
  path_char : ∀ c ∈ target.path, urlCharSafe c = true

theorem takeAuthority_spec {authority : Bytes} {target t : Target}
    (h : takeAuthority authority target = some t) :
    (∃ port, authority = t.host ++ port ∧ (port = [] ∨ port = COLON :: t.port))
      ∧ t.host ≠ [] ∧ t.host.length < FETCH_MAX_HOST ∧ (∀ c ∈ t.host, hostChar c = true)
      ∧ t.path = target.path := by
  have hparts := List.takeWhile_append_dropWhile (p := (· != COLON)) (l := authority)
  rw [takeAuthority] at h
  split at h
  · exact nomatch h
  rename_i hlen
  split at h
  · exact nomatch h
  rename_i hchar
  rw [not_or] at hlen
  rw [Bool.not_eq_true', Bool.not_eq_false, List.all_eq_true] at hchar
  have hne : authority.takeWhile (· != COLON) ≠ [] :=
    fun h0 => hlen.1 (List.length_eq_zero_iff.mpr h0)
  split at h
  · rename_i hbehind
    obtain rfl := Option.some.inj h
    rw [hbehind] at hparts
    exact ⟨⟨[], hparts.symm, .inl rfl⟩, hne, Nat.lt_of_not_le hlen.2, hchar, rfl⟩
  · rename_i c port hbehind
    have hc : c = COLON := by
      rcases Scan.dropWhile_bne_cases COLON authority with h0 | ⟨s, h0⟩
      · exact nomatch h0.symm.trans hbehind
      · exact (List.cons.inj (hbehind.symm.trans h0)).1
    subst hc
    split at h
    · exact nomatch h
    split at h
    · exact nomatch h
    obtain rfl := Option.some.inj h
    rw [hbehind] at hparts
    exact ⟨⟨COLON :: port, hparts.symm, .inr rfl⟩, hne, Nat.lt_of_not_le hlen.2, hchar, rfl⟩

theorem takeScheme_spec {url rest : Bytes} {target : Target}
    (h : takeScheme url = some (target, rest)) :
    ∃ scheme, (scheme = lit "http://" ∨ scheme = lit "https://") ∧ url = scheme ++ rest := by
  rw [takeScheme] at h
  split at h
  · rename_i hs
    obtain ⟨-, rfl⟩ := Prod.mk.inj (Option.some.inj h)
    exact ⟨url.take 7, .inl hs, (List.take_append_drop 7 url).symm⟩
  · split at h
    · rename_i hs
      obtain ⟨-, rfl⟩ := Prod.mk.inj (Option.some.inj h)
      exact ⟨url.take 8, .inr hs, (List.take_append_drop 8 url).symm⟩
    · exact nomatch h

/-- **`parse_url`** cuts the URL into its parts, each of bytes that are allowed
    there. -/
theorem parseUrl_spec {url : Bytes} {target : Target} (h : parseUrl url = some target) :
    Denotes url target ∧ Safe target := by
  rw [parseUrl] at h
  split at h
  · exact nomatch h
  split at h
  · exact nomatch h
  rename_i hsafe
  rw [Bool.not_eq_true', Bool.not_eq_false, List.all_eq_true] at hsafe
  split at h
  · exact nomatch h
  rename_i start rest hscheme
  obtain ⟨scheme, hs, rfl⟩ := takeScheme_spec hscheme
  dsimp only at h
  split at h
  · exact nomatch h
  split at h
  · exact nomatch h
  rename_i t hauthority
  generalize hpath : (if rest.dropWhile (· != slash) = [] then lit "/"
    else rest.dropWhile (· != slash)) = path at h
  split at h
  · exact nomatch h
  rename_i hfits
  obtain rfl := Option.some.inj h
  obtain ⟨⟨port, hhost, hport⟩, hne, hlen, hchar, -⟩ := takeAuthority_spec hauthority
  have hparts := List.takeWhile_append_dropWhile (p := (· != slash)) (l := rest)
  rw [hhost, List.append_assoc] at hparts
  have hbehind := Scan.dropWhile_bne_cases slash rest
  have hsub : ∀ c ∈ rest.dropWhile (· != slash), urlCharSafe c = true :=
    fun c hc => hsafe c (List.mem_append_right _ (List.dropWhile_subset _ hc))
  refine ⟨⟨scheme, port, rest.dropWhile (· != slash), hs, by rw [hparts], hport, ?_⟩,
    hne, hlen, hchar, Nat.lt_of_not_le hfits, ?_, ?_⟩
  · rcases hbehind with h0 | ⟨s, h0⟩
    · exact .inl ⟨h0, hpath ▸ if_pos h0⟩
    · have hcons : rest.dropWhile (· != slash) ≠ [] := h0 ▸ List.cons_ne_nil _ _
      exact .inr ⟨h0 ▸ rfl, hpath ▸ if_neg hcons⟩
  · dsimp only
    rcases hbehind with h0 | ⟨s, h0⟩
    · rw [← hpath, if_pos h0]
      rfl
    · rw [← hpath, if_neg (h0 ▸ List.cons_ne_nil _ _), h0]
      rfl
  · intro c hc
    dsimp only at hc
    rw [← hpath] at hc
    split at hc
    · have hslash : lit "/" = [slash] := by decide
      rw [hslash] at hc
      rw [List.mem_singleton.mp hc]
      decide
    · exact hsub c hc

/-! ## The head that is printed -/

/-- A header line with one blank behind the colon. -/
def plainField (name value : Bytes) : Field := ⟨name, lit " ", value, []⟩

/-- The content type as a reader takes it: the blanks around it are not part of
    it. -/
def trimmed (value : Bytes) : Bytes := (value.dropWhile isOws).rdropWhile isOws

/-- The line of a content type. -/
def contentTypeField (value : Bytes) : Field :=
  ⟨lit "Content-Type", SP :: value.takeWhile isOws, trimmed value,
    (value.dropWhile isOws).drop (trimmed value).length⟩

def contentTypeFields : Option Bytes → List Field
  | none => []
  | some value => [contentTypeField value]

/-- The head that `build_request` prints. -/
def requestHead (method : Bytes) (target : Target) (contentType : Option Bytes) (bodyLen : Nat) :
    Head where
  method := method
  target := target.path
  minor := 1
  fields :=
    [plainField (lit "Host") target.host,
      plainField (lit "User-Agent") (lit "gargantua"),
      plainField (lit "Accept") (lit "*/*"),
      plainField (lit "Connection") (lit "close")]
    ++ contentTypeFields contentType
    ++ [plainField (lit "Content-Length") (Decimal.print bodyLen)]

/-- The blanks behind the value. -/
theorem trimmed_split (value : Bytes) :
    value.dropWhile isOws
        = trimmed value ++ (value.dropWhile isOws).drop (trimmed value).length
      ∧ ∀ c ∈ (value.dropWhile isOws).drop (trimmed value).length, isOws c = true := by
  obtain ⟨w, hw, hall⟩ := Scan.rdropWhile_split isOws (value.dropWhile isOws)
  have hdrop : (value.dropWhile isOws).drop (trimmed value).length = w := by
    conv_lhs => rw [hw]
    exact List.drop_left
  rw [hdrop]
  exact ⟨hw, hall⟩

/-- No blank is left in front. -/
theorem trimmed_left (value : Bytes) : (trimmed value).dropWhile isOws = trimmed value := by
  cases htrim : trimmed value with
  | nil => rfl
  | cons c cs =>
      -- the first byte of what is left of the value is its own first byte
      have hsplit := (trimmed_split value).1
      rw [htrim, List.cons_append] at hsplit
      have hself : (value.dropWhile isOws).dropWhile isOws = value.dropWhile isOws :=
        List.dropWhile_idempotent isOws value
      rw [hsplit] at hself
      exact List.dropWhile_cons_of_neg (Scan.not_of_dropWhile_eq_self hself)

/-- What is left of a value is part of it. -/
theorem mem_trimmed {value : Bytes} {c : Byte} (h : c ∈ trimmed value) : c ∈ value :=
  List.dropWhile_subset _ ((List.rdropWhile_prefix isOws _).subset h)

theorem contentTypeField_bytes (value : Bytes) :
    (contentTypeField value).bytes = lit "Content-Type: " ++ value ++ lit "\r\n" := by
  have hfront := List.takeWhile_append_dropWhile (p := isOws) (l := value)
  have hname : lit "Content-Type: " = lit "Content-Type" ++ [COLON, SP] := by decide
  have hcrlf : lit "\r\n" = CRLF := by decide
  rw [hname, hcrlf]
  conv_rhs => rw [← hfront, (trimmed_split value).1]
  simp only [contentTypeField, Field.bytes, List.append_assoc, List.cons_append, List.nil_append]

theorem plainField_bytes (name value : Bytes) :
    (plainField name value).bytes = name ++ lit ": " ++ value ++ lit "\r\n" := by
  have hcolon : lit ": " = COLON :: lit " " := by decide
  have hcrlf : lit "\r\n" = CRLF := by decide
  rw [hcolon, hcrlf]
  simp only [plainField, Field.bytes, List.append_assoc, List.cons_append, List.nil_append]

/-- **`build_request`** prints the head. -/
theorem requestText_eq (method : Bytes) (target : Target) (contentType : Option Bytes)
    (bodyLen : Nat) :
    requestText method target contentType bodyLen
      = (requestHead method target contentType bodyLen).bytes := by
  have hline : ∀ p : Bytes, method ++ lit " " ++ p ++ lit " HTTP/1.1\r\n"
      = method ++ SP :: (p ++ SP :: (lit "HTTP/1." ++ (0x30 + (1 : Nat).toUInt8) :: CRLF)) := by
    intro p
    have h1 : lit " " = [SP] := by decide
    have h2 : lit " HTTP/1.1\r\n" = SP :: (lit "HTTP/1." ++ (0x30 + (1 : Nat).toUInt8) :: CRLF) := by
      decide
    rw [h1, h2, List.append_assoc, List.append_assoc]
    rfl
  have hnames : lit "Host: " = lit "Host" ++ lit ": "
      ∧ lit "Content-Length: " = lit "Content-Length" ++ lit ": "
      ∧ lit "User-Agent: gargantua\r\n" = (plainField (lit "User-Agent") (lit "gargantua")).bytes
      ∧ lit "Accept: */*\r\n" = (plainField (lit "Accept") (lit "*/*")).bytes
      ∧ lit "Connection: close\r\n" = (plainField (lit "Connection") (lit "close")).bytes := by
    decide +kernel
  obtain ⟨hhost, hlength, hagent, haccept, hclose⟩ := hnames
  have htype : (match contentType with
      | none => []
      | some value => lit "Content-Type: " ++ value ++ lit "\r\n")
      = (contentTypeFields contentType).flatMap Field.bytes := by
    cases contentType with
    | none => rfl
    | some value =>
        rw [contentTypeFields, List.flatMap_singleton, contentTypeField_bytes]
  have hcrlf : lit "\r\n" = CRLF := by decide
  unfold requestText
  rw [hline, htype, hhost, hlength, hagent, haccept, hclose, Head.bytes, Head.line,
    requestHead, List.flatMap_append, List.flatMap_append, List.flatMap_singleton,
    List.flatMap_cons, List.flatMap_cons, List.flatMap_cons, List.flatMap_singleton,
    plainField_bytes (lit "Host"), plainField_bytes (lit "Content-Length"), hcrlf]
  simp only [List.append_assoc, List.cons_append]

/-! ## The head is well-formed -/

theorem isValueChar_bounds {c : Byte} (h1 : 0x20 ≤ c) (h2 : c < 0x7F) : isValueChar c = true :=
  (isValueChar_iff c).mpr (.inr ⟨h1, fun h => absurd (h ▸ h2) (by decide)⟩)

theorem isOws_bounds {c : Byte} (h : 0x20 < c) : isOws c = false := by
  rw [isOws, Bool.or_eq_false_iff, beq_eq_false_iff_ne, beq_eq_false_iff_ne]
  refine ⟨?_, ?_⟩
  all_goals
    rintro rfl
    exact absurd h (by decide)

theorem hostChar_bounds {c : Byte} (h : hostChar c = true) : 0x2D ≤ c ∧ c < 0x7F := by
  simp only [hostChar, isAlpha, isDigit, Bool.or_eq_true, Bool.and_eq_true, decide_eq_true_iff,
    beq_iff_eq, UInt8.le_iff_toNat_le, UInt8.lt_iff_toNat_lt, ← UInt8.toNat_inj,
    UInt8.reduceToNat] at h ⊢
  omega

theorem hostChar_value {c : Byte} (h : hostChar c = true) :
    isValueChar c = true ∧ isOws c = false ∧ c ≠ SP ∧ c ≠ HT ∧ c ≠ 0x2C := by
  have hb := hostChar_bounds h
  refine ⟨isValueChar_bounds (UInt8.le_trans (by decide) hb.1) hb.2,
    isOws_bounds (UInt8.lt_of_lt_of_le (by decide) hb.1), ?_, ?_, ?_⟩
  all_goals
    rintro rfl
    exact absurd h (by decide)

theorem digit_value {c : Byte} (h : 0x30 ≤ c ∧ c ≤ 0x39) :
    isDigit c = true ∧ isValueChar c = true ∧ isOws c = false := by
  refine ⟨?_, isValueChar_bounds (UInt8.le_trans (by decide) h.1)
    (UInt8.lt_of_le_of_lt h.2 (by decide)), isOws_bounds (UInt8.lt_of_lt_of_le (by decide) h.1)⟩
  rw [isDigit, decide_eq_true h.1, decide_eq_true h.2]
  rfl

theorem urlCharSafe_target {c : Byte} (h : urlCharSafe c = true) (hc : c ≠ hash) :
    TargetChar c := by
  rw [urlCharSafe, Bool.and_eq_true, decide_eq_true_iff, decide_eq_true_iff] at h
  exact ⟨h.1, fun h0 => absurd (h0 ▸ h.2) (by decide), hc⟩

theorem headerCharSafe_value {c : Byte} (h : headerCharSafe c = true) : isValueChar c = true := by
  simp only [headerCharSafe, isValueChar, Bool.not_eq_true', Bool.or_eq_false_iff,
    Bool.and_eq_false_iff, decide_eq_false_iff_not, beq_eq_false_iff_ne, bne_eq_false_iff_eq] at h ⊢
  exact ⟨.inl h.1.1, fun h0 => absurd h.1.2 (by rw [h0]; decide)⟩

theorem headerValueSafe_spec {value : Bytes} (h : headerValueSafe value = true) :
    value.length ≤ 128 ∧ ∀ c ∈ value, headerCharSafe c = true := by
  rw [headerValueSafe] at h
  split at h
  · exact nomatch h
  rename_i hlen
  split at h
  · exact nomatch h
  rename_i hall
  rw [Bool.not_eq_true', Bool.not_eq_false, List.all_eq_true] at hall
  exact ⟨Nat.le_of_not_lt (not_or.mp hlen).2, hall⟩

/-- A value without blanks makes a line. -/
theorem plainField_wf {name value : Bytes} (hne : name ≠ [])
    (hname : ∀ c ∈ name, isTokenChar c = true)
    (hvalue : ∀ c ∈ value, isValueChar c = true ∧ isOws c = false) :
    (plainField name value).WF isTokenChar where
  name_ne := hne
  name_tok := hname
  before_ows := by
    change ∀ c ∈ lit " ", isOws c = true
    decide
  after_ows := fun c hc => nomatch hc
  value_char := fun c hc => (isValueChar_iff c).mp (hvalue c hc).1
  value_left := by
    refine List.dropWhile_eq_self_iff.mpr fun hpos => ?_
    exact Bool.eq_false_iff.mp (hvalue _ (List.getElem_mem hpos)).2
  value_right := by
    refine List.rdropWhile_eq_self_iff.mpr fun hl => ?_
    exact Bool.eq_false_iff.mp (hvalue _ (List.getLast_mem hl)).2

theorem contentTypeField_wf {value : Bytes} (h : headerValueSafe value = true) :
    (contentTypeField value).WF isTokenChar where
  name_ne := by
    change lit "Content-Type" ≠ []
    decide
  name_tok := by
    change ∀ c ∈ lit "Content-Type", isTokenChar c = true
    decide
  before_ows := List.forall_mem_cons.mpr ⟨rfl, fun c hc => List.mem_takeWhile_imp hc⟩
  after_ows := (trimmed_split value).2
  value_char := by
    intro c hc
    exact (isValueChar_iff c).mp (headerCharSafe_value
      ((headerValueSafe_spec h).2 c (mem_trimmed hc)))
  value_left := trimmed_left value
  value_right := List.rdropWhile_idempotent isOws _

/-- The headers a reader sees. -/
def requestHeaders (target : Target) (contentType : Option Bytes) (bodyLen : Nat) :
    List HttpHeader :=
  [⟨lit "Host", target.host⟩, ⟨lit "User-Agent", lit "gargantua"⟩, ⟨lit "Accept", lit "*/*"⟩,
    ⟨lit "Connection", lit "close"⟩]
  ++ (contentType.toList.map fun value => ⟨lit "Content-Type", trimmed value⟩)
  ++ [⟨lit "Content-Length", Decimal.print bodyLen⟩]

theorem requestHead_headers (method : Bytes) (target : Target) (contentType : Option Bytes)
    (bodyLen : Nat) :
    (requestHead method target contentType bodyLen).headers
      = requestHeaders target contentType bodyLen := by
  cases contentType with
  | none => rfl
  | some value => rfl

/-- The counted headers among them. -/
def counted (target : Target) (contentType : Option Bytes) (bodyLen : Nat) :
    Known → List HttpHeader
  | .host => [⟨lit "Host", target.host⟩]
  | .contentLength => [⟨lit "Content-Length", Decimal.print bodyLen⟩]
  | .contentType => contentType.toList.map fun value => ⟨lit "Content-Type", trimmed value⟩
  | _ => []

theorem named_requestHeaders (target : Target) (contentType : Option Bytes) (bodyLen : Nat)
    (k : Known) :
    named k (requestHeaders target contentType bodyLen)
      = counted target contentType bodyLen k := by
  have hname : ∀ (name value : Bytes) (k : Known),
      k.is ⟨name, value⟩ = (name.map toLower == k.name.map toLower) := fun _ _ _ => rfl
  cases contentType with
  | none =>
      cases k <;> simp only [named, requestHeaders, Option.toList, List.map_nil, List.append_nil,
        List.cons_append, List.nil_append, List.filter_cons, List.filter_nil, hname] <;> rfl
  | some value =>
      cases k <;> simp only [named, requestHeaders, Option.toList, List.map_cons, List.map_nil,
        List.cons_append, List.nil_append, List.filter_cons, List.filter_nil, hname] <;> rfl

theorem decimal_print {n : Nat} (h : n ≤ LONG_MAX) :
    HttpGrammar.Decimal (Decimal.print n) ∧ decimalValue (Decimal.print n) = n := by
  have hread : decimalValue (Decimal.print n) = n := Decimal.read_print n
  refine ⟨⟨Decimal.print_ne_nil n, fun c hc => ?_, ?_⟩, hread⟩
  · exact (digit_value (Decimal.print_digits n c hc)).1
  · rw [hread]
    exact h

theorem headersOk_request {target : Target} (hs : Safe target) (contentType : Option Bytes)
    {n : Nat} (hn : n ≤ LONG_MAX) : HeadersOk 1 (requestHeaders target contentType n) where
  noTransferEncoding := named_requestHeaders target contentType n .transferEncoding
  once := by
    intro k
    rw [named_requestHeaders]
    cases k with
    | contentType =>
        cases contentType with
        | none => exact Nat.zero_le _
        | some value => exact Nat.le_refl _
    | host | contentLength => exact Nat.le_refl _
    | transferEncoding | authorization | expect => exact Nat.zero_le _
  hostPresent := by
    intro _
    rw [named_requestHeaders]
    exact List.cons_ne_nil _ _
  hostValid := by
    intro h hh
    rw [named_requestHeaders] at hh
    rw [List.mem_singleton.mp hh]
    exact ⟨hs.host_ne, fun c hc => (hostChar_value (hs.host_char c hc)).2.2⟩
  lengthValid := by
    intro h hh
    rw [named_requestHeaders] at hh
    rw [List.mem_singleton.mp hh]
    exact (decimal_print hn).1

theorem declaredLength_request (target : Target) (contentType : Option Bytes) {n : Nat}
    (hn : n ≤ LONG_MAX) : declaredLength (requestHeaders target contentType n) = n := by
  rw [declaredLength, named_requestHeaders]
  exact congrArg Int.ofNat (decimal_print hn).2

/-- The methods a request goes out with. -/
def SentMethod (method : Bytes) : Prop := method = lit "GET" ∨ method = lit "POST"

/-- A content type that the callers have checked. -/
def SafeType (contentType : Option Bytes) : Prop :=
  ∀ value, contentType = some value → headerValueSafe value = true

theorem SentMethod.spec {method : Bytes} (h : SentMethod method) :
    (1 ≤ method.length ∧ method.length ≤ 4) ∧ (∀ c ∈ method, isTokenChar c = true)
      ∧ ∀ c ∈ method, 0x20 ≤ c := by
  rcases h with rfl | rfl
  · decide
  · decide

theorem requestHead_wf {method : Bytes} (hm : SentMethod method) {target : Target}
    (hs : Safe target) (hhash : hash ∉ target.path) {contentType : Option Bytes}
    (hct : SafeType contentType) {n : Nat} (hn : n ≤ LONG_MAX) :
    (requestHead method target contentType n).WF isTokenChar where
  method_len := ⟨hm.spec.1.1, Nat.le_trans hm.spec.1.2 (by decide)⟩
  method_tok := hm.spec.2.1
  target_len := by
    refine ⟨List.length_pos_iff.mpr fun h0 => ?_,
      Nat.le_of_lt (Nat.lt_trans hs.path_len (by decide))⟩
    have hhead := hs.path_head
    rw [show target.path = [] from h0] at hhead
    exact nomatch hhead
  target_char := fun c hc =>
    urlCharSafe_target (hs.path_char c hc) fun h => hhash (h ▸ hc)
  target_form := .inl hs.path_head
  version := .inr rfl
  fields_len := by
    cases contentType with
    | none => exact (by decide : 5 ≤ 64)
    | some value => exact (by decide : 6 ≤ 64)
  fields_wf := by
    intro f hf
    rw [requestHead, List.mem_append, List.mem_append] at hf
    rcases hf with (hf | hf) | hf
    · simp only [List.mem_cons, List.not_mem_nil, or_false] at hf
      rcases hf with rfl | rfl | rfl | rfl
      · exact plainField_wf (by decide) (by decide) fun c hc =>
          ⟨(hostChar_value (hs.host_char c hc)).1, (hostChar_value (hs.host_char c hc)).2.1⟩
      · exact plainField_wf (by decide) (by decide) (by decide)
      · exact plainField_wf (by decide) (by decide) (by decide)
      · exact plainField_wf (by decide) (by decide) (by decide)
    · cases contentType with
      | none => exact nomatch hf
      | some value =>
          rw [List.mem_singleton.mp hf]
          exact contentTypeField_wf (hct value rfl)
    · rw [List.mem_singleton.mp hf]
      exact plainField_wf (by decide) (by decide) fun c hc =>
        (digit_value (Decimal.print_digits n c hc)).2
  headers_ok := by
    rw [requestHead_headers]
    exact headersOk_request hs contentType hn

/-- The head fits the reader's bound. -/
theorem requestText_length {method : Bytes} (hm : SentMethod method) {target : Target}
    (hs : Safe target) {contentType : Option Bytes} (hct : SafeType contentType) {n : Nat}
    (hn : n ≤ LONG_MAX) : (requestText method target contentType n).length ≤ 1024 := by
  have hmethod := hm.spec.1.2
  have hdigits : (Decimal.print n).length ≤ 19 :=
    Decimal.print_length n (Nat.lt_of_le_of_lt hn (by decide))
  have hhost : target.host.length < 256 := hs.host_len
  have hpath : target.path.length < 384 := hs.path_len
  have hlits : (lit " ").length = 1 ∧ (lit " HTTP/1.1\r\n").length = 11 ∧ (lit "Host: ").length = 6
      ∧ (lit "\r\n").length = 2 ∧ (lit "User-Agent: gargantua\r\n").length = 23
      ∧ (lit "Accept: */*\r\n").length = 13 ∧ (lit "Connection: close\r\n").length = 19
      ∧ (lit "Content-Type: ").length = 14 ∧ (lit "Content-Length: ").length = 16 := by decide
  obtain ⟨h1, h2, h3, h4, h5, h6, h7, h8, h9⟩ := hlits
  unfold requestText
  simp only [List.length_append, h1, h2, h3, h4, h5, h6, h7, h9]
  cases contentType with
  | none =>
      dsimp only [List.length_nil]
      omega
  | some value =>
      have hvalue := (headerValueSafe_spec (hct value rfl)).1
      simp only [List.length_append, h8, h4]
      omega

/-! ## The claim -/

/-- The reader takes the bytes for this request and nothing else: the method, the
    path, these headers with the one host, and the body. -/
def Understood (sent method : Bytes) (target : Target) (contentType : Option Bytes)
    (body : Bytes) : Prop :=
  ∃ req, httpParseRequest sent = .ok req ∧ req.method = method ∧ req.path = target.path
    ∧ req.headers = requestHeaders target contentType body.length
    ∧ named .host req.headers = [⟨lit "Host", target.host⟩]
    ∧ req.contentLength = body.length ∧ req.body = body ∧ req.messageLen = sent.length

/-- The lines of the head. -/
def requestLines (method : Bytes) (target : Target) (contentType : Option Bytes) (bodyLen : Nat) :
    List Bytes :=
  [method ++ lit " " ++ target.path ++ lit " HTTP/1.1", lit "Host: " ++ target.host,
    lit "User-Agent: gargantua", lit "Accept: */*", lit "Connection: close"]
  ++ (contentType.toList.map fun value => lit "Content-Type: " ++ value)
  ++ [lit "Content-Length: " ++ Decimal.print bodyLen]

/-- The bytes are these lines, none of which is empty or holds a line break. -/
def Unsplit (out : Bytes) (lines : List Bytes) : Prop :=
  out = lines.flatMap (· ++ CRLF) ++ CRLF ∧ ∀ line ∈ lines, line ≠ [] ∧ CR ∉ line ∧ LF ∉ line

theorem understood_iff {method : Bytes} (hm : SentMethod method) {target : Target}
    (hs : Safe target) {contentType : Option Bytes} (hct : SafeType contentType) (body : Bytes) :
    Understood (requestText method target contentType body.length ++ body) method target contentType
        body ↔ hash ∉ target.path ∧ body.length ≤ LONG_MAX := by
  constructor
  · rintro ⟨req, hreq, -, hpath, -, -, hlen, -⟩
    obtain ⟨m, hwf, -, rfl⟩ := httpParseRequest_ok_iff.mp hreq
    refine ⟨fun hmem => ?_, ?_⟩
    · have hchar : TargetChar hash := hwf.head_wf.target_char hash
        (show hash ∈ m.head.target from (show m.head.target = target.path from hpath) ▸ hmem)
      exact hchar.2.2 rfl
    · have hle := declaredLength_le hwf.head_wf.headers_ok
      have heq : declaredLength m.head.headers = body.length := hlen
      rw [heq] at hle
      exact hle
  · rintro ⟨hhash, hlong⟩
    have hwf : Message.WF isTokenChar
        ⟨requestHead method target contentType body.length, body⟩ := by
      refine ⟨requestHead_wf hm hs hhash hct hlong, ?_, ?_⟩
      · have hlen := requestText_length hm hs hct hlong
        rw [requestText_eq] at hlen
        exact Nat.le_trans hlen (by decide)
      · change (body.length : Int)
          = max (declaredLength (requestHead method target contentType body.length).headers) 0
        rw [requestHead_headers, declaredLength_request target contentType hlong]
        omega
    refine ⟨_, httpParseRequest_ok_iff.mpr ⟨_, hwf, ⟨[], ?_⟩, rfl⟩, rfl, rfl,
      requestHead_headers method target contentType body.length, ?_, ?_, rfl, ?_⟩
    · rw [List.append_nil, requestText_eq]
      rfl
    · exact (congrArg (named .host) (requestHead_headers method target contentType body.length)).trans
        (named_requestHeaders target contentType body.length .host)
    · change declaredLength (requestHead method target contentType body.length).headers = _
      rw [requestHead_headers, declaredLength_request target contentType hlong]
    · rw [requestText_eq]
      rfl

theorem unsplit_request {method : Bytes} (hm : SentMethod method) {target : Target}
    (hs : Safe target) {contentType : Option Bytes} (hct : SafeType contentType) (n : Nat) :
    Unsplit (requestText method target contentType n)
      (requestLines method target contentType n) := by
  have hclean : ∀ {s : Bytes}, (∀ c ∈ s, 0x20 ≤ c) → CR ∉ s ∧ LF ∉ s :=
    fun h => ⟨fun hc => absurd (h CR hc) (by decide), fun hc => absurd (h LF hc) (by decide)⟩
  have hprint : ∀ c : Byte, (hostChar c = true ∨ urlCharSafe c = true ∨ headerCharSafe c = true
      ∨ (0x30 ≤ c ∧ c ≤ 0x39)) → 0x20 ≤ c := by
    intro c
    cases c with
    | ofBitVec b =>
        revert b
        decide +kernel
  have happend : ∀ {s t : Bytes}, (∀ c ∈ s, 0x20 ≤ c) → (∀ c ∈ t, 0x20 ≤ c) →
      ∀ c ∈ s ++ t, 0x20 ≤ c :=
    fun hs ht c hc => (List.mem_append.mp hc).elim (hs c) (ht c)
  constructor
  · have hcrlf : lit "\r\n" = CRLF := by decide
    have hlits : lit " HTTP/1.1\r\n" = lit " HTTP/1.1" ++ CRLF
        ∧ lit "User-Agent: gargantua\r\n" = lit "User-Agent: gargantua" ++ CRLF
        ∧ lit "Accept: */*\r\n" = lit "Accept: */*" ++ CRLF
        ∧ lit "Connection: close\r\n" = lit "Connection: close" ++ CRLF := by decide
    obtain ⟨h1, h2, h3, h4⟩ := hlits
    unfold requestText requestLines
    rw [h1, h2, h3, h4, hcrlf]
    cases contentType with
    | none => simp only [Option.toList, List.map_nil, List.append_nil, List.flatMap_append,
        List.flatMap_cons, List.flatMap_nil, List.append_assoc]
    | some value => simp only [Option.toList, List.map_cons, List.map_nil, List.flatMap_append,
        List.flatMap_cons, List.flatMap_nil, List.append_assoc, List.nil_append]
  · intro line hline
    rw [requestLines, List.mem_append, List.mem_append] at hline
    rcases hline with (hline | hline) | hline
    · simp only [List.mem_cons, List.not_mem_nil, or_false] at hline
      rcases hline with rfl | rfl | rfl | rfl | rfl
      · refine ⟨by simp [lit], hclean (happend (happend (happend hm.spec.2.2 (by decide))
          fun c hc => hprint c (.inr (.inl (hs.path_char c hc)))) (by decide))⟩
      · exact ⟨by simp [lit], hclean (happend (by decide)
          fun c hc => hprint c (.inl (hs.host_char c hc)))⟩
      · exact ⟨by decide, by decide, by decide⟩
      · exact ⟨by decide, by decide, by decide⟩
      · exact ⟨by decide, by decide, by decide⟩
    · obtain ⟨value, hvalue, rfl⟩ := List.mem_map.mp hline
      have hsafe := hct value (Option.mem_toList.mp hvalue)
      exact ⟨by simp [lit], hclean (happend (by decide)
        fun c hc => hprint c (.inr (.inr (.inl ((headerValueSafe_spec hsafe).2 c hc)))))⟩
    · rw [List.mem_singleton.mp hline]
      exact ⟨by simp [lit], hclean (happend (by decide)
        fun c hc => hprint c (.inr (.inr (.inr (Decimal.print_digits n c hc)))))⟩

/-- **What goes out is well-formed.**  The reader understands the request exactly
    where the path holds no `#`; whatever the URL and the content type, the head
    has its lines and no others. -/
theorem requests_well_formed {url method out body : Bytes} {target : Target}
    {contentType : Option Bytes} {cap : Nat} (hurl : parseUrl url = some target)
    (hm : SentMethod method) (hct : SafeType contentType)
    (hout : buildRequest cap method target contentType body.length = some out) :
    (Understood (out ++ body) method target contentType body
        ↔ hash ∉ target.path ∧ body.length ≤ LONG_MAX)
      ∧ Unsplit out (requestLines method target contentType body.length)
      ∧ Denotes url target := by
  obtain ⟨hdenotes, hs⟩ := parseUrl_spec hurl
  rw [buildRequest] at hout
  split at hout
  · exact nomatch hout
  obtain rfl := Option.some.inj hout
  exact ⟨understood_iff hm hs hct body, unsplit_request hm hs hct body.length, hdenotes⟩

/-- A request with a content type and a body. -/
theorem requests_well_formed_post :
    Understood (requestText (lit "POST") ⟨false, lit "a.b", lit "81", lit "/c?d"⟩
        (some (lit "text/plain")) 2 ++ lit "hi") (lit "POST")
      ⟨false, lit "a.b", lit "81", lit "/c?d"⟩ (some (lit "text/plain")) (lit "hi") := by
  have hct : SafeType (some (lit "text/plain")) := by
    intro value hvalue
    obtain rfl := Option.some.inj hvalue
    decide +kernel
  have hout : buildRequest 1024 (lit "POST") ⟨false, lit "a.b", lit "81", lit "/c?d"⟩
      (some (lit "text/plain")) (lit "hi").length
        = some (requestText (lit "POST") ⟨false, lit "a.b", lit "81", lit "/c?d"⟩
            (some (lit "text/plain")) 2) := by decide +kernel
  have hurl : parseUrl (lit "http://a.b:81/c?d") = some ⟨false, lit "a.b", lit "81", lit "/c?d"⟩ := by
    decide +kernel
  exact (requests_well_formed hurl (.inr rfl) hct hout).1.mpr ⟨by decide, by decide⟩

/-- The path of a URL with a fragment goes out as it stands, and is refused. -/
theorem fragment_refused :
    parseUrl (lit "http://a.b/c#d") = some ⟨false, lit "a.b", lit "80", lit "/c#d"⟩
      ∧ buildRequest 8192 (lit "GET") ⟨false, lit "a.b", lit "80", lit "/c#d"⟩ none 0
        = some (requestText (lit "GET") ⟨false, lit "a.b", lit "80", lit "/c#d"⟩ none 0)
      ∧ httpParseRequest (requestText (lit "GET") ⟨false, lit "a.b", lit "80", lit "/c#d"⟩ none 0)
        = .error := by
  decide +kernel

end FetchRequest
