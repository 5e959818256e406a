import Gargantua.Lib.Bounded
import Gargantua.Lib.CString

/-! # Response headers (`src/http/response.c`)

    A handler shapes its response by calls: it sets headers, which must be
    tokens and clean values of a bounded size, and a status.  Whatever it calls,
    the table stays within its bounds (`sized_calls`), so its wire text has one
    (`headersText_length`). -/

namespace ResponseHeaders

open CString

/-- `RESPONSE_MAX_HEADERS`, `RESPONSE_NAME_CAP`, `RESPONSE_VALUE_CAP` and
    `RESPONSE_WIRE_CAP`. -/
abbrev RESPONSE_MAX_HEADERS : Nat := 16
abbrev RESPONSE_NAME_CAP : Nat := 64
abbrev RESPONSE_VALUE_CAP : Nat := 1024
abbrev RESPONSE_WIRE_CAP : Nat := RESPONSE_MAX_HEADERS * (RESPONSE_NAME_CAP + RESPONSE_VALUE_CAP + 4)

/-- `ResponseHeader`. -/
structure ResponseHeader where
  name : Bytes
  value : Bytes
  deriving Repr, DecidableEq

/-- `headers` up to `header_count`, and `status_override`. -/
structure Response where
  headers : List ResponseHeader := []
  statusOverride : Int := 0
  deriving Repr, DecidableEq

/-- `strcasecmp(a, b) == 0`. -/
def strcasecmpEq (a b : Bytes) : Bool := a.map toLower == b.map toLower

/-- The characters that `response_token` accepts. -/
def tokenChar (c : Byte) : Bool :=
  (0x61 ≤ c && c ≤ 0x7A) || (0x41 ≤ c && c ≤ 0x5A) || (0x30 ≤ c && c ≤ 0x39)
    || strchr (lit "!#$%&'*+-.^_|~" ++ [0x60]) c

/-- `response_token`. -/
def responseToken (text : Bytes) : Bool := !text.isEmpty && text.all tokenChar

/-- `response_value`. -/
def responseValue (text : Bytes) : Bool :=
  text.all fun c => !(c == 127 || (c < 32 && c != 0x09))

/-- The names that `is_reserved_header` lists. -/
def RESERVED_NAMES : List Bytes :=
  [lit "Content-Length", lit "Transfer-Encoding", lit "Connection", lit "Trailer", lit "TE",
    lit "Upgrade", lit "Keep-Alive", lit "Content-Type", lit "Allow", lit "Vary",
    lit "X-Content-Type-Options", lit "Referrer-Policy", lit "Content-Security-Policy",
    lit "Strict-Transport-Security", lit "X-Frame-Options", lit "X-XSS-Protection",
    lit "Content-Security-Policy-Report-Only", lit "Permissions-Policy",
    lit "Cross-Origin-Resource-Policy", lit "Cross-Origin-Opener-Policy",
    lit "Cross-Origin-Embedder-Policy", lit "Proxy-Authenticate", lit "Proxy-Authorization"]

/-- `is_reserved_header`. -/
def isReservedHeader (name : Bytes) : Bool :=
  strncasecmpEq 15 name (lit "Access-Control-") || RESERVED_NAMES.any (strcasecmpEq name)

/-- `response_header`: the table, where it returns `0`. -/
def responseHeader (r : Response) (name value : Option Bytes) : Option Response :=
  match name, value with
  | some name, some value =>
      let name := cstr name
      let value := cstr value
      if name.length ≥ RESPONSE_NAME_CAP || value.length ≥ RESPONSE_VALUE_CAP
          || !responseToken name || !responseValue value || isReservedHeader name then none
      else
        match r.headers.findIdx? fun h => strcasecmpEq h.name name with
        | some index => some { r with headers := r.headers.set index ⟨name, value⟩ }
        | none =>
            if r.headers.length = RESPONSE_MAX_HEADERS then none
            else some { r with headers := r.headers ++ [⟨name, value⟩] }
  | _, _ => none

/-- `response_location`. -/
def responseLocation (r : Response) (value : Option Bytes) : Option Response :=
  responseHeader r (some (lit "Location")) value

/-- `response_status`. -/
def responseStatus (r : Response) (code : Int) : Option Response :=
  if code < 200 ∨ code > 599 then none else some { r with statusOverride := code }

/-- `response_reset`. -/
def responseReset (_ : Response) : Response := {}

/-- `response_status_get`. -/
def responseStatusGet (r : Response) (fallback : Int) : Int :=
  if r.statusOverride ≠ 0 then r.statusOverride else fallback

/-- The line of a header. -/
def headerLine (h : ResponseHeader) : Bytes := h.name ++ lit ": " ++ h.value ++ lit "\r\n"

/-- A header that `response_write` leaves out. -/
def isDropped (status : Int) (h : ResponseHeader) : Bool :=
  status ≥ 400 && strcasecmpEq h.name (lit "Location")

/-- The loop of `response_write`. -/
def writeLoop (cap : Nat) (status : Int) (out : Bytes) : List ResponseHeader → Option Bytes
  | [] => some out
  | h :: headers =>
      if isDropped status h then writeLoop cap status out headers
      else if (headerLine h).length ≥ cap - out.length then none
      else writeLoop cap status (out ++ headerLine h) headers

/-- `response_write`: what it wrote, where it does not return `-1`. -/
def responseWrite (r : Response) (cap : Nat) (status : Int) : Option Bytes :=
  if cap = 0 then none else writeLoop cap status [] r.headers

/-! ## Calls -/

/-- A call by which a handler shapes its response. -/
inductive Call where
  | header (name value : Option Bytes)
  | location (value : Option Bytes)
  | status (code : Int)

/-- A call that fails changes nothing. -/
def Call.run (r : Response) : Call → Response
  | .header name value => (responseHeader r name value).getD r
  | .location value => (responseLocation r value).getD r
  | .status code => (responseStatus r code).getD r

/-- The response after a handler's calls. -/
def afterCalls (calls : List Call) : Response := calls.foldl Call.run (responseReset {})

/-- The statuses that `response_status` accepts. -/
def IsStatus (status : Int) : Prop := 200 ≤ status ∧ status ≤ 599

/-- The bounds of the table. -/
structure Sized (r : Response) : Prop where
  count : r.headers.length ≤ RESPONSE_MAX_HEADERS
  short : ∀ h ∈ r.headers, h.name.length < RESPONSE_NAME_CAP ∧ h.value.length < RESPONSE_VALUE_CAP
  status : r.statusOverride = 0 ∨ IsStatus r.statusOverride

theorem sized_header {r r' : Response} (hr : Sized r) {name value : Option Bytes}
    (h : responseHeader r name value = some r') : Sized r' := by
  cases name with
  | none => exact nomatch h
  | some name =>
  cases value with
  | none => exact nomatch h
  | some value =>
      rw [responseHeader] at h
      split at h
      · exact nomatch h
      · rename_i hok
        have hnew : (cstr name).length < RESPONSE_NAME_CAP ∧ (cstr value).length < RESPONSE_VALUE_CAP := by
          simp only [Bool.or_eq_true, decide_eq_true_iff, not_or, not_le] at hok
          exact ⟨hok.1.1.1.1, hok.1.1.1.2⟩
        split at h
        · obtain rfl := Option.some.inj h
          refine ⟨?_, fun x hx => ?_, hr.status⟩
          · rw [List.length_set]
            exact hr.count
          · rcases List.mem_or_eq_of_mem_set hx with hx | rfl
            · exact hr.short x hx
            · exact hnew
        · split at h
          · exact nomatch h
          · rename_i hcount
            obtain rfl := Option.some.inj h
            refine ⟨?_, fun x hx => ?_, hr.status⟩
            · have hle := hr.count
              rw [List.length_append, List.length_singleton]
              omega
            · rcases List.mem_append.mp hx with hx | hx
              · exact hr.short x hx
              · exact List.mem_singleton.mp hx ▸ hnew

/-- A call keeps the bounds. -/
theorem sized_call {r : Response} (hr : Sized r) (c : Call) : Sized (Call.run r c) := by
  cases c with
  | header name value =>
      cases h : responseHeader r name value with
      | none => rw [Call.run, h]; exact hr
      | some r' => rw [Call.run, h]; exact sized_header hr h
  | location value =>
      cases h : responseLocation r value with
      | none => rw [Call.run, h]; exact hr
      | some r' => rw [Call.run, h]; exact sized_header hr h
  | status code =>
      rw [Call.run, responseStatus]
      split
      · exact hr
      · rename_i hcode
        exact ⟨hr.count, hr.short, .inr (by
          show 200 ≤ code ∧ code ≤ 599
          omega)⟩

/-- **Whatever a handler calls, its response stays within the bounds.** -/
theorem sized_calls (calls : List Call) : Sized (afterCalls calls) := by
  have hall : ∀ {r : Response}, Sized r → Sized (calls.foldl Call.run r) := by
    induction calls with
    | nil => exact fun hr => hr
    | cons c calls ih => exact fun hr => ih (sized_call hr c)
  exact hall ⟨Nat.zero_le _, (fun _ hx => nomatch hx), .inl rfl⟩

theorem responseStatusGet_isStatus {r : Response} (hr : Sized r) {fallback : Int}
    (h : IsStatus fallback) : IsStatus (responseStatusGet r fallback) := by
  rw [responseStatusGet]
  split
  · rename_i hne
    exact hr.status.resolve_left hne
  · exact h

/-! ## The wire text -/

/-- The lines of the headers. -/
def headersText (r : Response) (status : Int) : Bytes :=
  (r.headers.filter fun h => !isDropped status h).flatMap headerLine

theorem writeLoop_eq {cap : Nat} {status : Int} (headers : List ResponseHeader) :
    ∀ {out : Bytes}, out.length < cap → writeLoop cap status out headers
      = Bounded.put (cap - 1) (some out)
          ((headers.filter fun h => !isDropped status h).flatMap headerLine) := by
  induction headers with
  | nil => exact fun h => (Bounded.put_nil _ (by omega)).symm
  | cons h headers ih =>
      intro out hout
      rw [writeLoop]
      cases hd : isDropped status h with
      | true =>
          rw [if_pos rfl, ih hout, List.filter_cons_of_neg (by rw [hd]; decide)]
      | false =>
          rw [if_neg Bool.false_ne_true, List.filter_cons_of_pos (by rw [hd]; decide),
            List.flatMap_cons, ← Bounded.put_put, Bounded.put_some]
          by_cases hfull : (headerLine h).length ≥ cap - out.length
          · rw [if_pos hfull, if_neg (by omega), Bounded.put_none]
          · rw [if_neg hfull, if_pos (by omega)]
            exact ih (by
              rw [List.length_append]
              omega)

/-- `response_write` writes the lines, if there is room for them. -/
theorem responseWrite_eq (r : Response) {cap : Nat} {status : Int}
    (h : (headersText r status).length < cap) : responseWrite r cap status = some (headersText r status) := by
  have hcap : 0 < cap := Nat.lt_of_le_of_lt (Nat.zero_le _) h
  rw [responseWrite, if_neg (Nat.ne_of_gt hcap), writeLoop_eq r.headers hcap, Bounded.put_some,
    List.length_nil, Nat.zero_add, ← headersText, if_pos (Nat.le_sub_one_of_lt h), List.nil_append]

/-- **The lines take a bounded room.** -/
theorem headersText_length {r : Response} (hr : Sized r) (status : Int) :
    (headersText r status).length
      ≤ RESPONSE_MAX_HEADERS * (RESPONSE_NAME_CAP + RESPONSE_VALUE_CAP + 2) := by
  have hline : ∀ h ∈ r.headers,
      (headerLine h).length ≤ RESPONSE_NAME_CAP + RESPONSE_VALUE_CAP + 2 := by
    intro h hh
    have hshort := hr.short h hh
    have hcolon : (lit ": ").length = 2 := by decide
    have hcrlf : (lit "\r\n").length = 2 := by decide
    simp only [headerLine, List.length_append]
    omega
  have hall : ∀ {l : List ResponseHeader}, (∀ h ∈ l, h ∈ r.headers) →
      (l.flatMap headerLine).length ≤ l.length * (RESPONSE_NAME_CAP + RESPONSE_VALUE_CAP + 2) := by
    intro l
    induction l with
    | nil => exact fun _ => Nat.zero_le _
    | cons h l ih =>
        intro hl
        have hhead := hline h (hl h List.mem_cons_self)
        have htail := ih fun x hx => hl x (List.mem_cons_of_mem h hx)
        rw [List.flatMap_cons, List.length_append, List.length_cons, Nat.succ_mul]
        omega
  have hfilter := hall (l := r.headers.filter fun h => !isDropped status h)
    fun h hh => List.mem_filter.mp hh |>.1
  have hcount := Nat.le_trans (List.length_filter_le (fun h => !isDropped status h) r.headers) hr.count
  exact Nat.le_trans hfilter (Nat.mul_le_mul_right _ hcount)

end ResponseHeaders
