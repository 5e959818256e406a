import Gargantua.Lib.Scan
import Gargantua.Lib.CString

/-! # The request parser (`src/http/http.c`)

    `http_parse_request` as the server runs it, function by function.  A
    `const char **p` with an `end` is the list of bytes between the two, an
    advanced pointer is a shorter list, and `-1` is `none`.  `req->headers` keep
    the bytes that their name and value pointers delimit.

    What an `HTTP_PARSE_ERROR` leaves half written in `*req` is not modelled. -/

namespace HttpParse

open CString Scan

/-- `HTTP_MAX_HEADERS`, `HTTP_MAX_METHOD`, `HTTP_MAX_PATH`,
    `HTTP_MAX_HEADER_BYTES`. -/
abbrev HTTP_MAX_HEADERS : Nat := 64
abbrev HTTP_MAX_METHOD : Nat := 16
abbrev HTTP_MAX_PATH : Nat := 512
abbrev HTTP_MAX_HEADER_BYTES : Nat := 32 * 1024

/-- `LONG_MAX` and `SIZE_MAX` of the 64-bit targets the server is built for. -/
abbrev LONG_MAX : Nat := 2 ^ 63 - 1
abbrev SIZE_MAX : Nat := 2 ^ 64 - 1

abbrev HT : Byte := 0x09
abbrev LF : Byte := 0x0A
abbrev CR : Byte := 0x0D
abbrev SP : Byte := 0x20
abbrev COLON : Byte := 0x3A

/-- The empty line's bytes, and the end of every other line. -/
abbrev CRLF : Bytes := [CR, LF]

/-- `HttpHeader`: the name and the trimmed value. -/
structure HttpHeader where
  name : Bytes
  value : Bytes
  deriving Repr, DecidableEq

/-- `HttpRequest`.  `content_length` is `-1` when the header is absent;
    `num_headers` is the length of `headers`. -/
structure HttpRequest where
  method : Bytes := []
  path : Bytes := []
  minorVersion : Nat := 0
  headers : List HttpHeader := []
  body : Bytes := []
  bodyLen : Nat := 0
  contentLength : Int := -1
  headerLen : Nat := 0
  messageLen : Nat := 0
  deriving Repr, DecidableEq

/-- `HttpParseResult`, with the request that was filled in. -/
inductive HttpParseResult where
  | ok (req : HttpRequest)
  | needMore (req : HttpRequest)
  | error
  deriving Repr, DecidableEq

/-! ## Tokens and the request line -/

/-- The characters `is_token_char` looks up with `strchr`. -/
def tokenPunctuation : Bytes := lit "!#$%&'*+-.^_`|~"

def isDigit (c : Byte) : Bool := 0x30 ≤ c && c ≤ 0x39

def isAlpha (c : Byte) : Bool :=
  (0x41 ≤ c && c ≤ 0x5A) || (0x61 ≤ c && c ≤ 0x7A)

/-- `is_token_char`. -/
def isTokenChar (c : Byte) : Bool :=
  if isDigit c || isAlpha c then true else strchr tokenPunctuation c

/-- `expect_crlf`. -/
def expectCrlf : Bytes → Option Bytes
  | c :: d :: rest => if c = CR ∧ d = LF then some rest else none
  | _ => none

/-- `read_token`: a nonempty run of token characters, fewer than `cap`. -/
def readToken (cap : Nat) (p : Bytes) : Option (Bytes × Bytes) :=
  match scanCap (fun c => !isTokenChar c) (fun _ => true) cap 0 p with
  | none => none
  | some (out, rest) => if out = [] then none else some (out, rest)

/-- A byte the request target may hold. -/
def isTargetChar (c : Byte) : Bool :=
  !(c ≤ 0x20 || c == 0x7F || c == 0x23)

/-- The target of the request line: up to the next space, shorter than
    `req->path`, starting with `/` or being `*`. -/
def readTarget (p : Bytes) : Option (Bytes × Bytes) :=
  match scanCap (· == SP) isTargetChar HTTP_MAX_PATH 0 p with
  | none => none
  | some (out, rest) =>
      if out = [] ∨ rest.head? ≠ some SP
          ∨ ¬ (out.head? = some 0x2F ∨ (out.length = 1 ∧ out.head? = some 0x2A))
      then none else some (out, rest.tail)

/-- The version of the request line: `HTTP/1.0` or `HTTP/1.1`. -/
def readVersion (p : Bytes) : Option (Nat × Bytes) :=
  if p.length < 8 ∨ p.take 7 ≠ lit "HTTP/1."
      ∨ ((p.drop 7).head? ≠ some 0x30 ∧ (p.drop 7).head? ≠ some 0x31)
  then none
  else some (((p.drop 7).headD 0).toNat - 48, p.drop 8)

/-- `parse_request_line`. -/
def parseRequestLine (p : Bytes) (req : HttpRequest) :
    Option (Bytes × HttpRequest) :=
  match readToken HTTP_MAX_METHOD p with
  | none => none
  | some (method, p) =>
      if p.head? ≠ some SP then none
      else
        match readTarget p.tail with
        | none => none
        | some (path, p) =>
            match readVersion p with
            | none => none
            | some (minor, p) =>
                (expectCrlf p).map fun p =>
                  (p, { req with method := method, path := path,
                                 minorVersion := minor })

/-! ## Header lines -/

/-- The digits of `parse_content_length`, with its overflow test. -/
def parseContentLengthLoop : Nat → Bytes → Option Nat
  | value, [] => some value
  | value, c :: cs =>
      if isDigit c then
        let digit := c.toNat - 48
        if value > (LONG_MAX - digit) / 10 then none
        else parseContentLengthLoop (value * 10 + digit) cs
      else none

/-- `parse_content_length`. -/
def parseContentLength (value : Bytes) : Option Nat :=
  if value = [] then none else parseContentLengthLoop 0 value

/-- `header_name_is`. -/
def headerNameIs (h : HttpHeader) (name : Bytes) : Bool :=
  h.name.length == name.length && strncasecmpEq name.length h.name name

/-- `HeaderCounts`. -/
structure HeaderCounts where
  host : Nat := 0
  contentLength : Nat := 0
  transferEncoding : Nat := 0
  authorization : Nat := 0
  contentType : Nat := 0
  expect : Nat := 0
  deriving Repr, DecidableEq

def isOws (c : Byte) : Bool := c == SP || c == HT

/-- `parse_header_name`: token characters up to the colon, then the blanks
    behind it. -/
def parseHeaderName (p : Bytes) : Option (Bytes × Bytes) :=
  match scan (· == COLON) isTokenChar p with
  | none => none
  | some (name, rest) =>
      if name = [] ∨ rest = [] then none
      else some (name, rest.tail.dropWhile isOws)

/-- A byte a header value may hold. -/
def isValueChar (c : Byte) : Bool :=
  !((c < 0x20 && c != HT) || c == 0x7F)

/-- `parse_header_value`: up to the line's end, blanks at its end trimmed. -/
def parseHeaderValue (p : Bytes) : Option (Bytes × Bytes) :=
  (scan (fun c => c == CR || c == LF) isValueChar p).map fun r =>
    (r.1.rdropWhile isOws, r.2)

/-- `host_value_valid`. -/
def hostValueValid (value : Bytes) : Bool :=
  value != [] && value.all fun c => !(c == SP || c == HT || c == 0x2C)

/-- `count_known_header`: `none` is the `-1` of a repeated or ill-formed
    header; otherwise the counts and `req->content_length` after it. -/
def countKnownHeader (h : HttpHeader) (seen : HeaderCounts) (contentLength : Int) :
    Option (HeaderCounts × Int) :=
  if headerNameIs h (lit "Host") then
    let seen := { seen with host := seen.host + 1 }
    if seen.host > 1 || !hostValueValid h.value then none
    else some (seen, contentLength)
  else if headerNameIs h (lit "Content-Length") then
    let seen := { seen with contentLength := seen.contentLength + 1 }
    if seen.contentLength > 1 then none
    else (parseContentLength h.value).map fun n => (seen, (n : Int))
  else if headerNameIs h (lit "Transfer-Encoding") then
    some ({ seen with transferEncoding := seen.transferEncoding + 1 }, contentLength)
  else if headerNameIs h (lit "Authorization") then
    if seen.authorization + 1 > 1 then none
    else some ({ seen with authorization := seen.authorization + 1 }, contentLength)
  else if headerNameIs h (lit "Content-Type") then
    if seen.contentType + 1 > 1 then none
    else some ({ seen with contentType := seen.contentType + 1 }, contentLength)
  else if headerNameIs h (lit "Expect") then
    if seen.expect + 1 > 1 then none
    else some ({ seen with expect := seen.expect + 1 }, contentLength)
  else some (seen, contentLength)

/-- One header line of `parse_headers`. -/
def parseHeaderLine (p : Bytes) : Option (HttpHeader × Bytes) :=
  match parseHeaderName p with
  | none => none
  | some (name, p) =>
      match parseHeaderValue p with
      | none => none
      | some (value, p) => (expectCrlf p).map fun p => (⟨name, value⟩, p)

/-- The empty line that ends the head is next. -/
def atEmptyLine : Bytes → Bool
  | c :: d :: _ => c == CR && d == LF
  | _ => false

/-- What `parse_headers` checks at the empty line. -/
def headComplete (req : HttpRequest) (seen : HeaderCounts) : Bool :=
  !(req.minorVersion == 1 && seen.host != 1)
    && (seen.transferEncoding == 0 && seen.contentLength ≤ 1)

/-- The loop of `parse_headers`; `room` is
    `HTTP_MAX_HEADERS - req->num_headers`. -/
def parseHeadersLoop : Nat → HeaderCounts → Bytes → HttpRequest →
    Option (Bytes × HttpRequest)
  | room, seen, p, req =>
      if p = [] then none
      else if atEmptyLine p then
        if headComplete req seen then some (p.drop 2, req) else none
      else
        match room with
        | 0 => none
        | room + 1 =>
            match parseHeaderLine p with
            | none => none
            | some (h, p) =>
                match countKnownHeader h seen req.contentLength with
                | none => none
                | some (seen, contentLength) =>
                    parseHeadersLoop room seen p
                      { req with headers := req.headers ++ [h],
                                 contentLength := contentLength }

/-- `parse_headers`. -/
def parseHeaders (p : Bytes) (req : HttpRequest) : Option (Bytes × HttpRequest) :=
  parseHeadersLoop (HTTP_MAX_HEADERS - req.headers.length) {} p req

/-! ## The whole request -/

/-- `header_end`: the end of the first `CRLF CRLF`. -/
def headerEnd : Bytes → Option Nat
  | c :: s =>
      if c = CR ∧ s.take 3 = [LF, CR, LF] then some 4
      else (headerEnd s).map (· + 1)
  | [] => none

/-- The bytes of a head: request line and headers, up to the empty line. -/
def parseHead (buf : Bytes) : Option (Bytes × HttpRequest) :=
  match parseRequestLine buf {} with
  | none => none
  | some (p, req) => parseHeaders p req

/-- `http_parse_request`. -/
def httpParseRequest (buf : Bytes) : HttpParseResult :=
  if buf = [] then .needMore {}
  else
    match headerEnd buf with
    | none =>
        if buf.length > HTTP_MAX_HEADER_BYTES then .error else .needMore {}
    | some headers =>
        if headers > HTTP_MAX_HEADER_BYTES then .error
        else
          match parseHead buf with
          | none => .error
          | some (p, req) =>
              -- an absent Content-Length is -1, hence an empty body
              let bodyLen := req.contentLength.toNat
              let req := { req with headerLen := buf.length - p.length,
                                    body := p.take bodyLen, bodyLen := bodyLen }
              if bodyLen > SIZE_MAX then .error
              else if bodyLen > p.length then .needMore req
              else .ok { req with messageLen := req.headerLen + bodyLen }

/-- `http_find_header`: the first header of that name. -/
def httpFindHeader (req : HttpRequest) (name : Bytes) : Option Bytes :=
  (req.headers.find? fun h => headerNameIs h name).map (·.value)

/-- The tests of the source's own suite. -/
example : httpParseRequest (lit "GET /notes HTTP/1.1\r\nHost: x\r\n\r\n")
    = .ok { method := lit "GET", path := lit "/notes", minorVersion := 1,
            headers := [⟨lit "Host", lit "x"⟩], headerLen := 32,
            messageLen := 32 } := by decide +kernel

end HttpParse
