import Gargantua.ErrorReply
import Gargantua.ResponseHeaders

/-! # Sending a response (`src/server/server_http.c`, `src/server/server.c`)

    The head of a response is put together in a buffer of a fixed size by five
    writers, and the text of a handler whose status is an error goes through an
    error document in another one.  The head always fits
    (`headText_length`); the document does not fit every text that fits the
    output buffer of the handler, and where it does not, nothing is sent. -/

namespace SendResponse

open CString RuntimeTypes RuntimeError RuntimeSink ErrorReply ResponseHeaders JsonValue Decimal

/-! ## The source -/

/-- `ERROR_CAP`, `ROUTE_ALLOW_CAP`, `SERVER_RESP_MIN`, `SERVER_BODY_MAX`,
    `GENERATOR_MAX_CONTENT_TYPE` and the size of `response_wire`. -/
abbrev ERROR_CAP : Nat := 16384
abbrev ROUTE_ALLOW_CAP : Nat := 2048
abbrev SERVER_RESP_MIN : Nat := 256 * 1024
abbrev SERVER_BODY_MAX : Nat := 8 * 1024 * 1024
abbrev GENERATOR_MAX_CONTENT_TYPE : Nat := 64
abbrev WIRE_CAP : Nat := RESPONSE_WIRE_CAP + 8192

/-- `JSON_CONTENT_TYPE`. -/
def JSON_CONTENT_TYPE : Bytes := lit "application/json; charset=utf-8"

/-- What the server knows of the request it answers: `response_head`,
    `response_cors`, `response_preflight`, whether `cors.credentials` is `true`,
    and the C strings in `response_allow`, `response_origin` and
    `response_requested_headers`. -/
structure Exchange where
  head : Bool
  cors : Bool
  preflight : Bool
  credentials : Bool
  allow : Bytes
  origin : Bytes
  requestedHeaders : Bytes
  allow_lt : allow.length < ROUTE_ALLOW_CAP
  origin_lt : origin.length < RESPONSE_VALUE_CAP
  requestedHeaders_lt : requestedHeaders.length < RESPONSE_VALUE_CAP

/-- Nothing fits the text of the methods. -/
theorem noAllow_lt : ([] : Bytes).length < ROUTE_ALLOW_CAP := Nat.zero_lt_succ _

/-- Nothing fits the text of a value. -/
theorem noValue_lt : ([] : Bytes).length < RESPONSE_VALUE_CAP := Nat.zero_lt_succ _

/-- A row of the route table, as far as a response needs it. -/
structure Route where
  contentType : Bytes
  status : Int
  contentType_lt : contentType.length < GENERATOR_MAX_CONTENT_TYPE
  isStatus : IsStatus status

/-- `status_reason`. -/
def statusReason (status : Int) : Bytes :=
  if status = 200 then lit "OK"
  else if status = 201 then lit "Created"
  else if status = 202 then lit "Accepted"
  else if status = 204 then lit "No Content"
  else if status = 205 then lit "Reset Content"
  else if status = 301 then lit "Moved Permanently"
  else if status = 302 then lit "Found"
  else if status = 303 then lit "See Other"
  else if status = 304 then lit "Not Modified"
  else if status = 307 then lit "Temporary Redirect"
  else if status = 308 then lit "Permanent Redirect"
  else if status = 400 then lit "Bad Request"
  else if status = 401 then lit "Unauthorized"
  else if status = 403 then lit "Forbidden"
  else if status = 404 then lit "Not Found"
  else if status = 405 then lit "Method Not Allowed"
  else if status = 409 then lit "Conflict"
  else if status = 408 then lit "Request Timeout"
  else if status = 413 then lit "Payload Too Large"
  else if status = 417 then lit "Expectation Failed"
  else if status = 429 then lit "Too Many Requests"
  else if status = 422 then lit "Unprocessable Content"
  else if status = 500 then lit "Internal Server Error"
  else if status = 503 then lit "Service Unavailable"
  else lit "Status"

/-- `header_append`, with the text that its format gives. -/
def headerAppend (header text : Bytes) : Option Bytes :=
  if header.length ≥ WIRE_CAP then none
  else if text.length ≥ WIRE_CAP - header.length then none
  else some (header ++ text)

/-- `header_append` under a condition. -/
def headerAppendIf (c : Prop) [Decidable c] (header text : Bytes) : Option Bytes :=
  if c then headerAppend header text else some header

/-- The line and the fields that every response has. -/
def statusText (status : Int) (contentType : Bytes) (keepAlive : Bool) : Bytes :=
  lit "HTTP/1.1 " ++ printInt status ++ lit " " ++ statusReason status ++ lit "\r\n"
    ++ lit "Content-Type: " ++ contentType ++ lit "\r\n"
    ++ lit "X-Content-Type-Options: nosniff\r\n" ++ lit "Referrer-Policy: no-referrer\r\n"
    ++ lit "Connection: " ++ (if keepAlive then lit "keep-alive" else lit "close") ++ lit "\r\n"

def lengthText (blen : Nat) : Bytes := lit "Content-Length: " ++ print blen ++ lit "\r\n"

def allowText (x : Exchange) : Bytes := lit "Allow: " ++ x.allow ++ lit "\r\n"

def varyText (x : Exchange) : Bytes :=
  lit "Vary: Origin"
    ++ (if x.preflight then lit ", Access-Control-Request-Method, Access-Control-Request-Headers"
      else [])
    ++ lit "\r\n"

def originText (x : Exchange) : Bytes :=
  lit "Access-Control-Allow-Origin: " ++ x.origin ++ lit "\r\n"
    ++ lit "Access-Control-Expose-Headers: Location\r\n"
    ++ (if x.credentials then lit "Access-Control-Allow-Credentials: true\r\n" else [])

def preflightText (x : Exchange) : Bytes :=
  lit "Access-Control-Allow-Methods: " ++ x.allow ++ lit "\r\n"
    ++ (if x.requestedHeaders ≠ [] then lit "Access-Control-Allow-Headers: " else [])
    ++ x.requestedHeaders ++ (if x.requestedHeaders ≠ [] then lit "\r\n" else [])

/-- `write_cors_headers`. -/
def writeCorsHeaders (x : Exchange) (header : Bytes) (status : Int) : Option Bytes := do
  let header ← headerAppendIf x.cors header (varyText x)
  if x.origin = [] then some header
  else
    let header ← headerAppend header (originText x)
    headerAppendIf (¬ (x.preflight = false ∨ status ≠ 204)) header (preflightText x)

/-- `send_bytes`: what it hands to `send_header_body`, and `none` where it
    returns before that. -/
def sendBytes (x : Exchange) (r : Response) (status : Int) (contentType body : Bytes) (blen : Nat)
    (keepAlive : Bool) : Option (Bytes × Bytes) := do
  let header ← headerAppend [] (statusText status contentType keepAlive)
  let header ← headerAppendIf (status ≠ 204 ∧ status ≠ 304) header (lengthText blen)
  let lines ← responseWrite r (WIRE_CAP - header.length) status
  let header := header ++ lines
  let header ← headerAppendIf (x.allow ≠ []) header (allowText x)
  let header ← writeCorsHeaders x header status
  if header.length + 2 ≥ WIRE_CAP then none
  else some (header ++ lit "\r\n", body.take (if x.head then 0 else blen))

/-- The length that `send_response` announces. -/
def bodyLength (status : Int) (body : Bytes) : Nat :=
  if status = 204 ∨ status = 205 ∨ status = 304 then 0 else body.length

/-- `send_response`. -/
def sendResponse (x : Exchange) (r : Response) (f : Failure) (status : Int)
    (contentType body : Bytes) (keepAlive : Bool) : Option (Bytes × Bytes) :=
  if status ≥ 400 then
    match errorJsonWrite f status (some body) ERROR_CAP with
    | none => none
    | some error =>
        sendBytes x r status JSON_CONTENT_TYPE error (bodyLength status error) keepAlive
  else sendBytes x r status contentType body (bodyLength status body) keepAlive

/-- The size of the output buffer that `prepare_handler` takes. -/
def bufferSize (contentLength : Int) (bodyLen : Nat) : Nat :=
  let blen := if contentLength > 0 then contentLength.toNat else bodyLen
  let want := if blen > SERVER_RESP_MIN then blen + SERVER_RESP_MIN else SERVER_RESP_MIN
  if want > SERVER_BODY_MAX then SERVER_BODY_MAX else want

/-- `serve_handler_error` (`src/server/server_serve.c`). -/
def serveHandlerError (x : Exchange) (r : Response) (f : Failure) (rc : Int) (keepAlive : Bool) :
    Option (Bytes × Bytes) :=
  if requestFailed f then sendResponse x r f f.status JSON_CONTENT_TYPE f.message keepAlive
  else if rc = -2 then
    sendResponse x r f 400 JSON_CONTENT_TYPE (lit "bad parameter or body") keepAlive
  else
    sendResponse x r f 500 JSON_CONTENT_TYPE
      (snprintf 128 (lit "response larger than " ++ print SERVER_BODY_MAX ++ lit " bytes")) keepAlive

/-- The end of `serve_request`, behind the handler. -/
def serveHandled (x : Exchange) (r : Response) (f : Failure) (route : Route) (rc : Int)
    (text : Bytes) (keepAlive : Bool) : Option (Bytes × Bytes) :=
  if requestFailed f || rc != 0 then serveHandlerError x r f rc keepAlive
  else sendResponse x r f (responseStatusGet r route.status) route.contentType text keepAlive

/-! ## The head -/

/-- The fields of `write_cors_headers`. -/
def corsText (x : Exchange) (status : Int) : Bytes :=
  (if x.cors then varyText x else [])
    ++ if x.origin = [] then []
      else originText x ++ if ¬ (x.preflight = false ∨ status ≠ 204) then preflightText x else []

/-- The head of a response, but for the empty line. -/
def headText (x : Exchange) (r : Response) (status : Int) (contentType : Bytes) (blen : Nat)
    (keepAlive : Bool) : Bytes :=
  statusText status contentType keepAlive
    ++ (if status ≠ 204 ∧ status ≠ 304 then lengthText blen else [])
    ++ headersText r status ++ (if x.allow ≠ [] then allowText x else []) ++ corsText x status

theorem headerAppend_eq {header text : Bytes} (h : header.length + text.length < WIRE_CAP) :
    headerAppend header text = some (header ++ text) := by
  rw [headerAppend, if_neg (by omega), if_neg (by omega)]

/-- A field that is there under a condition. -/
theorem headerAppendIf_eq {c : Prop} [Decidable c] {header text : Bytes}
    (h : header.length + (if c then text else []).length < WIRE_CAP) :
    headerAppendIf c header text = some (header ++ if c then text else []) := by
  rw [headerAppendIf]
  by_cases hc : c
  · rw [if_pos hc] at h
    rw [if_pos hc, if_pos hc, headerAppend_eq h]
  · rw [if_neg hc, if_neg hc, List.append_nil]

theorem writeCorsHeaders_eq (x : Exchange) {header : Bytes} {status : Int}
    (h : header.length + (corsText x status).length < WIRE_CAP) :
    writeCorsHeaders x header status = some (header ++ corsText x status) := by
  rw [corsText, List.length_append] at h
  rw [writeCorsHeaders, headerAppendIf_eq (by omega), Option.bind_eq_bind, Option.bind_some, corsText]
  by_cases horigin : x.origin = []
  · rw [if_pos horigin, if_pos horigin, List.append_nil]
  · rw [if_neg horigin, List.length_append] at h
    rw [if_neg horigin, if_neg horigin, headerAppend_eq (by
        rw [List.length_append]
        omega), Option.bind_some, headerAppendIf_eq (by
        rw [List.length_append, List.length_append]
        omega), List.append_assoc, List.append_assoc]

/-- `send_bytes` sends the head and the body, if the buffer holds the head. -/
theorem sendBytes_eq (x : Exchange) (r : Response) {status : Int} {contentType : Bytes}
    (body : Bytes) {blen : Nat} {keepAlive : Bool}
    (h : (headText x r status contentType blen keepAlive).length + 2 < WIRE_CAP) :
    sendBytes x r status contentType body blen keepAlive
      = some (headText x r status contentType blen keepAlive ++ lit "\r\n",
          body.take (if x.head then 0 else blen)) := by
  have hlen := h
  rw [headText] at hlen
  simp only [List.length_append] at hlen
  have hlines : (headersText r status).length < WIRE_CAP - (statusText status contentType keepAlive
      ++ if status ≠ 204 ∧ status ≠ 304 then lengthText blen else []).length := by
    rw [List.length_append]
    omega
  rw [sendBytes, headerAppend_eq (by
      rw [List.length_nil]
      omega), Option.bind_eq_bind, Option.bind_some, List.nil_append, headerAppendIf_eq (by omega),
    Option.bind_some, responseWrite_eq r hlines, Option.bind_some]
  dsimp only
  rw [headerAppendIf_eq (by
      simp only [List.length_append]
      omega), Option.bind_some, writeCorsHeaders_eq x (by
      simp only [List.length_append]
      omega), Option.bind_some]
  exact if_neg (Nat.not_le.mpr h)

/-! ## The head fits -/

theorem statusReason_length (status : Int) : (statusReason status).length ≤ 21 := by
  have hite : ∀ {c : Prop} [Decidable c] {s t : Bytes}, s.length ≤ 21 → t.length ≤ 21 →
      (if c then s else t).length ≤ 21 := by
    intro c _ s t hs ht
    split
    · exact hs
    · exact ht
  rw [statusReason]
  iterate 24 refine hite (by decide) ?_
  decide

theorem printInt_status {status : Int} (h : IsStatus status) : (printInt status).length ≤ 3 := by
  have habs : status.natAbs < 10 ^ (2 + 1) := by
    obtain ⟨h1, h2⟩ := h
    omega
  have hpos : ¬ status < 0 := by
    obtain ⟨h1, -⟩ := h
    omega
  rw [printInt, if_neg hpos, List.nil_append]
  exact print_length status.natAbs habs

theorem statusText_length {status : Int} (h : IsStatus status) (contentType : Bytes)
    (keepAlive : Bool) : (statusText status contentType keepAlive).length ≤ contentType.length + 150 := by
  have h1 : (lit "HTTP/1.1 ").length = 9 := by decide
  have h2 : (lit " ").length = 1 := by decide
  have h3 : (lit "\r\n").length = 2 := by decide
  have h4 : (lit "Content-Type: ").length = 14 := by decide
  have h5 : (lit "X-Content-Type-Options: nosniff\r\n").length = 33 := by decide
  have h6 : (lit "Referrer-Policy: no-referrer\r\n").length = 30 := by decide
  have h7 : (lit "Connection: ").length = 12 := by decide
  have h8 : (if keepAlive then lit "keep-alive" else lit "close").length ≤ 10 := by
    cases keepAlive <;> decide
  have hreason := statusReason_length status
  have hstatus := printInt_status h
  simp only [statusText, List.length_append]
  omega

theorem lengthText_length {blen : Nat} (h : blen ≤ SERVER_BODY_MAX) : (lengthText blen).length ≤ 25 := by
  have h1 : (lit "Content-Length: ").length = 16 := by decide
  have h2 : (lit "\r\n").length = 2 := by decide
  have hprint := print_length blen (k := 6) (Nat.lt_of_le_of_lt h (by decide))
  simp only [lengthText, List.length_append]
  omega

theorem allowText_length (x : Exchange) : (allowText x).length ≤ 2056 := by
  have h1 : (lit "Allow: ").length = 7 := by decide
  have h2 : (lit "\r\n").length = 2 := by decide
  have hallow : x.allow.length < 2048 := x.allow_lt
  simp only [allowText, List.length_append]
  omega

theorem corsText_length (x : Exchange) (status : Int) : (corsText x status).length ≤ 4400 := by
  have hcrlf : (lit "\r\n").length = 2 := by decide
  have hvary : (varyText x).length ≤ 80 := by
    have h1 : (lit "Vary: Origin").length = 12 := by decide
    have h2 : (if x.preflight then lit ", Access-Control-Request-Method, Access-Control-Request-Headers"
        else []).length ≤ 63 := by
      cases x.preflight <;> decide
    simp only [varyText, List.length_append]
    omega
  have horigin : (originText x).length ≤ 1136 := by
    have h1 : (lit "Access-Control-Allow-Origin: ").length = 29 := by decide
    have h2 : (lit "Access-Control-Expose-Headers: Location\r\n").length = 41 := by decide
    have h3 : (if x.credentials then lit "Access-Control-Allow-Credentials: true\r\n"
        else []).length ≤ 40 := by
      cases x.credentials <;> decide
    have hlt : x.origin.length < 1024 := x.origin_lt
    simp only [originText, List.length_append]
    omega
  have hpreflight : (preflightText x).length ≤ 3140 := by
    have h1 : (lit "Access-Control-Allow-Methods: ").length = 30 := by decide
    have h2 : (if x.requestedHeaders ≠ [] then lit "Access-Control-Allow-Headers: "
        else []).length ≤ 30 := by
      split <;> decide
    have h3 : (if x.requestedHeaders ≠ [] then lit "\r\n" else []).length ≤ 2 := by
      split <;> decide
    have hallow : x.allow.length < 2048 := x.allow_lt
    have hrequested : x.requestedHeaders.length < 1024 := x.requestedHeaders_lt
    simp only [preflightText, List.length_append]
    omega
  rw [corsText, List.length_append]
  have hfirst : (if x.cors then varyText x else []).length ≤ 80 := by
    split
    · exact hvary
    · exact Nat.zero_le _
  have hrest : (if x.origin = [] then [] else originText x
      ++ if ¬ (x.preflight = false ∨ status ≠ 204) then preflightText x else []).length ≤ 1136 + 3140 := by
    split
    · exact Nat.zero_le _
    · rw [List.length_append]
      refine Nat.add_le_add horigin ?_
      split
      · exact hpreflight
      · exact Nat.zero_le _
  omega

/-- **The head fits its buffer**, whatever the handler called and the request
    asked for. -/
theorem headText_length (x : Exchange) {r : Response} (hr : Sized r) {status : Int}
    (hstatus : IsStatus status) {contentType : Bytes}
    (htype : contentType.length < GENERATOR_MAX_CONTENT_TYPE) {blen : Nat}
    (hblen : blen ≤ SERVER_BODY_MAX) (keepAlive : Bool) :
    (headText x r status contentType blen keepAlive).length + 2 < WIRE_CAP := by
  have h1 := statusText_length hstatus contentType keepAlive
  have h2 : (if status ≠ 204 ∧ status ≠ 304 then lengthText blen else []).length ≤ 25 := by
    split
    · exact lengthText_length hblen
    · exact Nat.zero_le _
  have h3 := headersText_length hr status
  have h4 : (if x.allow ≠ [] then allowText x else []).length ≤ 2056 := by
    split
    · exact allowText_length x
    · exact Nat.zero_le _
  have h5 := corsText_length x status
  rw [headText]
  simp only [List.length_append]
  change contentType.length < 64 at htype
  change (headersText r status).length ≤ 16 * (64 + 1024 + 2) at h3
  change _ < 16 * (64 + 1024 + 4) + 8192
  omega

/-! ## The error document -/

/-- The length of the error document for a text. -/
def errorLength (status : Int) (text : Bytes) : Nat :=
  62 + (printInt status).length + (errorCodeForStatus status).length + (text.flatMap escape).length

theorem escape_length (text : Bytes) : text.length ≤ (text.flatMap escape).length := by
  have hone : ∀ c : Byte, 1 ≤ (escape c).length := by
    intro c
    cases c with
    | ofBitVec b =>
        revert b
        decide +kernel
  induction text with
  | nil => exact Nat.le_refl _
  | cons c text ih =>
      have hc := hone c
      rw [List.flatMap_cons, List.length_append, List.length_cons]
      omega

/-- Without a failure the document has no fields. -/
theorem error_print_length {f : Failure} (hf : requestFailed f = false) {status : Int}
    (hstatus : IsStatus status) (text : Bytes) :
    ((replyOf f status (some text)).value.print escape).length
      = 62 + (printInt status).length + (errorCodeForStatus status).length
        + ((written text).flatMap escape).length := by
  have hzero : f.status = 0 := by
    rw [requestFailed, bne_eq_false_iff_eq] at hf
    exact hf
  have hactive : ((f.status : Int) == status) = false := by
    rw [beq_eq_false_iff_ne, hzero]
    intro h
    obtain ⟨h1, -⟩ := hstatus
    omega
  have hplain : (errorCodeForStatus status).flatMap escape = errorCodeForStatus status :=
    escapes.flatMap_plain fun b hb => ((errorCode_text status).1 b hb).1
  have hnone : itemsText 0 (([] : List FieldError).map fieldValue) = [] := rfl
  have h1 : (lit "\x7b\"status\":").length = 10 := by decide
  have h2 : (lit ",\"code\":").length = 8 := by decide
  have h3 : (cstr (lit ",\"error\":")).length = 9 := by decide
  have h4 : (cstr (lit ",\"fields\":[")).length = 11 := by decide
  have h5 : (cstr (lit "],\"truncated\":false\x7d")).length = 20 := by decide
  have hquote : ∀ t : Bytes, (quote escape t).length = (t.flatMap escape).length + 2 := by
    intro t
    rw [quote, List.length_cons, List.length_append, List.length_singleton]
  rw [Reply.print_eq, replyOf]
  dsimp only
  rw [hactive, Bool.false_and, Bool.false_and, if_neg Bool.false_ne_true, if_neg Bool.false_ne_true,
    if_neg Bool.false_ne_true, if_neg Bool.false_ne_true, hnone, errorCode_written, Option.getD_some]
  simp only [List.length_append, hquote, hplain, h1, h2, h3, h4, h5, List.length_nil]
  omega

/-- The document fits its buffer exactly where its length is below the size. -/
theorem error_fits_iff {f : Failure} (hf : requestFailed f = false) {status : Int}
    (hstatus : IsStatus status) {text : Bytes} (h0 : (0 : Byte) ∉ text) :
    ((replyOf f status (some text)).value.print escape).length < ERROR_CAP
      ↔ errorLength status text < ERROR_CAP := by
  rw [error_print_length hf hstatus, errorLength]
  by_cases hlong : text.length ≤ RUNTIME_MAX_TEXT
  · rw [written_eq h0 hlong]
  · -- what is left of a text that long is too long already
    have hwritten : (written text).length = RUNTIME_MAX_TEXT := by
      rw [written, cstr_eq_self h0, List.length_take]
      omega
    have h1 := escape_length (written text)
    have h2 := escape_length text
    rw [hwritten] at h1
    change 1048576 ≤ _ at h1
    change ¬ text.length ≤ 1048576 at hlong
    exact iff_of_false (fun h => by
      change _ < 16384 at h
      omega) (fun h => by
      change _ < 16384 at h
      omega)

/-! ## Completed handlers -/

/-- The text that goes out for a completed handler, and its type. -/
def payload (f : Failure) (route : Route) (status : Int) (text : Bytes) : Bytes × Bytes :=
  if status ≥ 400 then (JSON_CONTENT_TYPE, (replyOf f status (some text)).value.print escape)
  else (route.contentType, text)

/-- The complete response of a completed handler. -/
def completeResponse (x : Exchange) (r : Response) (f : Failure) (route : Route) (text : Bytes)
    (keepAlive : Bool) : Bytes × Bytes :=
  let status := responseStatusGet r route.status
  let p := payload f route status text
  let blen := bodyLength status p.2
  (headText x r status p.1 blen keepAlive ++ lit "\r\n", p.2.take (if x.head then 0 else blen))

theorem bufferSize_le (contentLength : Int) (bodyLen : Nat) :
    bufferSize contentLength bodyLen ≤ SERVER_BODY_MAX := by
  rw [bufferSize]
  split_ifs <;> omega

theorem bodyLength_le (status : Int) (body : Bytes) : bodyLength status body ≤ body.length := by
  rw [bodyLength]
  split
  · exact Nat.zero_le _
  · exact Nat.le_refl _

/-- A status that is an error, with or without room for the document. -/
theorem sendResponse_error (x : Exchange) (r : Response) {f : Failure}
    (hf : requestFailed f = false) {status : Int} (hstatus : IsStatus status) (herror : status ≥ 400)
    (contentType : Bytes) {text : Bytes} (hnul : (0 : Byte) ∉ text) (keepAlive : Bool) :
    sendResponse x r f status contentType text keepAlive
      = if errorLength status text < ERROR_CAP then
          let document := (replyOf f status (some text)).value.print escape
          sendBytes x r status JSON_CONTENT_TYPE document (bodyLength status document) keepAlive
        else none := by
  have hint : IsInt status := by
    obtain ⟨h1, h2⟩ := hstatus
    exact ⟨by omega, by omega⟩
  have hfit := error_fits_iff hf hstatus hnul
  rw [sendResponse, if_pos herror, errorJsonWrite_eq f hint]
  by_cases hlen : errorLength status text < ERROR_CAP
  · rw [if_pos hlen, if_pos (hfit.mpr hlen)]
  · rw [if_neg hlen, if_neg (fun h => hlen (hfit.mp h))]

theorem serveHandled_completed (x : Exchange) (r : Response) {f : Failure}
    (hf : requestFailed f = false) (route : Route) (text : Bytes) (keepAlive : Bool) :
    serveHandled x r f route 0 text keepAlive
      = sendResponse x r f (responseStatusGet r route.status) route.contentType text keepAlive := by
  rw [serveHandled, hf, Bool.false_or, if_neg (by decide)]

/-- **A completed handler gets its response exactly where its status is no error
    or the error document holds its text.** -/
theorem completed_iff (calls : List ResponseHeaders.Call) (x : Exchange) (route : Route) {f : Failure}
    (hf : requestFailed f = false) {contentLength : Int} {bodyLen : Nat} {text : Bytes}
    (hnul : (0 : Byte) ∉ text) (hfits : text.length < bufferSize contentLength bodyLen)
    (keepAlive : Bool) :
    serveHandled x (afterCalls calls) f route 0 text keepAlive
        = some (completeResponse x (afterCalls calls) f route text keepAlive)
      ↔ responseStatusGet (afterCalls calls) route.status < 400
        ∨ errorLength (responseStatusGet (afterCalls calls) route.status) text < ERROR_CAP := by
  have hr := sized_calls calls
  have hstatus := responseStatusGet_isStatus hr route.isStatus
  rw [serveHandled_completed x _ hf, completeResponse]
  generalize responseStatusGet (afterCalls calls) route.status = status at hstatus
  rw [payload]
  by_cases herror : status ≥ 400
  · rw [if_pos herror, sendResponse_error x _ hf hstatus herror _ hnul]
    by_cases hlen : errorLength status text < ERROR_CAP
    · have hblen : bodyLength status ((replyOf f status (some text)).value.print escape)
          ≤ SERVER_BODY_MAX :=
        Nat.le_trans (bodyLength_le _ _) (Nat.le_trans
          (Nat.le_of_lt ((error_fits_iff hf hstatus hnul).mpr hlen)) (by decide))
      rw [if_pos hlen]
      dsimp only
      rw [sendBytes_eq x _ _ (headText_length x hr hstatus (by decide) hblen keepAlive)]
      exact iff_of_true rfl (.inr hlen)
    · rw [if_neg hlen]
      refine iff_of_false (fun h => nomatch h) ?_
      rintro (hlt | hlt)
      · omega
      · exact hlen hlt
  · have hblen : bodyLength status text ≤ SERVER_BODY_MAX :=
      Nat.le_trans (bodyLength_le _ _)
        (Nat.le_trans (Nat.le_of_lt hfits) (bufferSize_le contentLength bodyLen))
    rw [sendResponse, if_neg herror, if_neg herror, sendBytes_eq x _ _
      (headText_length x hr hstatus route.contentType_lt hblen keepAlive)]
    exact iff_of_true rfl (.inl (Int.not_le.mp herror))

/-- A request without CORS, and a route that answers with JSON. -/
def plainExchange : Exchange where
  head := false
  cors := false
  preflight := false
  credentials := false
  allow := []
  origin := []
  requestedHeaders := []
  allow_lt := noAllow_lt
  origin_lt := noValue_lt
  requestedHeaders_lt := noValue_lt

def jsonRoute : Route where
  contentType := JSON_CONTENT_TYPE
  status := 200
  contentType_lt := by decide
  isStatus := ⟨by decide, by decide⟩

/-- A handler that answers `404` with a short text. -/
theorem completed_iff_missing :
    serveHandled plainExchange (afterCalls [.status 404]) {} jsonRoute 0 (lit "gone") true
      = some (completeResponse plainExchange (afterCalls [.status 404]) {} jsonRoute (lit "gone")
          true) :=
  (completed_iff [.status 404] plainExchange jsonRoute rfl (by decide)
    (show (lit "gone").length < bufferSize 0 0 by decide) true).mpr (.inr (by decide +kernel))

/-- A text of 16 KiB fits the output buffer, and is not sent with the status `404`. -/
theorem long_error_unsent :
    (List.replicate 16384 (0x61 : Byte)).length < bufferSize 0 0
      ∧ serveHandled plainExchange (afterCalls [.status 404]) {} jsonRoute 0
          (List.replicate 16384 0x61) true = none := by
  have hlen : (List.replicate 16384 (0x61 : Byte)).length = 16384 := List.length_replicate
  have hnul : (0 : Byte) ∉ List.replicate 16384 (0x61 : Byte) := fun h =>
    absurd (List.eq_of_mem_replicate h) (by decide)
  have hlong : ¬ errorLength 404 (List.replicate 16384 0x61) < ERROR_CAP := by
    have h := escape_length (List.replicate 16384 0x61)
    rw [hlen] at h
    rw [errorLength]
    change ¬ _ < 16384
    omega
  refine ⟨by rw [hlen]; decide, ?_⟩
  have hstatus : responseStatusGet (afterCalls [.status 404]) jsonRoute.status = 404 := by decide
  rw [serveHandled_completed plainExchange _ rfl, hstatus,
    sendResponse_error plainExchange _ rfl ⟨by decide, by decide⟩ (by decide) _ hnul, if_neg hlong]

end SendResponse
