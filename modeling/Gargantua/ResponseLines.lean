import Gargantua.Lib.Separated
import Gargantua.ResponseMap
import Gargantua.SendResponse

/-! # The lines of a response (`src/server/server.c`)

    What the server sends in front of a body is lines: the status line, a line
    for each field, and an empty one.  As long as nothing that is printed holds a
    line end, a reader finds exactly these lines (`sendResponse_lines`), and an
    `Access-Control-Allow-` field only where an origin was let through
    (`corsNames_of_origin`). -/

namespace ResponseLines

open CString Separated HttpParse ResponseHeaders SendResponse Decimal
open RuntimeError (Failure)

/-! ## Lines as a reader takes them -/

/-- A text that ends no line. -/
def Clean (s : Bytes) : Prop := ∀ b ∈ s, b ≠ CR ∧ b ≠ LF

theorem Clean.append {s t : Bytes} (hs : Clean s) (ht : Clean t) : Clean (s ++ t) :=
  fun b hb => (List.mem_append.mp hb).elim (hs b) (ht b)

theorem Clean.of_value {s : Bytes} (h : ∀ b ∈ s, isValueChar b = true) : Clean s := by
  intro b hb
  refine ⟨?_, ?_⟩
  all_goals
    rintro rfl
    exact absurd (h _ hb) (by decide)

/-- A text of the source is looked at byte by byte. -/
theorem clean_text {s : Bytes} (h : (s.all fun b => b != CR && b != LF) = true) : Clean s := by
  intro b hb
  have hchar := List.all_eq_true.mp h b hb
  rw [Bool.and_eq_true, bne_iff_ne, bne_iff_ne] at hchar
  exact hchar

/-- The head of a response: its lines, the status line first, and an empty
    line. -/
structure IsHead (status : Int) (head : Bytes) (lines : List Bytes) : Prop where
  text : head = joinLines CR LF lines ++ CRLF
  status : lines.head? = some (lit "HTTP/1.1 " ++ printInt status ++ lit " " ++ statusReason status)
  clean : ∀ line ∈ lines, Clean line

/-- **A head has one division into lines.** -/
theorem IsHead.unique {status status' : Int} {head : Bytes} {lines lines' : List Bytes}
    (h : IsHead status head lines) (h' : IsHead status' head lines') : lines = lines' := by
  have htext : joinLines CR LF lines = joinLines CR LF lines' :=
    List.append_cancel_right (h.text.symm.trans h'.text)
  exact joinLines_inj (fun line hl hcr => (h.clean line hl CR hcr).1 rfl)
    (fun line hl hcr => (h'.clean line hl CR hcr).1 rfl) htext

/-- The name of the field on a line, as it is compared. -/
def fieldName (line : Bytes) : Bytes := (line.takeWhile (· != COLON)).map toLower

/-- Its value. -/
def fieldValue (line : Bytes) : Bytes := trim isOws ((line.dropWhile (· != COLON)).drop 1)

/-- The line of a field. -/
def fieldLine (name value : Bytes) : Bytes := name ++ COLON :: SP :: value

theorem fieldLine_read (name : Bytes) (h : COLON ∉ name) (value : Bytes) :
    fieldName (fieldLine name value) = name.map toLower
      ∧ fieldValue (fieldLine name value) = trim isOws value := by
  obtain ⟨htake, hdrop⟩ := Scan.cut_append h (SP :: value)
  rw [fieldName, fieldValue, fieldLine, htake, hdrop]
  exact ⟨rfl, trim_cons rfl value⟩

theorem fieldLine_clean {name value : Bytes} (hname : Clean name) (hvalue : Clean value) :
    Clean (fieldLine name value) := by
  refine hname.append fun b hb => ?_
  rcases List.mem_cons.mp hb with rfl | hb
  · decide
  · rcases List.mem_cons.mp hb with rfl | hb
    · decide
    · exact hvalue b hb

/-- The prefix of the fields that grant access. -/
def ACCESS : Bytes := lit "access-control-allow-"

/-! ## The lines that are sent -/

/-- The lines of `write_cors_headers`. -/
def corsLines (x : Exchange) (status : Int) : List Bytes :=
  (if x.cors then
      [fieldLine (lit "Vary") (lit "Origin" ++ if x.preflight then
        lit ", Access-Control-Request-Method, Access-Control-Request-Headers" else [])]
    else [])
    ++ if x.origin = [] then []
      else
        [fieldLine (lit "Access-Control-Allow-Origin") x.origin,
          fieldLine (lit "Access-Control-Expose-Headers") (lit "Location")]
        ++ (if x.credentials then [fieldLine (lit "Access-Control-Allow-Credentials") (lit "true")]
          else [])
        ++ if ¬ (x.preflight = false ∨ status ≠ 204) then
            fieldLine (lit "Access-Control-Allow-Methods") x.allow
              :: if x.requestedHeaders ≠ [] then
                  [fieldLine (lit "Access-Control-Allow-Headers") x.requestedHeaders] else []
          else []

/-- The lines of `send_bytes` in front of them. -/
def plainLines (x : Exchange) (r : Response) (status : Int) (contentType : Bytes) (blen : Nat)
    (keepAlive : Bool) : List Bytes :=
  [fieldLine (lit "Content-Type") contentType,
      fieldLine (lit "X-Content-Type-Options") (lit "nosniff"),
      fieldLine (lit "Referrer-Policy") (lit "no-referrer"),
      fieldLine (lit "Connection") (if keepAlive then lit "keep-alive" else lit "close")]
    ++ (if status ≠ 204 ∧ status ≠ 304 then [fieldLine (lit "Content-Length") (print blen)] else [])
    ++ (r.headers.filter fun h => !isDropped status h).map (fun h => fieldLine h.name h.value)
    ++ if x.allow ≠ [] then [fieldLine (lit "Allow") x.allow] else []

def headLines (x : Exchange) (r : Response) (status : Int) (contentType : Bytes) (blen : Nat)
    (keepAlive : Bool) : List Bytes :=
  (lit "HTTP/1.1 " ++ printInt status ++ lit " " ++ statusReason status)
    :: plainLines x r status contentType blen keepAlive ++ corsLines x status

/-- A field of the source: its label with the colon, and the text of its value. -/
theorem label_line {label name : Bytes} (h : label = name ++ [COLON, SP]) (value : Bytes) :
    label ++ value ++ lit "\r\n" = joinLines CR LF [fieldLine name value] := by
  rw [joinLines_cons, joinLines_nil, h, fieldLine, List.append_assoc, List.append_assoc,
    List.append_assoc]
  rfl

/-- Lines that are there under a condition. -/
theorem joinLines_ite {c : Prop} [Decidable c] (lines : List Bytes) :
    joinLines CR LF (if c then lines else []) = if c then joinLines CR LF lines else [] :=
  apply_ite _ _ _ _

theorem originText_lines (x : Exchange) : originText x = joinLines CR LF
    ([fieldLine (lit "Access-Control-Allow-Origin") x.origin,
        fieldLine (lit "Access-Control-Expose-Headers") (lit "Location")]
      ++ if x.credentials then [fieldLine (lit "Access-Control-Allow-Credentials") (lit "true")]
        else []) := by
  have hexpose : lit "Access-Control-Expose-Headers: Location\r\n"
      = joinLines CR LF [fieldLine (lit "Access-Control-Expose-Headers") (lit "Location")] := rfl
  have hcredentials : lit "Access-Control-Allow-Credentials: true\r\n"
      = joinLines CR LF [fieldLine (lit "Access-Control-Allow-Credentials") (lit "true")] := rfl
  have hlabel : lit "Access-Control-Allow-Origin: "
      = lit "Access-Control-Allow-Origin" ++ [COLON, SP] := rfl
  rw [originText, hexpose, hcredentials, label_line hlabel, joinLines_append, joinLines_ite,
    ← joinLines_append]
  rfl

theorem preflightText_lines (x : Exchange) : preflightText x = joinLines CR LF
    (fieldLine (lit "Access-Control-Allow-Methods") x.allow
      :: if x.requestedHeaders ≠ [] then
          [fieldLine (lit "Access-Control-Allow-Headers") x.requestedHeaders] else []) := by
  have hmethods : lit "Access-Control-Allow-Methods: "
      = lit "Access-Control-Allow-Methods" ++ [COLON, SP] := rfl
  have hheaders : lit "Access-Control-Allow-Headers: "
      = lit "Access-Control-Allow-Headers" ++ [COLON, SP] := rfl
  have hjoin : ∀ (line : Bytes) (lines : List Bytes),
      joinLines CR LF (line :: lines) = joinLines CR LF [line] ++ joinLines CR LF lines :=
    fun line lines => joinLines_append CR LF [line] lines
  rw [preflightText, hjoin, ← label_line hmethods, joinLines_ite, ← label_line hheaders]
  by_cases hrequested : x.requestedHeaders ≠ []
  · simp only [if_pos hrequested, List.append_assoc]
  · simp only [not_not.mp hrequested, ne_eq, not_true, if_false, List.append_nil]

theorem corsText_lines (x : Exchange) (status : Int) :
    corsText x status = joinLines CR LF (corsLines x status) := by
  have hvary : varyText x = joinLines CR LF [fieldLine (lit "Vary") (lit "Origin"
      ++ if x.preflight then lit ", Access-Control-Request-Method, Access-Control-Request-Headers"
        else [])] := by
    have hlabel : lit "Vary: " = lit "Vary" ++ [COLON, SP] := rfl
    rw [← label_line hlabel, varyText, ← List.append_assoc]
    rfl
  rw [corsText, corsLines, joinLines_append, joinLines_ite, ← hvary]
  by_cases horigin : x.origin = []
  · rw [if_pos horigin, if_pos horigin, joinLines_nil]
  · rw [if_neg horigin, if_neg horigin, joinLines_append, ← originText_lines, joinLines_ite,
      ← preflightText_lines]

theorem headersText_lines (r : Response) (status : Int) : headersText r status
    = joinLines CR LF ((r.headers.filter fun h => !isDropped status h).map
        fun h => fieldLine h.name h.value) := by
  have hline : ∀ h : ResponseHeader, headerLine h = fieldLine h.name h.value ++ [CR, LF] := by
    intro h
    have hcolon : lit ": " = [COLON, SP] := rfl
    have hcrlf : lit "\r\n" = [CR, LF] := rfl
    rw [headerLine, hcolon, hcrlf, fieldLine]
    simp only [List.append_assoc, List.cons_append, List.nil_append]
  rw [headersText, joinLines, List.flatMap_map]
  exact congrArg (List.flatMap · _) (funext hline)

/-- **The head that is printed is its lines.** -/
theorem headText_lines (x : Exchange) (r : Response) (status : Int) (contentType : Bytes)
    (blen : Nat) (keepAlive : Bool) : headText x r status contentType blen keepAlive
      = joinLines CR LF (headLines x r status contentType blen keepAlive) := by
  have hstatus : statusText status contentType keepAlive = joinLines CR LF
      ((lit "HTTP/1.1 " ++ printInt status ++ lit " " ++ statusReason status)
        :: [fieldLine (lit "Content-Type") contentType,
          fieldLine (lit "X-Content-Type-Options") (lit "nosniff"),
          fieldLine (lit "Referrer-Policy") (lit "no-referrer"),
          fieldLine (lit "Connection") (if keepAlive then lit "keep-alive" else lit "close")]) := by
    have htype : lit "Content-Type: " = lit "Content-Type" ++ [COLON, SP] := rfl
    have hsniff : lit "X-Content-Type-Options: nosniff\r\n"
        = joinLines CR LF [fieldLine (lit "X-Content-Type-Options") (lit "nosniff")] := rfl
    have hreferrer : lit "Referrer-Policy: no-referrer\r\n"
        = joinLines CR LF [fieldLine (lit "Referrer-Policy") (lit "no-referrer")] := rfl
    have hconnection : lit "Connection: " = lit "Connection" ++ [COLON, SP] := rfl
    have hcrlf : lit "\r\n" = [CR, LF] := rfl
    rw [statusText, hsniff, hreferrer]
    simp only [htype, hconnection, hcrlf, joinLines_cons, joinLines_nil, fieldLine, List.append_assoc,
      List.cons_append, List.nil_append]
  have hlength : lengthText blen = joinLines CR LF [fieldLine (lit "Content-Length") (print blen)] := by
    have hlabel : lit "Content-Length: " = lit "Content-Length" ++ [COLON, SP] := rfl
    rw [← label_line hlabel, lengthText]
  have hallow : allowText x = joinLines CR LF [fieldLine (lit "Allow") x.allow] := by
    have hlabel : lit "Allow: " = lit "Allow" ++ [COLON, SP] := rfl
    rw [← label_line hlabel, allowText]
  rw [headText, headLines, plainLines, hstatus, corsText_lines, headersText_lines, hlength, hallow]
  simp only [← joinLines_ite, ← joinLines_append, List.cons_append, List.append_assoc,
    List.nil_append]

/-! ## What is sent is what is printed -/

theorem headerAppend_some {header text out : Bytes} (h : headerAppend header text = some out) :
    out = header ++ text := by
  rw [headerAppend] at h
  split at h
  · cases h
  · split at h
    · cases h
    · exact (Option.some.inj h).symm

theorem headerAppendIf_some {c : Prop} [Decidable c] {header text out : Bytes}
    (h : headerAppendIf c header text = some out) : out = header ++ if c then text else [] := by
  rw [headerAppendIf] at h
  split at h
  · rename_i hc
    rw [if_pos hc, headerAppend_some h]
  · rename_i hc
    rw [if_neg hc, List.append_nil, Option.some.inj h]

theorem writeCorsHeaders_some {x : Exchange} {header out : Bytes} {status : Int}
    (h : writeCorsHeaders x header status = some out) : out = header ++ corsText x status := by
  rw [writeCorsHeaders] at h
  obtain ⟨h1, hvary, h⟩ := Option.bind_eq_some_iff.mp h
  rw [corsText, ← List.append_assoc, ← headerAppendIf_some hvary]
  split at h
  · rename_i horigin
    rw [if_pos horigin, List.append_nil, Option.some.inj h]
  · rename_i horigin
    obtain ⟨h2, hline, h⟩ := Option.bind_eq_some_iff.mp h
    rw [if_neg horigin, ← List.append_assoc, ← headerAppend_some hline, ← headerAppendIf_some h]

theorem sendBytes_some {x : Exchange} {r : Response} {status : Int} {contentType body : Bytes}
    {blen : Nat} {keepAlive : Bool} {head out : Bytes}
    (h : sendBytes x r status contentType body blen keepAlive = some (head, out)) :
    head = headText x r status contentType blen keepAlive ++ lit "\r\n" := by
  rw [sendBytes] at h
  obtain ⟨h1, hstatus, h⟩ := Option.bind_eq_some_iff.mp h
  obtain ⟨h2, hlength, h⟩ := Option.bind_eq_some_iff.mp h
  obtain ⟨lines, hlines, h⟩ := Option.bind_eq_some_iff.mp h
  obtain ⟨h3, hallow, h⟩ := Option.bind_eq_some_iff.mp h
  obtain ⟨h4, hcors, h⟩ := Option.bind_eq_some_iff.mp h
  split at h
  · cases h
  · rw [← (Prod.mk.inj (Option.some.inj h)).1, writeCorsHeaders_some hcors,
      headerAppendIf_some hallow, ResponseMap.responseWrite_some hlines,
      headerAppendIf_some hlength, headerAppend_some hstatus, List.nil_append, headText]

/-! ## Nothing that is printed ends a line -/

/-- What the server copies into a head. -/
structure Safe (x : Exchange) : Prop where
  allow : Clean x.allow
  origin : Clean x.origin
  requestedHeaders : Clean x.requestedHeaders

theorem printInt_clean (n : Int) : Clean (printInt n) := by
  intro b hb
  rw [printInt, List.mem_append] at hb
  rcases hb with hb | hb
  · split at hb
    · rw [List.mem_singleton] at hb
      rw [hb]
      decide
    · cases hb
  · obtain ⟨hlow, -⟩ := print_digits _ b hb
    refine ⟨?_, ?_⟩
    all_goals
      rintro rfl
      exact absurd hlow (by decide)

theorem print_clean (n : Nat) : Clean (print n) := by
  have h := printInt_clean n
  rwa [printInt, if_neg (Int.not_lt.mpr (Int.natCast_nonneg n)), List.nil_append,
    Int.natAbs_natCast] at h

theorem statusReason_clean (status : Int) : Clean (statusReason status) := by
  have hite : ∀ {c : Prop} [Decidable c] {s t : Bytes}, Clean s → Clean t →
      Clean (if c then s else t) := by
    intro c _ s t hs ht
    split
    · exact hs
    · exact ht
  rw [statusReason]
  iterate 24 refine hite (clean_text (by decide)) ?_
  exact clean_text (by decide)

/-- The headers of a handler are ones that `response_header` lets through. -/
def CleanResponse (r : Response) : Prop := ∀ h ∈ r.headers, ResponseMap.Clean h

theorem cleanResponse_calls (calls : List Call) : CleanResponse (afterCalls calls) :=
  fun _ hh => (ResponseMap.header_spec hh).1

/-- What one line of a response may be, `x` being what the server knows of the
    request. -/
structure LineSound (x : Exchange) (line : Bytes) : Prop where
  clean : Clean line
  access : ACCESS <+: fieldName line → x.origin ≠ []
  origin : fieldName line = lit "access-control-allow-origin" →
    fieldValue line = trim isOws x.origin

/-- A field that grants nothing. -/
theorem sound_field {x : Exchange} {name value : Bytes}
    (hname : (name.all fun b => b != CR && b != LF) = true) (hcolon : COLON ∉ name)
    (haccess : ACCESS.isPrefixOf (name.map toLower) = false) (hvalue : Clean value) :
    LineSound x (fieldLine name value) := by
  have hread := (fieldLine_read _ hcolon value).1
  have hno : ¬ ACCESS <+: fieldName (fieldLine name value) := by
    rw [hread, ← List.isPrefixOf_iff_prefix, haccess]
    exact Bool.false_ne_true
  have horigin : ACCESS <+: lit "access-control-allow-origin" := by decide
  exact ⟨fieldLine_clean (clean_text hname) hvalue, fun h => absurd h hno,
    fun h => absurd (h ▸ horigin) hno⟩

/-- A header that a handler set. -/
theorem sound_header {x : Exchange} {h : ResponseHeader} (hc : ResponseMap.Clean h) :
    LineSound x (fieldLine h.name h.value) := by
  have hline := hc.harmless.line
  obtain ⟨_, htoken⟩ := Bool.and_eq_true_iff.mp hc.token
  have hcolon : COLON ∉ h.name := fun hmem =>
    (HttpGrammar.isTokenChar_not (ResponseMap.tokenChar_token
      (List.all_eq_true.mp htoken COLON hmem))).2.2 rfl
  have hname : (h.name.all fun b => b != CR && b != LF) = true := by
    refine List.all_eq_true.mpr fun b hb => ?_
    have hchar := hline b (List.mem_append_left _ hb)
    rw [Bool.and_eq_true, bne_iff_ne, bne_iff_ne]
    exact ⟨hchar.1, hchar.2.1⟩
  have haccess : ACCESS.isPrefixOf (h.name.map toLower) = false := by
    rw [← Bool.not_eq_true, List.isPrefixOf_iff_prefix]
    have hstarts : lit "access-control-" <+: ACCESS := by decide
    exact fun hpre => hc.harmless.crossOrigin (hstarts.trans hpre)
  refine sound_field hname hcolon haccess fun b hb => ?_
  have hchar := hline b (List.mem_append_right _ hb)
  exact ⟨hchar.1, hchar.2.1⟩

/-- A field that grants access, where an origin was let through. -/
theorem sound_grant {x : Exchange} {name value : Bytes} (hx : x.origin ≠ [])
    (hname : (name.all fun b => b != CR && b != LF) = true) (hcolon : COLON ∉ name)
    (horigin : name.map toLower ≠ lit "access-control-allow-origin") (hvalue : Clean value) :
    LineSound x (fieldLine name value) := by
  refine ⟨fieldLine_clean (clean_text hname) hvalue, fun _ => hx, fun h => ?_⟩
  rw [(fieldLine_read _ hcolon value).1] at h
  exact absurd h horigin

theorem sound_status (x : Exchange) (status : Int) :
    LineSound x (lit "HTTP/1.1 " ++ printInt status ++ lit " " ++ statusReason status) := by
  have hno : ¬ ACCESS <+: fieldName (lit "HTTP/1.1 " ++ printInt status ++ lit " "
      ++ statusReason status) := by
    have hstart : lit "HTTP/1.1 " = 0x48 :: lit "TTP/1.1 " := rfl
    have haccess : ACCESS = 0x61 :: lit "ccess-control-allow-" := rfl
    rw [hstart, List.cons_append, List.cons_append, List.cons_append, fieldName,
      List.takeWhile_cons_of_pos (by decide), List.map_cons, haccess, List.cons_prefix_cons]
    exact fun h => absurd h.1 (by decide)
  have horigin : ACCESS <+: lit "access-control-allow-origin" := by decide
  refine ⟨?_, fun h => absurd h hno, fun h => absurd (h ▸ horigin) hno⟩
  exact ((clean_text (by decide)).append (printInt_clean status)).append (clean_text (by decide))
    |>.append (statusReason_clean status)

section Sent

variable {x : Exchange} {r : Response} {status : Int} {contentType : Bytes}

theorem sound_plain (hx : Safe x) (hr : CleanResponse r) (htype : Clean contentType) (blen : Nat)
    (keepAlive : Bool) : ∀ line ∈ plainLines x r status contentType blen keepAlive,
      LineSound x line := by
  intro line hline
  rw [plainLines] at hline
  simp only [List.mem_append, List.mem_cons, List.not_mem_nil, or_false] at hline
  rcases hline with (((rfl | rfl | rfl | rfl) | hline) | hline) | hline
  · exact sound_field (by decide) (by decide) (by decide) htype
  · exact sound_field (by decide) (by decide) (by decide) (clean_text (by decide))
  · exact sound_field (by decide) (by decide) (by decide) (clean_text (by decide))
  · refine sound_field (by decide) (by decide) (by decide) ?_
    cases keepAlive with
    | true => exact clean_text (by decide)
    | false => exact clean_text (by decide)
  · split at hline
    · rw [List.mem_singleton.mp hline]
      exact sound_field (by decide) (by decide) (by decide) (print_clean blen)
    · exact nomatch hline
  · obtain ⟨h, hh, rfl⟩ := List.mem_map.mp hline
    exact sound_header (hr h (List.mem_filter.mp hh).1)
  · split at hline
    · rw [List.mem_singleton.mp hline]
      exact sound_field (by decide) (by decide) (by decide) hx.allow
    · exact nomatch hline

theorem sound_cors (hx : Safe x) : ∀ line ∈ corsLines x status, LineSound x line := by
  intro line hline
  rw [corsLines, List.mem_append] at hline
  rcases hline with hline | hline
  · split at hline
    · rw [List.mem_singleton.mp hline]
      refine sound_field (by decide) (by decide) (by decide) ?_
      cases x.preflight with
      | true => exact clean_text (by decide)
      | false => exact clean_text (by decide)
    · exact nomatch hline
  · split at hline
    · exact nomatch hline
    rename_i horigin
    simp only [List.mem_append, List.mem_cons, List.not_mem_nil, or_false] at hline
    rcases hline with ((rfl | rfl) | hline) | hline
    · have hread := fieldLine_read (lit "Access-Control-Allow-Origin") (by decide) x.origin
      exact ⟨fieldLine_clean (clean_text (by decide)) hx.origin, fun _ => horigin, fun _ => hread.2⟩
    · exact sound_field (by decide) (by decide) (by decide) (clean_text (by decide))
    · split at hline
      · rw [List.mem_singleton.mp hline]
        exact sound_grant horigin (by decide) (by decide) (by decide) (clean_text (by decide))
      · exact nomatch hline
    · split at hline
      · rcases List.mem_cons.mp hline with rfl | hline
        · exact sound_grant horigin (by decide) (by decide) (by decide) hx.allow
        · split at hline
          · rw [List.mem_singleton.mp hline]
            exact sound_grant horigin (by decide) (by decide) (by decide) hx.requestedHeaders
          · exact nomatch hline
      · exact nomatch hline

/-- What `send_bytes` hands over starts with a head of sound lines. -/
theorem sendBytes_lines (hx : Safe x) (hr : CleanResponse r) (htype : Clean contentType)
    {body head out : Bytes} {blen : Nat} {keepAlive : Bool}
    (h : sendBytes x r status contentType body blen keepAlive = some (head, out)) :
    IsHead status head (headLines x r status contentType blen keepAlive)
      ∧ ∀ line ∈ headLines x r status contentType blen keepAlive, LineSound x line := by
  have hall : ∀ line ∈ headLines x r status contentType blen keepAlive, LineSound x line := by
    intro line hline
    rw [headLines, List.cons_append, List.mem_cons, List.mem_append] at hline
    rcases hline with rfl | hline | hline
    · exact sound_status x status
    · exact sound_plain hx hr htype blen keepAlive line hline
    · exact sound_cors hx line hline
  refine ⟨⟨?_, rfl, fun line hline => (hall line hline).clean⟩, hall⟩
  rw [sendBytes_some h, headText_lines]
  rfl

/-- **A response that is sent has a head of sound lines.** -/
theorem sendResponse_lines (hx : Safe x) (hr : CleanResponse r) (f : Failure)
    (htype : Clean contentType) {body head out : Bytes} {keepAlive : Bool}
    (h : sendResponse x r f status contentType body keepAlive = some (head, out)) :
    ∃ type blen, IsHead status head (headLines x r status type blen keepAlive)
      ∧ ∀ line ∈ headLines x r status type blen keepAlive, LineSound x line := by
  rw [sendResponse] at h
  split at h
  · split at h
    · cases h
    · exact ⟨_, _, sendBytes_lines hx hr (clean_text (by decide)) h⟩
  · exact ⟨_, _, sendBytes_lines hx hr htype h⟩

/-- An origin that was let through is named. -/
theorem origin_named (hx : x.origin ≠ []) (r : Response) (status : Int) (contentType : Bytes)
    (blen : Nat) (keepAlive : Bool) :
    fieldLine (lit "Access-Control-Allow-Origin") x.origin
      ∈ headLines x r status contentType blen keepAlive := by
  rw [headLines, corsLines, if_neg hx]
  simp only [List.mem_append, List.mem_cons, true_or, or_true]

end Sent

end ResponseLines
