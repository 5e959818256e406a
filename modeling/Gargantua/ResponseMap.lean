import Gargantua.Lib.Upsert
import Gargantua.FetchRequest
import Gargantua.ResponseHeaders

/-! # Response headers are a safe map (`src/http/response.c`, `src/http/http.c`)

    Whatever headers a handler sets, the table they leave is a map: each accepted
    name once, in the order of the first accepted calls, with the last accepted
    value.  The block that `response_write` prints of it is a header block that
    `parse_headers` reads back (`headers_map`), and no name in it is one that the
    server keeps for itself. -/

namespace ResponseMap

open CString HttpParse HttpGrammar HttpAccept ResponseHeaders
open FetchRequest (trimmed trimmed_split trimmed_left mem_trimmed)
open Upsert (Leaves)

/-! ## The table and the calls -/

/-- Names are the same up to case. -/
def nameKey (h : ResponseHeader) : Bytes := h.name.map toLower

/-- What a call sets when it is accepted. -/
def entryOf : Call → Option ResponseHeader
  | .header (some name) (some value) => some ⟨cstr name, cstr value⟩
  | .location (some value) => some ⟨lit "Location", cstr value⟩
  | _ => none

/-- The call returns `0`. -/
def accepts (r : Response) : Call → Bool
  | .header name value => (responseHeader r name value).isSome
  | .location value => (responseLocation r value).isSome
  | .status code => (responseStatus r code).isSome

/-- What the accepted calls set, in their order. -/
def written : Response → List Call → List ResponseHeader
  | _, [] => []
  | r, c :: calls => (if accepts r c then (entryOf c).toList else []) ++ written (c.run r) calls

/-- A header that `response_header` lets through. -/
structure Clean (h : ResponseHeader) : Prop where
  token : responseToken h.name = true
  value : responseValue h.value = true
  free : isReservedHeader h.name = false
  ended : (0 : Byte) ∉ h.name

theorem find_eq (headers : List ResponseHeader) (h : ResponseHeader) :
    (headers.findIdx? fun b => strcasecmpEq b.name h.name)
      = headers.findIdx? fun b => nameKey b = nameKey h :=
  congrArg (headers.findIdx? ·) (funext fun _ => beq_eq_decide _ _)

/-- What one call of `response_header` can do. -/
theorem responseHeader_spec {r r' : Response} {name value : Bytes}
    (h : responseHeader r (some name) (some value) = some r') :
    Clean ⟨cstr name, cstr value⟩
      ∧ r'.headers = Upsert.put nameKey r.headers ⟨cstr name, cstr value⟩ := by
  simp only [responseHeader] at h
  split at h
  · cases h
  rename_i hok
  simp only [Bool.or_eq_true, decide_eq_true_iff, Bool.not_eq_true', not_or,
    Bool.not_eq_false, Bool.not_eq_true] at hok
  refine ⟨⟨hok.1.1.2, hok.1.2, hok.2, cstr_no_nul name⟩, ?_⟩
  rw [find_eq r.headers ⟨cstr name, cstr value⟩] at h
  rw [Upsert.put]
  cases hfind : r.headers.findIdx?
      fun b => decide (nameKey b = nameKey (⟨cstr name, cstr value⟩ : ResponseHeader)) with
  | some index =>
      simp only [hfind] at h ⊢
      exact Option.some.inj h ▸ rfl
  | none =>
      simp only [hfind] at h ⊢
      split at h
      · cases h
      · exact Option.some.inj h ▸ rfl

/-- What one call can do to the table: set what it says, or nothing. -/
theorem call_cases (r : Response) (c : Call) :
    (∃ e, entryOf c = some e ∧ accepts r c = true ∧ Clean e
        ∧ (c.run r).headers = Upsert.put nameKey r.headers e)
      ∨ ((if accepts r c then (entryOf c).toList else []) = []
        ∧ (c.run r).headers = r.headers) := by
  have hset : ∀ name value : Bytes, ∀ r', responseHeader r (some name) (some value) = some r' →
      Clean ⟨cstr name, cstr value⟩
        ∧ r'.headers = Upsert.put nameKey r.headers ⟨cstr name, cstr value⟩ :=
    fun _ _ _ h => responseHeader_spec h
  have hlocation : cstr (lit "Location") = lit "Location" := cstr_eq_self (by decide)
  cases c with
  | header name value =>
      cases h : responseHeader r name value with
      | none => exact .inr ⟨by rw [accepts, h]; rfl, by rw [Call.run, h]; rfl⟩
      | some r' =>
          cases name with
          | none => cases h
          | some name =>
          cases value with
          | none => cases h
          | some value =>
              obtain ⟨hclean, hput⟩ := hset name value r' h
              exact .inl ⟨_, rfl, by rw [accepts, h]; rfl, hclean, by rw [Call.run, h]; exact hput⟩
  | location value =>
      cases h : responseLocation r value with
      | none => exact .inr ⟨by rw [accepts, h]; rfl, by rw [Call.run, h]; rfl⟩
      | some r' =>
          cases value with
          | none => cases h
          | some value =>
              obtain ⟨hclean, hput⟩ := hset (lit "Location") value r' h
              rw [hlocation] at hclean hput
              exact .inl ⟨_, rfl, by rw [accepts, h]; rfl, hclean, by rw [Call.run, h]; exact hput⟩
  | status code =>
      refine .inr ⟨ite_self _, ?_⟩
      rw [Call.run, responseStatus]
      split <;> rfl

/-- A call that is refused leaves the response as it is. -/
theorem refused_unchanged {r : Response} {c : Call} (h : accepts r c = false) : c.run r = r := by
  have hnone : ∀ o : Option Response, o.isSome = false → o.getD r = r := fun o ho => by
    rw [Option.isSome_eq_false_iff, Option.isNone_iff_eq_none] at ho
    rw [ho]
    rfl
  cases c with
  | header name value => exact hnone _ h
  | location value => exact hnone _ h
  | status code => exact hnone _ h

/-- The table after calls is what the accepted ones leave. -/
theorem leaves_run (calls : List Call) : ∀ {r : Response} {ws : List ResponseHeader},
    Leaves nameKey ws r.headers →
      Leaves nameKey (ws ++ written r calls) (calls.foldl Call.run r).headers := by
  induction calls with
  | nil =>
      intro r ws h
      rw [written, List.append_nil]
      exact h
  | cons c calls ih =>
      intro r ws h
      rw [written, ← List.append_assoc]
      refine ih ?_
      rcases call_cases r c with ⟨e, hentry, hacc, _, hput⟩ | ⟨hnone, hsame⟩
      · rw [hacc, hentry, hput]
        exact h.put e
      · rw [hnone, List.append_nil, hsame]
        exact h

theorem leaves_calls (calls : List Call) :
    Leaves nameKey (written (responseReset {}) calls) (afterCalls calls).headers := by
  have h := leaves_run calls (r := responseReset {}) Upsert.leaves_nil
  rwa [List.nil_append] at h

/-- What is set comes from a call, and is clean. -/
theorem written_spec (calls : List Call) : ∀ {r : Response} {e : ResponseHeader},
    e ∈ written r calls → Clean e ∧ ∃ c ∈ calls, entryOf c = some e := by
  induction calls with
  | nil => exact fun he => nomatch he
  | cons c calls ih =>
      intro r e he
      rw [written, List.mem_append] at he
      rcases he with he | he
      · rcases call_cases r c with ⟨e', hentry, hacc, hclean, _⟩ | ⟨hnone, _⟩
        · rw [hacc, hentry] at he
          obtain rfl := List.mem_singleton.mp he
          exact ⟨hclean, c, List.mem_cons_self, hentry⟩
        · rw [hnone] at he
          exact nomatch he
      · obtain ⟨hclean, c', hc', hentry⟩ := ih he
        exact ⟨hclean, c', List.mem_cons_of_mem c hc', hentry⟩

/-- A header of the table was set by a call, and is clean. -/
theorem header_spec {calls : List Call} {h : ResponseHeader} (hh : h ∈ (afterCalls calls).headers) :
    Clean h ∧ ∃ c ∈ calls, entryOf c = some h := by
  obtain ⟨before, after, hws, _⟩ := (leaves_calls calls).last h hh
  exact written_spec calls (hws ▸ List.mem_append_right before List.mem_cons_self)

/-! ## What a caller cannot introduce -/

/-- The headers that say where a message ends and what becomes of its
    connection. -/
def framingNames : List Bytes :=
  [lit "content-length", lit "transfer-encoding", lit "connection", lit "trailer", lit "te",
    lit "upgrade", lit "keep-alive"]

/-- The headers by which a browser is told what a page may do. -/
def securityNames : List Bytes :=
  [lit "x-content-type-options", lit "referrer-policy", lit "content-security-policy",
    lit "strict-transport-security", lit "x-frame-options", lit "x-xss-protection",
    lit "content-security-policy-report-only", lit "permissions-policy",
    lit "cross-origin-resource-policy", lit "cross-origin-opener-policy",
    lit "cross-origin-embedder-policy"]

/-- The reserved names in the case that they are compared in. -/
theorem reserved_names : RESERVED_NAMES.map (List.map toLower)
    = framingNames ++ [lit "content-type", lit "allow", lit "vary"] ++ securityNames
        ++ [lit "proxy-authenticate", lit "proxy-authorization"] := by
  decide +kernel

/-- A header that neither speaks for the server nor ends its line. -/
structure Harmless (h : ResponseHeader) : Prop where
  framing : nameKey h ∉ framingNames
  security : nameKey h ∉ securityNames
  crossOrigin : ¬ lit "access-control-" <+: nameKey h
  line : ∀ b ∈ h.name ++ h.value, b ≠ CR ∧ b ≠ LF ∧ b ≠ 0

theorem strncasecmpEq_prefix {p : Bytes} (hp : (0 : Byte) ∉ p) : ∀ {a : Bytes},
    p.map toLower <+: a.map toLower → strncasecmpEq p.length a p = true := by
  induction p with
  | nil => exact fun _ => rfl
  | cons c p ih =>
      intro a h
      cases a with
      | nil => exact absurd (List.prefix_nil.mp h) (List.cons_ne_nil _ _)
      | cons b a =>
          rw [List.map_cons, List.map_cons, List.cons_prefix_cons] at h
          rw [List.length_cons, strncasecmpEq, List.headD_cons, List.headD_cons, List.tail_cons,
            List.tail_cons, h.1, beq_self_eq_true, Bool.true_and,
            ih (fun h0 => hp (List.mem_cons_of_mem c h0)) h.2, Bool.or_true]

/-- A name in the list of reserved ones is refused, however it is written. -/
theorem not_reserved {h : ResponseHeader} (hfree : isReservedHeader h.name = false) {name : Bytes}
    (hname : name ∈ RESERVED_NAMES.map (List.map toLower)) : nameKey h ≠ name := by
  rw [isReservedHeader, Bool.or_eq_false_iff, List.any_eq_false] at hfree
  obtain ⟨reserved, hmem, rfl⟩ := List.mem_map.mp hname
  exact fun heq => hfree.2 reserved hmem (beq_iff_eq.mpr heq)

theorem tokenChar_token {c : Byte} (h : tokenChar c = true) : isTokenChar c = true := by
  have hpunctuation : ∀ d ∈ lit "!#$%&'*+-.^_|~" ++ [0x60], isTokenChar d = true := by decide
  rw [tokenChar, strchr, Bool.or_eq_true, Bool.or_eq_true, Bool.or_eq_true, Bool.or_eq_true,
    beq_iff_eq, List.contains_iff_mem] at h
  rcases h with ((h | h) | h) | rfl | h
  · rw [isTokenChar, isAlpha, h, Bool.or_true, Bool.or_true, if_pos rfl]
  · rw [isTokenChar, isAlpha, h, Bool.true_or, Bool.or_true, if_pos rfl]
  · rw [isTokenChar, isDigit, h, Bool.true_or, if_pos rfl]
  · rfl
  · exact hpunctuation c h

theorem responseValue_char {value : Bytes} (h : responseValue value = true) {c : Byte}
    (hc : c ∈ value) : isValueChar c = true := by
  have hchar := List.all_eq_true.mp h c hc
  rwa [Bool.or_comm] at hchar

theorem Clean.harmless {h : ResponseHeader} (hc : Clean h) : Harmless h where
  framing := fun hmem => not_reserved hc.free (by
    rw [reserved_names]
    simp only [List.mem_append, hmem, true_or]) rfl
  security := fun hmem => not_reserved hc.free (by
    rw [reserved_names]
    simp only [List.mem_append, hmem, or_true, true_or]) rfl
  crossOrigin := by
    intro hpre
    have hfree := hc.free
    rw [isReservedHeader, Bool.or_eq_false_iff] at hfree
    have hlower : lit "access-control-" = (lit "Access-Control-").map toLower := by decide
    have hhit := strncasecmpEq_prefix (by decide) (hlower ▸ hpre)
    exact absurd (hhit.symm.trans hfree.1) (by decide)
  line := by
    intro b hb
    have hline : ∀ d : Byte, isValueChar d = true → d ≠ CR ∧ d ≠ LF ∧ d ≠ 0 := by
      intro d hd
      refine ⟨?_, ?_, ?_⟩
      all_goals
        rintro rfl
        exact absurd hd (by decide)
    rcases List.mem_append.mp hb with hb | hb
    · obtain ⟨_, hname⟩ := Bool.and_eq_true_iff.mp hc.token
      have hchar := tokenChar_token (List.all_eq_true.mp hname b hb)
      exact ⟨(isTokenChar_not hchar).1, fun h => absurd hchar (h ▸ by decide),
        fun h => hc.ended (h ▸ hb)⟩
    · exact hline b (responseValue_char hc.value hb)

/-! ## The block, read back -/

/-- The headers of the table that go out, as a reader takes them: the blanks
    around a value are not part of it. -/
def shown (r : Response) (status : Int) : List HttpHeader :=
  (r.headers.filter fun h => !isDropped status h).map fun h => ⟨h.name, trimmed h.value⟩

/-- The header line of a header. -/
def fieldOf (h : ResponseHeader) : Field :=
  ⟨h.name, SP :: h.value.takeWhile isOws, trimmed h.value,
    (h.value.dropWhile isOws).drop (trimmed h.value).length⟩

theorem fieldOf_bytes (h : ResponseHeader) : (fieldOf h).bytes = headerLine h := by
  have hfront := List.takeWhile_append_dropWhile (p := isOws) (l := h.value)
  have hcolon : lit ": " = [COLON, SP] := by decide
  have hcrlf : lit "\r\n" = CRLF := by decide
  rw [headerLine, hcolon, hcrlf]
  conv_rhs => rw [← hfront, (trimmed_split h.value).1]
  simp only [fieldOf, Field.bytes, List.append_assoc, List.cons_append, List.nil_append]

theorem Clean.wf {h : ResponseHeader} (hc : Clean h) : (fieldOf h).WF isTokenChar where
  name_ne := by
    obtain ⟨hne, _⟩ := Bool.and_eq_true_iff.mp hc.token
    intro h0
    rw [show h.name = [] from h0] at hne
    exact absurd hne (by decide)
  name_tok := by
    obtain ⟨_, hall⟩ := Bool.and_eq_true_iff.mp hc.token
    exact fun c hmem => tokenChar_token (List.all_eq_true.mp hall c hmem)
  before_ows := List.forall_mem_cons.mpr ⟨rfl, fun c hmem => List.mem_takeWhile_imp hmem⟩
  after_ows := (trimmed_split h.value).2
  value_char := fun c hmem =>
    (isValueChar_iff c).mp (responseValue_char hc.value (mem_trimmed hmem))
  value_left := trimmed_left h.value
  value_right := List.rdropWhile_idempotent isOws _

theorem shown_fields (r : Response) (status : Int) :
    ((r.headers.filter fun h => !isDropped status h).map fieldOf).map Field.header
      = shown r status := by
  rw [List.map_map]
  rfl

/-- The names that the parser counts are the server's own, but for `Host` and
    three that a caller may set once. -/
theorem known_shown {calls : List Call} {status : Int} {k : Known} {h : HttpHeader}
    (hh : h ∈ named k (shown (afterCalls calls) status)) :
    ∃ e ∈ (afterCalls calls).headers, nameKey e = k.name.map toLower := by
  obtain ⟨hmem, hk⟩ := List.mem_filter.mp hh
  obtain ⟨e, he, rfl⟩ := List.mem_map.mp hmem
  exact ⟨e, (List.mem_filter.mp he).1, beq_iff_eq.mp hk⟩

theorem named_shown_length (calls : List Call) (status : Int) (k : Known) :
    (named k (shown (afterCalls calls) status)).length ≤ 1 := by
  rw [named, shown, List.filter_map, List.length_map]
  exact Nat.le_trans (List.filter_sublist.filter _).length_le
    (Upsert.filter_key_length (leaves_calls calls).nodup (k.name.map toLower))

/-- No call names `Host`. -/
def NoHost (calls : List Call) : Prop :=
  ∀ e ∈ calls.filterMap entryOf, nameKey e ≠ (lit "Host").map toLower

theorem headersOk_shown {calls : List Call} (hhost : NoHost calls) (status : Int) :
    HeadersOk 0 (shown (afterCalls calls) status)
      ∧ declaredLength (shown (afterCalls calls) status) = -1 := by
  have hnone : ∀ k : Known, k.name.map toLower ∈ framingNames ∨ k = .host →
      named k (shown (afterCalls calls) status) = [] := by
    intro k hk
    refine List.eq_nil_iff_forall_not_mem.mpr fun h hh => ?_
    obtain ⟨e, he, hkey⟩ := known_shown hh
    obtain ⟨hclean, c, hc, hentry⟩ := header_spec he
    rcases hk with hk | rfl
    · exact hclean.harmless.framing (hkey ▸ hk)
    · exact hhost e (List.mem_filterMap.mpr ⟨c, hc, hentry⟩) hkey
  have hlength := hnone .contentLength (.inl (by decide))
  refine ⟨⟨hnone .transferEncoding (.inl (by decide)), named_shown_length calls status,
    fun h => (by cases h), fun h hh => ?_, fun h hh => ?_⟩, by rw [declaredLength, hlength]⟩
  · rw [hnone .host (.inr rfl)] at hh
    cases hh
  · rw [hlength] at hh
    cases hh

/-- `response_write` writes the lines, or nothing at all. -/
theorem responseWrite_some {r : Response} {cap : Nat} {status : Int} {block : Bytes}
    (h : responseWrite r cap status = some block) : block = headersText r status := by
  rw [responseWrite] at h
  split at h
  · cases h
  · rename_i hcap
    rw [writeLoop_eq r.headers (Nat.pos_of_ne_zero hcap), Bounded.put_some] at h
    split at h
    · exact (Option.some.inj h).symm
    · cases h

/-- **The lines are read back.** -/
theorem block_read {calls : List Call} (hhost : NoHost calls) (status : Int) (rest : Bytes) :
    parseHeaders (headersText (afterCalls calls) status ++ (CRLF ++ rest)) { minorVersion := 0 }
      = some (rest, { minorVersion := 0, headers := shown (afterCalls calls) status }) := by
  obtain ⟨hok, hlength⟩ := headersOk_shown hhost status
  obtain ⟨seen, hcount, hcomplete⟩ := headersOk_iff.mpr ⟨hok, rfl⟩
  have htext : headersText (afterCalls calls) status
      = (((afterCalls calls).headers.filter fun h => !isDropped status h).map fieldOf).flatMap
          Field.bytes := by
    rw [List.flatMap_map, headersText]
    exact congrArg (List.flatMap · _) (funext fun h => (fieldOf_bytes h).symm)
  have hwf : ∀ f ∈ ((afterCalls calls).headers.filter fun h => !isDropped status h).map fieldOf,
      f.WF isTokenChar := by
    intro f hf
    obtain ⟨h, hh, rfl⟩ := List.mem_map.mp hf
    exact (header_spec (List.mem_filter.mp hh).1).1.wf
  have hlen : (((afterCalls calls).headers.filter fun h => !isDropped status h).map fieldOf).length
      ≤ HTTP_MAX_HEADERS := by
    rw [List.length_map]
    exact Nat.le_trans (Nat.le_trans (List.length_filter_le _ _) (sized_calls calls).count)
      (by decide)
  rw [← shown_fields] at hcount
  rw [parseHeaders, htext]
  refine (parseHeadersLoop_complete hlen hwf hcount hcomplete).trans ?_
  rw [shown_fields, hlength]
  rfl

/-- **Response headers are a safe map.**  Whatever the calls, none of which names
    `Host`: the table holds each accepted name once, in the order of the first
    accepted calls, with the last accepted value, and at most
    `RESPONSE_MAX_HEADERS` of them; a refused call changes nothing; no header of
    it is the server's own or ends its line; the block that is printed, at any
    status and followed by an empty line, is read back as the headers of the
    table, without `Location` when it is left out. -/
theorem headers_map (calls : List Call) (hhost : NoHost calls) (status : Int) :
    Leaves nameKey (written (responseReset {}) calls) (afterCalls calls).headers
      ∧ (afterCalls calls).headers.length ≤ RESPONSE_MAX_HEADERS
      ∧ (∀ before c after, calls = before ++ c :: after → accepts (afterCalls before) c = false →
          afterCalls (before ++ [c]) = afterCalls before)
      ∧ (∀ h ∈ (afterCalls calls).headers, Harmless h)
      ∧ (∀ cap, RESPONSE_WIRE_CAP ≤ cap →
          (responseWrite (afterCalls calls) cap status).isSome = true)
      ∧ ∀ cap block rest, responseWrite (afterCalls calls) cap status = some block →
          parseHeaders (block ++ (CRLF ++ rest)) { minorVersion := 0 }
            = some (rest, { minorVersion := 0, headers := shown (afterCalls calls) status }) := by
  have hsized := sized_calls calls
  have hroom := headersText_length hsized status
  refine ⟨leaves_calls calls, hsized.count, fun before c _ _ hrefused => ?_,
    fun h hh => (header_spec hh).1.harmless, fun cap hcap => ?_, fun cap block rest hblock => ?_⟩
  · rw [afterCalls, List.foldl_append]
    exact refused_unchanged hrefused
  · have hwire : RESPONSE_MAX_HEADERS * (RESPONSE_NAME_CAP + RESPONSE_VALUE_CAP + 2) < cap :=
      Nat.lt_of_lt_of_le (by decide) hcap
    rw [responseWrite_eq _ (Nat.lt_of_le_of_lt hroom hwire)]
    rfl
  · rw [responseWrite_some hblock]
    exact block_read hhost status rest

/-- A name set twice, a location, and a name that is the server's own. -/
def someCalls : List Call :=
  [.header (some (lit "X-Note")) (some (lit "one")), .location (some (lit "/notes/1")),
    .header (some (lit "x-note")) (some (lit " two ")), .header (some (lit "Allow")) (some (lit "GET"))]

theorem headers_map_calls :
    NoHost someCalls
      ∧ responseWrite (afterCalls someCalls) 64 404 = some (lit "x-note:  two \r\n")
      ∧ parseHeaders (lit "x-note:  two \r\n" ++ (CRLF ++ [])) { minorVersion := 0 }
          = some ([], { minorVersion := 0, headers := [⟨lit "x-note", lit "two"⟩] }) := by
  have hhost : NoHost someCalls := by
    unfold NoHost
    decide
  have hblock : responseWrite (afterCalls someCalls) 64 404 = some (lit "x-note:  two \r\n") := by
    decide +kernel
  have hshown : shown (afterCalls someCalls) 404 = [⟨lit "x-note", lit "two"⟩] := by
    decide +kernel
  have hread := (headers_map someCalls hhost 404).2.2.2.2.2 64 _ [] hblock
  rw [hshown] at hread
  exact ⟨hhost, hblock, hread⟩

end ResponseMap
