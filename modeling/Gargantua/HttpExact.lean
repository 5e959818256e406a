import Gargantua.HttpAccept

/-! # `http_parse_request` and its message grammar

    The parser looks for the first `CRLF CRLF` and then parses from the start
    of the buffer again, with an end pointer beyond the head.  Both searches
    meet at the same byte: no part of a well-formed line holds a `CR`, so the
    first `CRLF CRLF` of a buffer that starts with a head ends that head
    (`headerEnd_head`).

    With that, the parser accepts exactly the messages of the grammar over its
    own token characters (`httpParseRequest_ok_iff`), and its two other answers
    are read off the buffer.  The token characters are RFC 9110's `tchar` and
    NUL, so the requests accepted outside the RFC grammar are the ones with a
    NUL in the method or in a header name. -/

namespace HttpExact

open CString Scan HttpParse HttpGrammar HttpAccept

/-! ## The first empty line -/

/-- Bytes without `CR` are passed over. -/
theorem headerEnd_append {s : Bytes} (hs : CR ∉ s) (t : Bytes) :
    headerEnd (s ++ t) = (headerEnd t).map (· + s.length) := by
  induction s with
  | nil => simp
  | cons c s ih =>
      have hc : c ≠ CR := fun h => hs (h ▸ List.mem_cons_self)
      rw [List.cons_append, headerEnd, if_neg fun h => hc h.1,
        ih fun h => hs (List.mem_cons_of_mem c h), Option.map_map]
      rfl

/-- A line end that no empty line follows is passed over. -/
theorem headerEnd_crlf {t : Bytes} (ht : t.head? ≠ some CR) :
    headerEnd (CRLF ++ t) = (headerEnd t).map (· + 2) := by
  have hcond : ¬ (CR = CR ∧ (LF :: t).take 3 = [LF, CR, LF]) := by
    rintro ⟨-, h⟩
    cases t with
    | nil => exact nomatch h
    | cons c t =>
        obtain ⟨-, h⟩ := List.cons.inj h
        exact ht (congrArg some (List.cons.inj h).1)
  show headerEnd (CR :: LF :: t) = _
  rw [headerEnd, if_neg hcond, headerEnd, if_neg fun h => absurd h.1 (by decide),
    Option.map_map]
  rfl

/-- The first `CRLF CRLF` behind a line end, when nonempty lines without `CR`
    come in between. -/
theorem headerEnd_lines (rest : Bytes) :
    ∀ {ls : List Bytes}, (∀ l ∈ ls, l ≠ [] ∧ CR ∉ l) →
      headerEnd (CRLF ++ (ls.flatMap (· ++ CRLF) ++ (CRLF ++ rest)))
        = some ((ls.flatMap (· ++ CRLF)).length + 4) := by
  intro ls
  induction ls with
  | nil => intro _; rfl
  | cons l ls ih =>
      intro h
      obtain ⟨⟨hne, hcr⟩, hls⟩ := List.forall_mem_cons.mp h
      have hhead : (l ++ (CRLF ++ (ls.flatMap (· ++ CRLF) ++ (CRLF ++ rest)))).head?
          ≠ some CR := by
        cases l with
        | nil => exact absurd rfl hne
        | cons c l =>
            intro hc
            exact hcr (Option.some.inj hc ▸ List.mem_cons_self)
      rw [List.flatMap_cons, List.append_assoc, List.append_assoc,
        headerEnd_crlf hhead, headerEnd_append hcr, ih hls]
      simp only [Option.map_some, List.length_append, List.length_cons, List.length_nil]
      congr 1
      omega

/-- An empty line is found inside the buffer. -/
theorem headerEnd_bounds {p : Bytes} :
    ∀ {n : Nat}, headerEnd p = some n → 4 ≤ n ∧ n ≤ p.length := by
  induction p with
  | nil => intro n h; exact nomatch h
  | cons c s ih =>
      intro n h
      rw [headerEnd] at h
      by_cases hc : c = CR ∧ s.take 3 = [LF, CR, LF]
      · rw [if_pos hc] at h
        obtain rfl := Option.some.inj h
        have hlen := congrArg List.length hc.2
        rw [List.length_take] at hlen
        have h3 : min 3 s.length = 3 := hlen
        rw [List.length_cons]
        omega
      · rw [if_neg hc] at h
        obtain ⟨m, hm, rfl⟩ := Option.map_eq_some_iff.mp h
        have := ih hm
        rw [List.length_cons]
        omega

/-- Whether an empty line lies within the first bytes of a buffer depends on
    those bytes alone. -/
theorem headerEnd_append_iff {p : Bytes} (t : Bytes) :
    ∀ {n : Nat}, headerEnd p = some n ↔ headerEnd (p ++ t) = some n ∧ n ≤ p.length := by
  induction p with
  | nil =>
      intro n
      constructor
      · intro h
        exact nomatch h
      · rintro ⟨h, hn⟩
        have hpos := (headerEnd_bounds h).1
        rw [List.length_nil] at hn
        omega
  | cons c s ih =>
      intro n
      rw [List.cons_append, headerEnd, headerEnd, List.length_cons]
      -- the window of the first step is inside `s` as soon as `s` has 3 bytes
      have hwin : ∀ m, 4 ≤ m → m ≤ s.length + 1 → (s ++ t).take 3 = s.take 3 :=
        fun m h4 hm => List.take_append_of_le_length (by omega)
      by_cases hc : c = CR ∧ s.take 3 = [LF, CR, LF]
      · have h3 : min 3 s.length = 3 := by
          rw [← List.length_take, hc.2]
          rfl
        have hc' : c = CR ∧ (s ++ t).take 3 = [LF, CR, LF] :=
          ⟨hc.1, by rw [hwin 4 (by omega) (by omega), hc.2]⟩
        rw [if_pos hc, if_pos hc', Option.some.injEq]
        omega
      · rw [if_neg hc]
        by_cases hc' : c = CR ∧ (s ++ t).take 3 = [LF, CR, LF]
        · rw [if_pos hc']
          constructor
          · intro h
            obtain ⟨m, hm, rfl⟩ := Option.map_eq_some_iff.mp h
            have hb := headerEnd_bounds hm
            exact absurd ⟨hc'.1, by rw [← hwin 4 (by omega) (by omega), hc'.2]⟩ hc
          · rintro ⟨h, hn⟩
            obtain rfl := Option.some.inj h
            exact absurd ⟨hc'.1, by rw [← hwin 4 (by omega) hn, hc'.2]⟩ hc
        · rw [if_neg hc', Option.map_eq_some_iff, Option.map_eq_some_iff]
          constructor
          · rintro ⟨m, hm, rfl⟩
            obtain ⟨h1, h2⟩ := ih.mp hm
            exact ⟨⟨m, h1, rfl⟩, by omega⟩
          · rintro ⟨⟨m, hm, rfl⟩, hn⟩
            exact ⟨m, ih.mpr ⟨hm, by omega⟩, rfl⟩

/-! ## The head of a message -/

/-- The bytes of a header line in front of its line end. -/
def Field.content (f : Field) : Bytes :=
  f.name ++ COLON :: (f.before ++ (f.value ++ f.after))

theorem Field.bytes_eq (f : Field) : f.bytes = content f ++ CRLF := by
  simp only [Field.bytes, content, List.append_assoc, List.cons_append]

/-- No byte of a well-formed header line is a `CR`. -/
theorem Field.content_no_cr {f : Field} (hf : f.WF isTokenChar) :
    content f ≠ [] ∧ CR ∉ content f := by
  constructor
  · rw [content]
    simp
  · intro h
    rcases List.mem_append.mp h with h | h
    · exact (isTokenChar_not (hf.name_tok _ h)).1 rfl
    · rcases List.mem_cons.mp h with h | h
      · exact absurd h (by decide)
      · rcases List.mem_append.mp h with h | h
        · exact absurd (hf.before_ows _ h) (by decide)
        · rcases List.mem_append.mp h with h | h
          · exact absurd (valueChar_not_stop (hf.value_char _ h)) (by decide)
          · exact absurd (hf.after_ows _ h) (by decide)

/-- The bytes of a request line in front of its line end. -/
def Head.content (H : Head) : Bytes :=
  H.method ++ SP :: (H.target ++ SP :: (lit "HTTP/1." ++ [0x30 + H.minor.toUInt8]))

theorem Head.content_no_cr {H : Head} (hH : H.WF isTokenChar) : CR ∉ content H := by
  intro h
  rcases List.mem_append.mp h with h | h
  · exact (isTokenChar_not (hH.method_tok _ h)).1 rfl
  · rcases List.mem_cons.mp h with h | h
    · exact absurd h (by decide)
    · rcases List.mem_append.mp h with h | h
      · exact (targetChar_not (hH.target_char _ h)).1 rfl
      · rcases hH.version with hv | hv <;> rw [hv] at h <;> exact absurd h (by decide)

/-- **The search for the head's end stops where the head's parser stops.** -/
theorem headerEnd_head {H : Head} (hH : H.WF isTokenChar) (rest : Bytes) :
    headerEnd (H.bytes ++ rest) = some H.bytes.length := by
  have hbytes : ∀ r, H.bytes ++ r = Head.content H ++
      (CRLF ++ ((H.fields.map Field.content).flatMap (· ++ CRLF) ++ (CRLF ++ r))) := by
    intro r
    have hf : H.fields.flatMap Field.bytes
        = (H.fields.map Field.content).flatMap (· ++ CRLF) := by
      rw [List.flatMap_map]
      exact List.flatMap_congr fun f _ => Field.bytes_eq f
    rw [← hf]
    simp only [Head.bytes, Head.line, Head.content, List.append_assoc, List.cons_append,
      List.nil_append]
  have hls : ∀ l ∈ H.fields.map Field.content, l ≠ [] ∧ CR ∉ l := by
    intro l hl
    obtain ⟨f, hf, rfl⟩ := List.mem_map.mp hl
    exact Field.content_no_cr (hH.fields_wf f hf)
  have hlen := congrArg List.length (hbytes [])
  simp only [List.append_nil, List.length_append] at hlen
  rw [hbytes, headerEnd_append (Head.content_no_cr hH), headerEnd_lines rest hls, hlen]
  simp only [Option.map_some, List.length_cons, List.length_nil]
  congr 1
  omega

/-! ## The three answers -/

/-- The declared length of a head is `-1` or within `LONG_MAX`. -/
theorem declaredLength_le {minor : Nat} {hs : List HttpHeader} (h : HeadersOk minor hs) :
    (declaredLength hs).toNat ≤ LONG_MAX := by
  unfold declaredLength
  cases hn : named .contentLength hs with
  | nil => exact Nat.zero_le _
  | cons f fs =>
      have hf := h.lengthValid f (by rw [hn]; exact List.mem_cons_self)
      exact hf.2.2

/-- What `http_parse_request` does with a buffer that starts with a head. -/
theorem httpParseRequest_head {H : Head} (hH : H.WF isTokenChar) (rest : Bytes) :
    httpParseRequest (H.bytes ++ rest) =
      if H.bytes.length > HTTP_MAX_HEADER_BYTES then .error
      else
        let bodyLen := (declaredLength H.headers).toNat
        let req := { H.request with headerLen := H.bytes.length,
                                    body := rest.take bodyLen, bodyLen := bodyLen }
        if bodyLen > rest.length then .needMore req
        else .ok { req with messageLen := H.bytes.length + bodyLen } := by
  have hne : H.bytes ++ rest ≠ [] := by
    rw [Head.bytes, Head.line]
    simp
  have hmax : ¬ (declaredLength H.headers).toNat > SIZE_MAX := by
    have h1 := declaredLength_le hH.headers_ok
    have h2 : LONG_MAX ≤ SIZE_MAX := by decide
    omega
  have hlen : (H.bytes ++ rest).length - rest.length = H.bytes.length := by
    rw [List.length_append]
    omega
  rw [httpParseRequest, if_neg hne, headerEnd_head hH rest]
  show (if H.bytes.length > HTTP_MAX_HEADER_BYTES then _ else _) = _
  by_cases hbig : H.bytes.length > HTTP_MAX_HEADER_BYTES
  · rw [if_pos hbig, if_pos hbig]
  · rw [if_neg hbig, if_neg hbig, parseHead_iff.mpr ⟨H, hH, rfl, rfl⟩]
    show (if (declaredLength H.headers).toNat > SIZE_MAX then _ else _) = _
    rw [if_neg hmax, hlen]
    rfl

/-- A buffer that no head starts is refused once it has an empty line. -/
theorem httpParseRequest_no_head {buf : Bytes} (h : parseHead buf = none) :
    httpParseRequest buf =
      if headerEnd buf = none ∧ buf.length ≤ HTTP_MAX_HEADER_BYTES then .needMore {}
      else .error := by
  rw [httpParseRequest]
  by_cases hb : buf = []
  · rw [if_pos hb, hb]
    rfl
  · rw [if_neg hb]
    cases he : headerEnd buf with
    | none =>
        show (if buf.length > HTTP_MAX_HEADER_BYTES then _ else _) = _
        by_cases hl : buf.length > HTTP_MAX_HEADER_BYTES
        · rw [if_pos hl, if_neg fun hc => by omega]
        · rw [if_neg hl, if_pos ⟨rfl, by omega⟩]
    | some n =>
        have hno : ¬ (some n = none ∧ buf.length ≤ HTTP_MAX_HEADER_BYTES) :=
          fun hc => nomatch hc.1
        rw [h, if_neg hno]
        show (if n > HTTP_MAX_HEADER_BYTES then HttpParseResult.error else .error) = _
        rw [ite_self]

/-- A buffer starts with a head, or the head's parser refuses it. -/
theorem parseHead_cases (buf : Bytes) :
    (∃ (H : Head) (rest : Bytes), H.WF isTokenChar ∧ buf = H.bytes ++ rest)
      ∨ parseHead buf = none := by
  cases h : parseHead buf with
  | none => exact Or.inr rfl
  | some r =>
      obtain ⟨rest, req⟩ := r
      obtain ⟨H, hH, hbuf, -⟩ := parseHead_iff.mp h
      exact Or.inl ⟨H, rest, hH, hbuf⟩

/-- **`http_parse_request` accepts its grammar**: the buffer starts with a
    message, and the request holds exactly its parts. -/
theorem httpParseRequest_ok_iff {buf : Bytes} {req : HttpRequest} :
    httpParseRequest buf = .ok req ↔
      ∃ m : Message, m.WF isTokenChar ∧ (∃ tail, buf = m.bytes ++ tail)
        ∧ req = m.request := by
  constructor
  · intro h
    rcases parseHead_cases buf with ⟨H, rest, hH, rfl⟩ | hnone
    · rw [httpParseRequest_head hH] at h
      by_cases hbig : H.bytes.length > HTTP_MAX_HEADER_BYTES
      · rw [if_pos hbig] at h
        exact nomatch h
      · rw [if_neg hbig] at h
        by_cases hshort : (declaredLength H.headers).toNat > rest.length
        · have h' := (if_pos hshort).symm.trans h
          exact nomatch h'
        · have h' := (if_neg hshort).symm.trans h
          have hbody : (rest.take (declaredLength H.headers).toNat).length
              = (declaredLength H.headers).toNat := by
            rw [List.length_take]
            omega
          have hhead : H.bytes.length ≤ 32768 := Nat.le_of_not_gt hbig
          refine ⟨⟨H, rest.take (declaredLength H.headers).toNat⟩,
            ⟨hH, hhead, ?_⟩, ⟨rest.drop (declaredLength H.headers).toNat, ?_⟩, ?_⟩
          · show ((rest.take (declaredLength H.headers).toNat).length : Int)
              = max (declaredLength H.headers) 0
            rw [hbody]
            omega
          · rw [Message.bytes, List.append_assoc, List.take_append_drop]
          · rw [← HttpParseResult.ok.inj h']
            simp only [Message.request, Message.bytes, List.length_append, hbody]
    · rw [httpParseRequest_no_head hnone] at h
      split at h <;> exact nomatch h
  · rintro ⟨m, hm, ⟨tail, rfl⟩, rfl⟩
    have hbody : (declaredLength m.head.headers).toNat = m.body.length := by
      have := hm.body_len
      omega
    have hbig : ¬ m.head.bytes.length > HTTP_MAX_HEADER_BYTES :=
      Nat.not_lt.mpr hm.head_len
    have hshort : ¬ m.body.length > (m.body ++ tail).length := by
      rw [List.length_append]
      omega
    rw [Message.bytes, List.append_assoc, httpParseRequest_head hm.head_wf, if_neg hbig,
      hbody]
    refine (if_neg hshort).trans ?_
    rw [List.take_left, Message.request, Message.bytes, List.length_append]

/-- A refused buffer stays refused whatever arrives behind it. -/
theorem httpParseRequest_error_append {p : Bytes} (t : Bytes)
    (h : httpParseRequest p = .error) : httpParseRequest (p ++ t) = .error := by
  rcases parseHead_cases p with ⟨H, rest, hH, rfl⟩ | hnone
  · -- the head itself is too long: a complete head with a body is never refused
    rw [httpParseRequest_head hH] at h
    rw [List.append_assoc, httpParseRequest_head hH]
    by_cases hbig : H.bytes.length > HTTP_MAX_HEADER_BYTES
    · rw [if_pos hbig]
    · rw [if_neg hbig] at h
      by_cases hshort : (declaredLength H.headers).toNat > rest.length
      · have h' := (if_pos hshort).symm.trans h
        exact nomatch h'
      · have h' := (if_neg hshort).symm.trans h
        exact nomatch h'
  · rw [httpParseRequest_no_head hnone] at h
    have hp : ¬ (headerEnd p = none ∧ p.length ≤ HTTP_MAX_HEADER_BYTES) := by
      intro hc
      rw [if_pos hc] at h
      exact nomatch h
    rcases parseHead_cases (p ++ t) with ⟨H, rest, hH, heq⟩ | hnone'
    · have hend : headerEnd (p ++ t) = some H.bytes.length := by
        rw [heq, headerEnd_head hH]
      -- a head inside `p` would have been parsed there
      have hlong : p.length < H.bytes.length := by
        by_contra hle
        obtain ⟨q, hq⟩ : H.bytes <+: p :=
          List.prefix_of_prefix_length_le ⟨rest, heq.symm⟩ ⟨t, rfl⟩ (by omega)
        rw [← hq, parseHead_iff.mpr ⟨H, hH, rfl, rfl⟩] at hnone
        exact nomatch hnone
      have hp0 : headerEnd p = none := by
        cases he : headerEnd p with
        | none => rfl
        | some n =>
            obtain ⟨h1, h2⟩ := (headerEnd_append_iff t).mp he
            rw [hend] at h1
            have := Option.some.inj h1
            omega
      have hbig : H.bytes.length > HTTP_MAX_HEADER_BYTES := by
        by_contra hle
        exact hp ⟨hp0, by omega⟩
      rw [heq, httpParseRequest_head hH, if_pos hbig]
    · rw [httpParseRequest_no_head hnone']
      refine if_neg ?_
      rintro ⟨h1, h2⟩
      rw [List.length_append] at h2
      refine hp ⟨?_, by omega⟩
      cases he : headerEnd p with
      | none => rfl
      | some n =>
          rw [((headerEnd_append_iff t).mp he).1] at h1
          exact nomatch h1

/-! ## Against the grammar of RFC 9110 -/

theorem Field.WF.mono {tok tok' : Byte → Bool} {f : Field} (hf : f.WF tok)
    (h : ∀ c ∈ f.name, tok c = true → tok' c = true) : f.WF tok' :=
  ⟨hf.name_ne, fun c hc => h c hc (hf.name_tok c hc), hf.before_ows, hf.after_ows,
    hf.value_char, hf.value_left, hf.value_right⟩

/-- A message stays well formed over other token characters if the ones it uses
    are among them. -/
theorem Message.WF.mono {tok tok' : Byte → Bool} {m : Message} (hm : m.WF tok)
    (hmethod : ∀ c ∈ m.head.method, tok c = true → tok' c = true)
    (hname : ∀ f ∈ m.head.fields, ∀ c ∈ f.name, tok c = true → tok' c = true) :
    m.WF tok' :=
  ⟨⟨hm.head_wf.method_len, fun c hc => hmethod c hc (hm.head_wf.method_tok c hc),
      hm.head_wf.target_len, hm.head_wf.target_char, hm.head_wf.target_form,
      hm.head_wf.version, hm.head_wf.fields_len,
      fun f hf => Field.WF.mono (hm.head_wf.fields_wf f hf) (hname f hf),
      hm.head_wf.headers_ok⟩,
    hm.head_len, hm.body_len⟩

/-- The method or a header name holds a NUL. -/
def NulInName (m : Message) : Prop :=
  (0 : Byte) ∈ m.head.method ∨ ∃ f ∈ m.head.fields, (0 : Byte) ∈ f.name

/-- `http_parse_request` treats the buffer as the grammar of RFC 9110 says: it
    accepts it exactly when it starts with a message, and the request it fills
    in holds exactly the parts of such a message. -/
def AcceptsExactly (buf : Bytes) : Prop :=
  ((∃ req, httpParseRequest buf = .ok req) ↔
      ∃ m : Message, m.WF tchar ∧ ∃ tail, buf = m.bytes ++ tail)
    ∧ ∀ req, httpParseRequest buf = .ok req →
        ∃ m : Message, m.WF tchar ∧ (∃ tail, buf = m.bytes ++ tail) ∧ req = m.request

/-- Without a NUL in a name, the code's token characters are the RFC's. -/
theorem wf_tchar_of_not_nul {m : Message} (hm : m.WF isTokenChar)
    (hnul : ¬ NulInName m) : m.WF tchar := by
  refine Message.WF.mono hm ?_ ?_
  · intro c hc hct
    rcases (isTokenChar_iff c).mp hct with h | rfl
    · exact h
    · exact absurd (Or.inl hc) hnul
  · intro f hf c hc hct
    rcases (isTokenChar_iff c).mp hct with h | rfl
    · exact h
    · exact absurd (Or.inr ⟨f, hf, hc⟩) hnul

theorem wf_isTokenChar {m : Message} (hm : m.WF tchar) : m.WF isTokenChar :=
  Message.WF.mono hm (fun c _ h => (isTokenChar_iff c).mpr (Or.inl h))
    fun _ _ c _ h => (isTokenChar_iff c).mpr (Or.inl h)

/-- A NUL in a name is visible in the request, where the RFC grammar has none. -/
theorem request_ne_of_nul {m m' : Message} (hnul : NulInName m) (hm' : m'.WF tchar) :
    m.request ≠ m'.request := by
  intro heq
  have hmethod : m.head.method = m'.head.method := congrArg HttpRequest.method heq
  have hheaders : m.head.headers = m'.head.headers := congrArg HttpRequest.headers heq
  rcases hnul with h0 | ⟨f, hf, h0⟩
  · rw [hmethod] at h0
    exact tchar_ne_nul (hm'.head_wf.method_tok 0 h0) rfl
  · have hmem : f.header ∈ m'.head.headers := by
      rw [← hheaders]
      exact List.mem_map_of_mem hf
    obtain ⟨f', hf', hff⟩ := List.mem_map.mp hmem
    have hname : f'.name = f.name := congrArg HttpHeader.name hff
    rw [← hname] at h0
    exact tchar_ne_nul ((hm'.head_wf.fields_wf f' hf').name_tok 0 h0) rfl

/-- **Where the parser is the RFC grammar**: on every buffer but those that
    start with a message that has a NUL in its method or in a header name. -/
theorem acceptsExactly_iff (buf : Bytes) :
    AcceptsExactly buf ↔
      ¬ ∃ m : Message, m.WF isTokenChar ∧ NulInName m ∧ ∃ tail, buf = m.bytes ++ tail := by
  constructor
  · rintro ⟨-, hparts⟩ ⟨m, hm, hnul, htail⟩
    obtain ⟨m', hm', -, heq⟩ :=
      hparts m.request (httpParseRequest_ok_iff.mpr ⟨m, hm, htail, rfl⟩)
    exact request_ne_of_nul hnul hm' heq
  · intro hno
    have hparts : ∀ req, httpParseRequest buf = .ok req →
        ∃ m : Message, m.WF tchar ∧ (∃ tail, buf = m.bytes ++ tail) ∧ req = m.request := by
      intro req hreq
      obtain ⟨m, hm, htail, rfl⟩ := httpParseRequest_ok_iff.mp hreq
      exact ⟨m, wf_tchar_of_not_nul hm fun hnul => hno ⟨m, hm, hnul, htail⟩, htail, rfl⟩
    refine ⟨⟨?_, ?_⟩, hparts⟩
    · rintro ⟨req, hreq⟩
      obtain ⟨m, hm, htail, -⟩ := hparts req hreq
      exact ⟨m, hm, htail⟩
    · rintro ⟨m, hm, htail⟩
      exact ⟨m.request, httpParseRequest_ok_iff.mpr ⟨m, wf_isTokenChar hm, htail, rfl⟩⟩

/-- A request whose method is `G`, NUL, `T` is accepted. -/
theorem not_acceptsExactly_nul_method :
    ¬ AcceptsExactly ([0x47, 0, 0x54] ++ lit " / HTTP/1.0\r\n\r\n") := by
  rintro ⟨-, hparts⟩
  have hok : httpParseRequest ([0x47, 0, 0x54] ++ lit " / HTTP/1.0\r\n\r\n")
      = .ok { method := [0x47, 0, 0x54], path := lit "/", headerLen := 18,
              messageLen := 18 } := by
    decide +kernel
  obtain ⟨m, hm, -, heq⟩ := hparts _ hok
  have hmethod : [0x47, 0, 0x54] = m.head.method := congrArg HttpRequest.method heq
  have h0 : (0 : Byte) ∈ m.head.method := by
    rw [← hmethod]
    decide
  exact tchar_ne_nul (hm.head_wf.method_tok 0 h0) rfl

end HttpExact
