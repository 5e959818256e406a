import Gargantua.HttpFraming

/-! # Reading a request (`src/server/server_http.c`, `src/core/dynbuf.c`)

    `read_request` parses what the buffer holds, and receives more as long as
    the request is not complete.  What it receives depends on how the bytes
    arrive, and on the room in the buffer.

    The verdict on a stream is defined by parsing the stream as a whole.  Every
    turn of the loop either keeps the stream or returns that verdict, except for
    a request whose last bytes lie within `DYNBUF_MIN_CHUNK` of the limit. -/

namespace ServerRead

open CString HttpParse HttpGrammar HttpAccept HttpExact HttpFraming

/-- `SERVER_REQ_MAX`, `SERVER_BODY_MAX` and `SERVER_READ_STEPS`. -/
abbrev SERVER_REQ_MAX : Nat := 8 * 1024 * 1024
abbrev SERVER_BODY_MAX : Nat := 8 * 1024 * 1024
abbrev SERVER_READ_STEPS : Nat := 4096

/-! ## The buffer -/

/-- `DynBuf`: `len` is the length of `data`.  Whether the bytes are mapped or on
    the heap is not seen from outside. -/
structure DynBuf where
  data : Bytes := []
  cap : Nat := 0
  max : Nat
  truncated : Bool := false
  deriving Repr, DecidableEq

/-- The loop of `dynbuf_reserve`; a `size_t` doubles at most 64 times. -/
def growLoop (need max : Nat) : Nat → Nat → Nat
  | 0, newcap => newcap
  | rounds + 1, newcap =>
      if newcap < need then
        if newcap > max / 2 then max else growLoop need max rounds (newcap * 2)
      else newcap

/-- The capacity that `dynbuf_reserve` asks for. -/
def newCapacity (cap need max : Nat) : Nat :=
  let newcap := growLoop need max 64 (if cap ≠ 0 then cap else DYNBUF_MIN_CHUNK)
  if newcap < need then need else newcap

/-- `dynbuf_reserve`, when memory is there or not: the buffer, and whether it has
    the room. -/
def dynbufReserve (b : DynBuf) (need : Nat) (memory : Bool) : DynBuf × Bool :=
  if need > b.max then ({ b with truncated := true }, false)
  else if need ≤ b.cap then (b, true)
  else if memory then ({ b with cap := newCapacity b.cap need b.max }, true)
  else (b, false)

/-- A buffer as the functions leave it: there is room for a byte behind the data. -/
structure DynBuf.Valid (b : DynBuf) : Prop where
  room : b.data.length < b.cap ∨ b.data = []
  cap_le : b.cap ≤ b.max

/-! ## The loop -/

/-- What `recv` does: it hands over at most so many bytes, or it is interrupted,
    or it fails.  No bytes are the end of the stream. -/
inductive Recv where
  | bytes (n : Nat)
  | interrupted
  | failed
  deriving Repr, DecidableEq

/-- What the system answers in one turn of the loop. -/
structure Turn where
  sent : Bool := true
  memory : Bool := true
  timeout : Bool := true
  recv : Recv
  deriving Repr, DecidableEq

/-- What the loop works on: the buffer, and the bytes that are still to come. -/
structure Conn where
  buf : DynBuf
  coming : Bytes
  sentContinue : Bool := false
  deriving Repr, DecidableEq

/-- What `read_request` returns, the request being filled in when that is `1`. -/
structure Read where
  rc : Int
  req : Option HttpRequest := none
  deriving Repr, DecidableEq

/-- The `Expect` header is one that cannot be met. -/
def expectRefused (req : HttpRequest) : Bool :=
  match httpFindHeader req (lit "Expect") with
  | none => false
  | some expect =>
      req.minorVersion != 1 || expect.length != 12
        || !strncasecmpEq 12 expect (lit "100-continue")

/-- `handle_expect_continue`: the code, and `already_sent`. -/
def handleExpectContinue (sent : Bool) (req : HttpRequest) (complete already : Bool) :
    Int × Bool :=
  if req.headerLen = 0 ∨ already then (0, already)
  else if httpFindHeader req (lit "Expect") = none then (0, already)
  else if expectRefused req then (-3, already)
  else if !complete && !sent then (-1, already)
  else (0, true)

/-- What is decided about a request, complete or not, before more is received. -/
def examine (turn : Turn) (conn : Conn) (req : HttpRequest) (complete : Bool) : Conn ⊕ Read :=
  if req.headerLen > 0 ∧ 0 ≤ req.contentLength ∧ req.contentLength > SERVER_BODY_MAX then
    .inr { rc := -2 }
  else
    match handleExpectContinue turn.sent req complete conn.sentContinue with
    | (0, already) =>
        if complete then
          if req.bodyLen > SERVER_BODY_MAX then .inr { rc := -2 }
          else .inr { rc := 1, req := some req }
        else .inl { conn with sentContinue := already }
    | (rc, _) => .inr { rc := rc }

/-- The first half of a turn: the buffer is parsed. -/
def parseTurn (turn : Turn) (conn : Conn) : Conn ⊕ Read :=
  if conn.buf.data = [] then .inl conn
  else
    match httpParseRequest conn.buf.data with
    | .error => .inr { rc := -1 }
    | .needMore req => examine turn conn req false
    | .ok req => examine turn conn req true

/-- The second half of a turn: more bytes are received. -/
def receiveTurn (turn : Turn) (conn : Conn) : Conn ⊕ Read :=
  match dynbufReserve conn.buf (conn.buf.data.length + DYNBUF_MIN_CHUNK + 1) turn.memory with
  | (buf, false) => .inr { rc := if buf.truncated then -2 else -1 }
  | (buf, true) =>
      if turn.timeout = false then .inr { rc := -1 }
      else
        match turn.recv with
        | .failed => .inr { rc := -1 }
        | .interrupted => .inl { conn with buf := buf }
        | .bytes n =>
            let got := conn.coming.take (min n (buf.cap - buf.data.length - 1))
            if got = [] then .inr { rc := if buf.data = [] then 0 else -1 }
            else
              .inl { conn with
                buf := { buf with data := buf.data ++ got }
                coming := conn.coming.drop got.length }

/-- A turn of the loop. -/
def turnStep (turn : Turn) (conn : Conn) : Conn ⊕ Read :=
  match parseTurn turn conn with
  | .inr read => .inr read
  | .inl conn => receiveTurn turn conn

/-- The loop of `read_request` with the turns that are left; `none` when they run
    out. -/
def readLoop (answers : Nat → Turn) : Nat → Nat → Conn → Option Read
  | 0, _, _ => none
  | steps + 1, guard, conn =>
      match turnStep (answers guard) conn with
      | .inr read => some read
      | .inl conn => readLoop answers steps (guard + 1) conn

/-- `read_request`. -/
def readRequest (answers : Nat → Turn) (conn : Conn) : Read :=
  (readLoop answers SERVER_READ_STEPS 0 conn).getD { rc := -1 }

/-! ## How a stream may arrive -/

/-- All goes well but for the pieces that a stream comes in. -/
def Turn.Smooth (turn : Turn) : Prop :=
  turn.sent = true ∧ turn.memory = true ∧ turn.timeout = true
    ∧ (turn.recv = .interrupted ∨ ∃ n, turn.recv = .bytes (n + 1))

/-- What may be returned for a stream: some of it may be in the buffer already,
    the rest comes in pieces of any sizes, and the turns suffice. -/
def Returns (stream : Bytes) (read : Read) : Prop :=
  ∃ (answers : Nat → Turn) (conn : Conn), (∀ guard, (answers guard).Smooth)
    ∧ conn.buf.Valid ∧ conn.buf.max = SERVER_REQ_MAX ∧ conn.sentContinue = false
    ∧ conn.buf.data ++ conn.coming = stream
    ∧ (readLoop answers SERVER_READ_STEPS 0 conn).isSome = true
    ∧ readRequest answers conn = read

/-- The stream is read the same however its bytes arrive. -/
def SameHowever (stream : Bytes) : Prop :=
  ∀ r r', Returns stream r → Returns stream r' →
    r.rc = r'.rc ∧ (r.rc = 1 → r.req = r'.req)

/-! ## Parsing a part of the stream -/

/-- As long as the head is not complete the parser asks for more. -/
theorem parse_short {p q : Bytes} {h : Nat} (hend : headerEnd (p ++ q) = some h)
    (hmax : h ≤ HTTP_MAX_HEADER_BYTES) (hshort : p.length < h) :
    httpParseRequest p = .needMore {} := by
  have hnone : headerEnd p = none := by
    cases hp : headerEnd p with
    | none => rfl
    | some n =>
        obtain ⟨hn, hle⟩ := (headerEnd_append_iff q).mp hp
        obtain rfl := Option.some.inj (hn.symm.trans hend)
        exact absurd hle (Nat.not_le.mpr hshort)
  rcases parseHead_cases p with ⟨H, rest, hH, rfl⟩ | hhead
  · exact nomatch (headerEnd_head hH rest).symm.trans hnone
  · rw [httpParseRequest_no_head hhead, if_pos ⟨hnone, hshort.le.trans hmax⟩]

/-- A head that is refused is refused as soon as it is complete. -/
theorem parse_error {p q : Bytes} {h : Nat} (hend : headerEnd (p ++ q) = some h)
    (hmax : h ≤ HTTP_MAX_HEADER_BYTES) (herror : httpParseRequest (p ++ q) = .error)
    (hlong : h ≤ p.length) : httpParseRequest p = .error := by
  have hp : headerEnd p = some h := (headerEnd_append_iff q).mpr ⟨hend, hlong⟩
  rcases parseHead_cases p with ⟨H, rest, hH, rfl⟩ | hhead
  · obtain rfl := Option.some.inj ((headerEnd_head hH rest).symm.trans hp)
    rw [List.append_assoc, httpParseRequest_head hH, if_neg (Nat.not_lt.mpr hmax)] at herror
    dsimp only at herror
    split at herror <;> exact nomatch herror
  · rw [httpParseRequest_no_head hhead, if_neg fun hc => Option.some_ne_none h (hp.symm.trans hc.1)]

/-- The head of a complete request, and what is behind it. -/
theorem parse_ok_head {s : Bytes} {req : HttpRequest} (h : httpParseRequest s = .ok req) :
    ∃ (H : Head) (rest : Bytes), H.WF isTokenChar ∧ s = H.bytes ++ rest
      ∧ H.bytes.length ≤ HTTP_MAX_HEADER_BYTES ∧ (declaredLength H.headers).toNat ≤ rest.length
      ∧ req = { H.request with
          headerLen := H.bytes.length
          body := rest.take (declaredLength H.headers).toNat
          bodyLen := (declaredLength H.headers).toNat
          messageLen := H.bytes.length + (declaredLength H.headers).toNat } := by
  rcases parseHead_cases s with ⟨H, rest, hH, rfl⟩ | hhead
  · rw [httpParseRequest_head hH] at h
    by_cases hbig : H.bytes.length > HTTP_MAX_HEADER_BYTES
    · rw [if_pos hbig] at h
      exact nomatch h
    rw [if_neg hbig] at h
    dsimp only at h
    by_cases hshort : (declaredLength H.headers).toNat > rest.length
    · rw [if_pos hshort] at h
      exact nomatch h
    rw [if_neg hshort] at h
    exact ⟨H, rest, hH, rfl, Nat.not_lt.mp hbig, Nat.not_lt.mp hshort,
      (HttpParseResult.ok.inj h).symm⟩
  · rw [httpParseRequest_no_head hhead] at h
    split at h <;> exact nomatch h

/-- What is known of a complete request. -/
theorem parse_bounds {s : Bytes} {req : HttpRequest} (h : httpParseRequest s = .ok req) :
    headerEnd s = some req.headerLen ∧ 0 < req.headerLen
      ∧ req.headerLen ≤ HTTP_MAX_HEADER_BYTES ∧ req.headerLen ≤ req.messageLen
      ∧ req.messageLen ≤ s.length ∧ req.bodyLen = req.contentLength.toNat := by
  obtain ⟨H, rest, hH, rfl, hbig, hlong, rfl⟩ := parse_ok_head h
  have hend := headerEnd_head hH rest
  refine ⟨hend, ?_, hbig, Nat.le_add_right _ _, ?_, rfl⟩
  · exact Nat.lt_of_lt_of_le (by decide) (headerEnd_bounds hend).1
  · rw [List.length_append]
    exact Nat.add_le_add_left hlong _

/-- The parser on a part of a stream that starts with a request. -/
theorem parse_part {p q : Bytes} {req : HttpRequest} (h : httpParseRequest (p ++ q) = .ok req) :
    (p.length < req.headerLen ∧ httpParseRequest p = .needMore {})
      ∨ (p.length < req.messageLen ∧ ∃ part, httpParseRequest p = .needMore part
        ∧ part.headerLen = req.headerLen ∧ part.contentLength = req.contentLength
        ∧ part.headers = req.headers ∧ part.minorVersion = req.minorVersion)
      ∨ (req.messageLen ≤ p.length ∧ httpParseRequest p = .ok req) := by
  obtain ⟨hend, -, hmax, -⟩ := parse_bounds h
  obtain ⟨H, rest, hH, hs, hbig, hlong, hreq⟩ := parse_ok_head h
  have hlen : req.headerLen = H.bytes.length := by rw [hreq]
  by_cases hshort : p.length < req.headerLen
  · exact Or.inl ⟨hshort, parse_short hend hmax hshort⟩
  obtain ⟨behind, rfl⟩ : ∃ behind, p = H.bytes ++ behind := by
    refine ⟨p.drop H.bytes.length, ?_⟩
    have htake := congrArg (List.take H.bytes.length) hs
    rw [List.take_append_of_le_length (hlen ▸ Nat.not_lt.mp hshort), List.take_left] at htake
    exact (List.take_append_drop H.bytes.length p).symm.trans (by rw [htake])
  have hrest : rest = behind ++ q := by
    rw [List.append_assoc] at hs
    exact (List.append_cancel_left hs).symm
  refine Or.inr ?_
  rw [httpParseRequest_head hH, if_neg (Nat.not_lt.mpr hbig), List.length_append]
  dsimp only
  by_cases hpart : (declaredLength H.headers).toNat > behind.length
  · refine Or.inl ⟨?_, _, if_pos hpart, hlen.symm, ?_, ?_, ?_⟩
    · rw [hreq]
      exact Nat.add_lt_add_left hpart _
    · rw [hreq]
    · rw [hreq]
    · rw [hreq]
  · refine Or.inr ⟨?_, ?_⟩
    · rw [hreq]
      exact Nat.add_le_add_left (Nat.not_lt.mp hpart) _
    · rw [if_neg hpart, hreq, hrest, List.take_append_of_le_length (Nat.not_lt.mp hpart)]

/-! ## Room for more -/

theorem growLoop_le (need max rounds : Nat) :
    ∀ newcap, newcap ≤ max → growLoop need max rounds newcap ≤ max := by
  induction rounds with
  | zero => exact fun newcap h => h
  | succ rounds ih =>
      intro newcap h
      rw [growLoop]
      split
      · split
        · exact Nat.le_refl _
        · exact ih _ (by omega)
      · exact h

theorem newCapacity_bounds {cap need max : Nat} (hcap : cap ≤ max) (hneed : need ≤ max)
    (hchunk : DYNBUF_MIN_CHUNK ≤ max) :
    need ≤ newCapacity cap need max ∧ newCapacity cap need max ≤ max := by
  have hstart : (if cap ≠ 0 then cap else DYNBUF_MIN_CHUNK) ≤ max := by
    split
    · exact hcap
    · exact hchunk
  have hloop := growLoop_le need max 64 _ hstart
  rw [newCapacity]
  generalize growLoop need max 64 (if cap ≠ 0 then cap else DYNBUF_MIN_CHUNK) = newcap at hloop ⊢
  by_cases hsmall : newcap < need
  · rw [if_pos hsmall]
    exact ⟨Nat.le_refl _, hneed⟩
  · rw [if_neg hsmall]
    exact ⟨Nat.not_lt.mp hsmall, hloop⟩

/-- A buffer gets the room it needs, up to its limit. -/
theorem dynbufReserve_spec {b : DynBuf} (hb : b.Valid) (hchunk : DYNBUF_MIN_CHUNK ≤ b.max)
    {need : Nat} (hneed : need ≤ b.max) :
    ∃ cap, dynbufReserve b need true = ({ b with cap := cap }, true) ∧ need ≤ cap
      ∧ cap ≤ b.max := by
  rw [dynbufReserve, if_neg (Nat.not_lt.mpr hneed)]
  by_cases hcap : need ≤ b.cap
  · rw [if_pos hcap]
    exact ⟨b.cap, rfl, hcap, hb.cap_le⟩
  · rw [if_neg hcap]
    exact ⟨_, rfl, newCapacity_bounds hb.cap_le hneed hchunk⟩

/-! ## One turn -/

/-- The buffer and what is still to come make up the stream. -/
structure Along (stream : Bytes) (conn : Conn) : Prop where
  valid : conn.buf.Valid
  max : conn.buf.max = SERVER_REQ_MAX
  stream : conn.buf.data ++ conn.coming = stream

/-- Receiving is all right up to `DYNBUF_MIN_CHUNK` below the limit. -/
theorem receive_room {stream : Bytes} {turn : Turn} {conn : Conn} (h : Along stream conn)
    (hturn : turn.Smooth) (hmore : conn.buf.data.length < stream.length)
    (hroom : conn.buf.data.length + DYNBUF_MIN_CHUNK + 1 ≤ SERVER_REQ_MAX) :
    ∃ conn', receiveTurn turn conn = .inl conn' ∧ Along stream conn'
      ∧ conn'.sentContinue = conn.sentContinue
      ∧ ∀ n, turn.recv = .bytes n → n ≤ DYNBUF_MIN_CHUNK →
        conn.buf.data.length + n ≤ stream.length →
        conn'.buf.data.length = conn.buf.data.length + n := by
  obtain ⟨-, hmemory, htimeout, hrecv⟩ := hturn
  have hchunk : DYNBUF_MIN_CHUNK ≤ conn.buf.max := by
    rw [h.max]
    decide
  have hroom' : conn.buf.data.length + DYNBUF_MIN_CHUNK + 1 ≤ conn.buf.max := by
    rw [h.max]
    exact hroom
  obtain ⟨cap, hreserve, hneed, hcap⟩ := dynbufReserve_spec h.valid hchunk hroom'
  have hlt : conn.buf.data.length < cap := by omega
  have hnext : DynBuf.Valid { conn.buf with cap := cap } := ⟨Or.inl hlt, hcap⟩
  rw [receiveTurn, hmemory, hreserve]
  dsimp only
  rw [if_neg (by rw [htimeout]; exact nofun)]
  rcases hrecv with hrecv | ⟨n, hrecv⟩
  · rw [hrecv]
    exact ⟨_, rfl, ⟨hnext, h.max, h.stream⟩, rfl, fun n hn => nomatch hn⟩
  · rw [hrecv]
    dsimp only
    have hcoming : conn.coming ≠ [] := by
      rintro hc
      have hs := h.stream
      rw [hc, List.append_nil] at hs
      exact absurd hmore (hs ▸ Nat.lt_irrefl _)
    have hgot : conn.coming.take (min (n + 1) (cap - conn.buf.data.length - 1)) ≠ [] := by
      rw [ne_eq, List.take_eq_nil_iff]
      rintro (hc | hc)
      · have hpos : 0 < DYNBUF_MIN_CHUNK := by decide
        omega
      · exact hcoming hc
    rw [if_neg hgot]
    refine ⟨_, rfl, ⟨⟨Or.inl ?_, hcap⟩, h.max, ?_⟩, rfl, ?_⟩
    · have hle : (conn.coming.take (min (n + 1) (cap - conn.buf.data.length - 1))).length
          ≤ cap - conn.buf.data.length - 1 :=
        (List.length_take_le _ _).trans (Nat.min_le_right _ _)
      show (conn.buf.data ++ _).length < cap
      rw [List.length_append]
      omega
    · show (conn.buf.data ++ _) ++ conn.coming.drop _ = stream
      rw [List.append_assoc, List.prefix_iff_eq_append.mp (List.take_prefix _ _)]
      exact h.stream
    · intro m hm hle hstream
      obtain rfl := Recv.bytes.inj hm
      have hlength := congrArg List.length h.stream
      rw [List.length_append] at hlength
      show (conn.buf.data ++ _).length = _
      rw [List.length_append, List.length_take]
      omega

/-- Closer to the limit nothing is received. -/
theorem receive_full {stream : Bytes} {turn : Turn} {conn : Conn} (h : Along stream conn)
    (hfull : SERVER_REQ_MAX < conn.buf.data.length + DYNBUF_MIN_CHUNK + 1) :
    receiveTurn turn conn = .inr { rc := -2 } := by
  rw [receiveTurn, dynbufReserve, if_pos (by rw [h.max]; exact hfull)]
  rfl

/-- An `Expect` header is judged by the head alone. -/
theorem expectRefused_congr {req part : HttpRequest} (hheaders : part.headers = req.headers)
    (hminor : part.minorVersion = req.minorVersion) : expectRefused part = expectRefused req := by
  rw [expectRefused, expectRefused, httpFindHeader, httpFindHeader, hheaders, hminor]

/-- The interim response is refused, or sent if it is asked for. -/
theorem handleExpect_spec {req : HttpRequest} {complete already : Bool}
    (hheader : 0 < req.headerLen) (halready : already = true → expectRefused req = false) :
    (expectRefused req = true → handleExpectContinue true req complete already = (-3, already))
      ∧ (expectRefused req = false →
        ∃ sent, handleExpectContinue true req complete already = (0, sent)) := by
  rw [handleExpectContinue]
  by_cases hdone : req.headerLen = 0 ∨ already = true
  · rw [if_pos hdone]
    have halready' : already = true := hdone.resolve_left hheader.ne'
    exact ⟨fun hr => absurd ((halready halready').symm.trans hr) (by simp), fun _ => ⟨_, rfl⟩⟩
  rw [if_neg hdone]
  by_cases hnone : httpFindHeader req (lit "Expect") = none
  · rw [if_pos hnone]
    refine ⟨fun hr => ?_, fun _ => ⟨_, rfl⟩⟩
    rw [expectRefused, hnone] at hr
    exact nomatch hr
  rw [if_neg hnone]
  refine ⟨fun hr => if_pos hr, fun hr => ⟨true, ?_⟩⟩
  rw [hr, if_neg Bool.false_ne_true, Bool.not_true, Bool.and_false, if_neg Bool.false_ne_true]

theorem examine_spec {turn : Turn} {conn : Conn} {req : HttpRequest} (hsent : turn.sent = true)
    (hheader : 0 < req.headerLen) (hbody : req.contentLength ≤ SERVER_BODY_MAX)
    (halready : conn.sentContinue = true → expectRefused req = false) (complete : Bool) :
    (expectRefused req = true → examine turn conn req complete = .inr { rc := -3 })
      ∧ (expectRefused req = false →
        (complete = true → req.bodyLen ≤ SERVER_BODY_MAX →
          examine turn conn req complete = .inr { rc := 1, req := some req })
        ∧ (complete = false → ∃ sent,
          examine turn conn req complete = .inl { conn with sentContinue := sent })) := by
  obtain ⟨hrefused, hmet⟩ := @handleExpect_spec req complete conn.sentContinue hheader halready
  rw [examine, if_neg fun hc => Int.not_lt.mpr hbody hc.2.2, hsent]
  refine ⟨fun hr => ?_, fun hr => ?_⟩
  · rw [hrefused hr]
    rfl
  · obtain ⟨sent, heq⟩ := hmet hr
    rw [heq]
    refine ⟨?_, ?_⟩
    · rintro rfl hle
      exact if_neg (Nat.not_lt.mpr hle)
    · rintro rfl
      exact ⟨sent, rfl⟩

/-- What the parser makes of a buffer along a stream that starts with a request. -/
theorem parseTurn_ok {stream : Bytes} {turn : Turn} {conn : Conn} {req : HttpRequest}
    (h : Along stream conn) (hturn : turn.Smooth) (hreq : httpParseRequest stream = .ok req)
    (hbody : req.bodyLen ≤ SERVER_BODY_MAX)
    (halready : conn.sentContinue = true → expectRefused req = false) :
    (conn.buf.data.length < req.messageLen
        ∧ (conn.buf.data.length < req.headerLen ∨ expectRefused req = false)
        ∧ ∃ sent, parseTurn turn conn = .inl { conn with sentContinue := sent }
          ∧ (sent = true → expectRefused req = false))
      ∨ (expectRefused req = true ∧ parseTurn turn conn = .inr { rc := -3 })
      ∨ (expectRefused req = false ∧ req.messageLen ≤ conn.buf.data.length
        ∧ parseTurn turn conn = .inr { rc := 1, req := some req }) := by
  obtain ⟨-, hheader, -, hmessage, -, hlength⟩ := parse_bounds hreq
  have hcontent : req.contentLength ≤ SERVER_BODY_MAX := by omega
  rw [parseTurn]
  by_cases hempty : conn.buf.data = []
  · rw [if_pos hempty, hempty]
    exact Or.inl ⟨hheader.trans_le hmessage, Or.inl hheader, _, rfl, halready⟩
  rw [if_neg hempty]
  rcases parse_part (h.stream ▸ hreq) with ⟨hshort, hparse⟩ | ⟨hshort, part, hparse, hhead, hlen,
    hheaders, hminor⟩ | ⟨hlong, hparse⟩
  · refine Or.inl ⟨hshort.trans_le hmessage, Or.inl hshort, conn.sentContinue, ?_, halready⟩
    rw [hparse]
    rfl
  · have hsame := expectRefused_congr hheaders hminor
    have hspec := @examine_spec turn conn part hturn.1
      (hhead ▸ hheader) (hlen ▸ hcontent) (hsame ▸ halready) false
    rw [hparse]
    cases hr : expectRefused req with
    | true => exact Or.inr (Or.inl ⟨rfl, hspec.1 (hsame.trans hr)⟩)
    | false =>
        obtain ⟨sent, heq⟩ := (hspec.2 (hsame.trans hr)).2 rfl
        exact Or.inl ⟨hshort, Or.inr rfl, sent, heq, fun _ => rfl⟩
  · have hspec := @examine_spec turn conn req hturn.1 hheader hcontent
      halready true
    rw [hparse]
    cases hr : expectRefused req with
    | true => exact Or.inr (Or.inl ⟨rfl, hspec.1 hr⟩)
    | false => exact Or.inr (Or.inr ⟨rfl, hlong, (hspec.2 hr).1 rfl hbody⟩)

/-- What the parser makes of a buffer along a stream with a head that is refused. -/
theorem parseTurn_error {stream : Bytes} {turn : Turn} {conn : Conn} {h : Nat}
    (halong : Along stream conn) (hend : headerEnd stream = some h)
    (hmax : h ≤ HTTP_MAX_HEADER_BYTES) (herror : httpParseRequest stream = .error) :
    (conn.buf.data.length < h ∧ parseTurn turn conn = .inl conn)
      ∨ parseTurn turn conn = .inr { rc := -1 } := by
  rw [← halong.stream] at hend herror
  rw [parseTurn]
  by_cases hempty : conn.buf.data = []
  · rw [if_pos hempty, hempty]
    exact Or.inl ⟨Nat.lt_of_lt_of_le (by decide) (headerEnd_bounds hend).1, rfl⟩
  rw [if_neg hempty]
  by_cases hshort : conn.buf.data.length < h
  · rw [parse_short hend hmax hshort]
    exact Or.inl ⟨hshort, rfl⟩
  · rw [parse_error hend hmax herror (Nat.not_lt.mp hshort)]
    exact Or.inr rfl

/-! ## The verdict on a stream -/

/-- What is returned for a stream, unless its request ends close to the limit. -/
inductive Verdict (stream : Bytes) : Read → Prop where
  | malformed (h : httpParseRequest stream = .error) : Verdict stream { rc := -1 }
  | unmet (req : HttpRequest) (h : httpParseRequest stream = .ok req)
      (hexpect : expectRefused req = true) : Verdict stream { rc := -3 }
  | complete (req : HttpRequest) (h : httpParseRequest stream = .ok req)
      (hexpect : expectRefused req = false) (hfits : req.messageLen < SERVER_REQ_MAX) :
      Verdict stream { rc := 1, req := some req }
  | tooLong (req : HttpRequest) (h : httpParseRequest stream = .ok req)
      (hexpect : expectRefused req = false)
      (hlong : SERVER_REQ_MAX < req.messageLen + DYNBUF_MIN_CHUNK) : Verdict stream { rc := -2 }

/-- The streams that are considered: the head ends in time, the request is
    complete, and its body is not too long. -/
structure Considered (stream : Bytes) : Prop where
  head : ∃ h, headerEnd stream = some h ∧ h ≤ HTTP_MAX_HEADER_BYTES
  complete : ∀ req, httpParseRequest stream ≠ .needMore req
  body : ∀ req, httpParseRequest stream = .ok req → req.bodyLen ≤ SERVER_BODY_MAX

/-- Before a turn: the stream is there, and an interim response has only been
    sent where it was asked for. -/
structure Waits (stream : Bytes) (conn : Conn) : Prop where
  along : Along stream conn
  already : ∀ req, httpParseRequest stream = .ok req → conn.sentContinue = true →
    expectRefused req = false

/-- **One turn** keeps the stream or returns its verdict. -/
theorem turn_spec {stream : Bytes} (hstream : Considered stream) {turn : Turn}
    (hturn : turn.Smooth) {conn : Conn} (h : Waits stream conn) :
    (∃ conn', turnStep turn conn = .inl conn' ∧ Waits stream conn')
      ∨ ∃ read, turnStep turn conn = .inr read ∧ Verdict stream read := by
  obtain ⟨n, hend, hmax⟩ := hstream.head
  have hsmall : HTTP_MAX_HEADER_BYTES + DYNBUF_MIN_CHUNK + 1 ≤ SERVER_REQ_MAX := by decide
  rw [turnStep]
  cases hparse : httpParseRequest stream with
  | needMore req => exact absurd hparse (hstream.complete req)
  | error =>
      rcases parseTurn_error h.along hend hmax hparse with ⟨hshort, hturn'⟩ | hturn'
      · rw [hturn']
        have hmore := hshort.trans_le (headerEnd_bounds hend).2
        obtain ⟨conn', hreceive, halong, hsent, -⟩ := receive_room h.along hturn hmore (by omega)
        exact Or.inl ⟨conn', hreceive, halong, fun req hr => nomatch hparse.symm.trans hr⟩
      · rw [hturn']
        exact Or.inr ⟨_, rfl, .malformed hparse⟩
  | ok req =>
      obtain ⟨-, -, hhead, -, hlength, -⟩ := parse_bounds hparse
      rcases parseTurn_ok h.along hturn hparse (hstream.body req hparse) (h.already req hparse) with
        ⟨hshort, hexpect, sent, hturn', hsent⟩ | ⟨hexpect, hturn'⟩ | ⟨hexpect, hlong, hturn'⟩
      · rw [hturn']
        have halong : Along stream { conn with sentContinue := sent } :=
          ⟨h.along.valid, h.along.max, h.along.stream⟩
        by_cases hroom : conn.buf.data.length + DYNBUF_MIN_CHUNK + 1 ≤ SERVER_REQ_MAX
        · obtain ⟨conn', hreceive, halong', hsent', -⟩ :=
            receive_room halong hturn (hshort.trans_le hlength) hroom
          refine Or.inl ⟨conn', hreceive, halong', fun req' hr hs => ?_⟩
          obtain rfl := HttpParseResult.ok.inj (hparse.symm.trans hr)
          exact hsent (hsent'.symm.trans hs)
        · refine Or.inr ⟨_, receive_full halong (Nat.not_le.mp hroom), .tooLong req hparse ?_ ?_⟩
          · exact hexpect.resolve_left (by omega)
          · omega
      · rw [hturn']
        exact Or.inr ⟨_, rfl, .unmet req hparse hexpect⟩
      · rw [hturn']
        refine Or.inr ⟨_, rfl, .complete req hparse hexpect ?_⟩
        have hcap := h.along.max ▸ h.along.valid.cap_le
        rcases h.along.valid.room with hroom | hempty
        · omega
        · rw [hempty] at hlong
          exact Nat.lt_of_le_of_lt hlong (by decide)

/-- **Every run returns the verdict**, if it returns within its turns. -/
theorem readLoop_spec {stream : Bytes} (hstream : Considered stream) {answers : Nat → Turn}
    (hsmooth : ∀ guard, (answers guard).Smooth) (steps : Nat) :
    ∀ (guard : Nat) {conn : Conn} {read : Read}, Waits stream conn →
      readLoop answers steps guard conn = some read → Verdict stream read := by
  induction steps with
  | zero => exact fun _ _ _ _ h => nomatch h
  | succ steps ih =>
      intro guard conn read hwaits h
      rw [readLoop] at h
      rcases turn_spec hstream (hsmooth guard) hwaits with ⟨conn', hturn, hwaits'⟩ |
        ⟨read', hturn, hverdict⟩
      · rw [hturn] at h
        exact ih (guard + 1) hwaits' h
      · rw [hturn] at h
        exact Option.some.inj h ▸ hverdict

theorem Returns.verdict {stream : Bytes} (hstream : Considered stream) {read : Read}
    (h : Returns stream read) : Verdict stream read := by
  obtain ⟨answers, conn, hsmooth, hvalid, hmax, hsent, hdata, hsome, hread⟩ := h
  obtain ⟨read', hread'⟩ := Option.isSome_iff_exists.mp hsome
  rw [readRequest, hread'] at hread
  obtain rfl : read' = read := hread
  exact readLoop_spec hstream hsmooth _ 0
    ⟨⟨hvalid, hmax, hdata⟩, fun _ _ hc => nomatch hsent.symm.trans hc⟩ hread'

/-- The last bytes of the request do not lie close below the limit. -/
def Settled (stream : Bytes) : Prop :=
  ∀ req, httpParseRequest stream = .ok req → expectRefused req = false →
    req.messageLen + DYNBUF_MIN_CHUNK ≤ SERVER_REQ_MAX ∨ SERVER_REQ_MAX ≤ req.messageLen

/-- The verdict on a stream that is settled. -/
def verdictOf (stream : Bytes) : Read :=
  match httpParseRequest stream with
  | .ok req =>
      if expectRefused req then { rc := -3 }
      else if req.messageLen < SERVER_REQ_MAX then { rc := 1, req := some req }
      else { rc := -2 }
  | _ => { rc := -1 }

theorem Verdict.eq {stream : Bytes} (hsettled : Settled stream) {read : Read}
    (h : Verdict stream read) : read = verdictOf stream := by
  rw [verdictOf]
  cases h with
  | malformed h => rw [h]
  | unmet req h hexpect =>
      rw [h]
      exact (if_pos hexpect).symm
  | complete req h hexpect hfits =>
      rw [h]
      dsimp only
      rw [hexpect, if_neg Bool.false_ne_true, if_pos hfits]
  | tooLong req h hexpect hlong =>
      have hmax : ¬ req.messageLen < SERVER_REQ_MAX := by
        have := hsettled req h hexpect
        omega
      rw [h]
      dsimp only
      rw [hexpect, if_neg Bool.false_ne_true, if_neg hmax]

/-! ## Two ways for a request close to the limit -/

/-- A stream that comes in pieces: behind `guard` turns, `total guard` bytes are there. -/
def deliver (total : Nat → Nat) (guard : Nat) : Turn where
  recv := .bytes (max 1 (total (guard + 1) - total guard))

theorem deliver_smooth (total : Nat → Nat) (guard : Nat) : (deliver total guard).Smooth :=
  ⟨rfl, rfl, rfl, Or.inr ⟨max 1 (total (guard + 1) - total guard) - 1,
    congrArg Recv.bytes (by omega)⟩⟩

/-- Nothing has been received of a stream. -/
def start (stream : Bytes) : Conn where
  buf := { max := SERVER_REQ_MAX }
  coming := stream

theorem start_waits (stream : Bytes) : Waits stream (start stream) :=
  ⟨⟨⟨Or.inr rfl, Nat.zero_le _⟩, rfl, rfl⟩, fun _ _ hc => nomatch hc⟩

section Close

variable {stream : Bytes} {req : HttpRequest} (hstream : Considered stream)
  (hreq : httpParseRequest stream = .ok req) (hexpect : expectRefused req = false)

include hstream hreq hexpect

/-- A turn that receives a piece of an incomplete request. -/
theorem turn_piece {turn : Turn} (hturn : turn.Smooth) {conn : Conn} (h : Waits stream conn)
    (hshort : conn.buf.data.length < req.messageLen)
    (hroom : conn.buf.data.length + DYNBUF_MIN_CHUNK + 1 ≤ SERVER_REQ_MAX) {n : Nat}
    (hrecv : turn.recv = .bytes n) (hn : n ≤ DYNBUF_MIN_CHUNK)
    (hcoming : conn.buf.data.length + n ≤ stream.length) :
    ∃ conn', turnStep turn conn = .inl conn' ∧ Waits stream conn'
      ∧ conn'.buf.data.length = conn.buf.data.length + n := by
  obtain ⟨-, -, -, -, hlength, -⟩ := parse_bounds hreq
  rw [turnStep]
  rcases parseTurn_ok h.along hturn hreq (hstream.body req hreq) (h.already req hreq) with
    ⟨-, -, sent, hturn', hsent⟩ | ⟨hrefused, -⟩ | ⟨-, hlong, -⟩
  · have halong : Along stream { conn with sentContinue := sent } :=
      ⟨h.along.valid, h.along.max, h.along.stream⟩
    obtain ⟨conn', hreceive, halong', hsent', hpiece⟩ :=
      receive_room halong hturn (hshort.trans_le hlength) hroom
    rw [hturn']
    refine ⟨conn', hreceive, ⟨halong', fun req' hr hs => ?_⟩, hpiece n hrecv hn hcoming⟩
    obtain rfl := HttpParseResult.ok.inj (hreq.symm.trans hr)
    exact hsent (hsent'.symm.trans hs)
  · exact nomatch hexpect.symm.trans hrefused
  · omega

/-- The turns of a delivery, as long as the request is not complete and there is
    room for more. -/
theorem readLoop_pieces {total : Nat → Nat} (hzero : total 0 = 0) {n : Nat} (k : Nat) (hk : k ≤ n)
    (hstep : ∀ guard < k, total guard < total (guard + 1)
      ∧ total (guard + 1) ≤ total guard + DYNBUF_MIN_CHUNK ∧ total guard < req.messageLen
      ∧ total guard + DYNBUF_MIN_CHUNK + 1 ≤ SERVER_REQ_MAX
      ∧ total (guard + 1) ≤ stream.length) :
    ∃ conn, readLoop (deliver total) n 0 (start stream) = readLoop (deliver total) (n - k) k conn
      ∧ Waits stream conn ∧ conn.buf.data.length = total k := by
  induction k with
  | zero => exact ⟨start stream, rfl, start_waits stream, hzero.symm⟩
  | succ k ih =>
      obtain ⟨conn, hloop, hwaits, hlength⟩ :=
        ih (Nat.le_of_succ_le hk) fun guard hlt => hstep guard (Nat.lt_succ_of_lt hlt)
      obtain ⟨hgrows, hle, hshort, hroom, hcoming⟩ := hstep k (Nat.lt_succ_self k)
      have hsize : max 1 (total (k + 1) - total k) = total (k + 1) - total k := by omega
      obtain ⟨conn', hturn, hwaits', hlength'⟩ := turn_piece hstream hreq hexpect
        (deliver_smooth total k) hwaits (hlength ▸ hshort) (hlength ▸ hroom)
        (congrArg Recv.bytes hsize) (by omega) (by omega)
      refine ⟨conn', ?_, hwaits', by omega⟩
      rw [hloop, show n - k = n - (k + 1) + 1 by omega, readLoop, hturn]

/-- What a delivery returns, once a turn behind its pieces returns. -/
theorem returns_pieces {total : Nat → Nat} (hzero : total 0 = 0) (k : Nat)
    (hk : k < SERVER_READ_STEPS)
    (hstep : ∀ guard < k, total guard < total (guard + 1)
      ∧ total (guard + 1) ≤ total guard + DYNBUF_MIN_CHUNK ∧ total guard < req.messageLen
      ∧ total guard + DYNBUF_MIN_CHUNK + 1 ≤ SERVER_REQ_MAX
      ∧ total (guard + 1) ≤ stream.length) {read : Read}
    (hread : ∀ conn, Waits stream conn → conn.buf.data.length = total k →
      turnStep (deliver total k) conn = .inr read) :
    Returns stream read := by
  obtain ⟨conn, hloop, hwaits, hlength⟩ :=
    readLoop_pieces hstream hreq hexpect hzero k hk.le hstep
  have hlast : readLoop (deliver total) SERVER_READ_STEPS 0 (start stream) = some read := by
    rw [hloop, show SERVER_READ_STEPS - k = SERVER_READ_STEPS - k - 1 + 1 by omega, readLoop,
      hread conn hwaits hlength]
  refine ⟨deliver total, start stream, deliver_smooth total, ⟨Or.inr rfl, Nat.zero_le _⟩, rfl, rfl,
    rfl, ?_, ?_⟩
  · rw [hlast]
    rfl
  · rw [readRequest, hlast]
    rfl

/-- A request that ends close below the limit is returned if its last piece starts
    far enough below the limit, and refused as too long if not. -/
theorem returns_close (hfits : req.messageLen < SERVER_REQ_MAX)
    (hclose : SERVER_REQ_MAX < req.messageLen + DYNBUF_MIN_CHUNK) :
    Returns stream { rc := 1, req := some req } ∧ Returns stream { rc := -2 } := by
  obtain ⟨-, -, -, -, hlength, -⟩ := parse_bounds hreq
  have hmax : SERVER_REQ_MAX = 8388608 := rfl
  have hchunk : DYNBUF_MIN_CHUNK = 8192 := rfl
  have hsteps : SERVER_READ_STEPS = 4096 := rfl
  constructor
  · -- 1022 full pieces and one of 8191 bytes leave room for all that is missing
    refine @returns_pieces stream req hstream hreq hexpect
      (fun guard => if guard ≤ 1023 then min (guard * 8192) 8380415 else req.messageLen)
      rfl 1024 (by omega) ?_ _ ?_
    · intro guard hguard
      split_ifs <;> omega
    · intro conn hwaits hdata
      have hdata' : conn.buf.data.length = req.messageLen := hdata
      rcases parseTurn_ok hwaits.along (deliver_smooth _ _) hreq (hstream.body req hreq)
        (hwaits.already req hreq) with ⟨hshort, -⟩ | ⟨hrefused, -⟩ | ⟨-, -, hturn⟩
      · omega
      · exact nomatch hexpect.symm.trans hrefused
      · rw [turnStep, hturn]
  · -- 1023 full pieces leave no room for another
    refine @returns_pieces stream req hstream hreq hexpect (fun guard => guard * 8192) rfl 1023
      (by omega) ?_ _ ?_
    · intro guard hguard
      omega
    · intro conn hwaits hdata
      have hdata' : conn.buf.data.length = 8380416 := hdata
      rcases parseTurn_ok hwaits.along (deliver_smooth _ _) hreq (hstream.body req hreq)
        (hwaits.already req hreq) with ⟨-, -, sent, hturn, -⟩ | ⟨hrefused, -⟩ | ⟨-, hlong, -⟩
      · have halong : Along stream { conn with sentContinue := sent } :=
          ⟨hwaits.along.valid, hwaits.along.max, hwaits.along.stream⟩
        rw [turnStep, hturn]
        exact receive_full halong (by show _ < conn.buf.data.length + _ + 1; omega)
      · exact nomatch hexpect.symm.trans hrefused
      · omega

end Close

/-- **A request is read the same however its bytes arrive** if and only if it does
    not end among the last `DYNBUF_MIN_CHUNK - 1` bytes below the limit. -/
theorem same_however_iff (stream : Bytes) (h : Considered stream) :
    SameHowever stream ↔ Settled stream := by
  constructor
  · intro hsame req hreq hexpect
    by_contra hc
    obtain ⟨hone, htwo⟩ := returns_close h hreq hexpect (by omega) (by omega)
    exact absurd (hsame _ _ hone htwo).1 (show (1 : Int) ≠ -2 by decide)
  · intro hsettled r r' hr hr'
    have heq : r = r' :=
      ((hr.verdict h).eq hsettled).trans ((hr'.verdict h).eq hsettled).symm
    exact ⟨congrArg Read.rc heq, fun _ => congrArg Read.req heq⟩

/-- A request with no body. -/
theorem same_however_short : SameHowever (lit "GET / HTTP/1.1\r\nHost: x\r\n\r\n") := by
  have hreq : httpParseRequest (lit "GET / HTTP/1.1\r\nHost: x\r\n\r\n")
      = .ok { method := lit "GET", path := lit "/", minorVersion := 1
              headers := [⟨lit "Host", lit "x"⟩], headerLen := 27, messageLen := 27 } := by
    decide +kernel
  refine (same_however_iff _ ⟨⟨27, by decide +kernel, by decide⟩, ?_, ?_⟩).mpr ?_
  · exact fun req hc => nomatch hreq.symm.trans hc
  · intro req hc
    obtain rfl := HttpParseResult.ok.inj (hreq.symm.trans hc)
    exact Nat.zero_le _
  · intro req hc _
    obtain rfl := HttpParseResult.ok.inj (hreq.symm.trans hc)
    exact Or.inl (by decide)

/-- The head of a request of 8388053 bytes. -/
def closeHead : Bytes :=
  lit "POST / HTTP/1.1\r\nHost: x\r\nContent-Length: 8388000\r\n\r\n"

/-- A request with a body of 8388000 bytes, which ends close below the limit. -/
def closeStream : Bytes := closeHead ++ List.replicate 8388000 0x61

theorem closeStream_parse : ∃ req, httpParseRequest closeStream = .ok req
    ∧ expectRefused req = false ∧ req.bodyLen = 8388000 ∧ req.messageLen = 8388053 := by
  obtain ⟨req, hhead, hlength, hexpect⟩ : ∃ req, parseHead closeHead = some ([], req)
      ∧ req.contentLength = 8388000 ∧ expectRefused req = false :=
    ⟨{ method := lit "POST", path := lit "/", minorVersion := 1
       headers := [⟨lit "Host", lit "x"⟩, ⟨lit "Content-Length", lit "8388000"⟩]
       contentLength := 8388000 }, by decide +kernel, rfl, by decide +kernel⟩
  obtain ⟨H, hH, hbytes, rfl⟩ := parseHead_iff.mp hhead
  rw [List.append_nil] at hbytes
  have hbody : (declaredLength H.headers).toNat = 8388000 := by
    rw [show declaredLength H.headers = 8388000 from hlength]
    rfl
  have hbig : ¬ H.bytes.length > HTTP_MAX_HEADER_BYTES := by
    rw [← hbytes]
    decide
  rw [closeStream, hbytes, httpParseRequest_head hH, if_neg hbig]
  dsimp only
  rw [hbody, List.length_replicate, if_neg (Nat.lt_irrefl _)]
  refine ⟨_, rfl, (expectRefused_congr rfl rfl).trans hexpect, rfl, ?_⟩
  rw [← hbytes]
  rfl

/-- Such a request is served or refused, depending on its pieces. -/
theorem not_same_however_close :
    Considered closeStream ∧ ¬ SameHowever closeStream := by
  obtain ⟨req, hreq, hexpect, hbody, hmessage⟩ := closeStream_parse
  obtain ⟨hend, -, hhead, -⟩ := parse_bounds hreq
  have hconsidered : Considered closeStream := by
    refine ⟨⟨_, hend, hhead⟩, fun req' hc => (nomatch hreq.symm.trans hc), fun req' hc => ?_⟩
    obtain rfl := HttpParseResult.ok.inj (hreq.symm.trans hc)
    rw [hbody]
    decide
  obtain ⟨hone, htwo⟩ := returns_close hconsidered hreq hexpect
    (by rw [hmessage]; decide) (by rw [hmessage]; decide)
  exact ⟨hconsidered, fun hsame =>
    absurd (hsame _ _ hone htwo).1 (show (1 : Int) ≠ -2 by decide)⟩

end ServerRead
