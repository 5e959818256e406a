import Gargantua.Lib.Runs
import Gargantua.HttpExact

/-! # Framing — one connection's buffer (`server_http.c`, `server_serve.c`)

    A connection is a stream of bytes that arrives in pieces of any size.  The
    server appends what `recv` hands it to the request buffer, parses from the
    buffer's start, and takes a message off the front once it has handled it
    (`consume_message`).  Here that is a state machine: the bytes still on
    their way, the buffer, and the requests served so far.

    What the parser answers about a buffer is stable under arrival: OK stays
    OK with the same request, ERROR stays ERROR.  So a stream of messages is
    served message by message, in order, however it was cut. -/

namespace HttpFraming

open CString HttpParse HttpGrammar HttpExact Runs

/-- `DYNBUF_MIN_CHUNK`: the room that `read_request` reserves for a `recv`. -/
abbrev DYNBUF_MIN_CHUNK : Nat := 8192

/-- `dynbuf_consume`. -/
def dynbufConsume (data : Bytes) (n : Nat) : Bytes := data.drop n

/-- `consume_message`: `none` is its `-1`. -/
def consumeMessage (data : Bytes) (req : HttpRequest) : Option Bytes :=
  if req.messageLen > data.length then none
  else some (dynbufConsume data req.messageLen)

/-- One connection: what the peer has sent and `recv` has not returned yet, the
    request buffer, and the requests handled so far. -/
structure Conn where
  incoming : Bytes
  buf : Bytes
  served : List HttpRequest
  deriving Repr, DecidableEq

/-- What the loop does next: a `recv` that returns `n` bytes, or a request that
    is parsed, handled and consumed. -/
inductive Event where
  | recv (n : Nat)
  | serve
  deriving Repr, DecidableEq

/-- One step of a connection whose buffer may grow to `max` bytes.  A `recv` is
    preceded by a `dynbuf_reserve`, which refuses to grow the buffer further.
    `read_request` only receives while the parser asks for more; here a `recv`
    may come at any time, so every run of the server is one of these. -/
def step (max : Nat) (s : Conn) : Event → Option Conn
  | .recv n =>
      if s.buf.length + DYNBUF_MIN_CHUNK + 1 > max then none
      else if n = 0 ∨ n > s.incoming.length ∨ s.buf.length + n + 1 > max then none
      else some { s with incoming := s.incoming.drop n,
                         buf := s.buf ++ s.incoming.take n }
  | .serve =>
      match httpParseRequest s.buf with
      | .ok req =>
          (consumeMessage s.buf req).map fun rest =>
            { s with buf := rest, served := s.served ++ [req] }
      | _ => none

/-- A fresh connection on which the peer sends `stream`. -/
def start (stream : Bytes) : Conn := ⟨stream, [], []⟩

/-! ## Prefix stability -/

/-- More bytes behind a complete message change nothing about it. -/
theorem httpParseRequest_ok_append {p : Bytes} {req : HttpRequest} (t : Bytes)
    (h : httpParseRequest p = .ok req) : httpParseRequest (p ++ t) = .ok req := by
  obtain ⟨m, hm, ⟨tail, rfl⟩, rfl⟩ := httpParseRequest_ok_iff.mp h
  exact httpParseRequest_ok_iff.mpr ⟨m, hm, ⟨tail ++ t, by rw [List.append_assoc]⟩, rfl⟩

/-- An accepted message lies inside the buffer and is not empty. -/
theorem httpParseRequest_ok_len {p : Bytes} {req : HttpRequest}
    (h : httpParseRequest p = .ok req) : req.messageLen ≤ p.length := by
  obtain ⟨m, -, ⟨tail, rfl⟩, rfl⟩ := httpParseRequest_ok_iff.mp h
  rw [List.length_append]
  exact Nat.le_add_right _ _

/-! ## Pipelining -/

/-- A message that is one request and nothing behind it. -/
def Whole (m : Bytes) (req : HttpRequest) : Prop :=
  httpParseRequest m = .ok req ∧ req.messageLen = m.length

/-- The bytes of a pipeline of messages. -/
def stream (ms : List (Bytes × HttpRequest)) : Bytes := (ms.map Prod.fst).flatten

theorem stream_cons (m : Bytes × HttpRequest) (ms : List (Bytes × HttpRequest)) :
    stream (m :: ms) = m.1 ++ stream ms := rfl

/-- The connection has served a first part of the pipeline, each request as the
    parser reads its message alone, and holds the bytes of the rest. -/
structure InOrder (ms : List (Bytes × HttpRequest)) (s : Conn)
    (done todo : List (Bytes × HttpRequest)) : Prop where
  split : ms = done ++ todo
  served : s.served = done.map Prod.snd
  bytes : s.buf ++ s.incoming = stream todo

/-- A stream starts with its first message: no other request is read there. -/
theorem httpParseRequest_stream {m : Bytes × HttpRequest} (hm : Whole m.1 m.2)
    (ms : List (Bytes × HttpRequest)) :
    httpParseRequest (stream (m :: ms)) = .ok m.2 := by
  rw [stream_cons]
  exact httpParseRequest_ok_append _ hm.1

/-- Serving takes exactly the first message that is left. -/
theorem InOrder.serve {ms done todo : List (Bytes × HttpRequest)} {s : Conn}
    {req : HttpRequest} {rest : Bytes} (hms : ∀ m ∈ ms, Whole m.1 m.2)
    (hs : InOrder ms s done todo) (hreq : httpParseRequest s.buf = .ok req)
    (hrest : consumeMessage s.buf req = some rest) :
    ∃ m todo', todo = m :: todo'
      ∧ InOrder ms { s with buf := rest, served := s.served ++ [req] }
          (done ++ [m]) todo' := by
  have hall := httpParseRequest_ok_append s.incoming hreq
  rw [hs.bytes] at hall
  cases todo with
  | nil => exact nomatch hall
  | cons m todo =>
      have hm : Whole m.1 m.2 := hms m (by rw [hs.split]; simp)
      have hreqm : req = m.2 :=
        HttpParseResult.ok.inj (hall.symm.trans (httpParseRequest_stream hm todo))
      have hle := httpParseRequest_ok_len hreq
      rw [consumeMessage, if_neg (Nat.not_lt.mpr hle)] at hrest
      have hlen : req.messageLen = m.1.length := by rw [hreqm]; exact hm.2
      refine ⟨m, todo, rfl, ⟨?_, ?_, ?_⟩⟩
      · rw [hs.split, List.append_assoc, List.singleton_append]
      · rw [hs.served, hreqm, List.map_append]
        rfl
      · show rest ++ s.incoming = stream todo
        have hdrop := congrArg (List.drop m.1.length) hs.bytes
        rw [stream_cons, List.drop_left, ← hlen, List.drop_append_of_le_length hle] at hdrop
        rw [← Option.some.inj hrest]
        exact hdrop

/-- A step keeps the order: a `recv` moves bytes, a request takes one message. -/
theorem inOrder_step {max : Nat} {ms : List (Bytes × HttpRequest)}
    (hms : ∀ m ∈ ms, Whole m.1 m.2) :
    Preserves (step max) fun s => ∃ done todo, InOrder ms s done todo := by
  rintro s s' e h ⟨done, todo, hs⟩
  cases e with
  | recv n =>
      rw [step] at h
      split at h
      · exact nomatch h
      · split at h
        · exact nomatch h
        · obtain rfl := Option.some.inj h
          refine ⟨done, todo, hs.split, hs.served, ?_⟩
          show s.buf ++ s.incoming.take n ++ s.incoming.drop n = stream todo
          rw [List.append_assoc, List.take_append_drop]
          exact hs.bytes
  | serve =>
      rw [step] at h
      split at h
      · rename_i req hreq
        obtain ⟨rest, hrest, rfl⟩ := Option.map_eq_some_iff.mp h
        obtain ⟨m, todo', -, hs'⟩ := hs.serve hms hreq hrest
        exact ⟨done ++ [m], todo', hs'⟩
      · exact nomatch h

/-- What is in the buffer of a pipeline is never refused. -/
theorem InOrder.no_error {ms done todo : List (Bytes × HttpRequest)} {s : Conn}
    (hms : ∀ m ∈ ms, Whole m.1 m.2) (hs : InOrder ms s done todo) :
    httpParseRequest s.buf ≠ .error := by
  intro herr
  have hall := httpParseRequest_error_append s.incoming herr
  rw [hs.bytes] at hall
  cases todo with
  | nil => exact nomatch hall
  | cons m todo =>
      have hm : Whole m.1 m.2 := hms m (by rw [hs.split]; simp)
      rw [httpParseRequest_stream hm todo] at hall
      exact nomatch hall

/-- Once everything has arrived, the next message can be served. -/
theorem InOrder.progress {max : Nat} {ms done : List (Bytes × HttpRequest)}
    {m : Bytes × HttpRequest} {todo : List (Bytes × HttpRequest)} {s : Conn}
    (hms : ∀ m ∈ ms, Whole m.1 m.2) (hs : InOrder ms s done (m :: todo))
    (hin : s.incoming = []) : step max s .serve ≠ none := by
  have hm : Whole m.1 m.2 := hms m (by rw [hs.split]; simp)
  have hbuf : s.buf = stream (m :: todo) := by
    rw [← hs.bytes, hin, List.append_nil]
  have hreq : httpParseRequest s.buf = .ok m.2 := by
    rw [hbuf]
    exact httpParseRequest_stream hm todo
  have hle := httpParseRequest_ok_len hreq
  rw [step, hreq]
  show (consumeMessage s.buf m.2).map _ ≠ none
  rw [consumeMessage, if_neg (Nat.not_lt.mpr hle)]
  exact fun h => nomatch h

/-- **Framing**: the parser's OK and ERROR are stable under arrival, and a
    pipeline of messages is served message by message in every run.  The buffer
    never reads as an error, what is served is a first part of the pipeline,
    what is left is the rest, and with nothing more on its way and nothing more
    to serve it is the whole pipeline. -/
theorem framing (p t : Bytes) :
    (∀ req, httpParseRequest p = .ok req → httpParseRequest (p ++ t) = .ok req)
    ∧ (httpParseRequest p = .error → httpParseRequest (p ++ t) = .error)
    ∧ ∀ ms : List (Bytes × HttpRequest), (∀ m ∈ ms, Whole m.1 m.2) →
        ∀ (max : Nat) (events : List Event) (s : Conn),
          run (step max) (start (stream ms)) events = some s →
            (∃ done todo, InOrder ms s done todo)
            ∧ httpParseRequest s.buf ≠ .error
            ∧ (s.incoming = [] → step max s .serve = none →
                s.served = ms.map Prod.snd ∧ s.buf = []) := by
  refine ⟨fun req => httpParseRequest_ok_append t, httpParseRequest_error_append t, ?_⟩
  intro ms hms max events s hrun
  obtain ⟨done, todo, hs⟩ := run_preserves (inOrder_step hms) hrun
    ⟨[], ms, rfl, rfl, rfl⟩
  refine ⟨⟨done, todo, hs⟩, hs.no_error hms, ?_⟩
  intro hin hstuck
  cases todo with
  | nil =>
      refine ⟨by rw [hs.served, hs.split, List.append_nil], ?_⟩
      have hbytes := hs.bytes
      rw [hin, List.append_nil] at hbytes
      exact hbytes
  | cons m todo => exact absurd hstuck (hs.progress hms hin)

/-- Two requests, arriving in three pieces. -/
theorem framing_two_requests :
    let m : Bytes := lit "GET / HTTP/1.0\r\n\r\n"
    let req : HttpRequest := { method := lit "GET", path := lit "/",
                               headerLen := 18, messageLen := 18 }
    httpParseRequest (m ++ lit "GET") = .ok req
      ∧ httpParseRequest (lit "G?T /" ++ lit "\r\n\r\n" ++ m) = .error
      ∧ httpParseRequest (lit "GET / HTTP") ≠ .error
      ∧ ([req, req] : List HttpRequest) = [(m, req), (m, req)].map Prod.snd := by
  intro m req
  have hm : httpParseRequest m = .ok req := by decide +kernel
  have herr : httpParseRequest (lit "G?T /" ++ lit "\r\n\r\n") = .error := by
    decide +kernel
  have hms : ∀ x ∈ [(m, req), (m, req)], Whole x.1 x.2 := by
    intro x hx
    rcases List.mem_cons.mp hx with rfl | hx
    · exact ⟨hm, rfl⟩
    · rw [List.mem_singleton.mp hx]
      exact ⟨hm, rfl⟩
  have hpart := (framing m []).2.2 _ hms 65536 [.recv 10]
    ⟨(stream [(m, req), (m, req)]).drop 10, lit "GET / HTTP", []⟩ (by decide +kernel)
  have hall := (framing m []).2.2 _ hms 65536 [.recv 10, .recv 20, .serve, .recv 6, .serve]
    ⟨[], [], [req, req]⟩ (by decide +kernel)
  exact ⟨(framing m (lit "GET")).1 req hm,
    (framing (lit "G?T /" ++ lit "\r\n\r\n") m).2.1 herr, hpart.2.1,
    (hall.2.2 rfl (by decide +kernel)).1⟩

end HttpFraming
