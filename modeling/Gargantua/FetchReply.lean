import Gargantua.HttpParse

/-! # Replies that come in (`src/runtime/fetch_reply.c`)

    `parse_reply` on the bytes a server sent, function by function.  A pointer
    into `wire` is the list of bytes from it on, as far as `len` reaches.  The
    body is decoded where it stands, so a chunked reply is the list it is in,
    with the place that is read and the place that is written. -/

namespace FetchReply

open CString HttpParse

/-- `FETCH_MAX_BODY`. -/
abbrev FETCH_MAX_BODY : Nat := 64 * 1024

/-- The failures of `parse_reply`. -/
inductive FetchError where
  | tooLarge
  | badReply
  deriving Repr, DecidableEq

/-! ## The status line -/

/-- `parse_status_line`: the status, and the bytes behind the line. -/
def parseStatusLine (wire : Bytes) : Option (Nat × Bytes) :=
  if wire.length < 14 ∨ wire.take 7 ≠ lit "HTTP/1."
      ∨ ((wire.drop 7).head? ≠ some 0x30 ∧ (wire.drop 7).head? ≠ some 0x31)
      ∨ (wire.drop 8).head? ≠ some SP then none
  else
    let digits := (wire.drop 9).take 3
    let status := digits.foldl (fun status c => status * 10 + (c.toNat - 48)) 0
    if digits.all isDigit = false then none
    else if status < 100 ∨ status > 599 then none
    else
      match wire.dropWhile (· != LF) with
      | [] => none
      | _ :: rest => some (status, rest)

/-! ## Header lines -/

/-- The digits of `header_int`, with the bound it checks before each. -/
def headerIntLoop : Nat → Nat → Bytes → Option (Nat × Nat)
  | value, digits, [] => some (value, digits)
  | value, digits, c :: s =>
      if isDigit c then
        if value > FETCH_MAX_BODY + 1 then none
        else headerIntLoop (value * 10 + (c.toNat - 48)) (digits + 1) s
      else some (value, digits)

/-- `header_int`. -/
def headerInt (line : Bytes) : Option Nat :=
  match line.dropWhile isOws with
  | [] => none
  | c :: s =>
      match headerIntLoop 0 0 (c :: s) with
      | none => none
      | some (value, digits) => if digits = 0 ∨ digits > 9 then none else some value

/-- What the header lines declare: `declared`, `-1` without a length, and
    `chunked`. -/
structure Framing where
  declared : Int := -1
  chunked : Bool := false
  deriving Repr, DecidableEq

/-- `take_header`. -/
def takeHeader (line : Bytes) (f : Framing) : Option Framing :=
  match line.dropWhile (· != COLON) with
  | [] => some f
  | _ :: value =>
      let nameLen := line.length - value.length - 1
      if nameLen = 14 ∧ strncasecmpEq 14 line (lit "Content-Length") then
        if f.declared ≥ 0 then none
        else (headerInt value).map fun n : Nat => { f with declared := n }
      else if nameLen = 17 ∧ strncasecmpEq 17 line (lit "Transfer-Encoding") then
        if value.length < 7 ∨ strncasecmpEq 7 (value.drop (value.length - 7)) (lit "chunked") = false
        then none
        else some { f with chunked := true }
      else some f

/-! ## The body -/

/-- `hex_value`. -/
def hexValue (c : Byte) : Option Nat :=
  if 0x30 ≤ c ∧ c ≤ 0x39 then some (c.toNat - 48)
  else if 0x61 ≤ c ∧ c ≤ 0x66 then some (c.toNat - 97 + 10)
  else if 0x41 ≤ c ∧ c ≤ 0x46 then some (c.toNat - 65 + 10)
  else none

/-- The digits of a chunk's size: the size, how many there are, and what is
    behind them. -/
def chunkSize : Nat → Nat → Bytes → Option (Nat × Nat × Bytes)
  | size, digits, [] => some (size, digits, [])
  | size, digits, c :: s =>
      match hexValue c with
      | none => some (size, digits, c :: s)
      | some v =>
          if size > FETCH_MAX_BODY / 16 then none
          else chunkSize (size * 16 + v) (digits + 1) s

/-- `memmove(body + at, bytes, n)`. -/
def memmove (body : Bytes) (at_ : Nat) (bytes : Bytes) : Bytes :=
  body.take at_ ++ (bytes ++ body.drop (at_ + bytes.length))

/-- The loop of `decode_chunked`: `body` with what was moved in it, and the
    length of the decoded body. -/
def decodeChunkedLoop : Nat → Bytes → Nat → Nat → Except FetchError (Bytes × Nat)
  | 0, _, _, _ => .error .badReply
  | guard + 1, body, read, write =>
      match chunkSize 0 0 (body.drop read) with
      | none => .error .tooLarge
      | some (size, digits, s) =>
          if digits = 0 ∨ digits > 8 then .error .badReply
          else
            match s.dropWhile (· != LF) with
            | [] => .error .badReply
            | _ :: s =>
                if size = 0 then .ok (body, write)
                else if size > s.length ∨ write + size > FETCH_MAX_BODY then
                  .error (if write + size > FETCH_MAX_BODY then .tooLarge else .badReply)
                else
                  let moved := memmove body write (s.take size)
                  let read := body.length - s.length + size
                  match moved.drop read with
                  | [] => .error .badReply
                  | c :: s =>
                      if c = CR ∧ s.head? = some LF then
                        decodeChunkedLoop guard moved (read + 2) (write + size)
                      else if c = LF then decodeChunkedLoop guard moved (read + 1) (write + size)
                      else .error .badReply

/-- `decode_chunked`. -/
def decodeChunked (body : Bytes) : Except FetchError (Bytes × Nat) :=
  decodeChunkedLoop 4096 body 0 0

/-- `take_body`: the bytes at `body`, and the length of the body. -/
def takeBody (body : Bytes) (f : Framing) : Except FetchError (Bytes × Nat) :=
  if f.chunked then
    if f.declared ≥ 0 then .error .badReply else decodeChunked body
  else
    let length := if f.declared ≥ 0 then f.declared.toNat else body.length
    if length > body.length then .error .badReply
    else if length > FETCH_MAX_BODY then .error .tooLarge
    else .ok (body, length)

/-! ## The whole reply -/

/-- What `parse_reply` hands out: the status, the bytes at `*body_out` and
    `*body_len`. -/
structure Reply where
  status : Nat
  bytes : Bytes
  bodyLen : Nat
  deriving Repr, DecidableEq

/-- The body of a reply. -/
def Reply.body (r : Reply) : Bytes := r.bytes.take r.bodyLen

/-- A line without the `\r` at its end. -/
def stripCr (line : Bytes) : Bytes :=
  if line.getLast? = some CR then line.dropLast else line

/-- The loop of `parse_reply` over the header lines. -/
def parseReplyLoop (status : Nat) : Nat → Bytes → Framing → Except FetchError Reply
  | 0, _, _ => .error .badReply
  | guard + 1, s, f =>
      match s.dropWhile (· != LF) with
      | [] => .error .badReply
      | _ :: rest =>
          let line := stripCr (s.takeWhile (· != LF))
          if line = [] then (takeBody rest f).map fun r => ⟨status, r.1, r.2⟩
          else
            match takeHeader line f with
            | none => .error .badReply
            | some f => parseReplyLoop status guard rest f

/-- `parse_reply`. -/
def parseReply (wire : Bytes) : Except FetchError Reply :=
  match parseStatusLine wire with
  | none => .error .badReply
  | some (status, s) => parseReplyLoop status 128 s {}

end FetchReply
