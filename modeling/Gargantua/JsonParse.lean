import Gargantua.Lib.CString

/-! # The JSON tokenizer (`src/http/json.c`)

    `json_parse` function by function.  `js + i` with the length that is left is
    the list of bytes from `i` on, and an advanced `*at` is a shorter list; the
    offsets that the tokens record are recovered from the whole text.  The token
    array is the list of the tokens allocated so far, so `*count` is its length,
    and the frame array is the stack with the innermost frame first, so `*depth`
    is its length.  `-1` is `none`. -/

namespace JsonParse

open CString

/-- `JSON_MAX_DEPTH`, `JSON_MAX_OBJECT_KEYS`, `JSON_MAX_KEY_BYTES` and the
    `INT_MAX` of the length test. -/
abbrev JSON_MAX_DEPTH : Nat := 128
abbrev JSON_MAX_OBJECT_KEYS : Nat := 256
abbrev JSON_MAX_KEY_BYTES : Nat := 128
abbrev INT_MAX : Nat := 2147483647

abbrev QUOTE : Byte := 0x22
abbrev BACKSLASH : Byte := 0x5C
abbrev COMMA : Byte := 0x2C
abbrev COLON : Byte := 0x3A
abbrev LBRACKET : Byte := 0x5B
abbrev RBRACKET : Byte := 0x5D
abbrev LBRACE : Byte := 0x7B
abbrev RBRACE : Byte := 0x7D

/-- `JsonType`. -/
inductive JsonType where
  | undef
  | obj
  | arr
  | str
  | prim
  deriving Repr, DecidableEq

/-- `JsonToken`.  `end_` is `-1` while a container is open. -/
structure JsonToken where
  type : JsonType
  start : Nat
  end_ : Int
  parent : Int
  deriving Repr, DecidableEq

/-- `FrameState`. -/
inductive FrameState where
  | objKeyOrEnd
  | objKey
  | objColon
  | objValue
  | objNext
  | arrValueOrEnd
  | arrValue
  | arrNext
  deriving Repr, DecidableEq

/-- `Frame`. -/
structure Frame where
  token : Nat
  type : JsonType
  state : FrameState
  members : Nat
  deriving Repr, DecidableEq

/-- `token_alloc`: the token array with the new token; its index is the old
    length. -/
def tokenAlloc (max : Nat) (toks : List JsonToken) (type : JsonType)
    (start : Nat) (parent : Int) : Option (List JsonToken) :=
  if toks.length ≥ max then none
  else some (toks ++ [{ type := type, start := start, end_ := -1, parent := parent }])

/-- `toks[t].end = e`. -/
def setEnd (toks : List JsonToken) (t : Nat) (e : Int) : List JsonToken :=
  toks.modify t fun tok => { tok with end_ := e }

/-! ## Characters -/

/-- `is_space`. -/
def isSpace (c : Byte) : Bool :=
  c == 0x20 || c == 0x09 || c == 0x0D || c == 0x0A

def isDigit (c : Byte) : Bool := 0x30 ≤ c && c ≤ 0x39

/-- `hex_digit`. -/
def hexDigit (c : Byte) : Option Nat :=
  if 0x30 ≤ c ∧ c ≤ 0x39 then some (c.toNat - 0x30)
  else if 0x61 ≤ c ∧ c ≤ 0x66 then some (c.toNat - 0x61 + 10)
  else if 0x41 ≤ c ∧ c ≤ 0x46 then some (c.toNat - 0x41 + 10)
  else none

/-- The loop of `read_hex4`. -/
def readHexLoop : Nat → Nat → Bytes → Option Nat
  | 0, value, _ => some value
  | _ + 1, _, [] => none
  | n + 1, value, c :: js =>
      match hexDigit c with
      | none => none
      | some h => readHexLoop n (value <<< 4 ||| h) js

/-- `read_hex4`. -/
def readHex4 (js : Bytes) : Option Nat :=
  if js.length < 4 then none else readHexLoop 4 0 js

/-- The first byte of a multi-byte sequence: the continuation bytes it asks for
    and the range of the first of them. -/
def utf8Lead (a : Byte) : Option (Nat × Byte × Byte) :=
  if 0xC2 ≤ a ∧ a ≤ 0xDF then some (1, 0x80, 0xBF)
  else if 0xE0 ≤ a ∧ a ≤ 0xEF then
    some (2, if a = 0xE0 then 0xA0 else 0x80, if a = 0xED then 0x9F else 0xBF)
  else if 0xF0 ≤ a ∧ a ≤ 0xF4 then
    some (3, if a = 0xF0 then 0x90 else 0x80, if a = 0xF4 then 0x8F else 0xBF)
  else none

/-- `utf8_advance`. -/
def utf8Advance : Bytes → Option Bytes
  | [] => none
  | a :: js =>
      match utf8Lead a with
      | none => none
      | some (n, lo, hi) =>
          if js.length < n then none
          else if js.headD 0 < lo ∨ js.headD 0 > hi then none
          else if ((js.take n).drop 1).all fun c => 0x80 ≤ c && c ≤ 0xBF then
            some (js.drop n)
          else none

/-! ## Strings -/

/-- The letters of the two-character escapes. -/
def isSimpleEscape (c : Byte) : Bool :=
  c == QUOTE || c == BACKSLASH || c == 0x2F || c == 0x62 || c == 0x66 || c == 0x6E
    || c == 0x72 || c == 0x74

/-- The escape branch of `token_string`, after the backslash. -/
def scanEscape : Bytes → Option Bytes
  | [] => none
  | c :: js =>
      if isSimpleEscape c then some js
      else if c ≠ 0x75 then none
      else
        match readHex4 js with
        | none => none
        | some first =>
            if 0xD800 ≤ first ∧ first ≤ 0xDBFF then
              if (js.drop 4).length < 6 ∨ (js.drop 4).head? ≠ some BACKSLASH
                  ∨ (js.drop 5).head? ≠ some 0x75 then none
              else
                match readHex4 (js.drop 6) with
                | none => none
                | some second =>
                    if second < 0xDC00 ∨ second > 0xDFFF then none
                    else some (js.drop 10)
            else if 0xDC00 ≤ first ∧ first ≤ 0xDFFF then none
            else some (js.drop 4)

/-- One turn of the loop of `token_string`, on a byte that is no quote. -/
def scanChar : Bytes → Option Bytes
  | [] => none
  | c :: js =>
      if c = BACKSLASH then scanEscape js
      else if c < 0x20 then none
      else if c ≥ 0x80 then utf8Advance (c :: js)
      else some js

/-- The loop of `token_string`: the text from the closing quote on. -/
def stringLoop : Nat → Bytes → Option Bytes
  | 0, _ => none
  | _ + 1, [] => none
  | fuel + 1, c :: js =>
      if c = QUOTE then some (c :: js)
      else
        match scanChar (c :: js) with
        | none => none
        | some js => stringLoop fuel js

/-! ## Primitives -/

/-- `is_delimiter`. -/
def isDelimiter : Bytes → Bool
  | [] => true
  | c :: _ => isSpace c || c == COMMA || c == RBRACKET || c == RBRACE

/-- One digit or more. -/
def scanDigits : Bytes → Option Bytes
  | [] => none
  | c :: js => if isDigit c then some (js.dropWhile isDigit) else none

/-- The integer part of `scan_number`. -/
def scanInt : Bytes → Option Bytes
  | [] => none
  | c :: js =>
      if c = 0x30 then
        if (js.head?.any isDigit) then none else some js
      else if 0x31 ≤ c ∧ c ≤ 0x39 then some (js.dropWhile isDigit)
      else none

/-- The fraction of `scan_number`. -/
def scanFrac : Bytes → Option Bytes
  | [] => some []
  | c :: js => if c = 0x2E then scanDigits js else some (c :: js)

/-- The exponent of `scan_number`. -/
def scanExp : Bytes → Option Bytes
  | [] => some []
  | c :: js =>
      if c = 0x65 ∨ c = 0x45 then
        match js with
        | [] => none
        | d :: ds => if d = 0x2B ∨ d = 0x2D then scanDigits ds else scanDigits (d :: ds)
      else some (c :: js)

/-- `scan_number`. -/
def scanNumber (js : Bytes) : Option Bytes :=
  match scanInt (if js.head? = some 0x2D then js.tail else js) with
  | none => none
  | some js =>
      match scanFrac js with
      | none => none
      | some js =>
          match scanExp js with
          | none => none
          | some js => if isDelimiter js then some js else none

/-- The text a literal of `token_primitive` starts with, or the number. -/
def scanPrimitive (js : Bytes) : Option Bytes :=
  if (lit "true").isPrefixOf js then some (js.drop 4)
  else if (lit "false").isPrefixOf js then some (js.drop 5)
  else if (lit "null").isPrefixOf js then some (js.drop 4)
  else scanNumber js

/-! ## Decoding -/

/-- `utf8_encode`: the bytes written into `out`, which has room for `cap`. -/
def utf8Encode (cp cap : Nat) : Bytes :=
  if cp ≤ 0x7F ∧ cap ≥ 1 then [UInt8.ofNat cp]
  else if cp ≤ 0x7FF ∧ cap ≥ 2 then
    [UInt8.ofNat (0xC0 ||| cp >>> 6), UInt8.ofNat (0x80 ||| cp &&& 0x3F)]
  else if cp ≤ 0xFFFF ∧ cap ≥ 3 then
    [UInt8.ofNat (0xE0 ||| cp >>> 12), UInt8.ofNat (0x80 ||| (cp >>> 6) &&& 0x3F),
     UInt8.ofNat (0x80 ||| cp &&& 0x3F)]
  else if cp ≤ 0x10FFFF ∧ cap ≥ 4 then
    [UInt8.ofNat (0xF0 ||| cp >>> 18), UInt8.ofNat (0x80 ||| (cp >>> 12) &&& 0x3F),
     UInt8.ofNat (0x80 ||| (cp >>> 6) &&& 0x3F), UInt8.ofNat (0x80 ||| cp &&& 0x3F)]
  else []

/-- The escape branch of `json_copy_str`, after the backslash: the bytes it
    writes and the text that is left; `none` where it leaves the loop. -/
def copyEscape (cap : Nat) : Bytes → Option (Bytes × Bytes)
  | [] => none
  | c :: js =>
      if c = 0x62 then some ([0x08], js)
      else if c = 0x66 then some ([0x0C], js)
      else if c = 0x6E then some ([0x0A], js)
      else if c = 0x72 then some ([0x0D], js)
      else if c = 0x74 then some ([0x09], js)
      else if c = QUOTE ∨ c = BACKSLASH ∨ c = 0x2F then some ([c], js)
      else if c = 0x75 then
        match readHex4 js with
        | none => none
        | some first =>
            if 0xD800 ≤ first ∧ first ≤ 0xDBFF ∧ (js.drop 4).length ≥ 6
                ∧ (js.drop 4).head? = some BACKSLASH ∧ (js.drop 5).head? = some 0x75 then
              match readHex4 (js.drop 6) with
              | none => none
              | some second =>
                  -- unsigned arithmetic, a second half below `0xDC00` wraps
                  some (utf8Encode ((0x10000 + (first - 0xD800) <<< 10
                    + (second + 2 ^ 32 - 0xDC00)) % 2 ^ 32) cap, js.drop 10)
            else some (utf8Encode first cap, js.drop 4)
      else none

/-- The loop of `json_copy_str` over the bytes of the token, `o` bytes having
    been written. -/
def copyLoop (isStr : Bool) (outsz : Nat) : Nat → Nat → Bytes → Bytes
  | 0, _, _ => []
  | _ + 1, _, [] => []
  | fuel + 1, o, c :: js =>
      if o + 1 < outsz then
        if !isStr || c != BACKSLASH then c :: copyLoop isStr outsz fuel (o + 1) js
        else
          match copyEscape (outsz - o - 1) js with
          | none => []
          | some (out, js) => out ++ copyLoop isStr outsz fuel (o + out.length) js
      else []

/-- The bytes of the text that a token spans. -/
def slice (js : Bytes) (t : JsonToken) : Bytes :=
  (js.drop t.start).take (t.end_.toNat - t.start)

/-- `json_copy_str`: what it writes before the terminating NUL. -/
def jsonCopyStr (js : Bytes) (t : JsonToken) (outsz : Nat) : Bytes :=
  if outsz = 0 ∨ t.end_ < t.start then []
  else copyLoop (t.type == .str) outsz (slice js t).length 0 (slice js t)

/-! ## The frames -/

/-- What `json_parse` and its helpers share: the text from `i` on, the tokens,
    the frames and the two flags. -/
structure Scanner where
  rest : Bytes
  toks : List JsonToken := []
  stack : List Frame := []
  seen : Bool := false
  done : Bool := false
  deriving Repr, DecidableEq

section Scan

/-! The text and the token capacity are fixed over a run. -/

variable (js : Bytes) (max : Nat)

/-- The index `i`, when `rest` is what is left. -/
def offset (rest : Bytes) : Nat := js.length - rest.length

/-- `token_string`, its `end` set. -/
def tokenString (st : Scanner) (parent : Int) : Option Scanner :=
  match tokenAlloc max st.toks .str (offset js st.rest + 1) parent with
  | none => none
  | some toks =>
      match stringLoop st.rest.length st.rest.tail with
      | none => none
      | some rest =>
          some { st with
            rest := rest.tail
            toks := setEnd toks st.toks.length (offset js rest) }

/-- `token_primitive`. -/
def tokenPrimitive (st : Scanner) (parent : Int) : Option Scanner :=
  match scanPrimitive st.rest with
  | none => none
  | some rest =>
      if isDelimiter rest then
        (tokenAlloc max st.toks .prim (offset js st.rest) parent).map fun toks =>
          { st with
            rest := rest
            toks := setEnd toks st.toks.length (offset js rest) }
      else none

/-- `scan_value`. -/
def scanValue (st : Scanner) (parent : Int) : Option Scanner :=
  match st.rest with
  | [] => none
  | c :: rest =>
      if c = QUOTE then tokenString js max st parent
      else if c = LBRACE ∨ c = LBRACKET then
        if st.stack.length ≥ JSON_MAX_DEPTH then none
        else
          let type := if c = LBRACE then JsonType.obj else JsonType.arr
          (tokenAlloc max st.toks type (offset js st.rest) parent).map fun toks =>
            { st with
              rest := rest
              toks := toks
              stack := { token := st.toks.length
                         type := type
                         state := if type = .obj then .objKeyOrEnd else .arrValueOrEnd
                         members := 0 } :: st.stack }
      else tokenPrimitive js max st parent

/-- `close_container`, in front of the closing bracket. -/
def closeContainer (st : Scanner) (f : Frame) : Scanner :=
  { st with
    rest := st.rest.tail
    toks := setEnd st.toks f.token (offset js st.rest + 1)
    stack := st.stack.tail
    done := st.done || st.stack.tail.isEmpty }

/-- The loop of `duplicate_key` over the tokens between the object and its new
    key. -/
def duplicateLoop (parent : Int) (decodedKey : Bytes) : Nat → List JsonToken → Bool
  | _, [] => false
  | direct, prior :: toks =>
      if prior.parent ≠ parent then duplicateLoop parent decodedKey direct toks
      else if direct % 2 = 0 ∧ prior.type = .str
          ∧ cstr (jsonCopyStr js prior JSON_MAX_KEY_BYTES) = cstr decodedKey then true
      else duplicateLoop parent decodedKey (direct + 1) toks

/-- `duplicate_key`. -/
def duplicateKey (toks : List JsonToken) (parent key : Nat) : Bool :=
  match toks[key]? with
  | none => false
  | some t =>
      duplicateLoop js parent (jsonCopyStr js t JSON_MAX_KEY_BYTES) 0
        ((toks.take key).drop (parent + 1))

/-- `f->state = state` on the innermost frame. -/
def setState (st : Scanner) (f : Frame) (state : FrameState) : Scanner :=
  { st with stack := { f with state := state } :: st.stack.tail }

/-- `scan_object_key`. -/
def scanObjectKey (st : Scanner) (f : Frame) : Option Scanner :=
  if st.rest.head? = some RBRACE then
    if f.state = .objKey then none else some (closeContainer js st f)
  else if st.rest.head? ≠ some QUOTE then none
  else
    match tokenString js max st f.token with
    | none => none
    | some st' =>
        if f.members ≥ JSON_MAX_OBJECT_KEYS then none
        else
          match st'.toks[st.toks.length]? with
          | none => none
          | some key =>
              let keyLen := key.end_ - key.start
              if keyLen < 0 ∨ keyLen ≥ JSON_MAX_KEY_BYTES then none
              else if duplicateKey js st'.toks f.token st.toks.length then none
              else some (setState st' { f with members := f.members + 1 } .objColon)

/-- `scan_array_element`. -/
def scanArrayElement (st : Scanner) (f : Frame) : Option Scanner :=
  if st.rest.head? = some RBRACKET then
    if f.state = .arrValue then none else some (closeContainer js st f)
  else scanValue js max (setState st f .arrNext) f.token

/-- `scan_separator`. -/
def scanSeparator (st : Scanner) (f : Frame) (closer : Byte) (next : FrameState) :
    Option Scanner :=
  if st.rest.head? = some COMMA then
    some { setState st f next with rest := st.rest.tail }
  else if st.rest.head? ≠ some closer then none
  else some (closeContainer js st f)

/-- `scan_frame`. -/
def scanFrame (st : Scanner) (f : Frame) : Option Scanner :=
  match f.state with
  | .objKeyOrEnd => scanObjectKey js max st f
  | .objKey => scanObjectKey js max st f
  | .objColon =>
      if st.rest.head? ≠ some COLON then none
      else some { setState st f .objValue with rest := st.rest.tail }
  | .objValue => scanValue js max (setState st f .objNext) f.token
  | .objNext => scanSeparator js st f RBRACE .objKey
  | .arrValueOrEnd => scanArrayElement js max st f
  | .arrValue => scanArrayElement js max st f
  | .arrNext => scanSeparator js st f RBRACKET .arrValue

/-- One turn of the loop of `json_parse`, after the white space. -/
def scanStep (st : Scanner) : Option Scanner :=
  match st.stack with
  | [] =>
      if st.seen ∨ st.done then none
      else
        (scanValue js max { st with seen := true } (-1)).map fun st' =>
          { st' with done := st'.done || st'.stack.isEmpty }
  | f :: _ => scanFrame js max st f

/-- The loop of `json_parse`. -/
def parseLoop : Nat → Scanner → Option Scanner
  | 0, _ => none
  | fuel + 1, st =>
      let st := { st with rest := st.rest.dropWhile isSpace }
      if st.rest = [] then some st
      else
        match scanStep js max st with
        | none => none
        | some st' => parseLoop fuel st'

end Scan

/-- `json_parse`: the tokens it fills in, whose number it returns. -/
def jsonParse (js : Bytes) (max : Nat) : Option (List JsonToken) :=
  if max = 0 ∨ js.length = 0 ∨ js.length > INT_MAX then none
  else
    match parseLoop js max (js.length + 1) { rest := js } with
    | none => none
    | some st => if st.seen ∧ st.done ∧ st.stack = [] then some st.toks else none

end JsonParse
