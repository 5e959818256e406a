import Gargantua.Lib.CString

/-! # Routes in the server (`src/http/route.c`, `split_path`, `url_decode`)

    The path of a request is cut from its target, decoded in place and matched
    segment by segment against every route of its method; the route with the
    fewest placeholders wins, and two of them with equally many win nothing.

    A C string is the list of its bytes without the terminator; the end of the
    list is where the code finds NUL. -/

namespace RouteRuntime

open CString

/-- `ROUTE_SEGMENT_MAX`, `ROUTE_MAX_URL`, `PATH_PARAM_MAX`, `PARAM_VALUE_LEN`,
    `RUNTIME_MAX_TEXT`, `HTTP_MAX_PATH` and `INT_MAX`. -/
abbrev ROUTE_SEGMENT_MAX : Nat := 66
abbrev ROUTE_MAX_URL : Nat := 128
abbrev PATH_PARAM_MAX : Nat := 8
abbrev PARAM_VALUE_LEN : Nat := 64
abbrev RUNTIME_MAX_TEXT : Nat := 1024 * 1024
abbrev HTTP_MAX_PATH : Nat := 512
abbrev INT_MAX : Nat := 2 ^ 31 - 1

abbrev slash : Byte := 0x2F
abbrev backslash : Byte := 0x5C
abbrev percent : Byte := 0x25
abbrev question : Byte := 0x3F
abbrev openBrace : Byte := 0x7B
abbrev closeBrace : Byte := 0x7D

/-- `Route`; a handler is known by its name. -/
structure Route where
  method : Bytes
  url : Bytes
  contentType : Bytes
  status : Nat
  handler : Option Bytes
  deriving Repr, DecidableEq

/-- `RequestParams`: the values of the placeholders in order, the query, and
    `invalid`. -/
structure RequestParams where
  pathValue : List Bytes
  query : List (Bytes × Bytes)
  invalid : Bool
  deriving Repr, DecidableEq

/-! ## The path of a request -/

/-- `hex_digit_value`. -/
def hexDigitValue (c : Byte) : Option Nat :=
  if 0x30 ≤ c ∧ c ≤ 0x39 then some (c.toNat - 0x30)
  else if 0x61 ≤ c ∧ c ≤ 0x66 then some (c.toNat - 0x61 + 10)
  else if 0x41 ≤ c ∧ c ≤ 0x46 then some (c.toNat - 0x41 + 10)
  else none

/-- `url_decode`, with `read` bytes behind it. -/
def urlDecodeLoop : Nat → Bytes → Option Bytes
  | read, [] => if read = RUNTIME_MAX_TEXT then none else some []
  | read, c :: s =>
      if read ≥ RUNTIME_MAX_TEXT then
        -- an escape can step over the bound, and then the rest is cut off
        if read = RUNTIME_MAX_TEXT then none else some []
      else if c = percent then
        match s with
        | h :: l :: rest =>
            match hexDigitValue h, hexDigitValue l with
            | some hi, some lo =>
                let decoded := hi * 16 + lo
                if decoded < 0x20 ∨ decoded = 0x7F then none
                else (urlDecodeLoop (read + 3) rest).map (decoded.toUInt8 :: ·)
            | _, _ => none
        | _ => none
      else (urlDecodeLoop (read + 1) s).map (c :: ·)

/-- `url_decode`. -/
def urlDecode (text : Bytes) : Option Bytes := urlDecodeLoop 0 text

/-- The scan of `split_path` for an encoded slash or backslash. -/
def encodedSeparator : Bytes → Bool
  | [] => false
  | c :: s =>
      (c == percent && match s with
        | a :: b :: _ =>
            (a == 0x32 && (b == 0x66 || b == 0x46)) || (a == 0x35 && (b == 0x63 || b == 0x43))
        | _ => false)
      || encodedSeparator s

/-- A segment that `split_path` refuses. -/
def badSegment (segment : Bytes) : Bool :=
  segment == [] || segment == [0x2E] || segment == [0x2E, 0x2E]

/-- The last loop of `split_path`, over what is behind a slash; each round
    consumes a byte, so `n` rounds are enough for `n` bytes. -/
def segmentsOk : Nat → Bytes → Bool
  | 0, segment => segment == []
  | n + 1, segment =>
      if segment = [] then true
      else if badSegment (segment.takeWhile (· != slash)) then false
      else
        match segment.dropWhile (· != slash) with
        | [] => true
        | _ :: rest => if rest = [] then false else segmentsOk n rest

/-- `split_path`: the decoded path and the query. -/
def splitPath (target : Bytes) : Option (Bytes × Option Bytes) :=
  let path := target.takeWhile (· != question)
  let query := match target.dropWhile (· != question) with
    | [] => none
    | _ :: query => some query
  if backslash ∈ path then none
  else if encodedSeparator path then none
  else
    match urlDecode path with
    | none => none
    | some path =>
        if backslash ∈ path ∨ path.head? ≠ some slash then none
        else if !segmentsOk path.length path.tail then none
        else some (path, query)

/-! ## Matching -/

/-- `next_segment`: the segment in front and what is behind its slash. -/
def nextSegment (s : Bytes) : Bytes × Bytes :=
  (s.takeWhile (· != slash), (s.dropWhile (· != slash)).drop 1)

/-- A segment that stands for a value. -/
def isDynamic (segment : Bytes) : Bool :=
  1 < segment.length && segment.head? == some openBrace
    && segment.getLast? == some closeBrace

/-- The loop of `path_matches`, `guard` being the rounds left. -/
def pathMatchesLoop : Nat → Bytes → Bytes → RequestParams → Int × RequestParams
  | 0, _, _, out => (0, out)
  | guard + 1, pattern, url, out =>
      if pattern = [] ∧ url = [] then (1, out)
      else if pattern = [] ∨ url = [] then (0, out)
      else
        let (p, pattern) := nextSegment pattern
        let (u, url) := nextSegment url
        if isDynamic p = true then
          if out.pathValue.length ≥ PATH_PARAM_MAX then (0, out)
          else if u = [] then (0, out)
          else if u.length ≥ PARAM_VALUE_LEN then (-1, { out with invalid := true })
          else pathMatchesLoop guard pattern url { out with pathValue := out.pathValue ++ [u] }
        -- the lengths and then the bytes
        else if p ≠ u then (0, out)
        else pathMatchesLoop guard pattern url out

/-- `path_matches`. -/
def pathMatches (pattern url : Bytes) (out : RequestParams) : Int × RequestParams :=
  pathMatchesLoop ROUTE_SEGMENT_MAX pattern url { out with pathValue := [] }

/-- `dynamic_segment_count`. -/
def dynamicSegmentCount (pattern : Bytes) : Nat :=
  (pattern.take ROUTE_MAX_URL).countP (· == openBrace)

/-- `params_reset`. -/
def paramsReset : RequestParams := ⟨[], [], false⟩

/-- The variables of the loop of `route_find_exact`. -/
structure Search where
  sawInvalid : Bool
  ambiguous : Bool
  bestDynamic : Nat
  best : Option Route
  bestParams : RequestParams
  deriving Repr, DecidableEq

/-- One round of it. -/
def searchStep (method url : Bytes) (s : Search) (r : Route) : Search :=
  if r.handler = none then s
  else if r.method ≠ method then s
  else
    let (matched, candidate) := pathMatches r.url url paramsReset
    let s :=
      if matched = 1 then
        let dynamic := dynamicSegmentCount r.url
        if dynamic < s.bestDynamic then
          { s with best := some r, bestParams := candidate, bestDynamic := dynamic,
                   ambiguous := false }
        else if dynamic = s.bestDynamic then { s with ambiguous := true }
        else s
      else s
    if matched < 0 then { s with sawInvalid := true } else s

/-- `route_find_exact`. -/
def routeFindExact (table : List Route) (method url : Bytes) :
    Option Route × RequestParams :=
  let s := table.foldl (searchStep method url) ⟨false, false, INT_MAX, none, paramsReset⟩
  match s.best, s.ambiguous with
  | some r, false => (some r, s.bestParams)
  | _, _ => (none, { paramsReset with invalid := s.sawInvalid || s.ambiguous })

/-- `route_find`. -/
def routeFind (table : List Route) (method url : Bytes) : Option Route × RequestParams :=
  let (route, out) := routeFindExact table method url
  if route = none ∧ out.invalid = false ∧ method = lit "HEAD" then
    routeFindExact table (lit "GET") url
  else (route, out)

/-- `path_param_text`. -/
def pathParamText (p : RequestParams) (index : Int) : Bytes :=
  if index ≥ p.pathValue.length ∨ index ≥ (PATH_PARAM_MAX : Int) then []
  else p.pathValue.getD index.toNat []

end RouteRuntime
