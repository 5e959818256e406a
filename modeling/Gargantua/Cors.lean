import Gargantua.Lib.Separated
import Gargantua.HttpExact
import Gargantua.RouteRuntime
import Gargantua.SendResponse

/-! # The CORS decision (`src/server/server_http.c`, `route_allow`)

    Three functions look at the headers of a request and at lists that are
    written with commas: `cors_prepare` lets an origin through, `route_allow`
    lists the methods of a path, and `cors_preflight` compares what a preflight
    asks for with both.  Each list is taken apart by a loop of its own, and each
    loop finds the entries of the list (`listContains_iff`, `requestedLoop_iff`,
    `routeAllow_entries`). -/

namespace Cors

open CString Separated HttpParse ResponseHeaders SendResponse
open RouteRuntime (RequestParams routeFind)

abbrev COMMA : Byte := 0x2C

/-- `cors.origins`, `cors.headers` and `cors.credentials` as `config_str` finds
    them, empty or `false` where they are not set. -/
structure Config where
  origins : Bytes := []
  headers : Bytes := []
  credentials : Bytes := lit "false"

/-! ## The source -/

/-- What `header_single_value` returns, `0`, `1` or `-1`, and the C string that
    it leaves in its buffer. -/
inductive Single (cap : Nat) where
  | absent
  | one (value : Bytes) (lt : value.length < cap)
  | bad

theorem cstr_length_lt {s : Bytes} {cap : Nat} (h : s.length < cap) : (cstr s).length < cap :=
  Nat.lt_of_le_of_lt (List.takeWhile_sublist _).length_le h

/-- The loop of `header_single_value`. -/
def headerSingleLoop (name : Bytes) (cap : Nat) : Single cap → List HttpHeader → Single cap
  | found, [] => found
  | found, h :: hs =>
      if headerNameIs h name = false then headerSingleLoop name cap found hs
      else
        match found with
        | .absent =>
            if hcap : h.value.length < cap then
              if responseValue (cstr h.value) = false then .bad
              else headerSingleLoop name cap (.one (cstr h.value) (cstr_length_lt hcap)) hs
            else .bad
        | _ => .bad

/-- `header_single_value`. -/
def headerSingleValue (req : HttpRequest) (name : Bytes) (cap : Nat) : Single cap :=
  headerSingleLoop name cap .absent (req.headers.take HTTP_MAX_HEADERS)

/-- The loop of `list_contains`; each round leaves an entry behind, so `n` rounds
    are enough for `n` bytes. -/
def listContainsLoop (value : Bytes) (exact : Bool) : Nat → Bytes → Bool
  | 0, _ => false
  | n + 1, s =>
      if s = [] then false
      else
        let s := s.dropWhile isOws
        let entry := (s.takeWhile (· != COMMA)).rdropWhile isOws
        if value.length > 0 ∧ entry.length = value.length
            ∧ (if exact then entry = value else strncasecmpEq value.length entry value = true) then
          true
        else listContainsLoop value exact n ((s.dropWhile (· != COMMA)).drop 1)

/-- `list_contains`. -/
def listContains (list value : Bytes) (exact : Bool) : Bool :=
  listContainsLoop value exact list.length list

/-- The methods that `route_allow` tries. -/
def METHODS : List Bytes :=
  [lit "GET", lit "HEAD", lit "POST", lit "PUT", lit "PATCH", lit "DELETE", lit "OPTIONS"]

/-- The variables of `route_allow`. -/
structure Allow where
  out : Bytes := []
  found : Bool := false
  invalid : Bool := false

/-- The loop of `route_allow`. -/
def routeAllowLoop (table : List RouteRuntime.Route) (url : Bytes) (cap : Nat) :
    Allow → List Bytes → Int × Bytes
  | s, [] => (if s.found then 1 else if s.invalid then -1 else 0, s.out)
  | s, method :: methods =>
      let (route, params) := routeFind table method url
      let s := if route = none then { s with invalid := s.invalid || params.invalid } else s
      if route = none ∧ ¬ (method = lit "OPTIONS" ∧ s.found = true) then
        routeAllowLoop table url cap s methods
      else
        let separator := if s.out.length > 0 then lit ", " else []
        if s.out.length + separator.length + method.length ≥ cap then (-1, [])
        else
          routeAllowLoop table url cap
            { s with out := s.out ++ separator ++ method, found := true } methods

/-- `route_allow`, with the C string that it leaves. -/
def routeAllow (table : List RouteRuntime.Route) (url : Bytes) (cap : Nat) : Int × Bytes :=
  if cap = 0 then (-1, []) else routeAllowLoop table url cap {} METHODS

/-- `cors_prepare`. -/
def corsPrepare (c : Config) (x : Exchange) (req : HttpRequest) : Exchange :=
  let x := { x with cors := decide (c.origins ≠ []) }
  if x.cors = false then x
  else
    match headerSingleValue req (lit "Origin") RESPONSE_VALUE_CAP with
    | .one origin lt =>
        if origin ≠ lit "*" ∧ listContains c.origins origin true = true then
          { x with origin := origin, origin_lt := lt }
        else x
    | _ => x

/-- The loop of `cors_preflight` over the names of
    `Access-Control-Request-Headers`: the status that it returns, or `none` where
    it goes on behind the loop.  Each round but the last finds a comma, so one
    round more than there are bytes is enough. -/
def requestedLoop (headers : Bytes) : Nat → Bytes → Option Int
  | 0, _ => some 400
  | n + 1, s =>
      let name := ((s.takeWhile (· != COMMA)).dropWhile isOws).rdropWhile isOws
      if responseToken name = false then some 400
      else if listContains headers name false = false then some 403
      else
        match s.dropWhile (· != COMMA) with
        | [] => none
        | _ :: rest => requestedLoop headers n rest

/-- `cors_preflight`; the loop works in a copy of the header, which is then read
    once more. -/
def corsPreflight (c : Config) (x : Exchange) (req : HttpRequest) (allow : Bytes) :
    Int × Exchange :=
  let m := headerSingleValue req (lit "Access-Control-Request-Method") HTTP_MAX_METHOD
  let h := headerSingleValue req (lit "Access-Control-Request-Headers") RESPONSE_VALUE_CAP
  if x.cors = false ∨ cstr req.method ≠ lit "OPTIONS" then (0, x)
  else
    match m, h with
    | .absent, .absent => (0, x)
    | .one method _, .absent =>
        let x := { x with preflight := true }
        if responseToken method = false then (400, x)
        else if x.origin = [] ∨ listContains allow method true = false then (403, x)
        else (204, x)
    | .one method _, .one requested _ =>
        let x := { x with preflight := true }
        if responseToken method = false then (400, x)
        else if x.origin = [] ∨ listContains allow method true = false then (403, x)
        else
          match requestedLoop c.headers (requested.length + 1) requested with
          | some status => (status, x)
          | none =>
              match headerSingleValue req (lit "Access-Control-Request-Headers")
                  RESPONSE_VALUE_CAP with
              | .one requested lt =>
                  (204, { x with requestedHeaders := requested, requestedHeaders_lt := lt })
              | _ => (400, x)
    | _, _ => (400, { x with preflight := true })

/-! ## The headers of a request -/

/-- The headers of a name, however it is written. -/
def named (name : Bytes) (headers : List HttpHeader) : List HttpHeader :=
  headers.filter fun h => h.name.map toLower == name.map toLower

theorem headerNameIs_eq (h : HttpHeader) {name : Bytes} (hname : (0 : Byte) ∉ name) :
    headerNameIs h name = (h.name.map toLower == name.map toLower) := by
  rw [headerNameIs]
  by_cases hlen : h.name.length = name.length
  · rw [beq_iff_eq.mpr hlen, Bool.true_and, Bool.eq_iff_iff, strncasecmpEq_iff hname hlen, beq_iff_eq]
  · have hne : h.name.map toLower ≠ name.map toLower := fun heq => hlen (by
      have hmap := congrArg List.length heq
      rwa [List.length_map, List.length_map] at hmap)
    rw [beq_eq_false_iff_ne.mpr hlen, Bool.false_and, beq_eq_false_iff_ne.mpr hne]

section Named

variable {name : Bytes} {cap : Nat}

theorem named_cons_is (hname : (0 : Byte) ∉ name) {h : HttpHeader} (his : headerNameIs h name = true)
    (hs : List HttpHeader) : named name (h :: hs) = h :: named name hs :=
  List.filter_cons_of_pos (by rw [← headerNameIs_eq h hname, his])

theorem named_cons_not (hname : (0 : Byte) ∉ name) {h : HttpHeader}
    (his : headerNameIs h name = false) (hs : List HttpHeader) :
    named name (h :: hs) = named name hs :=
  List.filter_cons_of_neg (by rw [← headerNameIs_eq h hname, his]; exact Bool.false_ne_true)

/-- Behind a header of the name the loop looks for a second one. -/
theorem headerSingleLoop_found (hname : (0 : Byte) ∉ name) {found : Single cap}
    (hfound : found ≠ .absent) (hs : List HttpHeader) :
    headerSingleLoop name cap found hs = if named name hs = [] then found else .bad := by
  induction hs with
  | nil => rfl
  | cons h hs ih =>
      have hstep : headerSingleLoop name cap found (h :: hs)
          = if headerNameIs h name = false then headerSingleLoop name cap found hs else .bad := by
        rw [headerSingleLoop]
        exact hfound
      rw [hstep]
      cases his : headerNameIs h name with
      | false => rw [if_pos rfl, ih, named_cons_not hname his]
      | true =>
          rw [if_neg (Bool.false_ne_true ·.symm), named_cons_is hname his,
            if_neg (List.cons_ne_nil _ _)]

/-- What `header_single_value` finds. -/
theorem headerSingleLoop_cases (hname : (0 : Byte) ∉ name) (hs : List HttpHeader) :
    (headerSingleLoop name cap .absent hs = .absent ∧ named name hs = [])
      ∨ (∃ h lt, headerSingleLoop name cap .absent hs = .one (cstr h.value) lt ∧ named name hs = [h])
      ∨ (headerSingleLoop name cap .absent hs = .bad ∧ named name hs ≠ []) := by
  induction hs with
  | nil => exact .inl ⟨rfl, rfl⟩
  | cons h hs ih =>
      rw [headerSingleLoop]
      cases his : headerNameIs h name with
      | false =>
          rw [if_pos rfl, named_cons_not hname his]
          exact ih
      | true =>
          rw [if_neg (Bool.false_ne_true ·.symm), named_cons_is hname his]
          by_cases hcap : h.value.length < cap
          · rw [dif_pos hcap]
            by_cases hvalue : responseValue (cstr h.value) = false
            · rw [if_pos hvalue]
              exact .inr (.inr ⟨rfl, List.cons_ne_nil _ _⟩)
            · rw [if_neg hvalue, headerSingleLoop_found hname (by simp)]
              by_cases hrest : named name hs = []
              · rw [if_pos hrest, hrest]
                exact .inr (.inl ⟨h, _, rfl, rfl⟩)
              · rw [if_neg hrest]
                exact .inr (.inr ⟨rfl, List.cons_ne_nil _ _⟩)
          · rw [dif_neg hcap]
            exact .inr (.inr ⟨rfl, List.cons_ne_nil _ _⟩)

end Named

/-- A request as `http_parse_request` hands it over, as far as its headers go. -/
structure Parsed (req : HttpRequest) : Prop where
  count : req.headers.length ≤ HTTP_MAX_HEADERS
  chars : ∀ h ∈ req.headers, ∀ c ∈ h.value, isValueChar c = true
  trimmed : ∀ h ∈ req.headers, trim isOws h.value = h.value

theorem parsed_request {buf : Bytes} {req : HttpRequest} (h : httpParseRequest buf = .ok req) :
    Parsed req := by
  obtain ⟨m, hm, -, rfl⟩ := HttpExact.httpParseRequest_ok_iff.mp h
  have hfield : ∀ x ∈ m.head.headers, ∃ f ∈ m.head.fields, f.header = x :=
    fun x hx => List.mem_map.mp hx
  refine ⟨?_, fun x hx c hc => ?_, fun x hx => ?_⟩
  · show m.head.headers.length ≤ 64
    rw [HttpGrammar.Head.headers, List.length_map]
    exact hm.head_wf.fields_len
  · obtain ⟨f, hf, rfl⟩ := hfield x hx
    exact (HttpGrammar.isValueChar_iff c).mpr ((hm.head_wf.fields_wf f hf).value_char c hc)
  · obtain ⟨f, hf, rfl⟩ := hfield x hx
    exact trim_eq_self (hm.head_wf.fields_wf f hf).value_left (hm.head_wf.fields_wf f hf).value_right

/-- **`header_single_value` finds the only header of a name**, and tells a name
    that is not there from one that it cannot answer for. -/
theorem headerSingleValue_cases {req : HttpRequest} (hreq : Parsed req) (name : Bytes)
    (hname : (0 : Byte) ∉ name) (cap : Nat) :
    (headerSingleValue req name cap = .absent ∧ named name req.headers = [])
      ∨ (∃ h lt, headerSingleValue req name cap = .one h.value lt ∧ named name req.headers = [h])
      ∨ (headerSingleValue req name cap = .bad ∧ named name req.headers ≠ []) := by
  rw [headerSingleValue, List.take_of_length_le hreq.count]
  rcases @headerSingleLoop_cases _ cap hname req.headers with h | ⟨h, lt, hone, hnamed⟩ | h
  · exact .inl h
  · have hmem : h ∈ req.headers := (List.mem_filter.mp (hnamed ▸ List.mem_singleton_self h)).1
    have hnul : (0 : Byte) ∉ h.value := fun h0 =>
      absurd (hreq.chars h hmem 0 h0) (by decide)
    have hself : cstr h.value = h.value := cstr_eq_self hnul
    exact .inr (.inl ⟨h, hself ▸ lt, by rw [hone]; congr, hnamed⟩)
  · exact .inr (.inr h)

/-! ## Lists with commas -/

/-- The entries of a list in the configuration, or the names in a header. -/
abbrev listed (list : Bytes) : List Bytes := entries isOws COMMA list

/-- The two comparisons of `list_contains`. -/
def Same (exact : Bool) (entry value : Bytes) : Prop :=
  if exact then entry = value else entry.map toLower = value.map toLower

theorem Same.nil {exact : Bool} {value : Bytes} (h : Same exact [] value) : value = [] := by
  cases exact with
  | true => exact Eq.symm h
  | false => exact List.map_eq_nil_iff.mp (Eq.symm h)

/-- What a round of `list_contains` compares. -/
theorem compared_iff {exact : Bool} {entry value : Bytes} (hvalue : (0 : Byte) ∉ value) :
    (value.length > 0 ∧ entry.length = value.length
        ∧ (if exact then entry = value else strncasecmpEq value.length entry value = true))
      ↔ value ≠ [] ∧ Same exact entry value := by
  refine and_congr List.length_pos_iff ?_
  cases exact with
  | true => exact ⟨fun h => h.2, fun h => ⟨congrArg List.length h, h⟩⟩
  | false =>
      constructor
      · rintro ⟨hlen, hsame⟩
        exact (strncasecmpEq_iff hvalue hlen).mp hsame
      · intro hsame
        have hlen := congrArg List.length (show entry.map toLower = value.map toLower from hsame)
        rw [List.length_map, List.length_map] at hlen
        exact ⟨hlen, (strncasecmpEq_iff hvalue hlen).mpr hsame⟩

theorem isOws_ne_comma (c : Byte) (h : isOws c = true) : (c != COMMA) = true := by
  refine bne_iff_ne.mpr ?_
  rintro rfl
  exact absurd h (by decide)

/-- The first entry and the ones behind its comma. -/
theorem listed_step (s : Bytes) :
    listed s = trim isOws (s.takeWhile (· != COMMA))
      :: match s.dropWhile (· != COMMA) with
        | [] => []
        | _ :: rest => listed rest := by
  rw [listed, entries, splitOn_step, List.map_cons]
  cases s.dropWhile (· != COMMA) <;> rfl

theorem listed_nil : listed [] = [[]] := rfl

/-- The loop goes over the entries. -/
theorem listContainsLoop_iff {value : Bytes} (hvalue : (0 : Byte) ∉ value) (exact : Bool) :
    ∀ (n : Nat) {s : Bytes}, s.length ≤ n →
      (listContainsLoop value exact n s = true ↔
        value ≠ [] ∧ ∃ entry ∈ listed s, Same exact entry value) := by
  have hnil : ¬ (value ≠ [] ∧ ∃ entry ∈ listed [], Same exact entry value) := by
    rintro ⟨hne, entry, hentry, hsame⟩
    rw [listed_nil, List.mem_singleton] at hentry
    exact hne (Same.nil (hentry ▸ hsame))
  intro n
  induction n with
  | zero =>
      intro s hs
      rw [List.length_eq_zero_iff.mp (Nat.le_zero.mp hs)]
      exact iff_of_false Bool.false_ne_true hnil
  | succ n ih =>
      intro s hs
      rw [listContainsLoop]
      by_cases hempty : s = []
      · rw [if_pos hempty, hempty]
        exact iff_of_false Bool.false_ne_true hnil
      rw [if_neg hempty]
      dsimp only
      rw [takeWhile_dropWhile isOws_ne_comma, dropWhile_dropWhile isOws_ne_comma]
      have hrest : ((s.dropWhile (· != COMMA)).drop 1).length ≤ n := by
        have hle := (List.dropWhile_sublist (· != COMMA) (l := s)).length_le
        rw [List.length_drop]
        omega
      have hlater : (listContainsLoop value exact n ((s.dropWhile (· != COMMA)).drop 1) = true ↔
          value ≠ [] ∧ ∃ entry ∈ (match s.dropWhile (· != COMMA) with
            | [] => []
            | _ :: rest => listed rest), Same exact entry value) := by
        rw [ih hrest]
        cases s.dropWhile (· != COMMA) with
        | nil => exact iff_of_false hnil fun h => nomatch h.2.choose_spec.1
        | cons c rest => rfl
      have htrim : ((s.takeWhile (· != COMMA)).dropWhile isOws).rdropWhile isOws
          = trim isOws (s.takeWhile (· != COMMA)) := rfl
      rw [listed_step s, htrim]
      simp only [List.mem_cons, exists_eq_or_imp]
      by_cases hhere : value ≠ [] ∧ Same exact (trim isOws (s.takeWhile (· != COMMA))) value
      · rw [if_pos ((compared_iff hvalue).mpr hhere)]
        exact iff_of_true rfl ⟨hhere.1, .inl hhere.2⟩
      · rw [if_neg (mt (compared_iff hvalue).mp hhere), hlater]
        constructor
        · rintro ⟨hne, h⟩
          exact ⟨hne, .inr h⟩
        · rintro ⟨hne, h | h⟩
          · exact absurd ⟨hne, h⟩ hhere
          · exact ⟨hne, h⟩

/-- **`list_contains` is membership** among the entries, up to case or not. -/
theorem listContains_iff {value : Bytes} (hvalue : (0 : Byte) ∉ value) (list : Bytes) (exact : Bool) :
    listContains list value exact = true ↔
      value ≠ [] ∧ ∃ entry ∈ listed list, Same exact entry value :=
  listContainsLoop_iff hvalue exact list.length le_rfl

/-- A name in a preflight: a token that the configuration lists. -/
def NameAllowed (headers name : Bytes) : Prop :=
  responseToken name = true ∧ ∃ entry ∈ listed headers, entry.map toLower = name.map toLower

/-- **The loop over the requested names** accepts exactly the lists of allowed
    ones; elsewhere the status is an error. -/
theorem requestedLoop_cases (headers : Bytes) : ∀ (n : Nat) {s : Bytes}, s.length < n →
    (0 : Byte) ∉ s →
      (requestedLoop headers n s = none ∧ ∀ name ∈ listed s, NameAllowed headers name)
        ∨ (requestedLoop headers n s = some 400 ∨ requestedLoop headers n s = some 403) := by
  intro n
  induction n with
  | zero => exact fun hs => absurd hs (Nat.not_lt_zero _)
  | succ n ih =>
      intro s hs hnul
      rw [requestedLoop, listed_step s]
      have htrim : ((s.takeWhile (· != COMMA)).dropWhile isOws).rdropWhile isOws
          = trim isOws (s.takeWhile (· != COMMA)) := rfl
      rw [htrim]
      have hname : (0 : Byte) ∉ trim isOws (s.takeWhile (· != COMMA)) := fun h0 =>
        hnul (List.takeWhile_subset _ (mem_trim h0))
      generalize trim isOws (s.takeWhile (· != COMMA)) = name at hname
      by_cases htoken : responseToken name = false
      · rw [if_pos htoken]
        exact .inr (.inl rfl)
      rw [if_neg htoken]
      by_cases hlist : listContains headers name false = false
      · rw [if_pos hlist]
        exact .inr (.inr rfl)
      rw [if_neg hlist]
      have hhead : NameAllowed headers name :=
        ⟨Bool.not_eq_false _ ▸ htoken, ((listContains_iff hname headers false).mp
          (Bool.not_eq_false _ ▸ hlist)).2⟩
      cases hdrop : s.dropWhile (· != COMMA) with
      | nil => exact .inl ⟨rfl, List.forall_mem_singleton.mpr hhead⟩
      | cons c rest =>
          have hsub : c :: rest ⊆ s := hdrop ▸ List.dropWhile_subset _
          have hlen := (List.dropWhile_sublist (· != COMMA) (l := s)).length_le
          rw [hdrop, List.length_cons] at hlen
          rcases ih (s := rest) (by omega) (fun h0 => hnul (hsub (List.mem_cons_of_mem c h0)))
            with ⟨hnone, hall⟩ | h
          · exact .inl ⟨hnone, List.forall_mem_cons.mpr ⟨hhead, hall⟩⟩
          · exact .inr h

/-! ## The methods of a path -/

/-- The router finds a route for the method. -/
def Finds (table : List RouteRuntime.Route) (url method : Bytes) : Prop :=
  (routeFind table method url).1 ≠ none

instance (table : List RouteRuntime.Route) (url method : Bytes) : Decidable (Finds table url method) :=
  inferInstanceAs (Decidable (_ ≠ _))

/-- A method that `route_allow` lists: one with a route, and `OPTIONS` beside any
    other. -/
def Allowed (table : List RouteRuntime.Route) (url method : Bytes) : Prop :=
  (method ∈ METHODS ∧ Finds table url method)
    ∨ (method = lit "OPTIONS" ∧ ∃ other ∈ METHODS, Finds table url other)

/-- A text that is one entry of a list. -/
structure Entry (method : Bytes) : Prop where
  nonempty : method ≠ []
  comma : COMMA ∉ method
  trimmed : trim isOws method = method
  short : method.length ≤ 7
  chars : ∀ b ∈ method, isValueChar b = true

theorem methods_entries : ∀ method ∈ METHODS, Entry method := by
  intro method hmethod
  have hall : ∀ m ∈ METHODS, m ≠ [] ∧ COMMA ∉ m ∧ trim isOws m = m ∧ m.length ≤ 7
      ∧ m.all isValueChar = true := by decide
  obtain ⟨h1, h2, h3, h4, h5⟩ := hall method hmethod
  exact ⟨h1, h2, h3, h4, List.all_eq_true.mp h5⟩

section Allow

variable (table : List RouteRuntime.Route) (url : Bytes)

/-- The separator in front of an entry. -/
def separator (s : Allow) : Bytes := if s.out.length > 0 then lit ", " else []

theorem separator_length (s : Allow) : (separator s).length ≤ 2 := by
  rw [separator]
  split
  · decide
  · exact Nat.zero_le _

theorem separator_chars (s : Allow) : ∀ b ∈ separator s, isValueChar b = true := by
  rw [separator]
  split
  · decide
  · exact fun b hb => by cases hb

/-- One more entry. -/
theorem listed_separator (s : Allow) {method : Bytes} (hm : Entry method) {x : Bytes} (hx : x ≠ []) :
    x ∈ listed (s.out ++ separator s ++ method) ↔ x ∈ listed s.out ∨ x = method := by
  have hcomma : COMMA ∉ SP :: method := by
    rw [List.mem_cons, not_or]
    exact ⟨by decide, hm.comma⟩
  rw [separator]
  by_cases hout : s.out.length > 0
  · have htext : s.out ++ lit ", " ++ method = s.out ++ COMMA :: SP :: method := by
      rw [List.append_assoc]
      rfl
    rw [if_pos hout, htext, listed, entries_append _ hcomma, trim_cons rfl, hm.trimmed,
      List.mem_append, List.mem_singleton]
  · have hnil : s.out = [] := List.length_eq_zero_iff.mp (Nat.eq_zero_of_not_pos hout)
    rw [if_neg hout, hnil, List.nil_append, List.nil_append, listed_nil, listed, entries,
      List.splitOn_eq_singleton hm.comma, List.map_singleton, hm.trimmed, List.mem_singleton,
      List.mem_singleton]
    exact ⟨.inr, fun h => h.resolve_left hx⟩

/-- One round of `route_allow`. -/
theorem routeAllowLoop_step {cap : Nat} {s : Allow} {method : Bytes} {methods : List Bytes}
    (hm : Entry method) (hroom : s.out.length + 9 * (method :: methods).length < cap) :
    ∃ s' : Allow, routeAllowLoop table url cap s (method :: methods)
        = routeAllowLoop table url cap s' methods
      ∧ s'.out.length + 9 * methods.length < cap
      ∧ (if Finds table url method ∨ (method = lit "OPTIONS" ∧ s.found = true) then
          s'.out = s.out ++ separator s ++ method ∧ s'.found = true
        else s'.out = s.out ∧ s'.found = s.found) := by
  rw [List.length_cons] at hroom
  rw [routeAllowLoop]
  rcases hfind : routeFind table method url with ⟨route, params⟩
  have hroute : Finds table url method ↔ route ≠ none := by rw [Finds, hfind]
  dsimp only
  set t : Allow := if route = none then { s with invalid := s.invalid || params.invalid } else s
    with ht
  have hout : t.out = s.out ∧ t.found = s.found := by
    rw [ht]
    split
    · exact ⟨rfl, rfl⟩
    · exact ⟨rfl, rfl⟩
  rw [hout.2]
  by_cases hskip : route = none ∧ ¬ (method = lit "OPTIONS" ∧ s.found = true)
  · rw [if_pos hskip]
    refine ⟨t, rfl, by rw [hout.1]; omega, ?_⟩
    rw [if_neg (by
      rintro (h | h)
      · exact hroute.mp h hskip.1
      · exact hskip.2 h)]
    exact hout
  · have hlen := separator_length s
    have hshort := hm.short
    have hsep : (if t.out.length > 0 then lit ", " else []) = separator s := by
      rw [separator, hout.1]
    have hfits : ¬ (s.out.length + (separator s).length + method.length ≥ cap) := by omega
    rw [if_neg hskip, hsep, hout.1, if_neg hfits]
    refine ⟨_, rfl, ?_, ?_⟩
    · simp only [List.length_append]
      omega
    · rw [if_pos (by
        by_contra hno
        rw [not_or, hroute] at hno
        exact hskip ⟨not_not.mp hno.1, hno.2⟩)]
      exact ⟨rfl, rfl⟩

/-- The rounds add the methods that have a route, and `OPTIONS` at the end. -/
theorem routeAllowLoop_listed {cap : Nat} {x : Bytes} (hx : x ≠ []) (front : List Bytes) :
    ∀ {s : Allow}, (∀ m ∈ front ++ [lit "OPTIONS"], Entry m) → lit "OPTIONS" ∉ front →
      s.out.length + 9 * (front ++ [lit "OPTIONS"]).length < cap →
      (x ∈ listed (routeAllowLoop table url cap s (front ++ [lit "OPTIONS"])).2 ↔
        x ∈ listed s.out ∨ (x ∈ front ∧ Finds table url x)
          ∨ (x = lit "OPTIONS" ∧ (Finds table url (lit "OPTIONS") ∨ s.found = true
              ∨ ∃ m ∈ front, Finds table url m))) := by
  induction front with
  | nil =>
      intro s hentries _ hroom
      rw [List.nil_append] at hentries hroom ⊢
      have hm := hentries _ (List.mem_singleton_self _)
      obtain ⟨s', hstep, -, hs'⟩ := routeAllowLoop_step table url hm hroom
      rw [hstep, routeAllowLoop]
      by_cases hadd : Finds table url (lit "OPTIONS") ∨ (lit "OPTIONS" = lit "OPTIONS" ∧ s.found = true)
      · rw [if_pos hadd] at hs'
        rw [hs'.1, listed_separator s hm hx]
        refine or_congr_right ⟨fun h => .inr ⟨h, hadd.imp_right fun h => .inl h.2⟩, fun h => ?_⟩
        rcases h with h | h
        · exact nomatch h.1
        · exact h.1
      · rw [if_neg hadd] at hs'
        rw [hs'.1]
        refine ⟨.inl, fun h => ?_⟩
        rcases h with h | h | ⟨-, h | h | ⟨m, hm, -⟩⟩
        · exact h
        · exact nomatch h.1
        · exact absurd (.inl h) hadd
        · exact absurd (.inr ⟨rfl, h⟩) hadd
        · exact nomatch hm
  | cons method front ih =>
      intro s hentries hoptions hroom
      rw [List.mem_cons, not_or] at hoptions
      have hm := hentries method List.mem_cons_self
      rw [List.cons_append] at hroom ⊢
      obtain ⟨s', hstep, hroom', hs'⟩ := routeAllowLoop_step table url hm hroom
      rw [hstep, ih (fun m h => hentries m (List.mem_cons_of_mem method h)) hoptions.2 hroom']
      -- a method with a route is listed now, and lets `OPTIONS` in at the end
      by_cases hfinds : Finds table url method
      · rw [if_pos (.inl hfinds)] at hs'
        rw [hs'.1, hs'.2, listed_separator s hm hx]
        constructor
        · rintro ((h | rfl) | ⟨h, hf⟩ | ⟨h, -⟩)
          · exact .inl h
          · exact .inr (.inl ⟨List.mem_cons_self, hfinds⟩)
          · exact .inr (.inl ⟨List.mem_cons_of_mem method h, hf⟩)
          · exact .inr (.inr ⟨h, .inr (.inr ⟨method, List.mem_cons_self, hfinds⟩)⟩)
        · rintro (h | ⟨h, hf⟩ | ⟨h, -⟩)
          · exact .inl (.inl h)
          · rcases List.mem_cons.mp h with h | h
            · exact .inl (.inr h)
            · exact .inr (.inl ⟨h, hf⟩)
          · exact .inr (.inr ⟨h, .inr (.inl rfl)⟩)
      · rw [if_neg (by
          rintro (h | h)
          · exact hfinds h
          · exact hoptions.1 h.1.symm)] at hs'
        rw [hs'.1, hs'.2]
        refine or_congr_right (or_congr ?_ (and_congr_right fun _ => or_congr_right
          (or_congr_right ?_)))
        · constructor
          · rintro ⟨h, hf⟩
            exact ⟨List.mem_cons_of_mem method h, hf⟩
          · rintro ⟨h, hf⟩
            rcases List.mem_cons.mp h with rfl | h
            · exact absurd hf hfinds
            · exact ⟨h, hf⟩
        · constructor
          · rintro ⟨m, h, hf⟩
            exact ⟨m, List.mem_cons_of_mem method h, hf⟩
          · rintro ⟨m, h, hf⟩
            rcases List.mem_cons.mp h with rfl | h
            · exact absurd hf hfinds
            · exact ⟨m, h, hf⟩

/-- **`route_allow` lists the allowed methods** and nothing else. -/
theorem routeAllow_listed {x : Bytes} (hx : x ≠ []) :
    x ∈ listed (routeAllow table url ROUTE_ALLOW_CAP).2 ↔ Allowed table url x := by
  have hmethods : METHODS = METHODS.dropLast ++ [lit "OPTIONS"] := rfl
  have hoptions : lit "OPTIONS" ∉ METHODS.dropLast := by decide
  rw [routeAllow, if_neg (by decide), hmethods,
    routeAllowLoop_listed table url hx METHODS.dropLast (fun m h => methods_entries m (hmethods ▸ h))
      hoptions (by decide), listed_nil, List.mem_singleton, Allowed, hmethods]
  simp only [List.mem_append, List.mem_singleton]
  constructor
  · rintro (h | ⟨h, hf⟩ | ⟨h, hf | hf | ⟨m, hm, hf⟩⟩)
    · exact absurd h hx
    · exact .inl ⟨.inl h, hf⟩
    · exact .inr ⟨h, _, .inr rfl, hf⟩
    · exact nomatch hf
    · exact .inr ⟨h, m, .inl hm, hf⟩
  · rintro (⟨h | h, hf⟩ | ⟨h, m, hm | rfl, hf⟩)
    · exact .inr (.inl ⟨h, hf⟩)
    · exact .inr (.inr ⟨h, .inl (h ▸ hf)⟩)
    · exact .inr (.inr ⟨h, .inr (.inr ⟨m, hm, hf⟩)⟩)
    · exact .inr (.inr ⟨h, .inl hf⟩)

/-- Its text fits, and holds what a header value may hold. -/
theorem routeAllowLoop_bounds {cap : Nat} : ∀ {methods : List Bytes} {s : Allow},
    (∀ m ∈ methods, Entry m) → s.out.length < cap → (∀ b ∈ s.out, isValueChar b = true) →
      (routeAllowLoop table url cap s methods).2.length < cap
        ∧ ∀ b ∈ (routeAllowLoop table url cap s methods).2, isValueChar b = true := by
  intro methods
  induction methods with
  | nil => exact fun _ hlen hchars => ⟨hlen, hchars⟩
  | cons method methods ih =>
      intro s hentries hlen hchars
      have hm := hentries method List.mem_cons_self
      have hrest := fun m h => hentries m (List.mem_cons_of_mem method h)
      have hpos := Nat.lt_of_le_of_lt (Nat.zero_le _) hlen
      rw [routeAllowLoop]
      obtain ⟨route, params⟩ := routeFind table method url
      dsimp only
      set t : Allow := if route = none then { s with invalid := s.invalid || params.invalid } else s
        with ht
      have hout : t.out = s.out := by
        rw [ht]
        split
        · rfl
        · rfl
      have hsep : (if t.out.length > 0 then lit ", " else []) = separator s := by
        rw [separator, hout]
      rw [hsep, hout]
      split
      · exact ih hrest (hout ▸ hlen) (hout ▸ hchars)
      · by_cases hfits : s.out.length + (separator s).length + method.length ≥ cap
        · rw [if_pos hfits]
          exact ⟨hpos, fun b hb => nomatch hb⟩
        · rw [if_neg hfits]
          refine ih hrest ?_ fun b hb => ?_
          · simp only [List.length_append]
            omega
          · simp only [List.mem_append] at hb
            rcases hb with (hb | hb) | hb
            · exact hchars b hb
            · exact separator_chars s b hb
            · exact hm.chars b hb

theorem routeAllow_bounds : (routeAllow table url ROUTE_ALLOW_CAP).2.length < ROUTE_ALLOW_CAP
    ∧ ∀ b ∈ (routeAllow table url ROUTE_ALLOW_CAP).2, isValueChar b = true := by
  rw [routeAllow, if_neg (by decide)]
  exact routeAllowLoop_bounds table url methods_entries (by decide) (fun b hb => nomatch hb)

end Allow

/-! ## What is let through -/

/-- The only `Origin` of the request has this value, an entry of `cors.origins`
    other than `*`. -/
structure OriginAllowed (c : Config) (req : HttpRequest) (value : Bytes) : Prop where
  only : ∃ h, named (lit "Origin") req.headers = [h] ∧ h.value = value
  notStar : value ≠ lit "*"
  entry : value ∈ listed c.origins
  nonempty : value ≠ []

/-- A preflight: `OPTIONS` that asks for a method or for headers. -/
def Preflight (req : HttpRequest) : Prop :=
  cstr req.method = lit "OPTIONS"
    ∧ (named (lit "Access-Control-Request-Method") req.headers ≠ []
      ∨ named (lit "Access-Control-Request-Headers") req.headers ≠ [])

/-- What a preflight asks for is allowed: its one method, and each name in its
    headers. -/
structure Granted (c : Config) (methods : Bytes → Prop) (req : HttpRequest) : Prop where
  method : ∃ h, named (lit "Access-Control-Request-Method") req.headers = [h] ∧ methods h.value
  once : (named (lit "Access-Control-Request-Headers") req.headers).length ≤ 1
  headers : ∀ h ∈ named (lit "Access-Control-Request-Headers") req.headers,
    ∀ name ∈ listed h.value, NameAllowed c.headers name

theorem Granted.imp {c : Config} {req : HttpRequest} {methods methods' : Bytes → Prop}
    (h : Granted c methods req) (himp : ∀ m, methods m → methods' m) : Granted c methods' req := by
  obtain ⟨header, hnamed, hmethod⟩ := h.method
  exact ⟨⟨header, hnamed, himp _ hmethod⟩, h.once, h.headers⟩

section Decision

variable {c : Config} {x : Exchange} {req : HttpRequest}

theorem value_no_nul (hreq : Parsed req) {name : Bytes} {h : HttpHeader}
    (hnamed : named name req.headers = [h]) : (0 : Byte) ∉ h.value := fun h0 => by
  have hmem : h ∈ req.headers := (List.mem_filter.mp (hnamed ▸ List.mem_singleton_self h)).1
  exact absurd (hreq.chars h hmem 0 h0) (by decide)

/-- **`cors_prepare` lets an allowed origin through**, and touches nothing else
    but `response_cors`. -/
theorem corsPrepare_cases (hreq : Parsed req) (c : Config) (x : Exchange) :
    corsPrepare c x req = { x with cors := decide (c.origins ≠ []) }
      ∨ ∃ origin lt, corsPrepare c x req
            = { x with cors := decide (c.origins ≠ []), origin := origin, origin_lt := lt }
          ∧ OriginAllowed c req origin := by
  rw [corsPrepare]
  dsimp only
  split
  · exact .inl rfl
  · rcases headerSingleValue_cases hreq (lit "Origin") (by decide) RESPONSE_VALUE_CAP with
      ⟨hone, -⟩ | ⟨h, lt, hone, hnamed⟩ | ⟨hone, -⟩
    · rw [hone]
      exact .inl rfl
    · rw [hone]
      dsimp only
      split
      · rename_i hok
        obtain ⟨hne, entry, hentry, hsame⟩ :=
          (listContains_iff (value_no_nul hreq hnamed) c.origins true).mp hok.2
        have heq : entry = h.value := hsame
        exact .inr ⟨h.value, lt, rfl, ⟨h, hnamed, rfl⟩, hok.1, heq ▸ hentry, hne⟩
      · exact .inl rfl
    · rw [hone]
      exact .inl rfl

/-- What `cors_preflight` answers. -/
inductive Decides (c : Config) (x : Exchange) (req : HttpRequest) (allow : Bytes) :
    Int × Exchange → Prop
  /-- The request is no preflight. -/
  | none (h : ¬ Preflight req) : Decides c x req allow (0, x)
  | refused {status : Int} (h : status = 400 ∨ status = 403) :
      Decides c x req allow (status, { x with preflight := true })
  | granted {requested : Bytes} {lt : requested.length < RESPONSE_VALUE_CAP}
      (horigin : x.origin ≠ []) (h : Granted c (fun m => m ≠ [] ∧ m ∈ listed allow) req)
      (hchars : ∀ b ∈ requested, isValueChar b = true) :
      Decides c x req allow
        (204, { x with preflight := true, requestedHeaders := requested, requestedHeaders_lt := lt })

/-- **`cors_preflight` grants what is allowed**, and refuses every other
    preflight. -/
theorem corsPreflight_decides (hreq : Parsed req) (hcors : x.cors = true)
    (hclear : x.requestedHeaders = []) (allow : Bytes) :
    Decides c x req allow (corsPreflight c x req allow) := by
  rw [corsPreflight]
  dsimp only
  by_cases hoptions : cstr req.method = lit "OPTIONS"
  swap
  · rw [if_pos (.inr hoptions)]
    exact .none fun h => hoptions h.1
  rw [if_neg (by
    rintro (h | h)
    · exact absurd (h.symm.trans hcors) Bool.false_ne_true
    · exact h hoptions)]
  have hm := headerSingleValue_cases hreq (lit "Access-Control-Request-Method") (by decide)
    HTTP_MAX_METHOD
  have hh := headerSingleValue_cases hreq (lit "Access-Control-Request-Headers") (by decide)
    RESPONSE_VALUE_CAP
  rcases hm with ⟨hm, hmnamed⟩ | ⟨m, mlt, hm, hmnamed⟩ | ⟨hm, -⟩
  · rw [hm]
    rcases hh with ⟨hh, hhnamed⟩ | ⟨h, hlt, hh, -⟩ | ⟨hh, -⟩
    · rw [hh]
      exact .none fun h => h.2.elim (· hmnamed) (· hhnamed)
    · rw [hh]
      exact .refused (.inl rfl)
    · rw [hh]
      exact .refused (.inl rfl)
  · rw [hm]
    -- what the method decides, with any headers behind it
    have hmethod : ¬ (x.origin = [] ∨ listContains allow m.value true = false) →
        x.origin ≠ [] ∧ m.value ≠ [] ∧ m.value ∈ listed allow := by
      intro h
      rw [not_or, Bool.not_eq_false] at h
      obtain ⟨hne, entry, hentry, hsame⟩ :=
        (listContains_iff (value_no_nul hreq hmnamed) allow true).mp h.2
      have heq : entry = m.value := hsame
      exact ⟨h.1, hne, heq ▸ hentry⟩
    rcases hh with ⟨hh, hhnamed⟩ | ⟨h, hlt, hh, hhnamed⟩ | ⟨hh, -⟩
    · rw [hh]
      dsimp only
      split
      · exact .refused (.inl rfl)
      · split
        · exact .refused (.inr rfl)
        · rename_i hok
          obtain ⟨horigin, hallowed⟩ := hmethod hok
          refine .granted horigin ⟨⟨m, hmnamed, hallowed⟩, ?_, ?_⟩ fun b hb => ?_
          · rw [hhnamed]
            exact Nat.zero_le _
          · rw [hhnamed]
            exact fun h hh => by cases hh
          · cases (hclear ▸ hb)
    · rw [hh]
      dsimp only
      split
      · exact .refused (.inl rfl)
      · split
        · exact .refused (.inr rfl)
        · rename_i hok
          obtain ⟨horigin, hallowed⟩ := hmethod hok
          have hmem : h ∈ req.headers :=
            (List.mem_filter.mp (hhnamed ▸ List.mem_singleton_self h)).1
          rcases requestedLoop_cases c.headers (h.value.length + 1) (Nat.lt_succ_self _)
            (value_no_nul hreq hhnamed) with ⟨hnone, hall⟩ | hstatus | hstatus
          · rw [hnone]
            refine .granted horigin ⟨⟨m, hmnamed, hallowed⟩, ?_, ?_⟩ (hreq.chars h hmem)
            · rw [hhnamed]
              exact le_rfl
            · rw [hhnamed]
              exact List.forall_mem_singleton.mpr hall
          · rw [hstatus]
            exact .refused (.inl rfl)
          · rw [hstatus]
            exact .refused (.inr rfl)
    · rw [hh]
      exact .refused (.inl rfl)
  · rw [hm]
    exact .refused (.inl rfl)

end Decision

end Cors
