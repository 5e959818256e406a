import Gargantua.ResponseLines
import Gargantua.RouteFind
import Gargantua.ServeRequest

/-! # CORS answers are sound

    Whatever the configuration, the routes and the handlers, what the server
    knows of an exchange is sound from the start to the answer (`Holds`): an
    origin in it was let through, and nothing in it ends a line.  So a response
    names an origin only if the request came from it and the configuration lists
    it, and a preflight is granted only what it may ask for (`cors_sound`). -/

namespace CorsSound

open CString Separated HttpParse ResponseHeaders SendResponse ResponseLines Cors ServeRequest
open RuntimeError (Failure requestFailed)
open RouteRuntime (RequestParams routeFind splitPath)

/-! ## The exchange -/

/-- What holds of an exchange at any time. -/
structure Holds (c : Config) (req : HttpRequest) (x : Exchange) : Prop where
  origin : x.origin ≠ [] → OriginAllowed c req x.origin
  safe : Safe x

section Exchange

variable {s : Server} {c : Config} {req : HttpRequest} {x : Exchange}

theorem holds_reset (c : Config) (buf : Bytes) (req : HttpRequest) :
    Holds c req (resetResponseState c buf req) :=
  ⟨fun h => absurd rfl h, fun _ hb => (nomatch hb), fun _ hb => (nomatch hb), fun _ hb => (nomatch hb)⟩

/-- The bytes of an allowed origin are those of a header value. -/
theorem origin_clean (hreq : Parsed req) {value : Bytes} (h : OriginAllowed c req value) :
    Clean value := by
  obtain ⟨header, hnamed, rfl⟩ := h.only
  have hmem := (List.mem_filter.mp (hnamed ▸ List.mem_singleton_self header)).1
  exact Clean.of_value (hreq.chars header hmem)

theorem holds_prepare (hreq : Parsed req) (h : Holds c req x) : Holds c req (corsPrepare c x req) := by
  rcases corsPrepare_cases hreq c x with heq | ⟨origin, lt, heq, horigin⟩
  · rw [heq]
    exact ⟨h.origin, h.safe.allow, h.safe.origin, h.safe.requestedHeaders⟩
  · rw [heq]
    exact ⟨fun _ => horigin, h.safe.allow, origin_clean hreq horigin, h.safe.requestedHeaders⟩

/-- Another list of methods. -/
theorem Holds.allow (h : Holds c req x) {allow : Bytes} {lt : allow.length < ROUTE_ALLOW_CAP}
    (hclean : Clean allow) : Holds c req { x with allow := allow, allow_lt := lt } :=
  ⟨h.origin, hclean, h.safe.origin, h.safe.requestedHeaders⟩

theorem holds_resolve (h : Holds s.config req x) (path : Bytes) :
    Holds s.config req (resolveRoute s x req path).2.2.2 := by
  rw [resolveRoute]
  dsimp only
  split
  · exact h.allow (Clean.of_value (routeAllow_bounds s.table.routes path).2)
  · exact h

/-- What `cors_preflight` decides keeps the exchange sound. -/
theorem holds_decides {allow : Bytes} {d : Int × Exchange} (h : Holds c req x)
    (hd : Decides c x req allow d) : Holds c req d.2 := by
  cases hd with
  | none => exact h
  | refused => exact ⟨h.origin, h.safe.allow, h.safe.origin, h.safe.requestedHeaders⟩
  | granted horigin _ hchars =>
      exact ⟨h.origin, h.safe.allow, h.safe.origin, Clean.of_value hchars⟩

end Exchange

/-! ## The answers -/

/-- The response that is sent has a head in which every
    `Access-Control-Allow-Origin` names an allowed origin. -/
def Sound (c : Config) (req : HttpRequest) (a : Answer) : Prop :=
  ∀ head body, a.sent = some (head, body) → ∃ lines, IsHead a.status head lines
    ∧ ∀ line ∈ lines, fieldName line = lit "access-control-allow-origin" →
        OriginAllowed c req (fieldValue line)

section Answers

variable {s : Server} {c : Config} {req : HttpRequest} {x : Exchange} {r : Response} {status : Int}
  {contentType : Bytes}

/-- Sound lines name an allowed origin. -/
theorem origin_of_lines (h : Holds c req x) {line : Bytes} (hline : LineSound x line)
    (hname : fieldName line = lit "access-control-allow-origin") :
    OriginAllowed c req (fieldValue line) := by
  have haccess : ACCESS <+: fieldName line := by
    rw [hname]
    decide
  have horigin := h.origin (hline.access haccess)
  obtain ⟨entry, -, hentry⟩ := List.mem_map.mp horigin.entry
  have hself : trim isOws x.origin = x.origin := by
    rw [← hentry, trim_trim]
  rw [hline.origin hname, hself]
  exact horigin

theorem sound_response (h : Holds c req x) (hr : CleanResponse r) (f : Failure)
    (htype : Clean contentType) (body : Bytes) (keepAlive : Bool) :
    Sound c req ⟨status, sendResponse x r f status contentType body keepAlive⟩ := by
  intro head out hsent
  obtain ⟨type, blen, hhead, hall⟩ := sendResponse_lines h.safe hr f htype hsent
  exact ⟨_, hhead, fun line hline => origin_of_lines h (hall line hline)⟩

theorem cleanResponse_nil : CleanResponse {} := fun _ hh => nomatch hh

/-- An answer of the server's own. -/
theorem sound_own (h : Holds c req x) (f : Failure) (body : Bytes) (keepAlive : Bool) :
    Sound c req ⟨status, sendResponse x {} f status JSON_CONTENT_TYPE body keepAlive⟩ :=
  sound_response h cleanResponse_nil f (clean_text (by decide)) body keepAlive

theorem sound_health (h : Holds s.config req x) (path : Bytes) :
    Sound s.config req (serveHealth s x req path) := by
  rw [serveHealth]
  split
  · exact sound_own (h.allow (clean_text (by decide))) {} _ _
  · exact sound_own h {} _ _

/-- **What `serve_preflight` does**: nothing, unless CORS is set and the request
    is a preflight; a grant where everything is allowed; and a refusal without an
    origin elsewhere. -/
theorem servePreflight_cases (hreq : Parsed req) (h : Holds s.config req x)
    (hclear : x.requestedHeaders = []) :
    (servePreflight s x req = (x, none) ∧ (x.cors = true → ¬ Preflight req))
      ∨ ∃ y status body, servePreflight s x req
            = (y, some ⟨status, sendResponse y {} {} status JSON_CONTENT_TYPE body s.keepAlive⟩)
          ∧ Holds s.config req y
          ∧ ((status = 204 ∧ body = [] ∧ y.origin ≠ []
              ∧ Granted s.config (fun m => m ≠ [] ∧ m ∈ listed x.allow) req)
            ∨ ((status = 400 ∨ status = 403) ∧ body = lit "preflight rejected" ∧ y.origin = [])) := by
  rw [servePreflight]
  by_cases hoptions : cstr req.method = lit "OPTIONS"
  swap
  · rw [if_pos hoptions]
    exact .inl ⟨rfl, fun _ hp => hoptions hp.1⟩
  rw [if_neg (not_not.mpr hoptions)]
  cases hcors : x.cors with
  | false =>
      have hnone : corsPreflight s.config x req x.allow = (0, x) := by
        rw [corsPreflight]
        exact if_pos (.inl hcors)
      rw [hnone]
      exact .inl ⟨rfl, fun hset => (by cases hset)⟩
  | true =>
      have hd := corsPreflight_decides (c := s.config) hreq hcors hclear x.allow
      have hy := holds_decides h hd
      generalize corsPreflight s.config x req x.allow = d at hd hy
      cases hd with
      | none hno => exact .inl ⟨rfl, fun _ => hno⟩
      | refused hstatus =>
          rename_i status
          have hne : status ≠ 0 ∧ status ≠ 204 := by
            rcases hstatus with rfl | rfl
            · exact ⟨by decide, by decide⟩
            · exact ⟨by decide, by decide⟩
          refine .inr ⟨{ x with preflight := true, origin := [], origin_lt := noValue_lt }, status,
            lit "preflight rejected", ?_, ⟨fun hne => absurd rfl hne, hy.safe.allow,
              fun _ hb => (by cases hb), hy.safe.requestedHeaders⟩, .inr ⟨hstatus, rfl, rfl⟩⟩
          dsimp only
          rw [if_neg hne.1, if_pos hne.2, if_neg hne.2]
      | granted horigin hgranted hchars =>
          exact .inr ⟨_, 204, [], rfl, hy, .inl ⟨rfl, rfl, horigin, hgranted⟩⟩

/-- The type of a static file is one that the server knows. -/
theorem staticFileRead_type {host : StaticFiles.Host} {statics : StaticFiles.Statics}
    {path content contentType : Bytes} {cap : Nat}
    (h : StaticFiles.staticFileRead host statics path cap = some (content, contentType)) :
    Clean contentType := by
  have htypes : ∀ entry ∈ StaticFiles.contentTypes,
      (entry.2.all fun b => b != CR && b != LF) = true := by decide
  have hclean : ∀ candidate, Clean (StaticFiles.contentTypeFor candidate) := by
    intro candidate
    rw [StaticFiles.contentTypeFor]
    split
    · rename_i entry hfind
      exact clean_text (htypes entry (List.mem_of_find?_eq_some hfind))
    · exact clean_text (by decide)
  obtain ⟨candidate, rfl⟩ : ∃ candidate, contentType = StaticFiles.contentTypeFor candidate := by
    rw [StaticFiles.staticFileRead] at h
    dsimp only at h
    repeat' split at h
    all_goals first
      | contradiction
      | exact ⟨_, (Prod.mk.inj (Option.some.inj h)).2.symm⟩
  exact hclean candidate

theorem sound_static (h : Holds s.config req x) {path : Bytes} {a : Answer}
    (ha : serveStatic s x req path = some a) : Sound s.config req a := by
  rw [serveStatic] at ha
  split at ha
  · cases ha
  · split at ha
    · cases ha
    · split at ha
      · cases ha
      · rename_i content contentType hread
        obtain rfl := Option.some.inj ha
        intro head out hsent
        have hcleared := @Holds.allow _ _ _ h [] (by decide) fun _ hb => by cases hb
        obtain ⟨hhead, hall⟩ :=
          sendBytes_lines hcleared.safe cleanResponse_nil (staticFileRead_type hread) hsent
        exact ⟨_, hhead, fun line hline => origin_of_lines hcleared (hall line hline)⟩

theorem sound_missing (h : Holds s.config req x) (params : RequestParams) (allowed : Int) :
    Sound s.config req (serveMissingRoute s x req params allowed) :=
  sound_own h {} _ _

theorem sound_handled (h : Holds s.config req x) {route : RouteRuntime.Route}
    (htype : Clean route.contentType) (handled : Handled) :
    Sound s.config req (ServeRequest.serveHandled s x route handled) := by
  have hr := cleanResponse_calls handled.calls
  have hjson : Clean JSON_CONTENT_TYPE := clean_text (by decide)
  rw [ServeRequest.serveHandled]
  dsimp only
  split
  · rw [serveHandlerError]
    split
    · exact sound_response h hr _ hjson _ _
    · split
      · exact sound_response h hr _ hjson _ _
      · exact sound_response h hr _ hjson _ _
  · exact sound_response h hr _ htype _ _

/-- A route that is found is one of the table. -/
theorem routeFind_mem {table : List RouteRuntime.Route} {method url : Bytes}
    {route : RouteRuntime.Route} (h : (routeFind table method url).1 = some route) :
    route ∈ table := by
  have houtcome := RouteFind.routeFind_outcome table method url
  have hmem : ∀ m, RouteFind.Outcome table m url (routeFind table method url) → route ∈ table := by
    intro m ho
    obtain ⟨rest, hperm, -⟩ := (ho.found route).mp h
    exact hperm.mem_iff.mpr List.mem_cons_self
  by_cases hsilent : method = lit "HEAD" ∧ RouteFind.Silent table method url
  · exact hmem _ (houtcome.2 hsilent)
  · exact hmem _ (houtcome.1 hsilent)

/-- **Every answer of `serve_request` is sound.** -/
theorem sound_serve (hreq : Parsed req) (h : Holds s.config req x) (hclear : x.requestedHeaders = [])
    (path : Bytes) (query : Option Bytes) :
    Sound s.config req (serveRequest s x req path query) := by
  rw [serveRequest]
  split
  · exact sound_health h path
  have hresolved := holds_resolve h path
  have hfound : ∀ route, (resolveRoute s x req path).1 = some route → route ∈ s.table.routes := by
    intro route hroute
    refine @routeFind_mem _ (cstr req.method) path _ ?_
    rw [resolveRoute] at hroute
    dsimp only at hroute
    split at hroute
    · exact hroute
    · exact hroute
  have hkept : (resolveRoute s x req path).2.2.2.requestedHeaders = [] := by
    rw [resolveRoute]
    dsimp only
    split
    · exact hclear
    · exact hclear
  generalize resolveRoute s x req path = resolved at hresolved hfound hkept
  obtain ⟨route, params, allowed, y⟩ := resolved
  dsimp only at hresolved hfound hkept ⊢
  rcases servePreflight_cases hreq hresolved hkept with
    ⟨hnone, -⟩ | ⟨z, status, body, hsome, hz, -⟩
  swap
  · rw [hsome]
    exact sound_own hz {} body _
  rw [hnone]
  cases route with
  | none =>
      dsimp only
      cases hstatic : serveStatic s y req path with
      | none => exact sound_missing hresolved params allowed
      | some a => exact sound_static hresolved hstatic
  | some route =>
      have htype : Clean route.contentType := by
        intro b hb
        have hprint := (s.table.types route (hfound route rfl) b hb).1
        refine ⟨?_, ?_⟩
        all_goals
          rintro rfl
          exact absurd hprint (by decide)
      have hcleared : Holds s.config req (if cstr req.method ≠ lit "OPTIONS" then
          { y with allow := [], allow_lt := noAllow_lt } else y) := by
        split
        · exact hresolved.allow fun _ hb => by cases hb
        · exact hresolved
      dsimp only
      split
      · exact sound_own hcleared {} _ _
      · split
        · exact sound_own hcleared {} _ _
        · split
          · exact sound_own hcleared {} _ _
          · exact sound_handled hcleared htype _

/-- A short error of the server's own fits its buffers. -/
theorem error_sent (x : Exchange) (keepAlive : Bool) {status : Int} {text : Bytes}
    (hstatus : IsStatus status) (herror : status ≥ 400) (hnul : (0 : Byte) ∉ text)
    (hshort : errorLength status text < ERROR_CAP) :
    ∃ sent, sendResponse x {} {} status JSON_CONTENT_TYPE text keepAlive = some sent := by
  have hdocument := (error_fits_iff (f := {}) rfl hstatus hnul).mpr hshort
  have hblen := Nat.le_trans (bodyLength_le status _)
    (Nat.le_trans (Nat.le_of_lt hdocument) (show ERROR_CAP ≤ SERVER_BODY_MAX by decide))
  rw [sendResponse_error x {} rfl hstatus herror _ hnul, if_pos hshort]
  exact ⟨_, sendBytes_eq x {} _ (headText_length x (sized_calls []) hstatus (by decide) hblen
    keepAlive)⟩

/-- The two answers of `serve_preflight` fit their buffers. -/
theorem preflight_sent (x : Exchange) (keepAlive : Bool) {status : Int} {body : Bytes}
    (h : (status = 204 ∧ body = [])
      ∨ ((status = 400 ∨ status = 403) ∧ body = lit "preflight rejected")) :
    ∃ sent, sendResponse x {} {} status JSON_CONTENT_TYPE body keepAlive = some sent := by
  have hnul : (0 : Byte) ∉ lit "preflight rejected" := by decide
  rcases h with ⟨rfl, rfl⟩ | ⟨rfl | rfl, rfl⟩
  · rw [sendResponse, if_neg (by decide)]
    exact ⟨_, sendBytes_eq x {} _ (headText_length x (sized_calls []) ⟨by decide, by decide⟩
      (by decide) (Nat.zero_le _) keepAlive)⟩
  · exact error_sent x keepAlive ⟨by decide, by decide⟩ (by decide) hnul (by decide)
  · exact error_sent x keepAlive ⟨by decide, by decide⟩ (by decide) hnul (by decide)

/-- What a preflight is answered with, where CORS is set. -/
structure PreflightAnswer (s : Server) (req : HttpRequest) (path : Bytes) (a : Answer) : Prop where
  sent : ∃ head body lines, a.sent = some (head, body) ∧ IsHead a.status head lines
    ∧ ((a.status = 204 ∧ (∃ value, OriginAllowed s.config req value)
        ∧ Granted s.config (Allowed s.table.routes path) req)
      ∨ ((a.status = 400 ∨ a.status = 403) ∧ ∀ line ∈ lines, ¬ ACCESS <+: fieldName line))

/-- **A preflight is granted or refused.** -/
theorem preflight_serve (hreq : Parsed req) (h : Holds s.config req x) (hclear : x.requestedHeaders = [])
    (hcors : x.cors = true) {path : Bytes} (hhealth : isHealthPath path = false)
    (hp : Preflight req) (query : Option Bytes) :
    PreflightAnswer s req path (serveRequest s x req path query) := by
  rw [serveRequest, hhealth, if_neg Bool.false_ne_true]
  have hresolved := holds_resolve h path
  have heq : ∃ route params allowed y, resolveRoute s x req path = (route, params, allowed, y)
      ∧ y.cors = true ∧ y.requestedHeaders = []
      ∧ y.allow = (routeAllow s.table.routes path ROUTE_ALLOW_CAP).2 := by
    rw [resolveRoute]
    dsimp only
    rw [if_pos (.inr hp.1)]
    exact ⟨_, _, _, _, rfl, hcors, hclear, rfl⟩
  obtain ⟨route, params, allowed, y, heq, hycors, hkept, hallow⟩ := heq
  rw [heq] at hresolved ⊢
  rcases servePreflight_cases hreq hresolved hkept with
    ⟨-, hno⟩ | ⟨z, status, body, hsome, hz, hcases⟩
  · exact absurd hp (hno hycors)
  dsimp only
  rw [hsome]
  obtain ⟨⟨head, out⟩, hsent⟩ := preflight_sent z s.keepAlive
    (hcases.imp (fun h => ⟨h.1, h.2.1⟩) fun h => ⟨h.1, h.2.1⟩)
  obtain ⟨type, blen, hhead, hall⟩ := sendResponse_lines hz.safe cleanResponse_nil {}
    (clean_text (by decide)) hsent
  refine ⟨head, out, _, hsent, hhead, ?_⟩
  rcases hcases with ⟨hstatus, -, horigin, hgranted⟩ | ⟨hstatus, -, horigin⟩
  · refine .inl ⟨hstatus, ⟨z.origin, hz.origin horigin⟩, hgranted.imp fun m hm => ?_⟩
    rw [hallow] at hm
    exact (routeAllow_listed s.table.routes path hm.1).mp hm.2
  · exact .inr ⟨hstatus, fun line hline haccess => (hall line hline).access haccess horigin⟩

end Answers

/-! ## Every request -/

theorem reset_requested (c : Config) (buf : Bytes) (req : HttpRequest) (hreq : Parsed req) :
    (corsPrepare c (resetResponseState c buf req) req).requestedHeaders = []
      ∧ (corsPrepare c (resetResponseState c buf req) req).cors = decide (c.origins ≠ []) := by
  rcases corsPrepare_cases hreq c (resetResponseState c buf req) with heq | ⟨origin, lt, heq, -⟩
  · rw [heq]
    exact ⟨rfl, rfl⟩
  · rw [heq]
    exact ⟨rfl, rfl⟩

/-- **CORS answers are sound.**  For every server and every request that is read:
    no line of a response holds a line end, and one that names an origin names
    the value of the only `Origin` of the request, an entry of `cors.origins`.
    Where `cors.origins` is set, a preflight that is not over the rate limit and
    whose URL is a path other than a health check is answered, with `204` only if
    its origin is allowed and so is everything that it asks for, and otherwise
    with `400` or `403` and no `Access-Control-Allow-` field. -/
theorem cors_sound (s : Server) {buf : Bytes} {req : HttpRequest}
    (hread : httpParseRequest buf = .ok req) :
    Sound s.config req (handleRequest s buf req)
      ∧ ∀ path query, s.config.origins ≠ [] → s.limited = false →
          splitPath req.path = some (path, query) → isHealthPath path = false → Preflight req →
          PreflightAnswer s req path (handleRequest s buf req) := by
  have hreq := parsed_request hread
  have hprepared := holds_prepare hreq (holds_reset s.config buf req)
  obtain ⟨hclear, hcors⟩ := reset_requested s.config buf req hreq
  rw [handleRequest]
  dsimp only
  constructor
  · split
    · exact sound_response hprepared (cleanResponse_calls _) {} (clean_text (by decide)) _ _
    · split
      · exact sound_own hprepared {} _ _
      · exact sound_serve hreq hprepared hclear _ _
  · intro path query horigins hlimited hpath hhealth hp
    rw [hlimited, if_neg Bool.false_ne_true, hpath]
    exact preflight_serve hreq hprepared hclear (hcors.trans (decide_eq_true horigins)) hhealth hp query

/-- A server with one route. -/
def oneRoute (origins : Bytes) : Server where
  config := { origins := origins, headers := lit "X-Note, Accept" }
  table :=
    { routes := [⟨lit "GET", lit "/a", lit "text/plain", 200, some (lit "a")⟩]
      types := by decide }
  host := StaticFiles.siteHost
  dispatch _ _ _ := ⟨[], {}, 0, []⟩

/-- A preflight that asks for `GET`, with other headers behind. -/
def preflightRequest (path : Bytes) (headers : List HttpHeader) (len : Nat) : HttpRequest where
  method := lit "OPTIONS"
  path := path
  headers := ⟨lit "Access-Control-Request-Method", lit "GET"⟩ :: headers
  headerLen := len
  messageLen := len

def preflightBytes (path rest : Bytes) : Bytes :=
  lit "OPTIONS " ++ path ++ lit " HTTP/1.0\r\nAccess-Control-Request-Method: GET\r\n" ++ rest

/-- The preflight comes from an origin of the list. -/
theorem cors_sound_granted :
    PreflightAnswer (oneRoute (lit "http://x, http://a"))
        (preflightRequest (lit "/a") [⟨lit "Origin", lit "http://a"⟩] 77) (lit "/a")
        (handleRequest (oneRoute (lit "http://x, http://a"))
          (preflightBytes (lit "/a") (lit "Origin: http://a\r\n\r\n"))
          (preflightRequest (lit "/a") [⟨lit "Origin", lit "http://a"⟩] 77)) :=
  (cors_sound _ (by decide +kernel)).2 (lit "/a") none (by decide) rfl (by decide) (by decide)
    ⟨by decide, .inl (by decide)⟩

/-- Without `cors.origins` a preflight is a request for the methods of its path,
    and over the rate limit it is not looked at. -/
theorem preflight_unset :
    httpParseRequest (preflightBytes (lit "/a") (lit "\r\n"))
        = .ok (preflightRequest (lit "/a") [] 59)
      ∧ (handleRequest (oneRoute []) (preflightBytes (lit "/a") (lit "\r\n"))
          (preflightRequest (lit "/a") [] 59)).status = 204
      ∧ (handleRequest { oneRoute (lit "http://a") with limited := true }
          (preflightBytes (lit "/a") (lit "\r\n")) (preflightRequest (lit "/a") [] 59)).status = 429 :=
  ⟨by decide +kernel, by decide, rfl⟩

/-- A health check answers for itself. -/
theorem preflight_health :
    httpParseRequest (preflightBytes (lit "/health/live") (lit "\r\n"))
        = .ok (preflightRequest (lit "/health/live") [] 69)
      ∧ (handleRequest (oneRoute (lit "http://a")) (preflightBytes (lit "/health/live") (lit "\r\n"))
          (preflightRequest (lit "/health/live") [] 69)).status = 204 := by
  have hpath : splitPath (preflightRequest (lit "/health/live") [] 69).path
      = some (lit "/health/live", none) := by decide +kernel
  have hhealth : isHealthPath (lit "/health/live") = true := by decide
  refine ⟨by decide +kernel, ?_⟩
  rw [handleRequest]
  dsimp only
  rw [if_neg (by decide), hpath]
  dsimp only
  rw [serveRequest, if_pos hhealth, serveHealth, if_pos (by decide)]
  have hoptions : cstr (preflightRequest (lit "/health/live") [] 69).method = lit "OPTIONS" := by
    decide
  dsimp only
  exact if_pos hoptions

/-- A URL that does not decode is refused with the origin in the answer. -/
theorem preflight_url :
    httpParseRequest (preflightBytes (lit "/a//b") (lit "Origin: http://a\r\n\r\n"))
        = .ok (preflightRequest (lit "/a//b") [⟨lit "Origin", lit "http://a"⟩] 80)
      ∧ ∃ head body lines,
          (handleRequest (oneRoute (lit "http://a"))
              (preflightBytes (lit "/a//b") (lit "Origin: http://a\r\n\r\n"))
              (preflightRequest (lit "/a//b") [⟨lit "Origin", lit "http://a"⟩] 80)).sent
            = some (head, body)
          ∧ IsHead 400 head lines ∧ ∃ line ∈ lines, ACCESS <+: fieldName line := by
  have hread : httpParseRequest (preflightBytes (lit "/a//b") (lit "Origin: http://a\r\n\r\n"))
      = .ok (preflightRequest (lit "/a//b") [⟨lit "Origin", lit "http://a"⟩] 80) := by decide +kernel
  have hpath : splitPath (preflightRequest (lit "/a//b")
      [⟨lit "Origin", lit "http://a"⟩] 80).path = none := by decide +kernel
  refine ⟨hread, ?_⟩
  rw [handleRequest]
  dsimp only
  rw [if_neg (by decide), hpath]
  dsimp only
  set req := preflightRequest (lit "/a//b") [⟨lit "Origin", lit "http://a"⟩] 80 with hreq
  set buf := preflightBytes (lit "/a//b") (lit "Origin: http://a\r\n\r\n")
  have hprepared := holds_prepare (parsed_request hread)
    (holds_reset (oneRoute (lit "http://a")).config buf req)
  have horigin : (corsPrepare (oneRoute (lit "http://a")).config
      (resetResponseState (oneRoute (lit "http://a")).config buf req) req).origin ≠ [] := by
    rw [hreq]
    decide
  generalize corsPrepare (oneRoute (lit "http://a")).config
    (resetResponseState (oneRoute (lit "http://a")).config buf req) req = x at hprepared horigin
  obtain ⟨⟨head, body⟩, hsent⟩ := @error_sent x false 400 (lit "bad url")
    ⟨by decide, by decide⟩ (by decide) (by decide) (by decide)
  obtain ⟨type, blen, hhead, -⟩ := sendResponse_lines hprepared.safe cleanResponse_nil {}
    (clean_text (by decide)) hsent
  have hname := (fieldLine_read (lit "Access-Control-Allow-Origin") (by decide) x.origin).1
  refine ⟨head, body, _, hsent, hhead, _, origin_named horigin {} 400 type blen false, ?_⟩
  rw [hname]
  decide

/-- Where `cors.origins` is not set, over the rate limit, at a health check and
    with a bad URL a preflight gets the answer of any request. -/
theorem preflight_outside :
    (httpParseRequest (preflightBytes (lit "/a") (lit "\r\n"))
        = .ok (preflightRequest (lit "/a") [] 59)
      ∧ Preflight (preflightRequest (lit "/a") [] 59)
      ∧ named (lit "Origin") (preflightRequest (lit "/a") [] 59).headers = []
      ∧ (handleRequest (oneRoute []) (preflightBytes (lit "/a") (lit "\r\n"))
          (preflightRequest (lit "/a") [] 59)).status = 204
      ∧ (handleRequest { oneRoute (lit "http://a") with limited := true }
          (preflightBytes (lit "/a") (lit "\r\n")) (preflightRequest (lit "/a") [] 59)).status = 429)
    ∧ (httpParseRequest (preflightBytes (lit "/health/live") (lit "\r\n"))
        = .ok (preflightRequest (lit "/health/live") [] 69)
      ∧ Preflight (preflightRequest (lit "/health/live") [] 69)
      ∧ named (lit "Origin") (preflightRequest (lit "/health/live") [] 69).headers = []
      ∧ (handleRequest (oneRoute (lit "http://a")) (preflightBytes (lit "/health/live") (lit "\r\n"))
          (preflightRequest (lit "/health/live") [] 69)).status = 204)
    ∧ httpParseRequest (preflightBytes (lit "/a//b") (lit "Origin: http://a\r\n\r\n"))
        = .ok (preflightRequest (lit "/a//b") [⟨lit "Origin", lit "http://a"⟩] 80)
      ∧ Preflight (preflightRequest (lit "/a//b") [⟨lit "Origin", lit "http://a"⟩] 80)
      ∧ ∃ head body lines,
          (handleRequest (oneRoute (lit "http://a"))
              (preflightBytes (lit "/a//b") (lit "Origin: http://a\r\n\r\n"))
              (preflightRequest (lit "/a//b") [⟨lit "Origin", lit "http://a"⟩] 80)).sent
            = some (head, body)
          ∧ IsHead 400 head lines ∧ ∃ line ∈ lines, ACCESS <+: fieldName line := by
  have hpreflight : ∀ path headers len, Preflight (preflightRequest path headers len) := by
    intro path headers len
    have hoptions : cstr (lit "OPTIONS") = lit "OPTIONS" := by decide
    exact ⟨hoptions, .inl (List.ne_nil_of_mem (List.mem_filter.mpr ⟨List.mem_cons_self, by decide⟩))⟩
  exact ⟨⟨preflight_unset.1, hpreflight _ _ _, by decide, preflight_unset.2⟩,
    ⟨preflight_health.1, hpreflight _ _ _, by decide, preflight_health.2⟩,
    preflight_url.1, hpreflight _ _ _, preflight_url.2⟩

end CorsSound
