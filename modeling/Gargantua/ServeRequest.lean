import Gargantua.Cors
import Gargantua.QueryParse
import Gargantua.StaticFiles

/-! # Serving a request (`src/server/server_serve.c`, `handle_connection`)

    One round of `handle_connection` for a request that was read: what the server
    knows of the exchange is reset, an origin may be let through, and the request
    then goes through the rate limit, its URL, the health checks, the router, a
    preflight, the static files, its query, its handler, until one of them
    answers.  What these depend on beyond the request is a `Server`. -/

namespace ServeRequest

open CString HttpParse ResponseHeaders SendResponse Cors
open RuntimeError (Failure requestFailed)
open RouteRuntime (RequestParams routeFind splitPath)
open QueryParse (queryParse)

/-- A route table as the generator writes it: the content types are the ones that
    `content_type_valid` lets through, or constants like them. -/
structure RouteTable where
  routes : List RouteRuntime.Route
  types : ∀ route ∈ routes, ∀ b ∈ route.contentType, 0x20 ≤ b ∧ b ≤ 0x7E

/-- What a handler leaves behind: its calls, what it failed with, the value that
    `dispatch_route` returns and the C string in the output buffer. -/
structure Handled where
  calls : List Call
  failure : Failure
  rc : Int
  text : Bytes

/-- Everything outside the request: the configuration and the routes; whether the
    client is over its limit, whether the server is up, whether a request like
    this one keeps its connection, whether `auth_gate` refuses it, whether the
    arena has room for a file and for a body; the files; and the handlers. -/
structure Server where
  config : Config := {}
  table : RouteTable
  limited : Bool := false
  up : Bool := true
  keepAlive : Bool := true
  openapiPublic : Bytes := lit "false"
  gated : Bool := false
  fileBuffer : Bool := true
  bodyBuffer : Bool := true
  host : StaticFiles.Host
  statics : StaticFiles.Statics := {}
  dispatch : RouteRuntime.Route → RequestParams → HttpRequest → Handled

/-- An answer: its status, and the head and the body that `send_header_body` is
    given, if it is. -/
structure Answer where
  status : Int
  sent : Option (Bytes × Bytes)

/-- `reset_response_state`, and `response_head` for the request. -/
def resetResponseState (c : Config) (buf : Bytes) (req : HttpRequest) : Exchange where
  head := cstr req.method = lit "HEAD" ∨ buf.take 5 = lit "HEAD "
  cors := false
  preflight := false
  credentials := c.credentials = lit "true"
  allow := []
  origin := []
  requestedHeaders := []
  allow_lt := noAllow_lt
  origin_lt := noValue_lt
  requestedHeaders_lt := noValue_lt

/-- `is_health_path`. -/
def isHealthPath (path : Bytes) : Bool := path = lit "/health/live" ∨ path = lit "/health/ready"

/-- `serve_health`. -/
def serveHealth (s : Server) (x : Exchange) (req : HttpRequest) (path : Bytes) : Answer :=
  if cstr req.method ≠ lit "GET" ∧ cstr req.method ≠ lit "HEAD" then
    let x := { x with allow := lit "GET, HEAD, OPTIONS", allow_lt := by decide }
    let status : Int := if cstr req.method = lit "OPTIONS" then 204 else 405
    ⟨status, sendResponse x {} {} status JSON_CONTENT_TYPE [] s.keepAlive⟩
  else
    let up := if path = lit "/health/live" then true else s.up
    let status : Int := if up then 200 else 503
    let body := if up then lit "\x7b\"status\":\"up\"\x7d" else lit "\x7b\"status\":\"down\"\x7d"
    ⟨status, sendResponse x {} {} status JSON_CONTENT_TYPE body s.keepAlive⟩

/-- `resolve_route`: the route, `params`, `allowed`, and the exchange with
    `response_allow`. -/
def resolveRoute (s : Server) (x : Exchange) (req : HttpRequest) (path : Bytes) :
    Option RouteRuntime.Route × RequestParams × Int × Exchange :=
  let (route, params) := routeFind s.table.routes (cstr req.method) path
  if route = none ∨ cstr req.method = lit "OPTIONS" then
    (route, params, (routeAllow s.table.routes path ROUTE_ALLOW_CAP).1,
      { x with
        allow := (routeAllow s.table.routes path ROUTE_ALLOW_CAP).2
        allow_lt := (routeAllow_bounds s.table.routes path).1 })
  else (route, params, 0, x)

/-- `serve_preflight`: the exchange behind it, and an answer where it handles the
    request. -/
def servePreflight (s : Server) (x : Exchange) (req : HttpRequest) : Exchange × Option Answer :=
  if cstr req.method ≠ lit "OPTIONS" then (x, none)
  else
    let (preflight, x) := corsPreflight s.config x req x.allow
    if preflight = 0 then (x, none)
    else
      let x := if preflight ≠ 204 then { x with origin := [], origin_lt := noValue_lt } else x
      let body := if preflight = 204 then [] else lit "preflight rejected"
      (x, some ⟨preflight, sendResponse x {} {} preflight JSON_CONTENT_TYPE body s.keepAlive⟩)

/-- `serve_static`: an answer where a file is served. -/
def serveStatic (s : Server) (x : Exchange) (req : HttpRequest) (path : Bytes) : Option Answer :=
  if s.statics.root = none ∨ (cstr req.method ≠ lit "GET" ∧ cstr req.method ≠ lit "HEAD") then none
  else if s.fileBuffer = false then none
  else
    match StaticFiles.staticFileRead s.host s.statics path StaticFiles.STATIC_MAX_BYTES with
    | none => none
    | some (content, contentType) =>
        let x := { x with allow := [], allow_lt := noAllow_lt }
        some ⟨200, sendBytes x {} 200 contentType content content.length s.keepAlive⟩

/-- `serve_missing_route`. -/
def serveMissingRoute (s : Server) (x : Exchange) (req : HttpRequest) (params : RequestParams)
    (allowed : Int) : Answer :=
  let status : Int := if params.invalid ∨ allowed < 0 then 400 else if allowed ≠ 0 then 405 else 404
  let status : Int :=
    if allowed > 0 ∧ params.invalid = false ∧ cstr req.method = lit "OPTIONS" then 204 else status
  let message :=
    if status = 400 then lit "bad path parameter"
    else if status = 405 then lit "method not allowed"
    else if status = 204 then [] else lit "no route"
  ⟨status, sendResponse x {} {} status JSON_CONTENT_TYPE message s.keepAlive⟩

/-- `openapi_needs_auth`. -/
def openapiNeedsAuth (s : Server) (path : Bytes) : Bool :=
  path = lit "/openapi.json" ∧ s.openapiPublic ≠ lit "true" ∧ s.gated = true

/-- The end of `serve_request`, behind the handler; an error that the handler
    leaves goes through `serve_handler_error`. -/
def serveHandled (s : Server) (x : Exchange) (route : RouteRuntime.Route) (h : Handled) : Answer :=
  let r := afterCalls h.calls
  if requestFailed h.failure || h.rc != 0 then
    let status : Int :=
      if requestFailed h.failure then h.failure.status else if h.rc = -2 then 400 else 500
    ⟨status, serveHandlerError x r h.failure h.rc s.keepAlive⟩
  else
    let status := responseStatusGet r route.status
    ⟨status, sendResponse x r h.failure status route.contentType h.text s.keepAlive⟩

/-- `serve_request`. -/
def serveRequest (s : Server) (x : Exchange) (req : HttpRequest) (path : Bytes)
    (query : Option Bytes) : Answer :=
  if isHealthPath path then serveHealth s x req path
  else
    let (route, params, allowed, x) := resolveRoute s x req path
    match servePreflight s x req with
    | (_, some answer) => answer
    | (x, none) =>
        match route with
        | none =>
            match serveStatic s x req path with
            | some answer => answer
            | none => serveMissingRoute s x req params allowed
        | some route =>
            let x := if cstr req.method ≠ lit "OPTIONS" then { x with allow := [], allow_lt := noAllow_lt }
              else x
            let (parsed, params) := queryParse params (query.map (· ++ [0]))
            if parsed ≠ 0 then
              ⟨400, sendResponse x {} {} 400 JSON_CONTENT_TYPE (lit "bad query") s.keepAlive⟩
            else if s.bodyBuffer = false then
              ⟨503, sendResponse x {} {} 503 JSON_CONTENT_TYPE (lit "out of memory") s.keepAlive⟩
            else if openapiNeedsAuth s path then
              ⟨401, sendResponse x {} {} 401 JSON_CONTENT_TYPE (lit "authentication required")
                s.keepAlive⟩
            else serveHandled s x route (s.dispatch route params req)

/-- A round of `handle_connection`, once the request in front of `buf` is read. -/
def handleRequest (s : Server) (buf : Bytes) (req : HttpRequest) : Answer :=
  let x := corsPrepare s.config (resetResponseState s.config buf req) req
  if s.limited then
    let r := afterCalls [.header (some (lit "Retry-After")) (some (lit "60"))]
    ⟨429, sendResponse x r {} 429 JSON_CONTENT_TYPE (lit "rate limit exceeded") false⟩
  else
    match splitPath req.path with
    | none => ⟨400, sendResponse x {} {} 400 JSON_CONTENT_TYPE (lit "bad url") false⟩
    | some (path, query) => serveRequest s x req path query

end ServeRequest
