import MathMarkup.Engine.Service
import MathMarkup.Health.Checks
import MathMarkup.Http.Routes
import MathMarkup.Limits.Limiter
import MathMarkup.Net.Address
import MathMarkup.Server.Body
import MathMarkup.Telemetry.Metrics

/-!
# The server

The server converts and cleans what clients post to it, shows the history, and answers questions
about its health. `Server.handle` is the answer to one request, and the server after it.
-/

namespace MathMarkup

open Engine (Service Surroundings)
open Http (Request Response)
open Telemetry (LogEntry RequestContext noting)

/-- A server over a store whose state is `σ`. -/
structure Server (σ : Type) where
  config : Config
  service : Service σ
  limiter : Option Limits.Limiter := none
  /-- Whether measurements are shown. -/
  measures : Bool := true
  checks : Health.Checks := []
  build : Health.Build
  /-- Whether traces are taken over from clients. -/
  propagates : Bool := false

namespace Server

/-- What can be asked of the server. -/
inductive Endpoint where
  | convert
  | clean
  | historyList
  | historyRecord
  | health (q : Health.Question)
  | metrics
deriving DecidableEq, Repr

variable {σ : Type}

/-- The routes of a server. -/
def routes (s : Server σ) : Http.Routes Endpoint :=
  let post (path : Text) : Http.Pattern := .ofPath (some "POST") path
  let get (path : Text) : Http.Pattern := .ofPath (some "GET") path
  let any (path : Text) : Http.Pattern := .ofPath none path
  let health := s.config.telemetry.health
  [(post "/v1/convert", .convert), (post "/v1/clean", .clean), (get "/v1/history", .historyList),
    (get "/v1/history/\x7bid\x7d", .historyRecord), (any health.livenessPath, .health .liveness),
    (any health.readinessPath, .health .readiness), (any "/version", .health .version)]
    ++ (if s.measures then [(any s.config.telemetry.metrics.path, .metrics)] else [])

/-! ## Who asks -/

/-- The longest identifier that is taken over from a client. -/
def longestRequestId : Nat := 128

/-- The identifier of a request: the client's own, unless there is none or it is too long. -/
def requestId (fresh : Text) (r : Request) : Text :=
  let own := r.headers.get "X-Request-ID"
  if own.isEmpty || own.length > longestRequestId then fresh else own

/-- The trace that a request belongs to. -/
def trace? (propagates : Bool) (r : Request) : Option Telemetry.TraceContext :=
  if propagates then Telemetry.TraceContext.read? (r.headers.get "traceparent") else none

/-- What identifies a client: its host if its address has one. -/
def clientOf (r : Request) : Text :=
  match Net.splitAddress r.remote with
  | .ok a => a.host
  | .error _ => r.remote

/-- An answer with the identifiers of its request. -/
def identified (id : Text) (trace : Option Telemetry.TraceContext) (a : Response) : Response :=
  let a := a.withHeader "X-Request-Id" id
  match trace with
  | some t => a.withHeader "X-Trace-Id" t.traceId
  | none => a

/-! ## Endpoints -/

/-- A request that is being answered. -/
structure Asking where
  request : Request
  /-- The identifier of the request. -/
  id : Text
  context : RequestContext
  cancel : Cancellation := none
  /-- What stands for the place holders of the path. -/
  captured : List Text := []

/-- A server after an entry in its log. -/
def logged (s : Server σ) (e : LogEntry) : Server σ :=
  { s with service := s.service.logged "server" e }

/-- Answers a request for a conversion, or for cleaning. -/
def handleInput (st : History.Storage σ) (w : Surroundings) (cleanOnly : Bool) (a : Asking)
    (s : Server σ) : Server σ × Response :=
  match readBody s.config.server.maxBodyBytes a.request.body with
  | .error f => (s, bodyRefused f a.id)
  | .ok input =>
    let r : Engine.Request := { input, origin := Engine.originServer, requestId := a.id }
    let (service, reply) :=
      if cleanOnly then s.service.clean st w a.cancel r else s.service.convert st w a.cancel r
    let s := { s with service }
    if !reply.fault.isEmpty then (s, conversionFailed reply.fault reply.outcome.requestId)
    else (s, if cleanOnly then cleaned reply.outcome else converted reply.outcome)

/-- How many whole seconds a client has to wait, at least one. -/
def waitSeconds (d : Time.Duration) : Int := max 1 ((d + 999999999) / 1000000000)

/-- Lets a handler answer if the client has not asked too often. -/
def limited (w : Surroundings) (a : Asking) (s : Server σ)
    (handler : Server σ → Server σ × Response) : Server σ × Response :=
  match s.limiter with
  | none => handler s
  | some l =>
    let (d, l) := l.allow (clientOf a.request) w.now.instant
    let s := { s with limiter := some l }
    match d.refusal with
    | some reason =>
      let e : LogEntry := ⟨.warn, "request rate limited",
        a.context.attributes ++ noting "reason" (.text reason.name)
          ++ noting "remote_addr" (.text a.request.remote)⟩
      (s.logged e, (failed 429 reticent "rate_limited" none a.id).withHeader "Retry-After"
        (Text.ofInt (waitSeconds d.retryAfter)))
    | none =>
      let (s, r) := handler s
      ({ s with limiter := s.limiter.map fun l => (l.release d).2 }, r)

/-- The answer where no history is kept. -/
def noHistory (id : Text) : Response := failed 404 "history is disabled" "not_found" none id

/-- Answers a request for a record. -/
def handleRecord (st : History.Storage σ) (a : Asking) (s : Server σ) : Server σ × Response :=
  match s.service.state? with
  | none => (s, noHistory a.id)
  | some state =>
    match st.get state (a.captured.headD []) with
    | .ok r => (s, .json 200 r.json)
    | .error f =>
      if f.isNotFound then (s, failed 404 "record not found" "not_found" none a.id)
      else (s.logged (LogEntry.failure .error "history lookup failed" a.context.attributes f),
        failed 500 reticent internalType none a.id)

/-- Answers a request for records. -/
def handleList (st : History.Storage σ) (w : Surroundings) (a : Asking) (s : Server σ) :
    Server σ × Response :=
  match s.service.state? with
  | none => (s, noHistory a.id)
  | some state =>
    let query := (Http.splitTarget a.request.target).2
    let q := (History.Query.ofValues (Http.queryValues query) w.now.instant).bind
      (·.prepared s.config.history.query)
    match q with
    | .error f => (s, failed 400 f.message "invalid_query" none a.id)
    | .ok q =>
      let found : Except Fault Json := do
        let records ← st.query state q
        let total ← st.count state q
        pure (.object (Json.field "records" (.array (records.map History.Record.json))
          ++ Json.intField "total" total))
      match found with
      | .ok v => (s, .json 200 v)
      | .error f =>
        (s.logged (LogEntry.failure .error "history query failed" a.context.attributes f),
          failed 500 reticent internalType none a.id)

/-- The page of measurements. -/
def metricsPage (s : Server σ) : Response :=
  { status := 200
    headers := [("Content-Type", "text/plain; version=0.0.4; charset=utf-8; escaping=underscores")]
    body := Telemetry.page
      (Telemetry.families s.config.telemetry.metrics s.service.allMeasured) }

/-- Answers a request at an endpoint. -/
def atEndpoint (st : History.Storage σ) (w : Surroundings) (e : Endpoint) (a : Asking)
    (s : Server σ) : Server σ × Response :=
  match e with
  | .convert => limited w a s (handleInput st w false a)
  | .clean => limited w a s (handleInput st w true a)
  | .historyList => handleList st w a s
  | .historyRecord => handleRecord st a s
  | .health q => (s, Health.answer s.checks s.build w.now w.elapsed a.request.method q)
  | .metrics => (s, s.metricsPage)

/-! ## Whole requests -/

/-- Answers a request by its route; also the pattern of the route. -/
def routed (st : History.Storage σ) (w : Surroundings) (a : Asking) (s : Server σ) :
    Server σ × Response × Text :=
  let (path, query) := Http.splitTarget a.request.target
  match s.routes.find a.request.method path query with
  | .endpoint e pattern captured =>
    let (s, r) := atEndpoint st w e { a with captured } s
    (s, r, pattern)
  | .elsewhere location pattern => (s, Http.moved a.request.method location, pattern)
  | .otherMethods allowed => (s, Http.methodNotAllowed allowed, [])
  | .nothing => (s, Http.notFound, [])

/-- The level at which an answer is logged. -/
def levelOf (status : Nat) : Telemetry.Level :=
  if status ≥ 500 then .error else if status ≥ 400 then .warn else .info

/-- The entry for an answered request. -/
def completed (a : Asking) (route : Text) (status : Nat) (elapsed : Time.Duration) : LogEntry :=
  let path := (Http.splitTarget a.request.target).1
  ⟨levelOf status, "request completed",
    a.context.attributes ++ noting "method" (.text a.request.method)
      ++ noting "path" (.text ((Http.percentDecode? path).getD path))
      ++ noting "route" (.text route) ++ noting "status" (.int status)
      ++ noting "latency_ms" (.int (Int.tdiv elapsed 1000000))
      ++ noting "remote_addr" (.text a.request.remote)⟩

/-- The answer to a request, and the server after it. -/
def handle (st : History.Storage σ) (w : Surroundings) (cancel : Cancellation) (r : Request)
    (s : Server σ) : Server σ × Response :=
  let id := requestId w.fresh r
  let trace := trace? s.propagates r
  let a : Asking :=
    { request := r, id, cancel, context := { requestId := id, origin := Engine.originServer } }
  let w := { w with traceId := (trace.map (·.traceId)).getD [] }
  let (s, answer, pattern) := routed st w a s
  let route : Text := if pattern.isEmpty then "unmatched" else pattern
  let s := { s with service := s.service.measure (.request route answer.status w.elapsed) }
  (s.logged (completed a route answer.status w.elapsed), identified id trace answer)

end Server

end MathMarkup
