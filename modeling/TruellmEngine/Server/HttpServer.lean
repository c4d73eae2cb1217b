/-
  The front door of the server (`http_server.cpp`, `auth_middleware.cpp` and the three
  `register_routes`): the pre-routing handler with the rate limiter, the routes, the check of
  the API key, the CORS headers.

  An arrival is a request with the reading of the steady clock that `try_acquire` takes. The
  limiter decides under its lock and the rest of the way to the handler reads no shared state,
  so the arrivals of all threads are served in the order of the lock. What a handler does is
  not in this module: the answer says which one was run, and which headers were set. The way
  from the routes to a handler is the HTTP library's, which is not part of the source
  (`Routing.Faithful`).

  `front_door`: over every run, no handler behind the key is run without it, a client runs no
  more handlers than its bucket has tokens for, and what a client is answered depends on its own
  requests only, probes of `/health` left out. A browser reads the answers to the configured
  origins, but no answer to a preflight: it has the header of the origin twice.
-/
import TruellmEngine.Config.Schema
import TruellmEngine.Policy.RateLimiter

namespace TruellmEngine.Server

open Policy Lib

/-! ## Model -/

/-- What the routes run. -/
inductive Handler where
  | preflight | health
  | models | completions | chatCompletions | research
  | status | plugins | rlmStatus | compressionStatus | chatStatus | researchStatus
  | toolsDispatch
  | messages | countTokens
  deriving DecidableEq

/-- The methods the server has routes for; a `HEAD` is routed as a `GET`. -/
inductive Method where
  | get | post | options | other
  deriving DecidableEq

/-- What the front door reads of a request; a header that is missing reads as empty. -/
structure HttpRequest where
  method : Method
  path : String
  remoteAddr : Bytes
  authorization : String := ""
  origin : String := ""
  anthropicVersion : String := ""
  deriving DecidableEq

structure Route where
  method : Method
  pattern : String
  auth : Bool
  handler : Handler
  deriving DecidableEq

/-- A route that first asks for the key. -/
def guarded (method : Method) (pattern : String) (handler : Handler) : Route :=
  ⟨method, pattern, true, handler⟩

/-- `OpenAIRouter::register_routes`. -/
def openaiRoutes : List Route :=
  [guarded .get "/v1/models" .models,
    guarded .post "/v1/completions" .completions,
    guarded .post "/v1/chat/completions" .chatCompletions,
    guarded .post "/v1/research" .research]

/-- `NativeRouter::register_routes`. -/
def nativeRoutes (server : Config.ServerConfig) : List Route :=
  [guarded .get "/truellm/v1/status" .status,
    guarded .get "/truellm/v1/plugins" .plugins,
    guarded .get "/truellm/v1/rlm/status" .rlmStatus,
    guarded .get "/truellm/v1/compression/status" .compressionStatus,
    guarded .get "/truellm/v1/chat/status" .chatStatus,
    guarded .get "/truellm/v1/research/status" .researchStatus] ++
  if server.enableDebugEndpoints then
    [guarded .post "/truellm/v1/tools/dispatch" .toolsDispatch]
  else []

/-- `AnthropicRouter::register_routes`. -/
def anthropicRoutes : List Route :=
  [guarded .post "/v1/messages" .messages,
    guarded .post "/v1/messages/count_tokens" .countTokens]

/-- `HttpServer::setup_routes`, in the order of the registrations. -/
def setupRoutes (server : Config.ServerConfig) : List Route :=
  [⟨.options, ".*", false, .preflight⟩, ⟨.get, "/health", false, .health⟩] ++
    openaiRoutes ++ nativeRoutes server ++ anthropicRoutes

/-- How the library finds the route of a request. -/
structure Routing where
  find : List Route → HttpRequest → Option Route

/-- A pattern that stands for itself only. -/
def Literal (pattern : String) : Prop := ∀ c ∈ pattern.toList, c = '/' ∨ c = '_' ∨ c.isAlphanum

instance (pattern : String) : Decidable (Literal pattern) :=
  List.decidableBAll (fun c : Char => c = '/' ∨ c = '_' ∨ c.isAlphanum) pattern.toList

/-- What is documented of the library: a request goes to a route that was registered for its
    method, and to the first of them where that is its very path. -/
structure Routing.Faithful (routing : Routing) : Prop where
  registered {routes : List Route} {req : HttpRequest} {r : Route} :
    routing.find routes req = some r → r ∈ routes ∧ r.method = req.method
  literal {routes : List Route} {req : HttpRequest} {r : Route} :
    routes.find? (·.method = req.method) = some r → Literal r.pattern → r.pattern = req.path →
      routing.find routes req = some r

def checkApiKey (req : HttpRequest) (expectedKey : String) : Bool :=
  expectedKey == "" || req.authorization == "Bearer " ++ expectedKey

def resolveCorsOrigin (server : Config.ServerConfig) (req : HttpRequest) : String :=
  match server.corsOrigins with
  | [] => "*"
  | first :: rest =>
    if req.origin ≠ "" ∧ req.origin ∈ first :: rest then req.origin else first

inductive Answer where
  | ran (handler : Handler)
  | tooManyRequests
  | unauthorized
  | notFound
  deriving DecidableEq

/-- The key of the limiter. -/
def clientKey (req : HttpRequest) : Bytes :=
  if req.remoteAddr = [] then "unknown".toUTF8.toList else req.remoteAddr

/-- Liveness probes are not limited. -/
def isLimited (req : HttpRequest) : Bool := req.path != "/health"

/-- The rate limiting of the pre-routing handler: whether the request goes on. -/
def preRouting (rl : RateLimiterConfig) (buckets : Buckets) (req : HttpRequest) (now : ℚ) :
    Bool × Buckets :=
  if isLimited req && rl.enabled then tryAcquire rl buckets (clientKey req) now
  else (true, buckets)

/-- The routing, and the check of the key in front of the handler. -/
def route (routing : Routing) (server : Config.ServerConfig) (req : HttpRequest) : Answer :=
  match routing.find (setupRoutes server) req with
  | none => .notFound
  | some r => if r.auth && !checkApiKey req server.apiKey then .unauthorized else .ran r.handler

/-- `messageId` is the id of the message that `handle_messages` makes of the request, if it
    makes one. -/
structure Arrival where
  req : HttpRequest
  now : ℚ
  messageId : Option String := none
  deriving DecidableEq

/-- Who answered, and the headers in the order in which they were set: `set_header` appends. -/
structure Response where
  answer : Answer
  headers : List (String × String)
  deriving DecidableEq

/-- The headers that are set before the post-routing handler. -/
def ownHeaders (server : Config.ServerConfig) (a : Arrival) : Answer → List (String × String)
  | .tooManyRequests => [("Retry-After", "1")]
  | .ran .preflight =>
    [("Access-Control-Allow-Origin", resolveCorsOrigin server a.req),
      ("Access-Control-Allow-Methods", "GET, POST, OPTIONS"),
      ("Access-Control-Allow-Headers", "Content-Type, Authorization")]
  | .ran .messages =>
    match a.messageId with
    | some id =>
      ("request-id", id) ::
        if a.req.anthropicVersion = "" then []
        else [("anthropic-version", a.req.anthropicVersion)]
    | none => []
  | _ => []

/-- The post-routing handler: it is run for every answer. -/
def postRouting (server : Config.ServerConfig) (a : Arrival) (answer : Answer) : Response :=
  ⟨answer, ownHeaders server a answer ++
    [("Access-Control-Allow-Origin", resolveCorsOrigin server a.req)]⟩

/-- One arrival. -/
def serve (routing : Routing) (server : Config.ServerConfig) (rl : RateLimiterConfig)
    (buckets : Buckets) (a : Arrival) : Response × Buckets :=
  match preRouting rl buckets a.req a.now with
  | (true, buckets) => (postRouting server a (route routing server a.req), buckets)
  | (false, buckets) => (postRouting server a .tooManyRequests, buckets)

def serveAll (routing : Routing) (server : Config.ServerConfig) (rl : RateLimiterConfig) :
    Buckets → List Arrival → List (Arrival × Response)
  | _, [] => []
  | buckets, a :: rest =>
    let (res, buckets) := serve routing server rl buckets a
    (a, res) :: serveAll routing server rl buckets rest

/-- `HttpServer::HttpServer` builds the limiter from the preset of the guardrails. -/
def served (routing : Routing) (server : Config.ServerConfig) (preset : String)
    (arrivals : List Arrival) : List (Arrival × Response) :=
  serveAll routing server (configForGuardrailPreset preset) noBuckets arrivals

/-! ## Statement -/

/-- What everyone may run. -/
def Handler.isOpen : Handler → Bool
  | .preflight | .health => true
  | _ => false

def Response.values (res : Response) (key : String) : List String :=
  (res.headers.filter (·.1 = key)).map Prod.snd

/-- What a browser asks of an answer that a page of `origin` may read, where no credentials go
    with the request: one value, and that of the page or `*`. -/
def BrowserAllows (origin : String) (res : Response) : Prop :=
  ∃ value, res.values "Access-Control-Allow-Origin" = [value] ∧ (value = "*" ∨ value = origin)

/-- The calls the arrivals make on the limiter. -/
def limiterCalls (arrivals : List Arrival) : List Call :=
  (arrivals.filter fun a => isLimited a.req).map fun a => .acquire (clientKey a.req) a.now

/-- How many limited requests of a client were let through in a window. -/
def letThrough (key : Bytes) (start len : ℚ) (answers : List (Arrival × Response)) : Nat :=
  answers.countP fun r => isLimited r.1.req && clientKey r.1.req == key &&
    decide (r.2.answer ≠ .tooManyRequests) && decide (start ≤ r.1.now ∧ r.1.now ≤ start + len)

structure FrontDoor (routing : Routing) (server : Config.ServerConfig) (preset : String)
    (arrivals : List Arrival) : Prop where
  /-- Behind the key. -/
  keyed : ∀ a res h, (a, res) ∈ served routing server preset arrivals → res.answer = .ran h →
    h.isOpen = false → server.apiKey = "" ∨ a.req.authorization = "Bearer " ++ server.apiKey
  /-- The debug endpoint is off unless it is configured. -/
  debug : ∀ a res, (a, res) ∈ served routing server preset arrivals →
    res.answer = .ran .toolsDispatch → server.enableDebugEndpoints = true
  /-- Within the limit. -/
  limited : (configForGuardrailPreset preset).enabled = true → ∀ key start len, 0 ≤ len →
    (letThrough key start len (served routing server preset arrivals) : ℚ) ≤
      (configForGuardrailPreset preset).burstSize +
        (configForGuardrailPreset preset).ratePerSecond * len
  /-- A client gets the answers it gets when nobody else is there. -/
  isolated : ∀ key,
    (served routing server preset arrivals).filter (fun r => clientKey r.1.req == key) =
      served routing server preset (arrivals.filter fun a => clientKey a.req == key)
  /-- Probes are answered whatever the limiter says, and cost nothing. -/
  probes : (served routing server preset arrivals).filter (fun r => isLimited r.1.req) =
    served routing server preset (arrivals.filter fun a => isLimited a.req)
  probed : ∀ a res, (a, res) ∈ served routing server preset arrivals → a.req.method = .get →
    a.req.path = "/health" → res.answer = .ran .health
  /-- A browser lets exactly the configured origins read an answer, also a refusal; `*` counts
      where it is the first of the list. -/
  cors : ∀ a res, (a, res) ∈ served routing server preset arrivals → a.req.origin ≠ "" →
    res.answer ≠ .ran .preflight →
      (BrowserAllows a.req.origin res ↔
        a.req.origin ∈ server.corsOrigins ∨ server.corsOrigins.head?.getD "*" = "*")
  /-- The answer to a preflight has the header from its handler and from the one behind the
      routing, and no browser takes it, whatever the origin. -/
  preflight : ∀ a res, (a, res) ∈ served routing server preset arrivals →
    res.answer = .ran .preflight →
      res.values "Access-Control-Allow-Origin" =
        [resolveCorsOrigin server a.req, resolveCorsOrigin server a.req] ∧
      ∀ origin, ¬ BrowserAllows origin res

variable {routing : Routing} {server : Config.ServerConfig} {preset : String}
  {rl : RateLimiterConfig} {buckets : Buckets} {arrivals : List Arrival} {key : Bytes}

/-! ## Routes -/

theorem setupRoutes_guarded {r : Route} (hr : r ∈ setupRoutes server)
    (hopen : r.handler.isOpen = false) : r.auth = true := by
  have hall : ∀ r ∈ setupRoutes server, r.handler.isOpen || r.auth := by
    unfold setupRoutes nativeRoutes
    cases server.enableDebugEndpoints <;> decide
  simpa [hopen] using hall r hr

theorem setupRoutes_debug {r : Route} (hr : r ∈ setupRoutes server)
    (hdebug : r.handler = .toolsDispatch) : server.enableDebugEndpoints = true := by
  by_contra hoff
  have hall : ∀ r ∈ setupRoutes server, r.handler ≠ .toolsDispatch := by
    unfold setupRoutes nativeRoutes
    rw [Bool.eq_false_of_not_eq_true hoff]
    decide
  exact hall r hr hdebug

/-- The route of a handler that is run, and the key it asked for. -/
theorem route_ran (hrouting : routing.Faithful) {req : HttpRequest} {h : Handler}
    (hran : route routing server req = .ran h) :
    ∃ r ∈ setupRoutes server, r.handler = h ∧
      (r.auth = true → checkApiKey req server.apiKey = true) := by
  unfold route at hran
  split at hran
  · cases hran
  · rename_i r hfind
    refine ⟨r, (hrouting.registered hfind).1, ?_⟩
    split at hran
    · cases hran
    · rename_i hkey
      refine ⟨Answer.ran.inj hran, fun hauth => ?_⟩
      simpa [hauth] using hkey

theorem route_ne_tooMany (req : HttpRequest) : route routing server req ≠ .tooManyRequests := by
  unfold route
  split
  · exact Answer.noConfusion
  · split <;> exact Answer.noConfusion

theorem route_health (hrouting : routing.Faithful) {req : HttpRequest} (hget : req.method = .get)
    (hpath : req.path = "/health") : route routing server req = .ran .health := by
  have hfirst : (setupRoutes server).find? (·.method = req.method) =
      some ⟨.get, "/health", false, .health⟩ := by
    rw [hget]
    rfl
  have hfind := hrouting.literal hfirst (by decide) hpath.symm
  unfold route
  rw [hfind]
  rfl

theorem checkApiKey_iff {req : HttpRequest} {expectedKey : String} :
    checkApiKey req expectedKey = true ↔
      expectedKey = "" ∨ req.authorization = "Bearer " ++ expectedKey := by
  simp [checkApiKey]

/-! ## An arrival -/

theorem preRouting_probe {req : HttpRequest} (h : isLimited req = false) (now : ℚ) :
    preRouting rl buckets req now = (true, buckets) := by
  simp [preRouting, h]

theorem serve_probe {a : Arrival} (h : isLimited a.req = false) :
    serve routing server rl buckets a =
      (postRouting server a (route routing server a.req), buckets) := by
  unfold serve
  rw [preRouting_probe h]

theorem preRouting_limited {req : HttpRequest} (h : isLimited req = true) (hen : rl.enabled = true)
    (now : ℚ) : preRouting rl buckets req now = tryAcquire rl buckets (clientKey req) now := by
  simp [preRouting, h, hen]

/-- An answer is the limiter's refusal, which no probe gets, or what the routes say. -/
theorem serve_fst (a : Arrival) :
    ((serve routing server rl buckets a).1 = postRouting server a .tooManyRequests ∧
        isLimited a.req = true) ∨
      (serve routing server rl buckets a).1 =
        postRouting server a (route routing server a.req) := by
  cases hlimited : isLimited a.req with
  | false =>
    rw [serve_probe hlimited]
    exact .inr rfl
  | true =>
    unfold serve
    split
    · exact .inr rfl
    · exact .inl ⟨rfl, rfl⟩

/-- The answer tells what the limiter said. -/
theorem serve_let (routing : Routing) (server : Config.ServerConfig) (rl : RateLimiterConfig)
    (buckets : Buckets) (a : Arrival) :
    (serve routing server rl buckets a).1.answer ≠ .tooManyRequests ↔
      (preRouting rl buckets a.req a.now).1 = true := by
  unfold serve
  split
  · rename_i hpre
    simp [hpre, postRouting, route_ne_tooMany]
  · rename_i hpre
    simp [hpre, postRouting]

theorem serve_snd (a : Arrival) :
    (serve routing server rl buckets a).2 = (preRouting rl buckets a.req a.now).2 := by
  unfold serve
  split
  · rename_i hpre
    rw [hpre]
  · rename_i hpre
    rw [hpre]

/-- An arrival touches the bucket of its own client. -/
theorem serve_other {a : Arrival} (h : key ≠ clientKey a.req) :
    (serve routing server rl buckets a).2 key = buckets key := by
  rw [serve_snd]
  unfold preRouting
  split
  · exact tryAcquire_other rl buckets h a.now
  · rfl

/-- An arrival depends on the bucket of its own client. -/
theorem serve_congr (routing : Routing) (server : Config.ServerConfig) (rl : RateLimiterConfig)
    {b₁ b₂ : Buckets} {a : Arrival} (h : b₁ (clientKey a.req) = b₂ (clientKey a.req)) :
    (serve routing server rl b₁ a).1 = (serve routing server rl b₂ a).1 ∧
      (serve routing server rl b₁ a).2 (clientKey a.req) =
        (serve routing server rl b₂ a).2 (clientKey a.req) := by
  have hpre : (preRouting rl b₁ a.req a.now).1 = (preRouting rl b₂ a.req a.now).1 ∧
      (preRouting rl b₁ a.req a.now).2 (clientKey a.req) =
        (preRouting rl b₂ a.req a.now).2 (clientKey a.req) := by
    unfold preRouting
    split
    · exact tryAcquire_congr rl h a.now
    · exact ⟨rfl, h⟩
  refine ⟨?_, by rw [serve_snd, serve_snd]; exact hpre.2⟩
  unfold serve
  split <;> split <;> simp_all

/-! ## Headers -/

/-- Only the preflight handler sets the header of the origin itself. -/
theorem ownHeaders_apart (a : Arrival) {answer : Answer} (h : answer ≠ .ran .preflight) :
    ∀ header ∈ ownHeaders server a answer, header.1 ≠ "Access-Control-Allow-Origin" := by
  have hrequestId : "request-id" ≠ "Access-Control-Allow-Origin" := by decide
  have hversion : "anthropic-version" ≠ "Access-Control-Allow-Origin" := by decide
  unfold ownHeaders
  split
  · decide
  · exact absurd rfl h
  · split
    · refine List.forall_mem_cons.mpr ⟨hrequestId, ?_⟩
      split_ifs
      · simp
      · exact List.forall_mem_singleton.mpr hversion
    · simp
  · simp

theorem postRouting_values (a : Arrival) (answer : Answer) :
    (postRouting server a answer).values "Access-Control-Allow-Origin" =
      if answer = .ran .preflight then
        [resolveCorsOrigin server a.req, resolveCorsOrigin server a.req]
      else [resolveCorsOrigin server a.req] := by
  unfold postRouting Response.values
  rw [List.filter_append, List.map_append]
  split_ifs with hpreflight
  · rw [hpreflight]
    rfl
  · have hown : (ownHeaders server a answer).filter (·.1 = "Access-Control-Allow-Origin") = [] :=
      List.filter_eq_nil_iff.mpr fun header hmem => by
        simpa using ownHeaders_apart a hpreflight header hmem
    rw [hown]
    rfl

theorem browserAllows_postRouting {a : Arrival} {answer : Answer} (origin : String)
    (h : answer ≠ .ran .preflight) : BrowserAllows origin (postRouting server a answer) ↔
      resolveCorsOrigin server a.req = "*" ∨ resolveCorsOrigin server a.req = origin := by
  unfold BrowserAllows
  rw [postRouting_values, if_neg h]
  simp

theorem resolveCorsOrigin_allows (req : HttpRequest) (horigin : req.origin ≠ "") :
    (resolveCorsOrigin server req = "*" ∨ resolveCorsOrigin server req = req.origin) ↔
      req.origin ∈ server.corsOrigins ∨ server.corsOrigins.head?.getD "*" = "*" := by
  unfold resolveCorsOrigin
  cases hlist : server.corsOrigins with
  | nil => simp
  | cons first rest =>
    by_cases hmem : req.origin ∈ first :: rest
    · simp [horigin, hmem]
    · have hfirst : ¬ first = req.origin := fun h => hmem (h ▸ List.mem_cons_self)
      simp [hmem, hfirst]

/-! ## Runs -/

theorem serveAll_cons (a : Arrival) (rest : List Arrival) :
    serveAll routing server rl buckets (a :: rest) =
      (a, (serve routing server rl buckets a).1) ::
        serveAll routing server rl (serve routing server rl buckets a).2 rest := rfl

theorem mem_serveAll {a : Arrival} {res : Response}
    (h : (a, res) ∈ serveAll routing server rl buckets arrivals) :
    (res = postRouting server a .tooManyRequests ∧ isLimited a.req = true) ∨
      res = postRouting server a (route routing server a.req) := by
  induction arrivals generalizing buckets with
  | nil => cases h
  | cons b rest ih =>
    rcases List.mem_cons.mp h with heq | hrest
    · cases heq
      exact serve_fst a
    · exact ih hrest

/-- Every answer went through the post-routing handler. -/
theorem mem_serveAll_postRouting {a : Arrival} {res : Response}
    (h : (a, res) ∈ serveAll routing server rl buckets arrivals) :
    res = postRouting server a res.answer := by
  rcases mem_serveAll h with ⟨rfl, -⟩ | rfl <;> rfl

/-- A handler that is run was routed to. -/
theorem ran_routed {a : Arrival} {res : Response} {h : Handler}
    (hmem : (a, res) ∈ serveAll routing server rl buckets arrivals) (hran : res.answer = .ran h) :
    route routing server a.req = .ran h := by
  rcases mem_serveAll hmem with ⟨rfl, -⟩ | rfl
  · cases hran
  · exact hran

/-- The answers to a client are those to its own requests. -/
theorem serveAll_own {b₁ b₂ : Buckets} (h : b₁ key = b₂ key) (arrivals : List Arrival) :
    (serveAll routing server rl b₁ arrivals).filter (fun r => clientKey r.1.req == key) =
      serveAll routing server rl b₂ (arrivals.filter fun a => clientKey a.req == key) := by
  induction arrivals generalizing b₁ b₂ with
  | nil => rfl
  | cons a rest ih =>
    by_cases hkey : clientKey a.req = key
    · subst hkey
      obtain ⟨hans, hnext⟩ := serve_congr routing server rl h
      rw [serveAll_cons, List.filter_cons_of_pos (by simp), List.filter_cons_of_pos (by simp),
        serveAll_cons, ih hnext, hans]
    · rw [serveAll_cons, List.filter_cons_of_neg (by simp [hkey]),
        List.filter_cons_of_neg (by simp [hkey])]
      exact ih ((serve_other (Ne.symm hkey)).trans h)

/-- Probes change no other answer. -/
theorem serveAll_probes (buckets : Buckets) (arrivals : List Arrival) :
    (serveAll routing server rl buckets arrivals).filter (fun r => isLimited r.1.req) =
      serveAll routing server rl buckets (arrivals.filter fun a => isLimited a.req) := by
  induction arrivals generalizing buckets with
  | nil => rfl
  | cons a rest ih =>
    cases hlimited : isLimited a.req with
    | true =>
      rw [serveAll_cons, List.filter_cons_of_pos (by simp [hlimited]),
        List.filter_cons_of_pos (by simp [hlimited]), serveAll_cons, ih]
    | false =>
      rw [serveAll_cons, List.filter_cons_of_neg (by simp [hlimited]),
        List.filter_cons_of_neg (by simp [hlimited]), ih, serve_probe hlimited]

/-- The requests let through are the grants of the limiter. -/
theorem letThrough_serveAll (hen : rl.enabled = true) (key : Bytes) (start len : ℚ)
    (buckets : Buckets) (arrivals : List Arrival) :
    letThrough key start len (serveAll routing server rl buckets arrivals) =
      grantedIn key start len (decisions rl buckets (limiterCalls arrivals)) := by
  induction arrivals generalizing buckets with
  | nil => rfl
  | cons a rest ih =>
    cases hlimited : isLimited a.req with
    | false =>
      have hcalls : limiterCalls (a :: rest) = limiterCalls rest := by
        simp [limiterCalls, hlimited]
      rw [serveAll_cons, hcalls, ← ih, serve_probe hlimited]
      unfold letThrough
      rw [List.countP_cons_of_neg (by simp [hlimited])]
    | true =>
      have hcalls : limiterCalls (a :: rest) =
          .acquire (clientKey a.req) a.now :: limiterCalls rest := by
        simp [limiterCalls, hlimited]
      have hlet := serve_let routing server rl buckets a
      have hnext : (serve routing server rl buckets a).2 =
          (tryAcquire rl buckets (clientKey a.req) a.now).2 := by
        rw [serve_snd, preRouting_limited hlimited hen]
      rw [preRouting_limited hlimited hen] at hlet
      rw [serveAll_cons, hcalls, decisions_acquire, ← hnext]
      have hrest := ih (serve routing server rl buckets a).2
      unfold letThrough grantedIn at hrest ⊢
      rw [List.countP_cons, List.countP_cons, hrest]
      congr 2
      simp [hlimited, hlet]

/-! ## The front door -/

theorem limiterCalls_acquire {c : Call} (hc : c ∈ limiterCalls arrivals) :
    ∃ a ∈ arrivals, c = .acquire (clientKey a.req) a.now := by
  obtain ⟨a, ha, rfl⟩ := List.mem_map.mp hc
  exact ⟨a, (List.mem_filter.mp ha).1, rfl⟩

/-- The limited requests let through in a window. -/
theorem letThrough_served (hen : (configForGuardrailPreset preset).enabled = true)
    (horder : Policy.InOrder (limiterCalls arrivals)) (hepoch : ∀ a ∈ arrivals, a.now ≠ epoch)
    (key : Bytes) (start len : ℚ) (hlen : 0 ≤ len) :
    (letThrough key start len (served routing server preset arrivals) : ℚ) ≤
      (configForGuardrailPreset preset).burstSize +
        (configForGuardrailPreset preset).ratePerSecond * len := by
  obtain ⟨hrate, hburst⟩ := configForGuardrailPreset_nonneg preset
  have hread : ∀ key now, .acquire key now ∈ limiterCalls arrivals → now ≠ epoch := by
    intro key now hc
    obtain ⟨a, ha, heq⟩ := limiterCalls_acquire hc
    cases heq
    exact hepoch a ha
  have hnone : ∀ key b, noBuckets key = some b → b.lastRefill ≠ epoch := by
    intro key b hb
    cases hb
  have hlimits := limits (configForGuardrailPreset preset) hen hrate horder
    (notAtEpoch_of_readings hen hread hnone)
  have hown : ∀ c ∈ limiterCalls arrivals, c ≠ .reset key := by
    intro c hc
    obtain ⟨a, -, rfl⟩ := limiterCalls_acquire hc
    exact Call.noConfusion
  have hharm : ∀ c ∈ limiterCalls arrivals, c.Harmless (configForGuardrailPreset preset) := by
    intro c hc
    obtain ⟨a, -, rfl⟩ := limiterCalls_acquire hc
    trivial
  have hwindow := hlimits.window key hown hharm start len hlen
  rw [max_eq_left hburst] at hwindow
  unfold served
  rw [letThrough_serveAll hen]
  exact hwindow

/-- The routes are tried in the order of their registration. -/
def inOrder : Routing where
  find routes req := routes.find? fun r =>
    r.method = req.method ∧ (r.pattern = ".*" ∨ r.pattern = req.path)

theorem inOrder_faithful : inOrder.Faithful where
  registered {routes req r} h := by
    unfold inOrder at h
    have hfound := List.find?_some h
    exact ⟨List.mem_of_find?_eq_some h, (of_decide_eq_true hfound).1⟩
  literal {routes req r} h _ hpath := by
    obtain ⟨hmethod, before, after, rfl, hbefore⟩ := List.find?_eq_some_iff_append.mp h
    refine List.find?_eq_some_iff_append.mpr
      ⟨decide_eq_true ⟨of_decide_eq_true hmethod, .inr hpath⟩, before, after, rfl, ?_⟩
    intro q hq
    have hother : q.method ≠ req.method := by simpa using hbefore q hq
    simp [hother]

/-- A probe, requests from a page with the key and without it, and a preflight. -/
def fourArrivals : List Arrival :=
  [{ req := { method := .get, path := "/health", remoteAddr := [1] }, now := 1 },
    { req := { method := .post, path := "/v1/messages", remoteAddr := [1]
               authorization := "Bearer k", origin := "https://a" }
      now := 2, messageId := some "req_1" },
    { req := { method := .post, path := "/v1/messages", remoteAddr := [2]
               origin := "https://b" }
      now := 3 },
    { req := { method := .options, path := "/v1/messages", remoteAddr := [1]
               origin := "https://a" }
      now := 4 }]

def twoOrigins : Config.ServerConfig := { apiKey := "k", corsOrigins := ["https://a", "https://c"] }

example : (served inOrder twoOrigins "strict" fourArrivals).map
    (fun r => (r.2.answer, r.2.values "Access-Control-Allow-Origin")) =
    [(.ran .health, ["https://a"]), (.ran .messages, ["https://a"]),
      (.unauthorized, ["https://a"]), (.ran .preflight, ["https://a", "https://a"])] := by
  decide +kernel

end TruellmEngine.Server
