import LlmGateway.Gateway.Schemas
import LlmGateway.Http.Gates
import LlmGateway.Main.RoutedRequest

/-!
# The endpoints for clients

Mirrors `chat`, `chat_stream` and `chat_completions` of `app/main.py`, with what is around them: the
request id and the security headers that the middleware adds, the handler for `HTTPException` and
`unhandled_exception_handler`. A request is one whose body has passed validation.
-/

namespace LlmGateway

open Coroutine

/-! ## Requests -/

/-- `FORWARDED_COMPLETION_FIELDS`. -/
def FORWARDED_COMPLETION_FIELDS : Finset String :=
  {"model", "messages", "stream", "temperature", "top_p", "max_tokens", "stop"}

/-- The names of the fields that a client has set in a completion request. The declared ones are those
of `ChatCompletionRequest`. -/
structure FieldsSet where
  modelFieldsSet : Finset String := {"model", "messages"}
  modelExtra : Finset String := ∅
  declared : ∀ name ∈ modelFieldsSet, name ∉ modelExtra → name ∈
    ["model", "messages", "stream", "temperature", "top_p", "max_tokens", "stop"] := by decide
  undeclared : ∀ name ∈ modelExtra, name ∉
    ["model", "messages", "stream", "temperature", "top_p", "max_tokens", "stop"] := by decide

/-- `ignored_params`. -/
def FieldsSet.ignoredParams (fields : FieldsSet) : List String :=
  sorted ((fields.modelFieldsSet \ FORWARDED_COMPLETION_FIELDS) ∪ fields.modelExtra)

/-- What is posted, and where. -/
inductive Posted where
  /-- `/v1/chat` -/
  | chat (request : ChatRequest)
  /-- `/v1/chat/stream` -/
  | chatStream (request : ChatRequest)
  /-- `/v1/chat/completions` -/
  | chatCompletions (request : ChatCompletionRequest) (fields : FieldsSet)

/-- A request of a client. -/
structure HttpRequest where
  headers : Web.Headers := {}
  body : Posted

/-- The model that is asked for. -/
def Posted.model : Posted → String
  | .chat request => request.model
  | .chatStream request => request.model
  | .chatCompletions request _ => request.model

/-- The body, as the path behind the endpoints sees it. -/
def Posted.requestBody : Posted → RequestBody
  | .chat request => .native request
  | .chatStream request => .native request
  | .chatCompletions request _ => .completion request

/-! ## Routers -/

section Routers

variable (settings : Settings) (provider : ProviderSettings)

/-- `_get_provider` for each entry of a chain, as far as it can fail. -/
def checkHops : Chain → Except PyError Unit
  | [] => .ok ()
  | (name, _) :: rest => do
    let _ ← provider.adapter name
    checkHops rest

/-- `build_router`, of whose router only the name of its chain matters here. -/
def chainFor (virtualModel : String) : Except PyError String := do
  let (chainName, chain) ← settings.resolveChain virtualModel
  checkHops provider chain
  pure chainName

end Routers

/-! ## The endpoints -/

namespace Web

variable (site : SiteSettings)

/-- A response on its way through `RequestIDMiddleware` and `SecurityHeadersMiddleware`. -/
def respond (response : Response) : Web Unit := do
  let s ← Coro.locals
  ask (.respond { response with
    headers := response.headers ++ [("X-Request-ID", s.requestId),
      ("X-Content-Type-Options", "nosniff"), ("X-Frame-Options", "DENY"),
      ("Referrer-Policy", "no-referrer")] })
  Coro.update fun s : RequestState => { s with responseStarted := true }

/-- `_route`: the chain of a model. -/
def route (model : String) (strict : Option Bool) : Web String := do
  let s ← Coro.locals
  Coro.ofExcept ((site.settings.route site.strictModelRouting model s.requestId strict).mapError
    Raised.unknownModel)
  Coro.ofExcept ((chainFor site.settings site.provider model).mapError (.exc ∘ .exception))

/-- The headers of a stream. -/
def streamHeaders (chainName : String) (s : RequestState) : List (String × String) :=
  [("X-Gateway-Chain", chainName), ("X-RateLimit-Limit", toString s.rateLimitLimit),
    ("X-RateLimit-Remaining", toString s.rateLimitRemaining),
    ("X-Budget-Remaining-USD", Str.fixed 4 s.budgetRemainingUsd)]

/-- `chat`. -/
def chat (request : ChatRequest) (apiKey : String) : Web Unit := do
  let s ← Coro.locals
  let chainName ← route site request.model none
  Coro.update fun s : RequestState =>
    { s with headers := s.headers ++ [("X-Gateway-Chain", chainName)] }
  let result ← call (RoutedRequest.answer site.settings {
    chainName
    messages := (RequestBody.native request).messages
    params := none
    requestId := s.requestId
    apiKey
    requestedModel := request.model
    delivery := .response })
  let s ← Coro.locals
  respond ⟨200, s.headers, .answer result⟩

/-- A request whose answer is streamed. -/
def streamed (p : RoutedRequest) (ignored : List (String × String)) (endpoint : Web Endpoint) :
    Web Unit := do
  let x ← call (reserveChain site.settings p.chainName p.messages p.params p.requestId p.apiKey)
  let endpoint ← endpoint
  let s ← Coro.locals
  respond ⟨200, streamHeaders p.chainName s ++ ignored, .eventStream⟩
  call ({ p with delivery := .stream endpoint : RoutedRequest }.serve site.settings x)

/-- `chat_stream`. -/
def chatStream (request : ChatRequest) (apiKey : String) : Web Unit := do
  let s ← Coro.locals
  let chainName ← route site request.model none
  streamed site {
    chainName
    messages := (RequestBody.native request).messages
    params := none
    requestId := s.requestId
    apiKey
    requestedModel := request.model
    delivery := .stream .native } [] (pure .native)

/-- `X-Gateway-Ignored-Params`, where there are any. -/
def ignoredHeader (ignored : List String) : List (String × String) :=
  if ignored = [] then [] else [("X-Gateway-Ignored-Params", ",".intercalate ignored)]

/-- `f"chatcmpl-{uuid.uuid4().hex}"` and `int(time.time())`. -/
def completionIdentity : Web (String × ℤ) := do
  let hex ← ask .uuid4
  let now ← call time
  pure ("chatcmpl-" ++ hex, TokenBucketLimiter.truncate now)

/-- `chat_completions`. -/
def chatCompletions (request : ChatCompletionRequest) (fields : FieldsSet) (apiKey : String) :
    Web Unit := do
  let s ← Coro.locals
  let chainName ← route site request.model (some true)
  let ignored := ignoredHeader fields.ignoredParams
  let p : RoutedRequest := {
    chainName
    messages := (RequestBody.completion request).messages
    params := some request.samplingParams
    requestId := s.requestId
    apiKey
    requestedModel := request.model
    delivery := .response }
  if request.stream then
    streamed site p ignored do
      let (completionId, created) ← completionIdentity
      pure (.openai completionId created)
  else do
    Coro.update fun s : RequestState =>
      { s with headers := s.headers ++ [("X-Gateway-Chain", chainName)] ++ ignored }
    let result ← call (p.answer site.settings)
    let (completionId, created) ← completionIdentity
    let s ← Coro.locals
    respond ⟨200, s.headers, .completion completionId created result⟩

/-- The endpoint of a request. -/
def endpoint (x : HttpRequest) : Web Unit := do
  let apiKey ← gates site x.headers
  match x.body with
  | .chat request => chat site request apiKey
  | .chatStream request => chatStream site request apiKey
  | .chatCompletions request fields => chatCompletions site request fields apiKey

/-! ## Around the endpoints -/

/-- `_MAX_REQUEST_ID_LENGTH`. -/
def MAX_REQUEST_ID_LENGTH : ℕ := 64

/-- The request id that `RequestIDMiddleware` settles on. -/
def requestIdOf (headers : Headers) : Web String :=
  match (headers.xRequestId.map Str.Latin1.text).filter
      fun id => id ≠ "" ∧ id.length ≤ MAX_REQUEST_ID_LENGTH with
  | some incoming => pure incoming
  | none => ask .uuid4

end Web

/-- The response to an `HTTPException`. -/
def Raised.response? : Raised → Option Response
  | .gate (.httpException e) => some ⟨e.statusCode, e.headers, .detail e.detail⟩
  | .unknownModel e => some ⟨e.statusCode, [], .unknownModel e⟩
  | .exc (.exception (.httpException e)) => some ⟨e.statusCode, e.headers, .httpDetail e.detail⟩
  | _ => none

/-- Whether it is an `Exception`. -/
def Raised.isException : Raised → Bool
  | .exc e => e.isException
  | _ => true

namespace Web

variable (site : SiteSettings)

/-- The handler of the framework for `HTTPException`. -/
def onHttpException (response : Response) : Web Unit := do
  let s ← Coro.locals
  if s.responseStarted then Coro.raise (.exc (.exception (.other "RuntimeError")))
  else respond response

/-- `unhandled_exception_handler`, outside of the middleware. What it was called for is raised again. -/
def unhandledExceptionHandler (e : Raised) : Web Unit := do
  call (metric .unhandledExceptions)
  let s ← Coro.locals
  if s.responseStarted then Coro.raise e
  else do
    ask (.respond ⟨500, [("X-Request-ID", s.requestId)], .internalServerError s.requestId⟩)
    Coro.raise e

/-- A request from its arrival to its end. -/
def dispatch (x : HttpRequest) : Web Unit :=
  Coro.attempt
    (do
      let requestId ← requestIdOf x.headers
      Coro.update fun s : RequestState => { s with requestId }
      (endpoint site x).attempt fun e => e.response?.map onHttpException)
    fun e => if e.isException then some (unhandledExceptionHandler e) else none

end Web

end LlmGateway
