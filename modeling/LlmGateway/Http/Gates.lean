import LlmGateway.Budget.Tracker
import LlmGateway.Coroutine.Sum
import LlmGateway.Ratelimit.Dependency
import LlmGateway.Routing.Dependencies
import LlmGateway.Text.Decimal

/-!
# The gates of a request

Mirrors the dependencies that a client's request goes through before its handler: `require_api_key`,
`enforce_rate_limit` and `enforce_budget`, each a dependency of the next. They talk to the database and
to the buckets in Redis, beside what the rest of the request path talks to.
-/

namespace LlmGateway

open Coroutine

/-! ## The interface -/

/-- What is settled before the process starts. -/
structure SiteSettings where
  settings : Settings
  provider : ProviderSettings := {}
  gatewayApiKeys : String := ""
  strictModelRouting : Bool := false
  limiter : TokenBucketLimiter ℚ

/-- What a response holds, but for its headers. -/
inductive Content where
  /-- `{"detail": detail}` -/
  | detail (detail : String)
  | httpDetail (detail : HttpDetail)
  | unknownModel (e : UnknownModel)
  /-- The body of `unhandled_exception_handler`. -/
  | internalServerError (requestId : String)
  /-- The answer of `_serve_chat`. -/
  | answer (result : ChatResponse)
  /-- An answer in OpenAI's shape. -/
  | completion (completionId : String) (created : ℤ) (result : ChatResponse)
  /-- The frames follow. -/
  | eventStream

/-- A response, or its start where it is streamed. -/
structure Response where
  statusCode : ℕ
  headers : List (String × String)
  content : Content

/-- The commands that only the gates and the handlers issue. -/
inductive SiteCmd where
  /-- `uuid.uuid4().hex` -/
  | uuid4
  /-- The rows of `api_keys` with this hash that are not revoked. -/
  | selectKeys (keyHash : String)
  /-- The script of the limiter, at the key `ratelimit:{keyHash}`. -/
  | takeTokens (keyHash : String) (now : ℚ) (cost : ℤ)
  | respond (response : Response)

/-- What can come back from each. -/
abbrev SiteReply : SiteCmd → Type
  | .uuid4 => String
  | .selectKeys _ => Except Exc (List ApiKeyRecord)
  | .takeTokens _ _ _ => Sent (Bool × ℚ)
  | .respond _ => Unit

/-- The interface of the web application. -/
abbrev site : Interface :=
  Interface.sum ⟨SiteCmd, SiteReply, fun | .uuid4 => false | _ => true⟩ gateway

/-- A command of the application with its reply. -/
abbrev SiteEv : Type := Event site

/-- What a handler or one of its dependencies raises. -/
inductive Raised where
  | gate (e : GateError)
  | unknownModel (e : UnknownModel)
  | exc (e : Exc)

/-- `request.state`, and the headers of the `Response` that FastAPI merges into its own. -/
structure RequestState where
  requestId : String := ""
  rateLimitLimit : ℕ := 0
  rateLimitRemaining : ℤ := 0
  budgetRemainingUsd : ℚ := 0
  headers : List (String × String) := []
  /-- Whether a response has been started. -/
  responseStarted : Bool := false

/-- A function of the web application. -/
abbrev Web (α : Type) : Type := Coro site Raised RequestState α

namespace Web

variable {α : Type}

/-- Issue a command. -/
def ask (c : SiteCmd) : Web (SiteReply c) := Coro.perform (I := site) (.inl c)

/-- Call a function of the request path. -/
def call (m : Py RequestState α) : Web α := m.inr .exc

/-- `raise HTTPException`. -/
def refuse (e : HttpException) : Web α := Coro.raise (.gate (.httpException e))

/-! ## The gates -/

/-- What the headers of a request say. -/
structure Headers where
  authorization : Option Str.Latin1 := none
  xApiKey : Option Str.Latin1 := none
  xRequestId : Option Str.Latin1 := none

variable (site : SiteSettings)

/-- `_is_valid_db_key`. -/
def isValidDbKey (presented : String) : Web Bool := do
  let rows ← ask (.selectKeys (site.settings.hashKey presented))
  let rows ← Coro.ofExcept (rows.mapError Raised.exc)
  let record ← Coro.ofExcept ((scalarOneOrNone rows).mapError Raised.gate)
  pure record.isSome

/-- `require_api_key`. -/
def requireApiKey (headers : Headers) : Web String :=
  let allowed := allowedApiKeys site.gatewayApiKeys
  match (extractKey headers.authorization headers.xApiKey).filter (· ≠ "") with
  | none => refuse ⟨401, "missing API key", []⟩
  | some presented => do
    if ← Coro.ofExcept ((compareAll presented allowed).mapError Raised.gate) then
      pure presented
    else if ← isValidDbKey site presented then
      pure presented
    else if allowed.isEmpty then
      refuse ⟨503, "gateway API key auth is not configured", []⟩
    else
      refuse ⟨401, "invalid API key", []⟩

/-- `enforce_rate_limit`. -/
def enforceRateLimit (apiKey : String) : Web String := do
  let now ← call time
  let sent ← ask (.takeTokens (site.settings.hashKey apiKey) now 1)
  let reply ← Coro.ofExcept (sent.toExcept.mapError Raised.exc)
  match site.limiter.enforceRateLimit reply with
  | .error e => do
    call (metric (.requestsRefused "rate_limit"))
    refuse e
  | .ok granted => do
    Coro.update fun s : RequestState => { s with
      rateLimitLimit := granted.rateLimitLimit
      rateLimitRemaining := granted.rateLimitRemaining
      headers := s.headers ++ granted.headers }
    pure apiKey

/-- `enforce_budget`. -/
def enforceBudget (apiKey : String) : Web String := do
  let cap := site.settings.monthlyBudgetUsdPerKey
  let spent ← call (BudgetTracker.spentUsd site.settings.hashKey apiKey)
  let remaining := max 0 (cap - spent)
  Coro.update fun s : RequestState => { s with budgetRemainingUsd := remaining }
  if cap ≤ spent then do
    call (metric (.requestsRefused "key_budget_exhausted"))
    refuse ⟨402, "monthly budget exceeded for this API key",
      [("X-Budget-Remaining-USD", "0.0000")]⟩
  else do
    Coro.update fun s : RequestState => { s with
      headers := s.headers ++ [("X-Budget-Remaining-USD", Str.fixed 4 remaining)] }
    pure apiKey

/-- The dependencies of an endpoint for clients, from the innermost on. -/
def gates (headers : Headers) : Web String := do
  let apiKey ← requireApiKey site headers
  let apiKey ← enforceRateLimit site apiKey
  enforceBudget site apiKey

end Web

end LlmGateway
