import LlmGateway.Coroutine.Coro
import LlmGateway.Common.OrderedDict
import LlmGateway.Gateway.Value
import Mathlib.Data.Finset.Defs

/-!
# The commands of the gateway

Everything the request path asks of its surroundings: Redis, the database, the providers, the clock,
the metrics registry, the caller reading a stream. A command's reply type says what can come back,
so a metric can raise an `Exception` but is never cancelled, and the clock cannot fail.

`log` records the call of a function in the trace. It has no counterpart in the source and no
effect.
-/

namespace LlmGateway

open Coroutine

/-- A Redis key of one of the two ledgers. -/
inductive LedgerKey where
  /-- `provider_budget:{provider}` -/
  | provider (provider : String)
  /-- `budget:{hash_key(api_key)}:{period}` -/
  | key (keyHash : String) (period : ℤ)
  deriving DecidableEq

/-- The `ledger` label of `BUDGET_RESERVATION_LEAKED`. -/
inductive Ledger where
  | provider
  | key
  deriving DecidableEq

/-- A change to one Prometheus series. -/
inductive Metric where
  | providerBudgetSpent (provider : String) (value : ℚ)
  | providerBudgetRemaining (provider : String) (value : ℚ)
  | budgetReservationLeaked (ledger : Ledger) (amount : ℚ)
  | requestsRefused (reason : String)
  | requestCount (status : String)
  | requestLatency
  | unhandledExceptions
  | costUsd (provider model : String) (amount : ℚ)
  | tokens (provider model direction : String) (amount : PyVal)
  | providerAttempts (provider outcome : String)
  | providerLatency (provider : String)
  | fallbackTriggered
  | circuitState (provider : String) (value : ℕ)

/-- A row of `audit_log`. -/
structure AuditLogEntry where
  requestId : String
  apiKeyHash : String
  team : String
  requestedModel : String
  provider : String
  outcome : String
  inputTokens : PyVal
  outputTokens : PyVal
  costUsd : ℚ

/-- The call of a function, as recorded by `log`. -/
inductive Call where
  | settleChain (apiKey : String) (reservations : OrderedDict String ℚ) (servedProvider : String)
      (actualUsd : ℚ)
  | providerSettle (provider : String) (reservedUsd actualUsd : ℚ)
  | recordUnreserved (provider : String) (actualUsd : ℚ)
  | trackerSettle (apiKey : String) (reservedUsd actualUsd : ℚ)

/-- What a stream endpoint sends. -/
inductive Frame where
  /-- `data: {json of the chunk}` -/
  | chunk (c : StreamChunk)
  /-- `event: error` with an `error` text and the request id -/
  | errorEvent (error requestId : String)
  /-- a `chat.completion.chunk` carrying the assistant role -/
  | role (completionId : String) (created : ℤ) (model : String)
  /-- a `chat.completion.chunk` carrying content -/
  | content (completionId : String) (created : ℤ) (model : String) (content : PyVal)
  /-- a `chat.completion.chunk` with `finish_reason: stop` -/
  | finish (completionId : String) (created : ℤ) (model : String)
  /-- `data:` with an `error` object -/
  | errorObject (message requestId : String)
  /-- `data: [DONE]` -/
  | done

/-- `CircuitState`. -/
inductive CircuitState where
  | closed
  | open
  | halfOpen
  deriving DecidableEq

/-- What an adapter reads off a provider's reply to `chat`. -/
structure Completion where
  content : PyVal
  inputTokens : PyVal
  outputTokens : PyVal

/-- What a provider's stream does at its first `__anext__`: fail or end at once, or give a first
chunk, in which case it goes on with `rest` and then ends or raises. -/
inductive StreamReply where
  | failed (e : Exc)
  | empty
  | opened (first : StreamChunk) (rest : List StreamChunk) (ending : Option PyError)

/-- What the next `__anext__` of a router's stream has in store. -/
inductive Upcoming where
  | chunk (c : StreamChunk)
  | stop
  | error (e : PyError)

/-- The commands of the request path. -/
inductive Cmd where
  /-- `time.time()` -/
  | time
  /-- a synchronous use of `app/budget/pricing.py` -/
  | pricing
  | metric (m : Metric)
  | log (c : Call)
  /-- `GET` -/
  | get (k : LedgerKey)
  /-- `INCRBYFLOAT` -/
  | incrbyfloat (k : LedgerKey) (delta : ℚ)
  /-- `MULTI`, `INCRBYFLOAT`, `EXPIRE`, `EXEC` -/
  | incrbyfloatExpire (k : LedgerKey) (delta : ℚ) (seconds : ℕ)
  | openSession
  | selectTeam (keyHash : String)
  | commitAudit (row : AuditLogEntry)
  | closeSession
  /-- `asyncio.sleep` -/
  | sleep
  | allowRequest (breaker : String)
  | recordSuccess (breaker : String)
  | recordFailure (breaker : String)
  | circuitState (breaker : String)
  /-- the call a provider adapter makes upstream -/
  | providerChat (provider model : String) (messages : List ChatMessage)
      (params : Option SamplingParams)
  /-- opening a provider's stream and waiting for its first chunk -/
  | providerStream (provider model : String) (messages : List ChatMessage)
      (params : Option SamplingParams)
  /-- waiting for the next chunk of a stream -/
  | anext (next : Upcoming)
  /-- the first `__anext__` of a generator, or its `aclose` before that -/
  | start
  /-- handing a frame to the caller -/
  | yield (f : Frame)
  /-- handing a chunk to whoever iterates the router's stream -/
  | yieldChunk (c : StreamChunk)

/-- The outcome of a command sent to a server: a reply, or an exception on this side, in which case
the server may or may not have applied it. -/
inductive Sent (β : Type) where
  | ok (value : β)
  | failed (e : Exc) (applied : Bool)

/-- What the program sees of a sent command. -/
def Sent.toExcept {β : Type} : Sent β → Except Exc β
  | .ok v => .ok v
  | .failed e _ => .error e

/-- What can come back from each command. -/
abbrev Reply : Cmd → Type
  | .time => ℚ
  | .pricing => Except PyError Unit
  | .metric _ => Except PyError Unit
  | .log _ => Unit
  | .get _ => Sent ℚ
  | .incrbyfloat _ _ => Sent ℚ
  | .incrbyfloatExpire _ _ _ => Sent ℚ
  | .openSession => Sent Unit
  | .selectTeam _ => Sent (Option String)
  | .commitAudit _ => Sent Unit
  | .closeSession => Sent Unit
  | .sleep => Except Exc Unit
  | .allowRequest _ => Bool
  | .recordSuccess _ => Unit
  | .recordFailure _ => Unit
  | .circuitState _ => CircuitState
  | .providerChat _ _ _ _ => Except Exc Completion
  | .providerStream _ _ _ _ => StreamReply
  | .anext _ => Except Exc Unit
  | .start => Bool
  | .yield _ => Except Exc Unit
  | .yieldChunk _ => Except Exc Unit

/-- Whether the command gives up the event loop. -/
def suspends : Cmd → Bool
  | .time | .pricing | .metric _ | .log _ => false
  | .allowRequest _ | .recordSuccess _ | .recordFailure _ | .circuitState _ => false
  | _ => true

/-- The interface of the request path. -/
abbrev gateway : Interface := ⟨Cmd, Reply, suspends⟩

/-- A function of the request path, with locals `σ`. -/
abbrev Py (σ α : Type) : Type := Coro gateway Exc σ α

/-- A command of the request path with its reply. -/
abbrev Ev : Type := Event gateway

variable {σ α β : Type}

/-! ## Statements -/

/-- Issue a command. -/
def ask (c : Cmd) : Py σ (Reply c) := Coro.perform (I := gateway) c

/-- `raise` of a subclass of `Exception`. -/
def throw (e : PyError) : Py σ α := Coro.raise (.exception e)

/-- `try: m  except Exception: h`. -/
def tryExcept (m : Py σ α) (h : PyError → Py σ α) : Py σ α :=
  m.attempt fun
    | .exception e => some (h e)
    | _ => none

/-- `try: m  except Exception: h  else: k`. -/
def tryExceptElse (m : Py σ α) (h : PyError → Py σ β) (k : α → Py σ β) : Py σ β :=
  m.attemptElse
    (fun
      | .exception e => some (h e)
      | _ => none)
    k

/-- Change a series of the metrics registry, which may raise. -/
def metric (m : Metric) : Py σ Unit := do
  let r ← ask (.metric m)
  Coro.ofExcept (r.mapError .exception)

/-- A point at which pricing may raise. -/
def pricing : Py σ Unit := do
  let r ← ask .pricing
  Coro.ofExcept (r.mapError .exception)

def log (c : Call) : Py σ Unit := ask (.log c)

/-- `time.time()`. -/
def time : Py σ ℚ := ask .time

def incrbyfloat (k : LedgerKey) (delta : ℚ) : Py σ ℚ := do
  let r ← ask (.incrbyfloat k delta)
  Coro.ofExcept r.toExcept

def incrbyfloatExpire (k : LedgerKey) (delta : ℚ) (seconds : ℕ) : Py σ ℚ := do
  let r ← ask (.incrbyfloatExpire k delta seconds)
  Coro.ofExcept r.toExcept

def get (k : LedgerKey) : Py σ ℚ := do
  let r ← ask (.get k)
  Coro.ofExcept r.toExcept

/-- `async_session().__aenter__()`. -/
def openSession : Py σ Unit := do
  let r ← ask .openSession
  Coro.ofExcept r.toExcept

/-- The team of the `api_keys` row with this hash, if there is one. -/
def selectTeam (keyHash : String) : Py σ (Option String) := do
  let r ← ask (.selectTeam keyHash)
  Coro.ofExcept r.toExcept

/-- Add a row and commit. -/
def commitAudit (row : AuditLogEntry) : Py σ Unit := do
  let r ← ask (.commitAudit row)
  Coro.ofExcept r.toExcept

/-- `async_session().__aexit__()`. -/
def closeSession : Py σ Unit := do
  let r ← ask .closeSession
  Coro.ofExcept r.toExcept

end LlmGateway
