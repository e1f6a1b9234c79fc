import LlmGateway.Main.Bookkeeping
import LlmGateway.Main.SettleChain

/-!
# The stream endpoints

Mirrors `_event_stream`, `_openai_event_stream` and the settling functions only they call, of
`app/main.py`. The router's stream is given by the chunks it has in store and the `Exception` it
ends in, if any; waiting for a chunk and handing on a frame can end in any exception.
-/

namespace LlmGateway

open Coroutine

variable [Rounding] {σ : Type}

/-! ## Locals -/

/-- What a generator knows about the spend of its stream. -/
structure Usage where
  finalProvider : String := ""
  finalModel : String := ""
  inputTokens : PyVal := .int 0
  outputTokens : PyVal := .int 0
  streamedChars : ℕ := 0

/-- The locals of a generator. -/
structure StreamLocals extends Usage where
  first : Bool := true
  settled : Bool := false

/-- What the router's stream has in store: its chunks, and the `Exception` it ends in. -/
structure RouterStream where
  chunks : List StreamChunk
  ending : Option PyError := none

variable (settings : Settings) (q : RequestArgs)

/-! ## Settling -/

/-- Charge for a stream that ended without its usage totals. -/
def settleStreamOnAbort (provider model : String) (inputTokens : PyVal) (streamedChars : ℕ) :
    Py σ Unit :=
  if provider = "" then settleChain settings q.apiKey q.reservations "" 0
  else do
    -- biased high: a stream that sent nothing is charged for one token
    let estimatedOutput := PyVal.count (max 1 (streamedChars / 3))
    let cost ← estimateCost settings provider model inputTokens estimatedOutput
    settleChain settings q.apiKey q.reservations provider cost
    recordUsage provider model inputTokens estimatedOutput cost
    recordAuditLog settings q.apiKey {
      requestedModel := q.requestedModel, outcome := "aborted", provider := provider,
      inputTokens := inputTokens, outputTokens := estimatedOutput, costUsd := cost,
      requestId := q.requestId }

/-- `settleStreamOnAbort`, with its own failure swallowed. -/
def trySettleStreamOnAbort (provider model : String) (inputTokens : PyVal) (streamedChars : ℕ) :
    Py σ Unit :=
  tryExcept (settleStreamOnAbort settings q provider model inputTokens streamedChars)
    fun _ => pure ()

/-- The cost of a finished stream, with its usage published. -/
def priceStream (finalProvider finalModel : String) (inputTokens outputTokens : PyVal) : Py σ ℚ :=
  if finalProvider = "" then pure 0
  else do
    let cost ← estimateCost settings finalProvider finalModel inputTokens outputTokens
    recordUsage finalProvider finalModel inputTokens outputTokens cost
    pure cost

/-- Price a finished stream, publish the usage, and settle both ledgers. -/
def settleStreamSpend (finalProvider finalModel : String) (inputTokens outputTokens : PyVal) :
    Py σ ℚ := do
  let cost ← priceStream settings finalProvider finalModel inputTokens outputTokens
  settleChain settings q.apiKey q.reservations finalProvider cost
  pure cost

/-- `settleStreamOnAbort` on the locals of a generator. -/
def abortStream : Py StreamLocals Unit := do
  let s ← Coro.locals
  settleStreamOnAbort settings q s.finalProvider s.finalModel s.inputTokens s.streamedChars

/-- `trySettleStreamOnAbort` on the locals of a generator. -/
def tryAbortStream : Py StreamLocals Unit := do
  let s ← Coro.locals
  trySettleStreamOnAbort settings q s.finalProvider s.finalModel s.inputTokens s.streamedChars

/-! ## What the generators share -/

/-- `yield`. -/
def emit (f : Frame) : Py σ Unit := do
  let r ← ask (.yield f)
  Coro.ofExcept r

/-- `__anext__` of the router's stream. -/
def anext (next : Upcoming) : Py σ Unit := do
  let r ← ask (.anext next)
  Coro.ofExcept r

/-- The usage after a chunk; a content without a length leaves it as it was. -/
def Usage.absorb (u : Usage) (chunk : StreamChunk) : Usage :=
  if chunk.done then
    { u with
      finalProvider := chunk.provider
      finalModel := chunk.model
      inputTokens := chunk.inputTokens
      outputTokens := chunk.outputTokens }
  else
    match chunk.content.len with
    | .error _ => u
    | .ok n =>
      { u with
        streamedChars := u.streamedChars + n
        finalProvider := if u.finalProvider = "" then chunk.provider else u.finalProvider
        finalModel := if u.finalModel = "" then chunk.model else u.finalModel }

/-- The assignments at the top of the loop. `len` raises for a content that has none. -/
def absorb (chunk : StreamChunk) : Py StreamLocals Unit :=
  if chunk.done then Coro.update fun s => { s with toUsage := s.toUsage.absorb chunk }
  else do
    let _ ← Coro.ofExcept chunk.content.len
    Coro.update fun s : StreamLocals => { s with toUsage := s.toUsage.absorb chunk }

/-- `async for chunk in router.chat_stream(...)`. -/
def forChunks (body : StreamChunk → Py StreamLocals Unit) (ending : Option PyError) :
    List StreamChunk → Py StreamLocals Unit
  | [] =>
    match ending with
    | none => anext .stop
    | some e => do
      anext (.error e)
      throw e
  | chunk :: rest => do
    anext (.chunk chunk)
    body chunk
    forChunks body ending rest

/-- `_stream_error_frame`. -/
def streamErrorFrame (requestId : String) : Frame := .errorEvent "internal server error" requestId

/-- The clause for `GeneratorExit` and `CancelledError`: the client has left. -/
def onDisconnect {α : Type} (e : Exc) : Py StreamLocals α := do
  metric (.requestCount "aborted")
  abortStream settings q
  Coro.raise e

/-- The clause for `Exception`. -/
def onUnexpected : Py StreamLocals Unit := do
  metric .unhandledExceptions
  metric (.requestCount "error")
  tryAbortStream settings q
  emit (streamErrorFrame q.requestId)

/-- The clause for an `Exception` after the last chunk: settling twice would refund money that was
spent, so it settles only if that has not been done. -/
def onUnbooked : Py StreamLocals Bool := do
  metric .unhandledExceptions
  let s : StreamLocals ← Coro.locals
  if s.settled then pure () else tryAbortStream settings q
  metric (.requestCount "error")
  emit (streamErrorFrame q.requestId)
  pure false

/-- The `try` after the loop, which ends in whether it went through. -/
def bookkeeping (closing : Py StreamLocals Unit) : Py StreamLocals Bool :=
  (do
    let s : StreamLocals ← Coro.locals
    let cost ← settleStreamSpend settings q s.finalProvider s.finalModel s.inputTokens s.outputTokens
    -- between the settlement and the audit row, whose failure must not settle again
    Coro.update fun s : StreamLocals => { s with settled := true }
    recordAuditLog settings q.apiKey {
      requestedModel := q.requestedModel, outcome := "success", provider := s.finalProvider,
      inputTokens := s.inputTokens, outputTokens := s.outputTokens, costUsd := cost,
      requestId := q.requestId }
    closing
    pure true).attempt fun
      | .exception _ => some (onUnbooked settings q)
      | _ => none

/-- The loop with its handlers, which ends in whether it went through. -/
def guardedLoop (deliver : StreamChunk → Py StreamLocals Unit) (onAllFailed : Py StreamLocals Unit)
    (stream : RouterStream) : Py StreamLocals Bool :=
  ((do
    forChunks deliver stream.ending stream.chunks
    pure true).attempt fun
      | .generatorExit => some (onDisconnect settings q .generatorExit)
      | .cancelled => some (onDisconnect settings q .cancelled)
      | .exception (.allProvidersFailed _) => some (do
          onAllFailed
          pure false)
      | .exception _ => some (do
          onUnexpected settings q
          pure false)
      -- a `KeyboardInterrupt` has no clause
      | .interrupt => none).ensure (metric .requestLatency)

/-- The last frame of a stream whose bookkeeping went through. -/
def finish (booked : Bool) : Py StreamLocals Unit :=
  if booked then do
    metric (.requestCount "success")
    emit .done
  else pure ()

/-- A generator: its loop with the handlers, then the bookkeeping. It differs between the endpoints
in what the loop does with a chunk, in the clause for `AllProvidersFailedError` and in the last
frame. -/
def generator (deliver : StreamChunk → Py StreamLocals Unit) (onAllFailed : Py StreamLocals Unit)
    (closing : Py StreamLocals Unit) (stream : RouterStream) : Py StreamLocals Unit := do
  let completed ← guardedLoop settings q deliver onAllFailed stream
  if completed then do
    let booked ← bookkeeping settings q closing
    finish booked
  else pure ()

/-- The first `__anext__` runs the body. A generator that is closed before runs none of it. -/
def whenStarted (body : Py StreamLocals Unit) : Py StreamLocals Unit := do
  let started ← ask .start
  if started = true then body else pure ()

/-! ## The generators -/

/-- The body of the loop of `_event_stream`. -/
def relayChunk (chunk : StreamChunk) : Py StreamLocals Unit := do
  absorb chunk
  emit (.chunk chunk)

/-- The clause of `_event_stream` for `AllProvidersFailedError`. -/
def onAllFailed : Py StreamLocals Unit := do
  metric (.requestCount "error")
  recordAuditLog settings q.apiKey {
    requestedModel := q.requestedModel, outcome := "error", requestId := q.requestId }
  abortStream settings q
  emit (.errorEvent "all providers failed" q.requestId)

/-- `_event_stream`. -/
def eventStream (stream : RouterStream) : Py StreamLocals Unit :=
  whenStarted (generator settings q relayChunk (onAllFailed settings q) (pure ()) stream)

/-- The body of the loop of `_openai_event_stream`: the role comes before the first content. -/
def relayDelta (completionId : String) (created : ℤ) (chunk : StreamChunk) :
    Py StreamLocals Unit := do
  absorb chunk
  if chunk.done then pure ()
  else do
    let model := if chunk.model = "" then q.requestedModel else chunk.model
    let s ← Coro.locals
    if s.first then do
      emit (.role completionId created model)
      Coro.update fun s : StreamLocals => { s with first := false }
    else pure ()
    emit (.content completionId created model chunk.content)

/-- The clause of `_openai_event_stream` for `AllProvidersFailedError`. -/
def onAllFailedOpenai : Py StreamLocals Unit := do
  metric (.requestCount "error")
  abortStream settings q
  emit (.errorObject "all providers failed" q.requestId)

/-- The last frame of `_openai_event_stream` before `[DONE]`. -/
def relayFinish (completionId : String) (created : ℤ) : Py StreamLocals Unit := do
  let s ← Coro.locals
  emit (.finish completionId created s.finalModel)

/-- `_openai_event_stream`. -/
def openaiEventStream (completionId : String) (created : ℤ) (stream : RouterStream) :
    Py StreamLocals Unit :=
  whenStarted (generator settings q (relayDelta q completionId created) (onAllFailedOpenai settings q)
    (relayFinish completionId created) stream)

/-- One of the two stream endpoints. -/
inductive Endpoint where
  | native
  | openai (completionId : String) (created : ℤ)

/-- The generator of an endpoint. -/
def Endpoint.run (endpoint : Endpoint) (stream : RouterStream) : Py StreamLocals Unit :=
  match endpoint with
  | .native => eventStream settings q stream
  | .openai completionId created => openaiEventStream settings q completionId created stream

end LlmGateway
