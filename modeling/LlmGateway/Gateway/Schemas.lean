import LlmGateway.Gateway.Value

/-!
# The bodies the endpoints accept

Mirrors `app/schemas.py`. A schema is a structure whose fields carry its constraints, so its values
are the bodies that pass validation. What becomes of the others is the web framework's business.
-/

namespace LlmGateway

/-- `MAX_CONTENT_CHARS`. -/
def MAX_CONTENT_CHARS : ℕ := 50000

/-- `MAX_TOTAL_CONTENT_CHARS`. -/
def MAX_TOTAL_CONTENT_CHARS : ℕ := 50000

/-- `MAX_MESSAGES`. -/
def MAX_MESSAGES : ℕ := 50

/-- `MAX_OUTPUT_TOKENS`, the number the adapter for OpenAI sends by default. -/
def MAX_OUTPUT_TOKENS : ℕ := DEFAULT_MAX_OUTPUT_TOKENS

/-- One message as a client sends it. -/
structure ChatMessageIn where
  role : String
  content : String
  role_mem : role ∈ ["system", "user", "assistant"] := by decide
  content_nonempty : 1 ≤ content.length := by decide
  content_le : content.length ≤ MAX_CONTENT_CHARS := by decide

/-- `_cap_total_content`, the validator of both bodies. -/
def capTotalContent (messages : List ChatMessageIn) : Except String Unit :=
  let total := (messages.map fun m => m.content.length).sum
  if MAX_TOTAL_CONTENT_CHARS < total then
    .error ("total message content is " ++ toString total ++ " characters, over the "
      ++ toString MAX_TOTAL_CONTENT_CHARS ++ " limit")
  else .ok ()

theorem capTotalContent_eq_ok_iff {messages : List ChatMessageIn} :
    capTotalContent messages = .ok () ↔
      (messages.map fun m => m.content.length).sum ≤ MAX_TOTAL_CONTENT_CHARS := by
  simp only [capTotalContent]
  split
  · next h => simpa using h
  · next h => simpa using h

/-- Body of `/v1/chat` and `/v1/chat/stream`. -/
structure ChatRequest where
  model : String
  messages : List ChatMessageIn
  model_nonempty : 1 ≤ model.length := by decide
  model_le : model.length ≤ 255 := by decide
  messages_nonempty : 1 ≤ messages.length := by decide
  messages_le : messages.length ≤ MAX_MESSAGES := by decide
  capped : capTotalContent messages = .ok () := by decide

/-- `stop` of an OpenAI-shaped body: `list[str] | str`. -/
inductive Stop where
  | one (s : String)
  | many (ss : List String)

/-- Every adapter wants a list. -/
def Stop.toList : Stop → List String
  | .one s => [s]
  | .many ss => ss

/-- Body of `/v1/chat/completions`. -/
structure ChatCompletionRequest where
  model : String
  messages : List ChatMessageIn
  stream : Bool := false
  temperature : Option ℚ := none
  topP : Option ℚ := none
  maxTokens : Option ℕ := none
  stop : Option Stop := none
  model_nonempty : 1 ≤ model.length := by decide
  model_le : model.length ≤ 255 := by decide
  messages_nonempty : 1 ≤ messages.length := by decide
  messages_le : messages.length ≤ MAX_MESSAGES := by decide
  temperature_range : ∀ x ∈ temperature, 0 ≤ x ∧ x ≤ 2 := by decide
  topP_range : ∀ x ∈ topP, 0 < x ∧ x ≤ 1 := by decide
  maxTokens_range : ∀ n ∈ maxTokens, 0 < n ∧ n ≤ MAX_OUTPUT_TOKENS := by decide
  capped : capTotalContent messages = .ok () := by decide

/-- The parameters that are forwarded, in the shape the adapters take. -/
def ChatCompletionRequest.samplingParams (request : ChatCompletionRequest) : SamplingParams where
  temperature := request.temperature
  topP := request.topP
  maxTokens := request.maxTokens
  stop := request.stop.map Stop.toList

/-- A body that passed validation. -/
inductive RequestBody where
  | native (request : ChatRequest)
  | completion (request : ChatCompletionRequest)

namespace RequestBody

/-- `[ChatMessage(role=m.role, content=m.content) for m in request.messages]`. -/
def messages : RequestBody → List ChatMessage
  | .native request => request.messages.map fun m => ⟨m.role, m.content⟩
  | .completion request => request.messages.map fun m => ⟨m.role, m.content⟩

/-- The parameters an endpoint passes on. A native body has none. -/
def params : RequestBody → Option SamplingParams
  | .native _ => none
  | .completion request => some request.samplingParams

/-- The output cap the caller asked for. -/
def maxTokens (body : RequestBody) : Option ℕ := body.params.bind SamplingParams.maxTokens

theorem length_messages_le (body : RequestBody) : body.messages.length ≤ MAX_MESSAGES := by
  cases body with
  | native request =>
    rw [messages, List.length_map]
    exact request.messages_le
  | completion request =>
    rw [messages, List.length_map]
    exact request.messages_le

theorem contentChars_le (body : RequestBody) :
    (body.messages.map fun m => m.content.length).sum ≤ MAX_TOTAL_CONTENT_CHARS := by
  cases body with
  | native request =>
    simpa [messages, Function.comp_def] using capTotalContent_eq_ok_iff.mp request.capped
  | completion request =>
    simpa [messages, Function.comp_def] using capTotalContent_eq_ok_iff.mp request.capped

theorem maxTokens_le {body : RequestBody} {n : ℕ} (h : body.maxTokens = some n) :
    n ≤ MAX_OUTPUT_TOKENS := by
  cases body with
  | native request => cases h
  | completion request => exact (request.maxTokens_range n h).2

theorem maxTokens_pos {body : RequestBody} {n : ℕ} (h : body.maxTokens = some n) : 0 < n := by
  cases body with
  | native request => cases h
  | completion request => exact (request.maxTokens_range n h).1

end RequestBody

end LlmGateway
