import LlmGateway.Gateway.Value
import Mathlib.Algebra.BigOperators.Group.List.Basic
import Mathlib.Tactic.Ring

/-!
# What the adapters send

Mirrors the request side of `app/providers/openai_provider.py` and
`app/providers/anthropic_provider.py`: how the messages and the parameters of a request become the
arguments of the SDK call.
-/

namespace LlmGateway

/-- The parameters an adapter passes on; the ones it leaves out are `none`. -/
structure SamplingKwargs where
  maxTokens : ℕ
  temperature : Option ℚ := none
  topP : Option ℚ := none
  stop : Option (List String) := none

/-- The arguments of an SDK call. A message is its role and its content. -/
structure Payload extends SamplingKwargs where
  model : String
  messages : List (String × String)
  system : Option String := none

/-- The characters of all message contents. -/
def contentChars (messages : List (String × String)) : ℕ :=
  (messages.map fun m => m.2.length).sum

/-- The text of a payload: all message contents and the system string. -/
def Payload.chars (p : Payload) : ℕ := contentChars p.messages + (p.system.getD "").length

/-! ## OpenAI -/

namespace OpenAI

/-- `_sampling_kwargs`: the cap is always sent. -/
def samplingKwargs (params : Option SamplingParams) : SamplingKwargs :=
  match params with
  | none => { maxTokens := DEFAULT_MAX_OUTPUT_TOKENS }
  | some p => {
      temperature := p.temperature
      topP := p.topP
      maxTokens := p.maxTokens.getD DEFAULT_MAX_OUTPUT_TOKENS
      stop := p.stop }

/-- `_to_openai_messages`. -/
def toOpenaiMessages (messages : List ChatMessage) : List (String × String) :=
  messages.map fun m => (m.role, m.content)

/-- What `chat` and `chat_stream` send. -/
def payload (model : String) (messages : List ChatMessage) (params : Option SamplingParams) :
    Payload where
  toSamplingKwargs := samplingKwargs params
  model := model
  messages := toOpenaiMessages messages

end OpenAI

/-! ## Anthropic -/

namespace Anthropic

/-- `DEFAULT_MAX_TOKENS`. -/
def DEFAULT_MAX_TOKENS : ℕ := 1024

/-- `_MODEL_PREFIXES_WITHOUT_SAMPLING_CONTROLS`. -/
def MODEL_PREFIXES_WITHOUT_SAMPLING_CONTROLS : List String :=
  ["claude-opus-5", "claude-opus-4-7", "claude-opus-4-8", "claude-sonnet-5", "claude-fable-5",
    "claude-mythos-5"]

/-- `_accepts_sampling_controls`. -/
def acceptsSamplingControls (model : String) : Bool :=
  !MODEL_PREFIXES_WITHOUT_SAMPLING_CONTROLS.any fun stem => model.startsWith stem

/-- `_sampling_kwargs`. A model that rejects the sampling controls is not sent any. -/
def samplingKwargs (model : String) (params : Option SamplingParams) : SamplingKwargs :=
  match params with
  | none => { maxTokens := DEFAULT_MAX_TOKENS }
  | some p =>
    let controls := acceptsSamplingControls model
    { maxTokens := p.maxTokens.getD DEFAULT_MAX_TOKENS
      stop := p.stop
      temperature := if controls then p.temperature else none
      topP := if controls then p.topP else none }

/-- The system prompts of a conversation. -/
def systemPrompts (messages : List ChatMessage) : List String :=
  (messages.filter fun m => m.role = "system").map ChatMessage.content

/-- `_split_system`: the system prompts joined, and the rest. -/
def splitSystem (messages : List ChatMessage) : String × List (String × String) :=
  ("\n\n".intercalate (systemPrompts messages),
    (messages.filter fun m => m.role ≠ "system").map fun m => (m.role, m.content))

/-- What `chat` and `chat_stream` send. No system string is sent for an empty one. -/
def payload (model : String) (messages : List ChatMessage) (params : Option SamplingParams) :
    Payload :=
  let (system, conversation) := splitSystem messages
  { toSamplingKwargs := samplingKwargs model params
    model := model
    messages := conversation
    system := if system = "" then none else some system }

end Anthropic

/-! ## The text that is sent -/

/-- Joining adds a separator between any two neighbours. -/
theorem length_intercalate (s : String) (l : List String) :
    (s.intercalate l).length = (l.map String.length).sum + (l.length - 1) * s.length := by
  induction l with
  | nil => simp
  | cons t l ih =>
    cases l with
    | nil => simp
    | cons u l =>
      rw [String.intercalate_cons_cons, String.length_append, String.length_append, ih]
      simp only [List.map_cons, List.sum_cons, List.length_cons, Nat.add_sub_cancel]
      ring

variable {model : String} {messages : List ChatMessage} {params : Option SamplingParams}

/-- OpenAI is sent the messages as they are. -/
theorem OpenAI.chars_payload : (OpenAI.payload model messages params).chars
    = (messages.map fun m => m.content.length).sum := by
  simp [Payload.chars, contentChars, payload, toOpenaiMessages, Function.comp_def]

/-- Anthropic is sent what joins the system prompts as well. -/
theorem Anthropic.chars_payload : (Anthropic.payload model messages params).chars
    = (messages.map fun m => m.content.length).sum
      + 2 * ((systemPrompts messages).length - 1) := by
  have hsent : ∀ system : String, (if system = "" then none else some system).getD "" = system := by
    intro system
    by_cases h : system = ""
    · rw [if_pos h, h]
      rfl
    · rw [if_neg h]
      rfl
  have hsystem : ((payload model messages params).system.getD "").length
      = ("\n\n".intercalate (systemPrompts messages)).length :=
    congrArg String.length (hsent _)
  have hperm : ((systemPrompts messages).map String.length
      ++ (payload model messages params).messages.map fun m => m.2.length).Perm
        (messages.map fun m => m.content.length) := by
    have hfilter := List.filter_append_perm (fun m : ChatMessage => decide (m.role = "system"))
      messages
    simpa [systemPrompts, payload, splitSystem, Function.comp_def] using
      hfilter.map fun m => m.content.length
  have hsum := hperm.sum_eq
  rw [List.sum_append] at hsum
  have hlength : ("\n\n" : String).length = 2 := rfl
  rw [Payload.chars, contentChars, hsystem, length_intercalate, hlength, ← hsum]
  omega

end LlmGateway
