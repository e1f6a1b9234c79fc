import LlmGateway.Gateway.Command
import LlmGateway.Main.ReserveChain

/-!
# The usage an adapter reports

Mirrors the response side of `app/providers/openai_provider.py`. A response that comes without a
usage block is not taken to be free: its tokens are estimated from characters.
-/

namespace LlmGateway

/-- `response.usage`. -/
structure TokenUsage where
  promptTokens : ℕ
  completionTokens : ℕ

/-- What `chat` of the adapter for OpenAI reads off a response with a choice. -/
def OpenAI.completion (messages : List ChatMessage) (content : Option String)
    (usage : Option TokenUsage) : Completion :=
  let text := content.getD ""
  match usage with
  | none => {
      content := .str text
      inputTokens := .count (max 1 (promptChars messages / CHARS_PER_TOKEN))
      outputTokens := .count (max 1 (text.length / CHARS_PER_TOKEN)) }
  | some u => {
      content := .str text
      inputTokens := .int u.promptTokens
      outputTokens := .int u.completionTokens }

/-- Tokens that one call can have used: at most one for three characters of the prompt, and at most
as many as it was allowed to generate. -/
def WithinWorstCase (chars maxOutput : ℕ) (inputTokens outputTokens : PyVal) : Prop :=
  ∃ x y : ℚ, inputTokens.number = some x ∧ outputTokens.number = some y ∧
    0 ≤ x ∧ x ≤ chars / 3 ∧ 0 ≤ y ∧ y ≤ maxOutput

end LlmGateway
