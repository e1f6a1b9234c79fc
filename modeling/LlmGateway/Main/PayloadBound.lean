import LlmGateway.Budget.Pricing
import LlmGateway.Gateway.Schemas
import LlmGateway.Main.ReserveChain
import LlmGateway.Providers.Payload
import Mathlib.Tactic.Linarith
import Mathlib.Tactic.NormNum

/-!
# The worst case and the payload

`_reserve_chain` computes the worst case of a call from the messages and the parameters of the
request; what is billed is the payload the adapter makes of them. The two meet exactly where
Anthropic's system string, joined from several prompts, is not longer than what the rounding to
whole tokens forgives.
-/

namespace LlmGateway

/-- An adapter for a provider that bills. -/
inductive Adapter where
  | openai
  | anthropic

def Adapter.name : Adapter → String
  | .openai => "openai"
  | .anthropic => "anthropic"

/-- What the adapter sends for a request. -/
def Adapter.payload (adapter : Adapter) (model : String) (body : RequestBody) : Payload :=
  match adapter with
  | .openai => OpenAI.payload model body.messages body.params
  | .anthropic => Anthropic.payload model body.messages body.params

/-- A bill the payload allows: one input token for every three characters, and the output it was
capped at. -/
structure Payload.Bills (p : Payload) (inputTokens outputTokens : ℕ) : Prop where
  input : CHARS_PER_TOKEN * inputTokens ≤ p.chars
  output : outputTokens ≤ p.maxTokens

/-- No bill the payload allows is over the worst case of the request. -/
def WorstCaseHolds (table : PricingTable) (adapter : Adapter) (model : String) (body : RequestBody) :
    Prop :=
  ∀ inputTokens outputTokens : ℕ, (adapter.payload model body).Bills inputTokens outputTokens →
    ∃ cost worst, estimateCostUsd table adapter.name model (.int inputTokens) (.int outputTokens)
        = .ok cost ∧
      worstCaseCostUsd table adapter.name model (promptChars body.messages) (maxOut body.params)
        = .ok worst ∧ cost ≤ worst

/-- The number of system prompts of a request. -/
def RequestBody.systemCount (body : RequestBody) : ℕ := (Anthropic.systemPrompts body.messages).length

/-- What joins the system prompts makes no difference: they are sent as they are, the reservation is
for more output than is asked for, there is nothing to join, or what joins two of them does not fill
another token. -/
def RequestBody.Seamless (body : RequestBody) (adapter : Adapter) : Prop :=
  adapter = .openai ∨ body.maxTokens = none ∨ body.systemCount ≤ 1 ∨
    body.systemCount = 2 ∧ CHARS_PER_TOKEN ∣ promptChars body.messages

/-! ## The payload -/

variable {table : PricingTable} {adapter : Adapter} {model : String} {body : RequestBody}
  {inputPrice outputPrice : ℚ≥0}

/-- The text of a payload is that of the messages and what joins the system prompts. -/
theorem Adapter.chars_payload :
    (adapter.payload model body).chars = promptChars body.messages + match adapter with
      | .openai => 0
      | .anthropic => 2 * (body.systemCount - 1) := by
  cases adapter with
  | openai => exact OpenAI.chars_payload
  | anthropic => exact Anthropic.chars_payload

theorem RequestBody.systemCount_le : body.systemCount ≤ MAX_MESSAGES := by
  rw [systemCount, Anthropic.systemPrompts, List.length_map]
  exact (List.length_filter_le _ _).trans body.length_messages_le

/-- The output cap a request is reserved for is the caller's; one of 0, which would count as unset,
is not accepted. -/
theorem RequestBody.maxOut_params :
    maxOut body.params = body.maxTokens.getD DEFAULT_MAX_OUTPUT_TOKENS := by
  have hcap : ∀ params : Option SamplingParams,
      (∀ n, params.bind SamplingParams.maxTokens = some n → 0 < n) →
      maxOut params = (params.bind SamplingParams.maxTokens).getD DEFAULT_MAX_OUTPUT_TOKENS := by
    intro params hpos
    rcases params with _ | ⟨temperature, topP, _ | n, stop⟩
    · rfl
    · rfl
    · obtain ⟨m, rfl⟩ := Nat.exists_eq_succ_of_ne_zero (hpos n rfl).ne'
      rfl
  exact hcap _ fun _ => maxTokens_pos

theorem Adapter.maxTokens_payload :
    (adapter.payload model body).maxTokens = body.maxTokens.getD (match adapter with
      | .openai => DEFAULT_MAX_OUTPUT_TOKENS
      | .anthropic => Anthropic.DEFAULT_MAX_TOKENS) := by
  cases adapter <;> cases body <;> rfl

/-! ## The largest bill -/

/-- The bodies that pass validation are too short for a bill that a float cannot hold. -/
theorem Payload.Bills.fits {i o : ℕ} (h : (adapter.payload model body).Bills i o) :
    PyVal.fitsDouble i = true ∧ PyVal.fitsDouble o = true := by
  obtain ⟨hin, hout⟩ := h
  have hsystem : body.systemCount ≤ 50 := RequestBody.systemCount_le
  have hchars : promptChars body.messages ≤ 50000 := body.contentChars_le
  have hcap : (adapter.payload model body).maxTokens ≤ 2048 := by
    rw [Adapter.maxTokens_payload]
    cases hmax : body.maxTokens with
    | none => cases adapter <;> decide
    | some n => exact RequestBody.maxTokens_le hmax
  rw [Adapter.chars_payload, CHARS_PER_TOKEN] at hin
  have hi : i ≤ 50100 := by
    cases adapter <;> dsimp only at hin <;> omega
  exact ⟨PyVal.fitsDouble_of_le hi (by decide +kernel),
    PyVal.fitsDouble_of_le (hout.trans hcap) (by decide +kernel)⟩

theorem worstCaseHolds_iff_most
    (hprice : table.price adapter.name model = some (inputPrice, outputPrice)) :
    WorstCaseHolds table adapter model body ↔
      (((adapter.payload model body).chars / 3 : ℕ) : ℚ) * inputPrice
          + ((adapter.payload model body).maxTokens : ℚ) * outputPrice
        ≤ (promptChars body.messages : ℚ) / 3 * inputPrice + (maxOut body.params : ℚ) * outputPrice := by
  have hworst : worstCaseCostUsd table adapter.name model (promptChars body.messages)
      (maxOut body.params) = .ok ((promptChars body.messages : ℚ) / 3 * inputPrice
        + (maxOut body.params : ℚ) * outputPrice) := by
    rw [worstCaseCostUsd, hprice]
    rfl
  have hcost : ∀ i o : ℕ, (adapter.payload model body).Bills i o →
      estimateCostUsd table adapter.name model (.int i) (.int o)
        = .ok ((i : ℚ) * inputPrice + (o : ℚ) * outputPrice) := by
    intro i o hbill
    obtain ⟨hi, ho⟩ := hbill.fits
    rw [estimateCostUsd_of_numbers (PyVal.number_int hi) (PyVal.number_int ho), hprice]
    simp
  constructor
  · intro h
    have hmost : (adapter.payload model body).Bills ((adapter.payload model body).chars / 3)
        (adapter.payload model body).maxTokens := ⟨Nat.mul_div_le _ 3, le_rfl⟩
    obtain ⟨cost, worst, hc, hw, hle⟩ := h _ _ hmost
    obtain rfl := Except.ok.inj ((hcost _ _ hmost).symm.trans hc)
    obtain rfl := Except.ok.inj (hworst.symm.trans hw)
    exact hle
  · intro h i o hbill
    obtain ⟨hin, hout⟩ := hbill
    have hin' : i ≤ (adapter.payload model body).chars / 3 :=
      (Nat.le_div_iff_mul_le (by norm_num)).mpr (by simpa [CHARS_PER_TOKEN, mul_comm] using hin)
    refine ⟨_, _, hcost i o ⟨hin, hout⟩, hworst, le_trans (add_le_add ?_ ?_) h⟩
    · exact mul_le_mul_of_nonneg_right (by exact_mod_cast hin') (NNRat.cast_nonneg _)
    · exact mul_le_mul_of_nonneg_right (by exact_mod_cast hout) (NNRat.cast_nonneg _)

/-! ## The bound -/

/-- A price of the table is positive, and output is not cheaper than input. -/
theorem PRICING_price {provider : String}
    (h : PRICING.price provider model = some (inputPrice, outputPrice)) :
    0 < inputPrice ∧ inputPrice ≤ outputPrice := by
  have hall : ∀ e ∈ PRICING, 0 < e.2.1 ∧ e.2.1 ≤ e.2.2 := by decide +kernel
  obtain ⟨l, l', hl, -⟩ := List.lookup_eq_some_iff.mp h
  exact hall (_, (inputPrice, outputPrice)) (hl ▸ List.mem_append_right _ (.head _))

/-- With the cap the reservation was made for, only the text can be over. -/
theorem worstCaseHolds_iff_chars (hin : 0 < inputPrice)
    (hprice : table.price adapter.name model = some (inputPrice, outputPrice))
    (hcap : (adapter.payload model body).maxTokens = maxOut body.params) :
    WorstCaseHolds table adapter model body ↔
      3 * ((adapter.payload model body).chars / 3) ≤ promptChars body.messages := by
  have hin' : (0 : ℚ) < inputPrice := NNRat.cast_pos.mpr hin
  rw [worstCaseHolds_iff_most hprice, hcap, add_le_add_iff_right, mul_le_mul_iff_left₀ hin',
    le_div_iff₀ (by norm_num : (0 : ℚ) < 3), mul_comm]
  exact_mod_cast Iff.rfl

/-- The text of a request is over the worst case only through what joins system prompts. -/
theorem chars_iff_seamless (chars k : ℕ) :
    3 * ((chars + 2 * (k - 1)) / 3) ≤ chars ↔ k ≤ 1 ∨ k = 2 ∧ 3 ∣ chars := by
  omega

/-- Without a cap of the caller's, the output reserved but not asked for pays for what joins the
system prompts: a request has too few messages for it not to. -/
theorem worstCaseHolds_of_uncapped (hle : inputPrice ≤ outputPrice)
    (hprice : table.price Adapter.anthropic.name model = some (inputPrice, outputPrice))
    (hmax : body.maxTokens = none) : WorstCaseHolds table .anthropic model body := by
  have hreserved : maxOut body.params = 2048 := by
    rw [RequestBody.maxOut_params, hmax]
    rfl
  have hsent : (Adapter.anthropic.payload model body).maxTokens = 1024 := by
    rw [Adapter.maxTokens_payload, hmax]
    rfl
  have hchars : (Adapter.anthropic.payload model body).chars / 3 * 3
      ≤ promptChars body.messages + 98 := by
    have hcount : body.systemCount ≤ 50 := RequestBody.systemCount_le
    rw [Adapter.chars_payload]
    dsimp only
    omega
  rw [worstCaseHolds_iff_most hprice, hreserved, hsent]
  set tokens := (Adapter.anthropic.payload model body).chars / 3
  have htokens : (tokens : ℚ) * 3 ≤ promptChars body.messages + 98 := by exact_mod_cast hchars
  have hle' : (inputPrice : ℚ) ≤ outputPrice := NNRat.cast_le.mpr hle
  have hnonneg : (0 : ℚ) ≤ inputPrice := NNRat.cast_nonneg _
  have hinput : (tokens : ℚ) * inputPrice
      ≤ ((promptChars body.messages : ℚ) / 3 + 98 / 3) * inputPrice :=
    mul_le_mul_of_nonneg_right (by linarith) hnonneg
  push_cast
  linarith

/-- No bill an adapter's payload allows is over the worst case reserved for, exactly when nothing
joined between system prompts is billed as input. -/
theorem worst_case_holds_iff (hpriced : (PRICING.price adapter.name model).isSome) :
    WorstCaseHolds PRICING adapter model body ↔ body.Seamless adapter := by
  obtain ⟨⟨inputPrice, outputPrice⟩, hprice⟩ := Option.isSome_iff_exists.mp hpriced
  obtain ⟨hin, hle⟩ := PRICING_price hprice
  cases adapter with
  | openai =>
    have hcap : (Adapter.openai.payload model body).maxTokens = maxOut body.params := by
      rw [Adapter.maxTokens_payload, RequestBody.maxOut_params]
    refine iff_of_true ?_ (.inl rfl)
    rw [worstCaseHolds_iff_chars hin hprice hcap, Adapter.chars_payload]
    exact Nat.mul_div_le _ 3
  | anthropic =>
    cases hmax : body.maxTokens with
    | none =>
      exact iff_of_true (worstCaseHolds_of_uncapped hle hprice hmax) (.inr (.inl hmax))
    | some n =>
      have hcap : (Adapter.anthropic.payload model body).maxTokens = maxOut body.params := by
        rw [Adapter.maxTokens_payload, RequestBody.maxOut_params, hmax]
        rfl
      rw [worstCaseHolds_iff_chars hin hprice hcap, Adapter.chars_payload, chars_iff_seamless]
      simp [RequestBody.Seamless, hmax, CHARS_PER_TOKEN]

/-- Three system prompts and a question, to be answered in one token. -/
def hedgedBody : RequestBody := .completion {
  model := "smart"
  messages := [
    { role := "system", content := "be brief" },
    { role := "system", content := "be kind" },
    { role := "system", content := "be safe" },
    { role := "user", content := "hi!" }]
  maxTokens := some 1 }

theorem worst_case_holds_iff_hedged :
    WorstCaseHolds PRICING .anthropic "claude-opus-5" hedgedBody ↔ hedgedBody.Seamless .anthropic :=
  worst_case_holds_iff (by decide +kernel)

/-- Anthropic can bill nine input tokens for the 29 characters it is sent, and 25 are reserved for.
-/
theorem hedged_prompt_exceeds :
    (PRICING.price Adapter.anthropic.name "claude-opus-5").isSome ∧
      (Adapter.anthropic.payload "claude-opus-5" hedgedBody).Bills 9 1 ∧
      ¬ WorstCaseHolds PRICING .anthropic "claude-opus-5" hedgedBody := by
  have hpriced : (PRICING.price Adapter.anthropic.name "claude-opus-5").isSome := by decide +kernel
  have hbills : (Adapter.anthropic.payload "claude-opus-5" hedgedBody).Bills 9 1 :=
    ⟨by decide +kernel, by decide +kernel⟩
  -- nine input tokens against 25/3, at the same output
  refine ⟨hpriced, hbills, fun hholds => ?_⟩
  obtain ⟨cost, worst, hcost, hworst, hle⟩ := hholds 9 1 hbills
  have hover : ∀ cost ∈ (estimateCostUsd PRICING Adapter.anthropic.name "claude-opus-5" (.int 9)
      (.int 1)).toOption, ∀ worst ∈ (worstCaseCostUsd PRICING Adapter.anthropic.name "claude-opus-5"
      (promptChars hedgedBody.messages) (maxOut hedgedBody.params)).toOption, worst < cost := by
    decide +kernel
  refine absurd hle (not_le.mpr (hover cost ?_ worst ?_))
  · exact congrArg Except.toOption hcost
  · exact congrArg Except.toOption hworst

end LlmGateway
