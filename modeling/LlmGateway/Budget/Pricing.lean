import LlmGateway.Gateway.Value
import Mathlib.Data.NNRat.Defs
import Mathlib.Data.Finset.Insert
import Mathlib.Data.NNRat.Lemmas
import Mathlib.Tactic.Positivity

/-!
# Pricing

Mirrors `app/budget/pricing.py`. Prices are non-negative by their type; the table is a parameter of
everything below and `PRICING` is the one the gateway ships with. Every operation is rounded.
-/

namespace LlmGateway

open Rounding (fl flNonneg)

/-- `FREE_PROVIDERS`. -/
def FREE_PROVIDERS : Finset String := {"ollama"}

/-- USD per input token and per output token, by `provider:model`. -/
abbrev PricingTable : Type := List (String × (ℚ≥0 × ℚ≥0))

/-- `rate / 1_000_000`. -/
def perToken [Rounding] (rate : ℚ≥0) : ℚ≥0 := flNonneg (flNonneg rate / 1000000)

/-- `_PRICING`. -/
def PRICING [Rounding] : PricingTable :=
  [("openai:gpt-4o-mini", (perToken (15 / 100), perToken (60 / 100))),
    ("openai:gpt-4o", (perToken (250 / 100), perToken 10)),
    ("anthropic:claude-haiku-4-5", (perToken 1, perToken 5)),
    ("anthropic:claude-opus-5", (perToken 5, perToken 25)),
    ("anthropic:claude-3-5-haiku-20241022", (perToken (80 / 100), perToken 4))]

/-- `_CHARS_PER_TOKEN`. -/
def CHARS_PER_TOKEN : ℕ := 3

/-- `_PRICING.get(f"provider:model")`. -/
def PricingTable.price (table : PricingTable) (provider model : String) : Option (ℚ≥0 × ℚ≥0) :=
  table.lookup (provider ++ ":" ++ model)

/-- The most one call to this model could cost. -/
def worstCaseCostUsd [Rounding] (table : PricingTable) (provider model : String)
    (inputChars maxOutputTokens : ℕ) : Except Exc ℚ :=
  match table.price provider model with
  | none =>
    if provider ∈ FREE_PROVIDERS then .ok 0
    else .error (.exception (.unpricedModel provider model))
  | some (inputPrice, outputPrice) =>
    .ok (fl (fl (fl ((inputChars : ℚ) / CHARS_PER_TOKEN) * inputPrice)
      + fl (fl maxOutputTokens * outputPrice)))

/-- USD for a completed request. A model without a price costs nothing; a token count that is not a
number, or too large for a `float`, cannot be multiplied. -/
def estimateCostUsd [Rounding] (table : PricingTable) (provider model : String)
    (inputTokens outputTokens : PyVal) : Except Exc ℚ := do
  let (inputPrice, outputPrice) := (table.price provider model).getD (0, 0)
  let inputCost ← inputTokens.mul inputPrice
  let outputCost ← outputTokens.mul outputPrice
  pure (fl (inputCost + outputCost))

section Lemmas

variable [Rounding] {table : PricingTable} {provider model : String}

theorem worstCaseCostUsd_nonneg {inputChars maxOutputTokens : ℕ} {cost : ℚ}
    (h : worstCaseCostUsd table provider model inputChars maxOutputTokens = .ok cost) :
    0 ≤ cost := by
  unfold worstCaseCostUsd at h
  split at h
  · split at h
    · simp only [Except.ok.injEq] at h
      exact h.le
    · simp at h
  · simp only [Except.ok.injEq] at h
    rw [← h]
    have hin : (0 : ℚ) ≤ (inputChars : ℚ) / CHARS_PER_TOKEN := by positivity
    have hout : (0 : ℚ) ≤ maxOutputTokens := Nat.cast_nonneg _
    exact Rounding.fl_nonneg (add_nonneg
      (Rounding.fl_nonneg (mul_nonneg (Rounding.fl_nonneg hin) (NNRat.cast_nonneg _)))
      (Rounding.fl_nonneg (mul_nonneg (Rounding.fl_nonneg hout) (NNRat.cast_nonneg _))))

theorem fl_worstCaseCostUsd {inputChars maxOutputTokens : ℕ} {cost : ℚ}
    (h : worstCaseCostUsd table provider model inputChars maxOutputTokens = .ok cost) :
    fl cost = cost := by
  unfold worstCaseCostUsd at h
  split at h
  · split at h
    · obtain rfl := Except.ok.inj h
      exact Rounding.fl_zero
    · cases h
  · obtain rfl := Except.ok.inj h
    exact Rounding.fl_fl _

/-- Only a model without a price keeps the worst case from being computed. -/
theorem worstCaseCostUsd_error {inputChars maxOutputTokens : ℕ} {e : Exc}
    (h : worstCaseCostUsd table provider model inputChars maxOutputTokens = .error e) :
    e = .exception (.unpricedModel provider model) := by
  unfold worstCaseCostUsd at h
  split at h
  · split at h
    · simp at h
    · exact (Except.error.inj h).symm
  · simp at h

theorem estimateCostUsd_of_numbers {inputTokens outputTokens : PyVal} {x y : ℚ}
    (hx : inputTokens.number = some x) (hy : outputTokens.number = some y) :
    estimateCostUsd table provider model inputTokens outputTokens
      = .ok (fl (fl (fl x * ((table.price provider model).getD (0, 0)).1)
        + fl (fl y * ((table.price provider model).getD (0, 0)).2))) := by
  simp only [estimateCostUsd, PyVal.mul_of_number hx, PyVal.mul_of_number hy]
  rfl

/-- The estimate raises exactly when one of the two counts is not a number a `float` can hold. -/
theorem estimateCostUsd_error_iff {inputTokens outputTokens : PyVal} :
    (∃ e, estimateCostUsd table provider model inputTokens outputTokens = .error e)
      ↔ ¬ (inputTokens.IsNumber ∧ outputTokens.IsNumber) := by
  constructor
  · rintro ⟨e, h⟩ ⟨hx, hy⟩
    obtain ⟨x, hx⟩ := Option.isSome_iff_exists.mp hx
    obtain ⟨y, hy⟩ := Option.isSome_iff_exists.mp hy
    rw [estimateCostUsd_of_numbers hx hy] at h
    cases h
  · intro h
    by_cases hx : inputTokens.IsNumber
    · have hy : ¬ outputTokens.IsNumber := fun hy => h ⟨hx, hy⟩
      refine ⟨.exception outputTokens.refusal, ?_⟩
      obtain ⟨x, hx⟩ := Option.isSome_iff_exists.mp hx
      simp only [estimateCostUsd, PyVal.mul_of_number hx, PyVal.mul_of_not_isNumber hy]
      rfl
    · refine ⟨.exception inputTokens.refusal, ?_⟩
      simp only [estimateCostUsd, PyVal.mul_of_not_isNumber hx]
      rfl

theorem isNumber_of_estimateCostUsd {inputTokens outputTokens : PyVal} {cost : ℚ}
    (h : estimateCostUsd table provider model inputTokens outputTokens = .ok cost) :
    inputTokens.IsNumber ∧ outputTokens.IsNumber := by
  by_contra hno
  obtain ⟨x, hx⟩ := estimateCostUsd_error_iff.mpr hno
  rw [h] at hx
  cases hx

end Lemmas

end LlmGateway
