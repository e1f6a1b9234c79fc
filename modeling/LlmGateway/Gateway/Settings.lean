import LlmGateway.Budget.Pricing
import LlmGateway.Budget.ProviderBudget
import Mathlib.Data.Finset.Sort
import Mathlib.Data.String.Basic

/-!
# What a deployment fixes

The settings the request path reads, the fallback chains and the price table. The results hold for
all of them; the defaults are the ones the gateway ships with.
-/

namespace LlmGateway

/-- A chain: the (provider, model) pairs to try, in order. -/
abbrev Chain : Type := List (String × String)

/-- `FALLBACK_CHAINS`. -/
def FALLBACK_CHAINS : List (String × Chain) :=
  [("default", [("openai", "gpt-4o-mini"), ("anthropic", "claude-haiku-4-5"), ("ollama", "llama3")]),
    ("fast", [("openai", "gpt-4o-mini"), ("anthropic", "claude-haiku-4-5"), ("ollama", "llama3")]),
    ("smart", [("anthropic", "claude-opus-5"), ("openai", "gpt-4o")]),
    ("local", [("ollama", "llama3")])]

/-- `Settings`, with the tables of the modules that read them. `hashKey` is `hash_key`. -/
structure Settings where
  pricing : PricingTable := PRICING
  fallbackChains : List (String × Chain) := FALLBACK_CHAINS
  providerRetryAttempts : ℕ := 1
  providerLifetimeBudgetUsd : ℚ := 4
  monthlyBudgetUsdPerKey : ℚ := 5
  hashKey : String → String

/-- `sorted`, of a set of names. -/
def sorted (names : Finset String) : List String := names.sort (· ≤ ·)

/-- `billable_providers`: every provider a chain can reach that charges money, sorted. -/
def Settings.billableProviders (settings : Settings) : List String :=
  sorted (((settings.fallbackChains.flatMap Prod.snd).map Prod.fst).filter
    (· ∉ FREE_PROVIDERS)).toFinset

end LlmGateway
