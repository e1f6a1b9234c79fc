import LlmGateway.Main.SettleChain
import Mathlib.Data.Finset.Card

/-!
# Reserving for a request

Mirrors `_reserve_chain` of `app/main.py`: every billable hop of the chain is claimed against, then
the sum against the caller's share, and every exit that is not a successful return hands back what
was recorded.
-/

namespace LlmGateway

open Coroutine
open Rounding (fl)

variable [Rounding] {σ : Type}

/-- The locals of `_reserve_chain`. -/
structure ReserveLocals where
  reservations : OrderedDict String ℚ := .empty
  skip : Finset String := ∅
  unpriced : Finset String := ∅
  billable : ℕ := 0

/-- The characters of a prompt: `chars`. -/
def promptChars (messages : List ChatMessage) : ℕ := (messages.map fun m => m.content.length).sum

/-- The output cap a request is reserved for: `max_out`. -/
def maxOut (params : Option SamplingParams) : ℕ :=
  match params with
  | none => DEFAULT_MAX_OUTPUT_TOKENS
  | some p =>
    match p.maxTokens with
    | some (n + 1) => n + 1
    | _ => DEFAULT_MAX_OUTPUT_TOKENS

/-- The worst case of one hop over all its attempts. -/
def hopCost (settings : Settings) (chars maxOut : ℕ) (hop : String × String) : Except Exc ℚ := do
  let cost ← worstCaseCostUsd settings.pricing hop.1 hop.2 chars maxOut
  pure (fl (cost * fl (settings.providerRetryAttempts + 1 : ℕ)))

/-- `reservations[provider] = reservations.get(provider, 0.0) + cost`. -/
def accumulate (reservations : OrderedDict String ℚ) (provider : String) (cost : ℚ) :
    OrderedDict String ℚ :=
  reservations.set provider (fl (reservations.getD provider 0 + cost))

/-- One iteration of the loop over the chain. -/
def reserveHop (settings : Settings) (chars maxOut : ℕ) (hop : String × String) :
    Py ReserveLocals Unit :=
  if hop.1 ∈ FREE_PROVIDERS then pure ()
  else do
    Coro.update fun s : ReserveLocals => { s with billable := s.billable + 1 }
    (Coro.ofExcept (hopCost settings chars maxOut hop)).attemptElse
      (fun
        | .exception (.unpricedModel _ _) => some (Coro.update fun s =>
            { s with skip := insert hop.1 s.skip, unpriced := insert hop.1 s.unpriced })
        | _ => none)
      fun cost =>
        (do
          ProviderBudget.reserve settings.providerLifetimeBudgetUsd hop.1 cost
          -- accumulated: a chain may list a provider twice
          Coro.update fun s : ReserveLocals =>
            { s with reservations := accumulate s.reservations hop.1 cost }).attempt
        fun
        | .exception (.providerBudgetExhausted _ _ _) =>
          some (Coro.update fun s : ReserveLocals => { s with skip := insert hop.1 s.skip })
        | _ => none

/-- The loop over the chain. -/
def reserveHops (settings : Settings) (chars maxOut : ℕ) : Chain → Py ReserveLocals Unit
  | [] => pure ()
  | hop :: rest => do
    reserveHop settings chars maxOut hop
    reserveHops settings chars maxOut rest

/-- Refuse a chain none of whose billable hops is usable and that has no free one. -/
def refuseUnusable (settings : Settings) (chain : Chain) (requestId : String) :
    Py ReserveLocals Unit := do
  let s ← Coro.locals
  if s.billable ≠ 0 ∧ s.skip.card = s.billable ∧ ¬ chain.any (·.1 ∈ FREE_PROVIDERS) then do
    -- out of budget may pass and is a 402; a missing price will not and is a 503
    let exhausted := s.skip \ s.unpriced
    metric (.requestsRefused
      (if exhausted.Nonempty then "provider_budget_exhausted" else "no_pricing_configured"))
    let spent ← ProviderBudget.snapshot settings.providerLifetimeBudgetUsd
      settings.billableProviders
    throw (.httpException {
      statusCode := if exhausted.Nonempty then 402 else 503
      detail := .chainRefused
        (if exhausted.Nonempty then "provider budget exhausted" else "no pricing configured")
        spent settings.providerLifetimeBudgetUsd (sorted s.unpriced) requestId })
  else pure ()

/-- Claim the caller's share: the sum of the reservations. -/
def reserveKey (settings : Settings) (requestId apiKey : String) : Py ReserveLocals Unit := do
  let s ← Coro.locals
  if s.reservations.total ≠ 0 then
    (BudgetTracker.reserve settings.hashKey settings.monthlyBudgetUsdPerKey apiKey
      s.reservations.total).attempt fun
      | .exception (.keyBudgetExhausted _ _) => some do
        metric (.requestsRefused "key_budget_exhausted")
        throw (.httpException {
          statusCode := 402
          detail := .message "monthly budget exceeded for this API key" requestId
          headers := [("X-Budget-Remaining-USD", "0.0000")] })
      | _ => none
  else pure ()

/-- The body of the `try`. -/
def reserveBody (settings : Settings) (chainName : String) (chars maxOut : ℕ)
    (requestId apiKey : String) : Py ReserveLocals Unit :=
  match settings.fallbackChains.lookup chainName with
  | none => throw (.other "KeyError")
  | some chain => do
    reserveHops settings chars maxOut chain
    refuseUnusable settings chain requestId
    reserveKey settings requestId apiKey

/-- Hand back what was recorded and raise `e` again. -/
def unwind (settings : Settings) (e : Exc) : Py ReserveLocals Unit := do
  let s ← Coro.locals
  settleProviders settings s.reservations "" 0
  Coro.raise e

/-- Reserve the worst case on both ledgers before any provider is called: the reservations and the
providers the router has to skip. -/
def reserveChain (settings : Settings) (chainName : String) (messages : List ChatMessage)
    (params : Option SamplingParams) (requestId apiKey : String) :
    Py σ (OrderedDict String ℚ × Finset String) :=
  Coro.scope {} do
    (reserveBody settings chainName (promptChars messages) (maxOut params) requestId apiKey).attempt
      fun e => some (unwind settings e)
    let s ← Coro.locals
    pure (s.reservations, s.skip)

section Rules

variable {A : Ev → Prop} {settings : Settings} {requestId apiKey : String}

/-- The rule for the unwinding: whether the hand-back goes through or not, it raises. -/
theorem wp_unwind_of {s : ReserveLocals} {e : Exc}
    {Q : List Ev → Except Exc Unit → ReserveLocals → Prop}
    (h : (settleProviders settings s.reservations "" 0).wp A s fun t _ s' => ∀ e', Q t (.error e') s') :
    (unwind settings e).wp A s Q := by
  rw [unwind, Coro.wp_bind, Coro.wp_locals]
  dsimp only
  rw [Coro.wp_bind]
  refine Coro.wp_mono h fun t r s' _ hQ => ?_
  match r with
  | .error e' => exact hQ e'
  | .ok () =>
    refine Coro.wp_raise.mpr ?_
    rw [List.append_nil]
    exact hQ e

theorem raises_unwind {e : Exc} : (unwind settings e).Raises :=
  .bind fun _ => .bind fun _ => .raise

/-- The rule for `_reserve_chain`, from what is known of its body: it returns what the body
recorded, or unwinds it. -/
theorem wp_reserveChain_of {s : σ} {chainName : String} {messages : List ChatMessage}
    {params : Option SamplingParams} {B : List Ev → Except Exc Unit → ReserveLocals → Prop}
    {Q : List Ev → Except Exc (OrderedDict String ℚ × Finset String) → σ → Prop}
    (hbody : (reserveBody settings chainName (promptChars messages) (maxOut params) requestId
      apiKey).wp A {} B)
    (hreturn : ∀ t s', B t (.ok ()) s' → Q t (.ok (s'.reservations, s'.skip)) s)
    (hunwind : ∀ t e s', B t (.error e) s' →
      (unwind settings e).wp A s' fun t' r _ => ∀ e', r = .error e' → Q (t ++ t') (.error e') s) :
    (reserveChain settings chainName messages params requestId apiKey).wp A s Q := by
  rw [reserveChain, Coro.wp_scope, Coro.wp_bind, Coro.wp_attempt]
  refine Coro.wp_mono hbody fun t r s' _ hB => ?_
  match r with
  | .ok () =>
    dsimp only
    rw [Coro.wp_bind, Coro.wp_locals]
    dsimp only
    rw [Coro.wp_pure, List.append_nil, List.append_nil]
    exact hreturn t s' hB
  | .error e =>
    refine Coro.wp_mono (Coro.wp_and (hunwind t e s' hB) (raises_unwind _ _)) fun t' r s₂ _ h => ?_
    obtain ⟨hQ, e', rfl⟩ := h
    exact hQ e' rfl

end Rules

end LlmGateway
