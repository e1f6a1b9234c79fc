import LlmGateway.Main.Bookkeeping
import LlmGateway.Main.SettleChain

/-!
# Serving a request

Mirrors `_serve_chat` of `app/main.py`. The router is a parameter: any program that ends in a
response or raises.
-/

namespace LlmGateway

open Coroutine

variable [Rounding] {σ : Type} {settings : Settings}

/-! ## The function -/

/-- The clause for `AllProvidersFailedError`: nothing was served, so every reservation comes back.
-/
def serveNothing (settings : Settings) (q : RequestArgs) {α : Type} : Py σ α := do
  settleChain settings q.apiKey q.reservations "" 0
  metric (.requestCount "error")
  recordAuditLog settings q.apiKey {
    requestedModel := q.requestedModel, outcome := "error", requestId := q.requestId }
  throw (.httpException {
    statusCode := 502, detail := .message "all providers failed" q.requestId })

/-- The bookkeeping of a response. -/
def serveResponse (settings : Settings) (q : RequestArgs) (result : ChatResponse) :
    Py σ ChatResponse := do
  metric (.requestCount "success")
  let cost ← estimateCost settings result.provider result.model result.inputTokens
    result.outputTokens
  settleChain settings q.apiKey q.reservations result.provider cost
  recordUsage result.provider result.model result.inputTokens result.outputTokens cost
  recordAuditLog settings q.apiKey {
    requestedModel := q.requestedModel, outcome := "success", provider := result.provider,
    inputTokens := result.inputTokens, outputTokens := result.outputTokens, costUsd := cost,
    requestId := q.requestId }
  pure result

/-- Run a request through the router and do the bookkeeping. -/
def serveChat (settings : Settings) (router : Py σ ChatResponse) (q : RequestArgs) :
    Py σ ChatResponse := do
  let result ← (router.attempt fun
    -- the only clause; `finally` takes the time and settles nothing
    | .exception (.allProvidersFailed _) => some (serveNothing settings q)
    | _ => none).ensure (metric .requestLatency)
  serveResponse settings q result

omit [Rounding] in
/-- What is left to do once a response is settled. -/
theorem only_reportResponse {B : Cmd → Prop} (hmetric : ∀ m, B (.metric m))
    (haudit : ∀ c : Cmd, c.Auditing → B c) {settings : Settings} {apiKey : String}
    {result : ChatResponse} {cost : ℚ} {row : AuditFields} :
    (do
      recordUsage result.provider result.model result.inputTokens result.outputTokens cost
      recordAuditLog settings apiKey row
      pure result : Py σ ChatResponse).Only B :=
  .bind (only_recordUsage hmetric) fun _ => .bind (only_recordAuditLog haudit) fun _ => .pure

theorem raises_serveNothing {q : RequestArgs} {α : Type} :
    (serveNothing settings q : Py σ α).Raises :=
  .bind fun _ => .bind fun _ => .bind fun _ => .raise

/-- The rule for `_serve_chat`: one premise for each way the router and the taking of the time can
end. -/
theorem wp_serveChat_of {A : Ev → Prop} {s : σ} {q : RequestArgs} {router : Py σ ChatResponse}
    {R Q : List Ev → Except Exc ChatResponse → σ → Prop} (hrouter : router.wp A s R)
    (hresponse : ∀ t result s₁, R t (.ok result) s₁ → A ⟨.metric .requestLatency, .ok ()⟩ →
      (serveResponse settings q result).wp A s₁ fun t' r s₂ =>
        Q (t ++ ⟨.metric .requestLatency, .ok ()⟩ :: t') r s₂)
    (huntimed : ∀ t result s₁, R t (.ok result) s₁ → ∀ e, A ⟨.metric .requestLatency, .error e⟩ →
      Q (t ++ [⟨.metric .requestLatency, .error e⟩]) (.error (.exception e)) s₁)
    (hnothing : ∀ t message s₁, R t (.error (.exception (.allProvidersFailed message))) s₁ →
      (serveNothing settings q : Py σ ChatResponse).wp A s₁ fun t' _ s₂ =>
        ∀ l, A ⟨.metric .requestLatency, l⟩ → ∀ x,
          Q (t ++ t' ++ [⟨.metric .requestLatency, l⟩]) (.error x) s₂)
    (hraised : ∀ t x s₁, R t (.error x) s₁ → (∀ m, x ≠ .exception (.allProvidersFailed m)) →
      ∀ l, A ⟨.metric .requestLatency, l⟩ → ∀ x,
        Q (t ++ [⟨.metric .requestLatency, l⟩]) (.error x) s₁) :
    (serveChat settings router q).wp A s Q := by
  rw [serveChat, Coro.wp_bind, Coro.wp_ensure, Coro.wp_attempt]
  refine Coro.wp_mono hrouter fun t r s₁ _ hR => ?_
  match r with
  | .ok result =>
    dsimp only
    rw [wp_metric_iff]
    rintro (e | ⟨⟩) hlatency
    · exact huntimed t result s₁ hR e hlatency
    · refine Coro.wp_mono (hresponse t result s₁ hR hlatency) fun t' r s₂ _ h => ?_
      rwa [List.append_assoc]
  | .error x =>
    dsimp only
    split
    · next c hc =>
      split at hc
      · obtain rfl := Option.some.inj hc
        refine Coro.wp_mono (Coro.wp_and (hnothing t _ s₁ hR) (raises_serveNothing _ _))
          fun t' r s₂ _ h => ?_
        obtain ⟨h, x, rfl⟩ := h
        rw [wp_metric_iff]
        rintro (e | ⟨⟩) hlatency
        · exact h _ hlatency _
        · exact h _ hlatency _
      · cases hc
    · next hc =>
      -- no clause catches it, and `finally` does not settle
      have hother : ∀ m, x ≠ .exception (.allProvidersFailed m) := by
        rintro m rfl
        cases hc
      rw [wp_metric_iff]
      rintro (e | ⟨⟩) hlatency
      · exact hraised t x s₁ hR hother _ hlatency _
      · exact hraised t x s₁ hR hother _ hlatency _

end LlmGateway
