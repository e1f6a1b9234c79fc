import LlmGateway.Main.ServeChat
import LlmGateway.Main.Outcome
import LlmGateway.Gateway.Redis

/-!
# Reservations a request abandons

Whether `_serve_chat` reaches `_settle_chain` depends on how the router ended: it does for a
response it can price and for `AllProvidersFailedError`, and for nothing else. A cancellation, any
other `Exception`, and a response with a token count that is no number or that no `float` can hold
leave the reservations claimed.
-/

namespace LlmGateway

open Coroutine

variable {σ : Type} {s : σ} {settings : Settings} {A : Ev → Prop} {q : RequestArgs}

section

variable [Rounding]

theorem wp_serveNothing {α : Type} :
    (serveNothing settings q : Py σ α).wp A s fun t r _ =>
      (∃ x, r = .error x) ∧ SettledAt q.apiKey q.reservations "" 0 (calls t) := by
  refine Coro.wp_and (raises_serveNothing A s)
    (Coro.wp_mono (wp_settleChain_bind ?_) fun _ _ _ _ h => h.1)
  exact .bind (only_metric trivial) fun _ => .bind (only_recordAuditLog fun _ h => h.unrecorded)
    fun _ => only_throw

/-- The bookkeeping of a response settles it at its estimate, or raises before it has settled. In a
healthy environment the latter takes a token count that cannot be priced. -/
theorem wp_serveResponse {result : ChatResponse} :
    (serveResponse settings q result : Py σ ChatResponse).wp A s fun t _ _ =>
      (∃ cost, estimateCostUsd settings.pricing result.provider result.model result.inputTokens
        result.outputTokens = .ok cost ∧
        SettledAt q.apiKey q.reservations result.provider cost (calls t)) ∨
      calls t = [] ∧ ((∀ e ∈ t, Healthy e) → ∃ x, estimateCostUsd settings.pricing result.provider
        result.model result.inputTokens result.outputTokens = .error x) := by
  rw [serveResponse, Coro.wp_bind, wp_metric_iff]
  rintro (e | ⟨⟩) _
  · exact .inr ⟨rfl, fun h => by cases h _ (.head _)⟩
  dsimp only [Except.mapError]
  rw [Coro.wp_bind, estimateCost, Coro.wp_bind, wp_pricing_iff]
  rintro (e | ⟨⟩) _
  · exact .inr ⟨rfl, fun h => by cases h _ (.tail _ (.head _))⟩
  dsimp only [Except.mapError]
  rw [Coro.wp_ofExcept]
  split
  · next cost hcost =>
    refine Coro.wp_mono (wp_settleChain_bind (only_reportResponse (fun _ => trivial)
      fun _ h => h.unrecorded)) fun t r s' _ h => ?_
    exact .inl ⟨cost, hcost, by simpa [calls_cons, call?] using h.1⟩
  · next x hx => exact .inr ⟨rfl, fun _ => ⟨x, hx⟩⟩

/-! ## Every way the router can end -/

/-- The outcomes of `router.chat` that `_serve_chat` settles after. -/
def Accounted : Except Exc ChatResponse → Prop
  | .ok result => result.inputTokens.IsNumber ∧ result.outputTokens.IsNumber
  | .error (.exception (.allProvidersFailed _)) => True
  | .error _ => False

omit [Rounding] in
theorem not_accounted {x : Exc} (h : ∀ m, x ≠ .exception (.allProvidersFailed m)) :
    ¬ Accounted (.error x) := by
  unfold Accounted
  split
  · next heq => cases heq
  · next m heq => exact absurd (Except.error.inj heq) (h m)
  · exact id

theorem wp_serveChat {outcome : Except Exc ChatResponse} :
    (serveChat settings (Coro.ofExcept outcome) q).wp Healthy s fun t _ _ =>
      Settled q.apiKey q.reservations t ↔ Accounted outcome := by
  refine wp_serveChat_of (R := fun t r _ => t = [] ∧ r = outcome)
    (Coro.wp_ofExcept.mpr ⟨rfl, rfl⟩) ?_ ?_ ?_ ?_
  · rintro _ result s₁ ⟨rfl, rfl⟩ -
    refine Coro.wp_mono wp_serveResponse fun t r s' hA h => ?_
    rw [List.nil_append]
    rcases h with ⟨cost, hcost, h⟩ | ⟨hnil, herr⟩
    · have hsettled : SettledAt q.apiKey q.reservations result.provider cost
          (calls (⟨.metric .requestLatency, .ok ()⟩ :: t)) := by simpa [calls_cons, call?] using h
      exact iff_of_true hsettled.settled (isNumber_of_estimateCostUsd hcost)
    · refine iff_of_false (not_settled_of_nil (by simp [calls_cons, call?, hnil])) ?_
      exact estimateCostUsd_error_iff.mp (herr hA)
  · intro _ _ _ _ e he
    cases he
  · rintro _ m s₁ ⟨rfl, rfl⟩
    refine Coro.wp_mono wp_serveNothing fun t r s' _ h l hl x => ?_
    have hsettled : SettledAt q.apiKey q.reservations "" 0
        (calls ([] ++ t ++ [⟨.metric .requestLatency, l⟩])) := by
      simpa [calls_cons, call?] using h.2
    exact iff_of_true hsettled.settled trivial
  · rintro _ x s₁ ⟨rfl, rfl⟩ hother l hl x'
    exact iff_of_false (not_settled_of_nil rfl) (not_accounted hother)

/-- A run of `_serve_chat` reaches `_settle_chain` for its reservations exactly when the router
raised `AllProvidersFailedError` or returned a response whose token counts are numbers that a `float`
can hold. -/
theorem settled_iff_accounted {outcome : Except Exc ChatResponse} {t : List Ev}
    {r : Except Exc ChatResponse} {s' : σ}
    (hrun : Coro.Runs (serveChat settings (Coro.ofExcept outcome) q) s t r s')
    (hA : ∀ e ∈ t, Healthy e) :
    Settled q.apiKey q.reservations t ↔ Accounted outcome :=
  wp_serveChat.apply hrun hA

end

/-! ## A client that goes away -/

/-- A request holding one reservation. -/
def heldRequest : RequestArgs where
  apiKey := "k"
  requestedModel := "default"
  requestId := "r"
  reservations := OrderedDict.empty.addTo "openai" (1 / 100)

/-- Its run when nothing else fails, for each way the router can end. -/
def served (outcome : Except Exc ChatResponse) : List Ev × (Except Exc ChatResponse × Unit) × Ledgers :=
  Prog.drive (answer calm)
    ((serveChat { hashKey := id } (Coro.ofExcept outcome) heldRequest : Py Unit _) ()) fun _ => 0

/-- An answer of OpenAI's. -/
def answered : ChatResponse := ⟨.str "hi", "openai", "gpt-4o-mini", .int 3, .int 1⟩

/-- An answer of Ollama's whose token count is `null`. -/
def uncounted : ChatResponse := ⟨.str "hi", "ollama", "llama3", .none, .int 0⟩

/-- An answer with more input tokens than a `float` can hold. -/
def endless : ChatResponse := { answered with inputTokens := .int (10 ^ 200 * 10 ^ 200) }

section Served

variable (outcome : Except Exc ChatResponse)

theorem runs_served : Coro.Runs
    (serveChat { hashKey := id } (Coro.ofExcept outcome) heldRequest : Py Unit _) ()
    (served outcome).1 (served outcome).2.1.1 () :=
  Prog.returns_drive _ _ _

theorem healthy_served : ∀ e ∈ (served outcome).1, Healthy e :=
  (Pool.evolves_drive (redis_answer fun L c => healthy_answer L c healthy_calm) _ _).forall_mem
    redis_admits

end Served

theorem settled_iff_accounted_answered :
    Settled "k" heldRequest.reservations (served (.ok answered)).1 ↔ Accounted (.ok answered) :=
  settled_iff_accounted (q := heldRequest) (runs_served _) (healthy_served _)

/-- When the router ends so and nothing else fails, `_serve_chat` leaves without a settlement. -/
structure Abandoned (outcome : Except Exc ChatResponse) : Prop where
  run : Coro.Runs (serveChat { hashKey := id } (Coro.ofExcept outcome) heldRequest : Py Unit _) ()
    (served outcome).1 (served outcome).2.1.1 ()
  healthy : ∀ e ∈ (served outcome).1, Healthy e
  unsettled : ¬ Settled "k" heldRequest.reservations (served outcome).1

theorem abandoned_of_isEmpty {outcome : Except Exc ChatResponse}
    (h : (calls (served outcome).1).isEmpty) : Abandoned outcome where
  run := runs_served _
  healthy := healthy_served _
  unsettled := not_settled_of_nil (List.isEmpty_iff.mp h)

/-- A cancellation, an error of no known class, and two answers that cannot be priced. -/
theorem abandoned_by_serveChat :
    Abandoned (.error .cancelled) ∧ Abandoned (.error (.exception (.other "RuntimeError"))) ∧
      Abandoned (.ok uncounted) ∧ Abandoned (.ok endless) := by
  refine ⟨abandoned_of_isEmpty ?_, abandoned_of_isEmpty ?_, abandoned_of_isEmpty ?_,
    abandoned_of_isEmpty ?_⟩ <;> decide +kernel

end LlmGateway
