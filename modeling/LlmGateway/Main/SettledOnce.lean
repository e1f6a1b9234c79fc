import LlmGateway.Main.StreamAbandonment
import LlmGateway.Main.Abandonment
import LlmGateway.Main.Footprint

/-!
# No reservation is settled twice

Settling adds the difference to what was reserved, so doing it twice would refund money that was
spent. Nothing is assumed about the environment here: metrics, pricing, Redis, the database, the
router and the client may fail at every step, and a request still settles each of its reservations
at most once.

The argument is in `Outcome.once` and `wp_serveChat_once`: `_settle_chain` raises no `Exception`,
so no clause that settles is entered after it.
-/

namespace LlmGateway

open Coroutine

variable {σ : Type} {s : σ} {settings : Settings} {A : Ev → Prop}

/-! ## Counting -/

/-- `ProviderBudget.settle` for the provider `p`. -/
def settlesProvider (p : String) : Call → Bool
  | .providerSettle provider _ _ => provider = p
  | _ => false

/-- `BudgetTracker.settle`. -/
def settlesCaller : Call → Bool
  | .trackerSettle _ _ _ => true
  | _ => false

/-- Each ledger is settled at most once. -/
structure AtMostOnce (cs : List Call) : Prop where
  provider : ∀ p, cs.countP (settlesProvider p) ≤ 1
  caller : cs.countP settlesCaller ≤ 1

/-- Each provider is settled at most once, and no caller. -/
structure Refunds (cs : List Call) : Prop where
  provider : ∀ p, cs.countP (settlesProvider p) ≤ 1
  caller : cs.countP settlesCaller = 0

theorem AtMostOnce.nil : AtMostOnce [] := ⟨fun _ => by simp, by simp⟩

variable {apiKey provider : String} {reservations : OrderedDict String ℚ} {cost : ℚ}
  {cs : List Call}

/-- The keys of a dictionary are distinct, so each provider occurs once among its settlements. -/
theorem countP_settleCalls (p : String) :
    (reservations.entries.map (settleCall provider cost)).countP (settlesProvider p) ≤ 1 := by
  rw [List.countP_map]
  have hkeys : reservations.entries.countP (settlesProvider p ∘ settleCall provider cost)
      = reservations.keys.count p := by
    rw [OrderedDict.keys, List.count, List.countP_map]
    refine List.countP_congr fun e _ => ?_
    simp [settlesProvider, settleCall]
  rw [hkeys]
  exact List.nodup_iff_count_le_one.mp reservations.nodupKeys p

/-- `_settle_providers` settles each provider at most once, and no caller. -/
theorem Settles.refunds (h : Settles reservations provider cost cs) : Refunds cs := by
  have hcaller : (reservations.entries.map (settleCall provider cost)).countP settlesCaller = 0 := by
    rw [List.countP_map, List.countP_eq_zero]
    simp [settlesCaller, settleCall]
  rcases h with h | ⟨-, rfl⟩
  · refine ⟨fun p => (h.sublist.countP_le).trans (countP_settleCalls p), ?_⟩
    exact Nat.le_zero.mp (hcaller ▸ h.sublist.countP_le)
  · refine ⟨fun p => ?_, ?_⟩
    · rw [List.countP_append]
      exact countP_settleCalls p
    · rw [List.countP_append, hcaller]
      rfl

theorem SettledAt.atMostOnce (h : SettledAt apiKey reservations provider cost cs) :
    AtMostOnce cs := by
  obtain ⟨cs', hcs', rfl⟩ := h
  obtain ⟨hprovider, hcaller⟩ := hcs'.refunds
  constructor
  · intro p
    simpa [List.countP_cons, List.countP_append, settlesProvider] using hprovider p
  · simp [List.countP_cons, List.countP_append, settlesCaller, hcaller]

section

variable [Rounding]

/-! ## Reserving -/

/-- `_reserve_chain` settles nothing if it returns, and each recorded claim at most once if it
unwinds. -/
theorem wp_reserveChain_once {chainName requestId : String} {messages : List ChatMessage}
    {params : Option SamplingParams} :
    (reserveChain settings chainName messages params requestId apiKey).wp A s fun t r _ =>
      (calls t = [] ∧ ∃ x, r = .ok x) ∨ Refunds (calls t) ∧ ∃ x, r = .error x := by
  refine wp_reserveChain_of (wp_unrecorded (only_reserveBody fun _ h => h.unrecorded))
    (fun t s' hcalls => .inl ⟨hcalls, _, rfl⟩) fun t e s' hcalls => wp_unwind_of ?_
  refine Coro.wp_mono calls_settleProviders fun t' _ _ _ h => ?_
  obtain ⟨-, -, cs, hcs, hrec⟩ := h
  have hrefunds : Refunds (calls (t ++ t')) := by
    rw [calls_append, hcalls, List.nil_append, hrec.calls]
    exact hcs.refunds
  exact fun _ e' _ => .inr ⟨hrefunds, e', rfl⟩

/-! ## Serving -/

variable {q : RequestArgs}

/-- The calls of a request that was served: one settlement or none. -/
def Once (q : RequestArgs) (t : List Ev) : Prop :=
  calls t = [] ∨ ∃ provider cost, SettledAt q.apiKey q.reservations provider cost (calls t)

omit [Rounding] in
theorem Once.atMostOnce {t : List Ev} (h : Once q t) : AtMostOnce (calls t) := by
  rcases h with h | ⟨provider, cost, h⟩
  · rw [h]
    exact .nil
  · exact h.atMostOnce

theorem wp_serveChat_once {outcome : Except Exc ChatResponse} :
    (serveChat settings (Coro.ofExcept outcome) q).wp A s fun t _ _ => Once q t := by
  refine wp_serveChat_of (R := fun t _ _ => t = []) (Coro.wp_ofExcept.mpr rfl) ?_ ?_ ?_ ?_
  · rintro _ result s₁ rfl -
    refine Coro.wp_mono wp_serveResponse fun t r s' _ h => ?_
    rcases h with ⟨cost, -, h⟩ | ⟨hnil, -⟩
    · exact .inr ⟨_, cost, by simpa [calls_cons, call?] using h⟩
    · exact .inl (by simpa [calls_cons, call?] using hnil)
  · rintro _ result s₁ rfl e -
    exact .inl rfl
  · rintro _ m s₁ rfl
    refine Coro.wp_mono wp_serveNothing fun t r s' _ h l _ x => ?_
    exact .inr ⟨_, _, by simpa [calls_cons, call?] using h.2⟩
  · rintro _ x s₁ rfl - l - x'
    exact .inl rfl

theorem wp_endpoint_once {endpoint : Endpoint} {stream : RouterStream} :
    (endpoint.run settings q stream).wp A {} fun t _ _ => Once q t := by
  refine Coro.wp_mono (wp_endpoint endpoint) fun t r s' _ h => ?_
  rcases h with ⟨-, hnil⟩ | ⟨-, ⟨-, hnil⟩ | hout⟩
  · exact .inl hnil
  · exact .inl hnil
  · exact hout.once

/-! ## The whole request -/

/-- What a request is served by once it has its reservations, with everything that is not under the
control of the gateway: the outcome of the router, or what its stream has in store. -/
inductive Service where
  | chat (outcome : Except Exc ChatResponse)
  | stream (endpoint : Endpoint) (source : RouterStream)

/-- `_serve_chat`, `_event_stream` or `_openai_event_stream`. -/
def Service.run (settings : Settings) (q : RequestArgs) : Service → Py σ Unit
  | .chat outcome => do
    let _ ← serveChat settings (Coro.ofExcept outcome) q
    pure ()
  | .stream endpoint source => Coro.scope {} (endpoint.run settings q source)

/-- A request from its reservation to its end. -/
structure Request where
  chainName : String
  messages : List ChatMessage
  params : Option SamplingParams
  requestId : String
  apiKey : String
  requestedModel : String
  service : OrderedDict String ℚ × Finset String → Service

/-- The handler of a request. -/
def Request.handle (settings : Settings) (p : Request) : Py σ Unit := do
  let x ← reserveChain settings p.chainName p.messages p.params p.requestId p.apiKey
  (p.service x).run settings ⟨p.apiKey, p.requestedModel, p.requestId, x.1⟩

theorem wp_service_once {service : Service} :
    (service.run settings q : Py σ Unit).wp A s fun t _ _ => Once q t := by
  cases service with
  | chat outcome =>
    rw [Service.run, Coro.wp_bind]
    refine Coro.wp_mono wp_serveChat_once fun t r s' _ h => ?_
    match r with
    | .error x => exact h
    | .ok result =>
      refine Coro.wp_pure.mpr ?_
      rwa [List.append_nil]
  | stream endpoint source =>
    rw [Service.run, Coro.wp_scope]
    exact wp_endpoint_once

/-- However a request ends, and whatever fails on the way: after `_reserve_chain` returned, each
provider's reservation and the caller's share are settled at most once, and if it unwinds instead,
each recorded claim is refunded at most once and nothing is settled after it. -/
theorem settled_at_most_once {p : Request} {t : List Ev} {r : Except Exc Unit} {s' : σ}
    (hrun : Coro.Runs (p.handle settings) s t r s') :
    ∃ t₁ t₂ x s₁, t = t₁ ++ t₂ ∧
      Coro.Runs (reserveChain settings p.chainName p.messages p.params p.requestId p.apiKey) s t₁ x
        s₁ ∧
      (∀ y, x = .ok y → calls t₁ = [] ∧ AtMostOnce (calls t₂)) ∧
      ∀ e, x = .error e → Refunds (calls t₁) ∧ t₂ = [] := by
  have hany : ∀ t : List Ev, ∀ e ∈ t, (fun _ => True) e := fun _ _ _ => trivial
  rcases hrun.bind_cases with ⟨e, rfl, hreserve⟩ | ⟨t₁, x, s₁, t₂, rfl, hreserve, hserve⟩
  · have honce := wp_reserveChain_once.apply hreserve (hany t)
    refine ⟨t, [], .error e, s', (List.append_nil t).symm, hreserve, nofun, fun _ _ => ?_⟩
    exact ⟨(honce.resolve_left (by simp)).1, rfl⟩
  · have honce := wp_reserveChain_once.apply hreserve (hany t₁)
    have hserved := wp_service_once.apply hserve (hany t₂)
    refine ⟨t₁, t₂, .ok x, s₁, rfl, hreserve, fun _ _ => ?_, nofun⟩
    exact ⟨(honce.resolve_right (by simp)).1, hserved.atMostOnce⟩

end

/-! ## A stream whose last frame is refused -/

/-- A stream on the default chain whose client goes away at the last frame, while the audit log is
down. -/
def unlucky : Request where
  chainName := "default"
  messages := [⟨"user", "hi!"⟩]
  params := none
  requestId := "r"
  apiKey := "k"
  requestedModel := "default"
  service _ := .stream (.openai "id" 0) {
    chunks := [⟨.str "hi", false, .int 0, .int 0, "openai", "gpt-4o-mini"⟩,
      ⟨.str "", true, .int 1, .int 1, "openai", "gpt-4o-mini"⟩] }

/-- The environment of that stream. -/
def unluckyReply : (c : Cmd) → Reply c
  | .commitAudit _ => .failed (.exception (.other "OperationalError")) false
  | .yield (.finish _ _ _) => .error .generatorExit
  | c => calm c

/-- Its run, on empty ledgers. -/
def unluckyRun : List Ev × (Except Exc Unit × Unit) × Ledgers :=
  Prog.drive (answer unluckyReply) ((unlucky.handle { hashKey := id } : Py Unit Unit) ()) fun _ => 0

theorem runs_unlucky :
    Coro.Runs (unlucky.handle { hashKey := id } : Py Unit Unit) () unluckyRun.1 unluckyRun.2.1.1
      unluckyRun.2.1.2 := by
  unfold unluckyRun
  exact Prog.returns_drive _ _ _

theorem settled_at_most_once_unlucky :
    ∃ t₁ t₂ x s₁, unluckyRun.1 = t₁ ++ t₂ ∧
      Coro.Runs (reserveChain { hashKey := id } unlucky.chainName unlucky.messages unlucky.params
        unlucky.requestId unlucky.apiKey) () t₁ x s₁ ∧
      (∀ y, x = .ok y → calls t₁ = [] ∧ AtMostOnce (calls t₂)) ∧
      ∀ e, x = .error e → Refunds (calls t₁) ∧ t₂ = [] :=
  settled_at_most_once (p := unlucky) runs_unlucky

end LlmGateway
