import LlmGateway.Main.Coverage
import LlmGateway.Main.Outcome
import LlmGateway.Main.ServeChat
import LlmGateway.Routing.Answers
import Mathlib.Tactic.Linarith

/-!
# The ledger and the real bill

A provider can bill a call that failed on this side: a client-side timeout does not undo the tokens
it generated. `_reserve_chain` reserves for every attempt for that reason, but `_settle_chain` sees
only the response that came back, so what it leaves on a ledger is the price of that response, up to
a rounding. The ledger therefore covers the real bill exactly when no failed call was billed, or none
more than the rounding gains.
-/

namespace LlmGateway

open Coroutine
open Rounding (fl)

section Generic

variable [Rounding] {σ α β : Type} {s : σ} {settings : Settings}

/-! ## What serving leaves on the ledgers of the providers -/

omit [Rounding] in
theorem Cmd.Settling.inward {c : Cmd} (h : c.Settling) : c.Inward := by
  cases c <;> trivial

omit [Rounding] in
theorem Cmd.Auditing.inward {c : Cmd} (h : c.Auditing) : c.Inward := by
  cases c <;> trivial

/-- Metrics and pricing do not raise, and no Redis command fails. -/
def Unfailing (e : Ev) : Prop := Healthy e ∧ failed e = false

/-- `_settle_chain` was invoked. -/
def ReachedSettlement (t : List Ev) : Prop := ∃ apiKey reservations, Settled apiKey reservations t

def Call.isSettleChain : Call → Bool
  | .settleChain _ _ _ _ => true
  | _ => false

omit [Rounding] in
theorem reachedSettlement_iff {t : List Ev} :
    ReachedSettlement t ↔ ∃ c ∈ calls t, c.isSettleChain = true := by
  constructor
  · rintro ⟨apiKey, reservations, provider, cost, hmem⟩
    exact ⟨_, hmem, rfl⟩
  · rintro ⟨c, hmem, hc⟩
    cases c with
    | settleChain apiKey reservations provider cost =>
      exact ⟨apiKey, reservations, provider, cost, hmem⟩
    | _ => cases hc

instance {t : List Ev} : Decidable (ReachedSettlement t) :=
  decidable_of_iff' _ reachedSettlement_iff

omit [Rounding] in
theorem not_reachedSettlement {t : List Ev} (h : calls t = []) : ¬ ReachedSettlement t := by
  rintro ⟨apiKey, reservations, provider, cost, hmem⟩
  rw [h] at hmem
  cases hmem

/-- A command that does not touch a ledger. -/
def Cmd.Ledgerless : Cmd → Prop
  | .incrbyfloat _ _ | .incrbyfloatExpire _ _ _ => False
  | _ => True

omit [Rounding] in
theorem tally_asked_of_ledgerless {t : List Ev} (h : ∀ e ∈ t, e.cmd.Ledgerless) (k : LedgerKey) :
    tally (asked k) t = 0 := by
  refine tally_eq_zero fun e he => ?_
  have hc := h e he
  obtain ⟨c, r⟩ := e
  cases c <;> first | rfl | exact hc.elim

/-- What follows a settlement: it records nothing, calls nothing and moves nothing. -/
def Cmd.Closing (c : Cmd) : Prop := c.Unrecorded ∧ c.Inward ∧ c.Ledgerless

omit [Rounding] in
theorem Cmd.Auditing.closing {c : Cmd} (h : c.Auditing) : c.Closing := by
  cases c <;> first | exact ⟨trivial, trivial, trivial⟩ | exact h.elim

omit [Rounding] in
theorem Cmd.Calling.ledgerless {c : Cmd} (h : c.Calling) : c.Ledgerless := by
  cases c <;> trivial

omit [Rounding] in
theorem Cmd.Calling.unrecorded {c : Cmd} (h : c.Calling) : c.Unrecorded := by
  cases c <;> trivial

variable {q : RequestArgs} {provider : String} {cost : ℚ}

/-- A settlement moves the ledgers of the providers by what it asks of them. -/
structure SettledFor (q : RequestArgs) (provider : String) (cost : ℚ) (t : List Ev) : Prop where
  moved : ∀ p, tally (moved (.provider p)) t
    = settlement q.reservations provider cost (.provider p)
  calls : chatCalls t = []

theorem SettledFor.append {t t' : List Ev} (h : SettledFor q provider cost t)
    (ht' : ∀ e ∈ t', e.cmd.Closing) (hA : ∀ e ∈ t', Unfailing e) :
    SettledFor q provider cost (t ++ t') where
  moved p := by
    rw [tally_append, h.moved, tally_moved_of_not_failed fun e he => (hA e he).2,
      tally_asked_of_ledgerless fun e he => (ht' e he).2.2, add_zero]
  calls := by
    rw [chatCalls_append, h.calls, chatCalls_of_inward fun e he => (ht' e he).2.1]
    rfl

theorem SettledFor.prepend {t t' : List Ev} (h : SettledFor q provider cost t')
    (ht : ∀ e ∈ t, e.cmd.Closing) (hA : ∀ e ∈ t, Unfailing e) :
    SettledFor q provider cost (t ++ t') where
  moved p := by
    rw [tally_append, h.moved, tally_moved_of_not_failed fun e he => (hA e he).2,
      tally_asked_of_ledgerless fun e he => (ht e he).2.2, zero_add]
  calls := by
    rw [chatCalls_append, h.calls, chatCalls_of_inward fun e he => (ht e he).2.1]
    rfl

theorem wp_settleChain_unfailing {apiKey : String} :
    (settleChain settings apiKey q.reservations provider cost).wp Unfailing s fun t _ _ =>
      SettledFor q provider cost t := by
  have honly : (settleChain settings apiKey q.reservations provider cost : Py σ Unit).Only
      Cmd.Inward := only_settleChain fun _ h => h.settling.inward
  have hasked : (settleChain settings apiKey q.reservations provider cost).wp Unfailing s
      fun t r s' => s' = s ∧ FromRedis t r ∧ (Interrupted t ∨
        ChainAsked settings apiKey q.reservations provider cost t) :=
    Coro.wp_anti wp_settleChain fun _ he => he.1
  refine Coro.wp_mono (Coro.wp_and hasked honly.wp) fun t r s' ht h => ?_
  obtain ⟨⟨-, -, hasked⟩, hinward⟩ := h
  have hchain := hasked.resolve_left (not_interrupted fun e he => (ht e he).2)
  refine ⟨fun p => ?_, chatCalls_of_inward hinward⟩
  rw [tally_moved_of_not_failed fun e he => (ht e he).2, hchain.provider]

/-- A settlement that is only followed by reports. -/
theorem wp_settleChain_then {apiKey : String} {f : Unit → Py σ α} (hf : (f ()).Only Cmd.Closing) :
    (settleChain settings apiKey q.reservations provider cost >>= f).wp Unfailing s fun t _ _ =>
      SettledFor q provider cost t := by
  rw [Coro.wp_bind]
  refine Coro.wp_mono wp_settleChain_unfailing fun t r s' _ h => ?_
  match r with
  | .error e => exact h
  | .ok () => exact Coro.wp_mono hf.wp fun t' _ _ ht' honly => h.append honly ht'

/-- The provider and the cost of a settlement after these calls. -/
inductive Paid (settings : Settings) : String → ℚ → List ChatCall → Prop
  | nothing {cs : List ChatCall} (h : ∀ c ∈ cs, c.Failed) : Paid settings "" 0 cs
  | response {cs : List ChatCall} {provider model : String} {completion : Completion} {cost : ℚ}
      (h : ∀ c ∈ cs, c.Failed)
      (hcost : estimateCostUsd settings.pricing provider model completion.inputTokens
        completion.outputTokens = .ok cost) :
      Paid settings provider cost (cs ++ [⟨provider, model, .ok completion⟩])

theorem wp_serveNothing_bill : (serveNothing settings q : Py σ α).wp Unfailing s fun t r _ =>
    (∃ x, r = .error x) ∧ SettledFor q "" 0 t := by
  refine Coro.wp_and (raises_serveNothing Unfailing s) (wp_settleChain_then ?_)
  exact .bind (only_metric ⟨trivial, trivial, trivial⟩) fun _ =>
    .bind (only_recordAuditLog fun _ h => h.closing) fun _ => only_throw

theorem wp_serveResponse_bill {result : ChatResponse} :
    (serveResponse settings q result : Py σ ChatResponse).wp Unfailing s fun t _ _ =>
      calls t = [] ∨ ∃ cost, estimateCostUsd settings.pricing result.provider result.model
        result.inputTokens result.outputTokens = .ok cost ∧ SettledFor q result.provider cost t := by
  rw [serveResponse, Coro.wp_bind, wp_metric_iff]
  intro r hcount
  obtain rfl : r = .ok () := hcount.1
  dsimp only [Except.mapError]
  rw [Coro.wp_bind, estimateCost, Coro.wp_bind, wp_pricing_iff]
  intro r hpriced
  obtain rfl : r = .ok () := hpriced.1
  dsimp only [Except.mapError]
  rw [Coro.wp_ofExcept]
  split
  · next cost hcost =>
    refine Coro.wp_mono (wp_settleChain_then (only_reportResponse
      (fun _ => ⟨trivial, trivial, trivial⟩) fun _ h => h.closing)) fun t _ _ _ h => .inr ⟨cost, hcost, ?_⟩
    have hbefore := h.prepend (t := [⟨.metric (.requestCount "success"), .ok ()⟩, ⟨.pricing, .ok ()⟩])
      (by simp [Cmd.Closing, Cmd.Unrecorded, Cmd.Inward, Cmd.Ledgerless])
      (by simpa using ⟨hcount, hpriced⟩)
    simpa using hbefore
  · exact .inl rfl

section Serve

variable {messages : List ChatMessage} {params : Option SamplingParams} {retryAttempts : ℕ}
  {skip : Finset String} {hops : List Hop}

/-- What a run of the router leaves: it has called hops that are not to be skipped and moved
nothing. -/
structure Walked (skip : Finset String) (hops : List Hop) (t : List Ev) : Prop where
  unsettled : LlmGateway.calls t = []
  still : ∀ p, tally (moved (.provider p)) t = 0
  called : ∀ c ∈ chatCalls t, ∃ hop ∈ hops, hop.provider = c.provider ∧ hop.provider ∉ skip

omit [Rounding] in
theorem wp_chat_bill : (chat messages params retryAttempts skip hops).wp Unfailing s fun t r _ =>
    Answers (chatCalls t) r.toOption ∧ Walked skip hops t := by
  have hwithin : (chat messages params retryAttempts skip hops).wp Unfailing s fun t _ _ =>
      Within (retryAttempts + 1) skip hops (upstream t) :=
    wp_walk (fun _ _ => callsAtMost_chatAttempts _) hops 0 [] s
  have hanswers : (chat messages params retryAttempts skip hops).wp Unfailing s fun t r _ =>
      Answers (chatCalls t) r.toOption := Coro.wp_anti ends_chat fun e he => he.1
  refine Coro.wp_mono (Coro.wp_and hanswers (Coro.wp_and hwithin only_chat.wp)) fun t r _ ht h => ?_
  obtain ⟨hanswers, hwithin, honly⟩ := h
  refine ⟨hanswers, calls_of_unrecorded fun e he => (honly e he).unrecorded, fun p => ?_, ?_⟩
  · rw [tally_moved_of_not_failed fun e he => (ht e he).2,
      tally_asked_of_ledgerless fun e he => (honly e he).ledgerless]
  · intro c hc
    obtain ⟨hop, hmem, heq, hskip⟩ := hwithin.exists_hop (mem_upstream_of_mem_chatCalls hc)
    exact ⟨hop, hmem, (Prod.mk.inj heq).1, hskip⟩

/-- What `_serve_chat` leaves on the ledgers of the providers once it has settled: the price of the
response, and nothing for the calls that failed before it. -/
structure Served (settings : Settings) (q : RequestArgs) (skip : Finset String) (hops : List Hop)
    (t : List Ev) (provider : String) (cost : ℚ) : Prop where
  paid : Paid settings provider cost (chatCalls t)
  moved : ∀ p, tally (moved (.provider p)) t
    = settlement q.reservations provider cost (.provider p)
  hops : ∀ c ∈ chatCalls t, ∃ hop ∈ hops, hop.provider = c.provider ∧ hop.provider ∉ skip

/-- The router has run, and what followed it settled. -/
theorem Walked.served {t t' : List Ev} (h : Walked skip hops t)
    (hpaid : Paid settings provider cost (chatCalls t)) (hsettled : SettledFor q provider cost t') :
    Served settings q skip hops (t ++ t') provider cost := by
  have hsame : chatCalls (t ++ t') = chatCalls t := by
    rw [chatCalls_append, hsettled.calls, List.append_nil]
  refine ⟨?_, fun p => ?_, ?_⟩
  · rw [hsame]
    exact hpaid
  · rw [tally_append, h.still, hsettled.moved, zero_add]
  · rw [hsame]
    exact h.called

/-- A response is paid for at the price of the call that gave it. -/
theorem Answers.paid {cs : List ChatCall} {result : ChatResponse} (h : Answers cs (some result))
    (hcost : estimateCostUsd settings.pricing result.provider result.model result.inputTokens
      result.outputTokens = .ok cost) : Paid settings result.provider cost cs := by
  cases h with
  | answered provider model completion hfailed => exact .response hfailed hcost

omit [Rounding] in
theorem closing_latency : ∀ e ∈ [(⟨.metric .requestLatency, .ok ()⟩ : Ev)], e.cmd.Closing := by
  simp [Cmd.Closing, Cmd.Unrecorded, Cmd.Inward, Cmd.Ledgerless]

theorem wp_serveChat_bill :
    (serveChat settings (chat messages params retryAttempts skip hops) q).wp Unfailing s
      fun t _ _ => ReachedSettlement t → ∃ provider cost,
        Served settings q skip hops t provider cost := by
  refine wp_serveChat_of wp_chat_bill ?_ ?_ ?_ ?_
  · rintro t result s₁ ⟨hanswers, hwalked⟩ hmetric
    refine Coro.wp_mono wp_serveResponse_bill fun t' _ _ _ h hreached => ?_
    rcases h with hnil | ⟨cost, hcost, hsettled⟩
    · refine absurd hreached (not_reachedSettlement ?_)
      simp [hwalked.unsettled, hnil, calls_cons, call?]
    · have hlatency := hsettled.prepend closing_latency (by simpa using hmetric)
      exact ⟨_, cost, by simpa using hwalked.served (hanswers.paid hcost) hlatency⟩
  · intro _ _ _ _ e he
    cases he.1
  · rintro t m s₁ ⟨hanswers, hwalked⟩
    refine Coro.wp_mono wp_serveNothing_bill fun t' _ s₂ _ h l hmetric x => ?_
    obtain rfl : l = .ok () := hmetric.1
    have hlatency := h.2.append closing_latency (by simpa using hmetric)
    exact fun _ => ⟨"", 0, by simpa using hwalked.served (.nothing hanswers.failed) hlatency⟩
  · rintro t x s₁ ⟨hanswers, hwalked⟩ - l hmetric x'
    have hnot : ¬ ReachedSettlement (t ++ [⟨.metric .requestLatency, l⟩]) :=
      not_reachedSettlement (by simp [hwalked.unsettled, calls_cons, call?])
    exact fun hreached => absurd hreached hnot

end Serve

/-! ## Bills -/

/-- What the provider may bill for a call: the price of the usage it reported or, if the call
failed on this side, anything up to the worst case. -/
def ChatCall.MayBill (settings : Settings) (chars maxOutput : ℕ) (c : ChatCall) (bill : ℚ) : Prop :=
  match c.reply with
  | .ok completion =>
    estimateCostUsd settings.pricing c.provider c.model completion.inputTokens
      completion.outputTokens = .ok bill
  | .error _ =>
    0 ≤ bill ∧ ∃ worst, worstCaseCostUsd settings.pricing c.provider c.model chars maxOutput
      = .ok worst ∧ bill ≤ worst

theorem ChatCall.mayBill_iff {chars maxOutput : ℕ} {c : ChatCall} {bill : ℚ} :
    c.MayBill settings chars maxOutput bill ↔
      match c.reply with
      | .ok completion => (estimateCostUsd settings.pricing c.provider c.model
          completion.inputTokens completion.outputTokens).toOption = some bill
      | .error _ => 0 ≤ bill ∧ ∃ worst ∈ (worstCaseCostUsd settings.pricing c.provider c.model chars
          maxOutput).toOption, bill ≤ worst := by
  have hoption : ∀ {x : Except Exc ℚ} {y : ℚ}, x.toOption = some y ↔ x = .ok y := by
    intro x y
    cases x <;> simp [Except.toOption]
  unfold ChatCall.MayBill
  split
  · exact hoption.symm
  · simp only [Option.mem_def, hoption]

instance {chars maxOutput : ℕ} {c : ChatCall} {bill : ℚ} :
    Decidable (c.MayBill settings chars maxOutput bill) := by
  refine @decidable_of_iff' _ _ ChatCall.mayBill_iff ?_
  split <;> infer_instance

/-- A bill for each call. -/
structure Bills (settings : Settings) (chars maxOutput : ℕ) (cs : List ChatCall)
    (bills : List (ChatCall × ℚ)) : Prop where
  calls : bills.map Prod.fst = cs
  amount : ∀ x ∈ bills, x.1.MayBill settings chars maxOutput x.2

/-- The total a provider bills. -/
def billedBy (p : String) (bills : List (ChatCall × ℚ)) : ℚ :=
  (bills.map fun x => if x.1.provider = p then x.2 else 0).sum

omit [Rounding] in
@[simp] theorem billedBy_nil (p : String) : billedBy p [] = 0 := rfl

/-- The bills for the calls that failed on this side. -/
def failedBills (bills : List (ChatCall × ℚ)) : List (ChatCall × ℚ) :=
  bills.filter fun x => !x.1.reply.isOk

/-- The bill for the call that was answered. -/
def answeredBills (bills : List (ChatCall × ℚ)) : List (ChatCall × ℚ) :=
  bills.filter fun x => x.1.reply.isOk

omit [Rounding] in
theorem billedBy_split (p : String) (bills : List (ChatCall × ℚ)) :
    billedBy p bills = billedBy p (failedBills bills) + billedBy p (answeredBills bills) := by
  induction bills with
  | nil => simp [failedBills, answeredBills]
  | cons x rest ih =>
    have hcons : ∀ y ys, billedBy p (y :: ys) = (if y.1.provider = p then y.2 else 0) + billedBy p ys :=
      fun _ _ => by simp [billedBy]
    rw [hcons, ih]
    cases hx : x.1.reply.isOk with
    | true => simp [failedBills, answeredBills, hx, hcons, add_left_comm]
    | false => simp [failedBills, answeredBills, hx, hcons, add_assoc]

omit [Rounding] in
theorem answeredBills_of_failed {bills : List (ChatCall × ℚ)} (h : ∀ x ∈ bills, x.1.Failed) :
    answeredBills bills = [] := by
  refine List.filter_eq_nil_iff.mpr fun x hx => ?_
  obtain ⟨e, he⟩ := h x hx
  simp [he, Except.isOk, Except.toBool]

/-- What was settled is the bill for the call that was answered. -/
theorem Bills.answered_eq {chars maxOutput : ℕ} {cs : List ChatCall} {bills : List (ChatCall × ℚ)}
    (h : Bills settings chars maxOutput cs bills) (hpaid : Paid settings provider cost cs)
    (p : String) : billedBy p (answeredBills bills) = if p = provider then cost else 0 := by
  obtain ⟨hcalls, hamount⟩ := h
  cases hpaid with
  | nothing hfailed =>
    rw [answeredBills_of_failed fun x hx => hfailed _ (hcalls ▸ List.mem_map_of_mem hx), ite_self,
      billedBy_nil]
  | @response cs _ model completion _ hfailed hcost =>
    obtain ⟨failed, last, rfl, hfst, hlast⟩ := List.map_eq_append_iff.mp hcalls
    obtain ⟨x, rfl, hx⟩ := List.map_eq_singleton_iff.mp hlast
    have hbill := hamount x (List.mem_append_right _ (.head _))
    rw [ChatCall.MayBill, hx] at hbill
    have hcost' : x.2 = cost := Except.ok.inj (hbill.symm.trans hcost)
    have hnil : answeredBills failed = [] :=
      answeredBills_of_failed fun y hy => hfailed _ (hfst ▸ List.mem_map_of_mem hy)
    rw [answeredBills] at hnil ⊢
    rw [List.filter_append, hnil]
    simp [hx, hcost', billedBy, Except.isOk, Except.toBool, eq_comm]

/-- The ledger of every billable provider has grown by at least what the provider billed. -/
def LedgerCovers (bills : List (ChatCall × ℚ)) (t : List Ev) : Prop :=
  ∀ p ∉ FREE_PROVIDERS, billedBy p bills ≤ tally (moved (.provider p)) t

/-! ## A whole request -/

variable {hops : List Hop} {chainName requestId apiKey requestedModel : String}
  {messages : List ChatMessage} {params : Option SamplingParams}
  {x : OrderedDict String ℚ × Finset String}

/-- What a settlement does to the ledger of a billable provider: it takes the reservation back, but
for the price of the response if it was the one to give it. -/
theorem moved_of_settled {s₁ s' : σ} {t₁ t₂ : List Ev} {r : Except Exc ChatResponse}
    (hchain : settings.fallbackChains.lookup chainName
      = some (hops.map fun hop => (hop.provider, hop.model)))
    (hreserve : Coro.Runs (reserveChain settings chainName messages params requestId apiKey) s t₁
      (.ok x) s₁)
    (hserve : Coro.Runs (serveChat settings
      (chat messages params settings.providerRetryAttempts x.2 hops)
      ⟨apiKey, requestedModel, requestId, x.1⟩) s₁ t₂ r s')
    (hA : ∀ e ∈ t₂, Unfailing e) (hsettled : ReachedSettlement t₂) :
    ∃ provider cost, Paid settings provider cost (chatCalls t₂) ∧ ∀ p ∉ FREE_PROVIDERS,
      tally (moved (.provider p)) t₂
        = fl ((if p = provider then cost else 0) - x.1.getD p 0) := by
  obtain ⟨provider, cost, hpaid, hmoved, hhops⟩ := wp_serveChat_bill.apply hserve hA hsettled
  -- the provider that answered is not skipped, so it has a reservation unless it is free
  have hreserved : ∀ p ∉ FREE_PROVIDERS, p = provider → p ≠ "" ∨ cost ≠ 0 → p ∈ x.1 := by
    rintro p hfree rfl hne
    obtain ⟨l, hclaimed, rfl⟩ := claimed_of_run hchain hreserve
    generalize chatCalls t₂ = cs at hpaid hhops
    cases hpaid with
    | nothing h => simp at hne
    | response h hcost =>
      obtain ⟨hop, hmem, rfl, hskip⟩ := hhops _ (List.mem_append_right _ (.head _))
      exact (hclaimed.hop _ (List.mem_map.mpr ⟨hop, hmem, rfl⟩) hfree hskip).1
  refine ⟨provider, cost, hpaid, fun p hfree => ?_⟩
  rw [hmoved, settlement_provider, if_neg hfree]
  by_cases hmem : p ∈ x.1
  · rw [if_pos hmem]
  · rw [OrderedDict.getD_of_not_mem hmem, if_neg hmem, sub_zero]
    by_cases hp : p = provider
    · have hempty : ¬ (p ≠ "" ∨ cost ≠ 0) := fun h => hmem (hreserved p hfree hp h)
      rw [not_or, not_not, not_not] at hempty
      rw [if_neg fun h => h.2 hempty.1, if_pos hp, hempty.2, Rounding.fl_zero]
    · rw [if_neg fun h => hp h.1, if_neg hp, Rounding.fl_zero]

/-- What rounding leaves on a ledger above the price of the answer: the claims can add up to more than
is recorded as reserved, and the difference between the price and the reservation is settled as
rounded. -/
def roundingGain (claimed reserved price : ℚ) : ℚ :=
  (claimed - reserved) + (fl (price - reserved) - (price - reserved))

/-- For every billable provider, the failed calls were billed no more than the gain of the rounding,
where the ledger holds `claimed` for the request. -/
def FailedWithinRounding (claimed : String → ℚ) (reservations : OrderedDict String ℚ)
    (bills : List (ChatCall × ℚ)) : Prop :=
  ∀ p ∉ FREE_PROVIDERS, billedBy p (failedBills bills)
    ≤ roundingGain (claimed p) (reservations.getD p 0) (billedBy p (answeredBills bills))

omit [Rounding] in
/-- Bills that are not negative come to nothing only if each does. -/
theorem billedBy_le_zero_iff {p : String} {bills : List (ChatCall × ℚ)} (h : ∀ x ∈ bills, 0 ≤ x.2) :
    billedBy p bills ≤ 0 ↔ ∀ x ∈ bills, x.1.provider = p → x.2 = 0 := by
  have hnonneg : ∀ x ∈ bills.map fun x => if x.1.provider = p then x.2 else 0, 0 ≤ x := by
    intro y hy
    obtain ⟨x, hx, rfl⟩ := List.mem_map.mp hy
    split
    · exact h x hx
    · exact le_rfl
  constructor
  · intro hle x hx hp
    have hzero : billedBy p bills = 0 := le_antisymm hle (List.sum_nonneg hnonneg)
    have hone : (if x.1.provider = p then x.2 else 0) = 0 :=
      List.all_zero_of_le_zero_le_of_sum_eq_zero hnonneg hzero (List.mem_map.mpr ⟨x, hx, rfl⟩)
    rwa [if_pos hp] at hone
  · intro hall
    refine (List.sum_eq_zero fun y hy => ?_).le
    obtain ⟨x, hx, rfl⟩ := List.mem_map.mp hy
    split
    · next hp => exact hall x hx hp
    · rfl

theorem Bills.nonneg_failed {chars maxOutput : ℕ} {cs : List ChatCall} {bills : List (ChatCall × ℚ)}
    (h : Bills settings chars maxOutput cs bills) : ∀ x ∈ failedBills bills, 0 ≤ x.2 := by
  intro x hx
  obtain ⟨hmem, hfailed⟩ := List.mem_filter.mp hx
  have hbill := h.amount x hmem
  unfold ChatCall.MayBill at hbill
  split at hbill
  · next hreply => simp [hreply, Except.isOk, Except.toBool] at hfailed
  · exact hbill.1

/-- Where the rounding gains nothing, the condition is that no failed call was billed. -/
theorem failedWithinRounding_iff {chars maxOutput : ℕ} {cs : List ChatCall}
    {bills : List (ChatCall × ℚ)} {claimed : String → ℚ} {reservations : OrderedDict String ℚ}
    (hbills : Bills settings chars maxOutput cs bills)
    (hgain : ∀ p ∉ FREE_PROVIDERS, roundingGain (claimed p) (reservations.getD p 0)
      (billedBy p (answeredBills bills)) = 0) :
    FailedWithinRounding claimed reservations bills ↔
      ∀ x ∈ failedBills bills, x.1.provider ∉ FREE_PROVIDERS → x.2 = 0 := by
  have hp : ∀ p ∉ FREE_PROVIDERS, (billedBy p (failedBills bills)
      ≤ roundingGain (claimed p) (reservations.getD p 0) (billedBy p (answeredBills bills)) ↔
        ∀ x ∈ failedBills bills, x.1.provider = p → x.2 = 0) := fun p hfree => by
    rw [hgain p hfree, billedBy_le_zero_iff hbills.nonneg_failed]
  constructor
  · intro h x hx hfree
    exact (hp _ hfree).mp (h _ hfree) x hx rfl
  · intro h p hfree
    refine (hp p hfree).mpr fun x hx heq => h x hx ?_
    rwa [heq]

end Generic

/-! ## In exact arithmetic -/

section Exact

variable {σ : Type} {s s' : σ} {settings : Settings} {chainName requestId apiKey : String}
  {messages : List ChatMessage} {params : Option SamplingParams} {t : List Ev}
  {x : OrderedDict String ℚ × Finset String} {bills : List (ChatCall × ℚ)}

/-- Each ledger has moved by what is recorded as reserved. -/
theorem moved_of_reserved (hrun : Coro.Runs (reserveChain settings chainName messages params requestId
    apiKey) s t (.ok x) s') (hA : ∀ e ∈ t, Unfailing e) (p : String) :
    tally (moved (.provider p)) t = x.1.getD p 0 := by
  obtain ⟨-, hchain⟩ := (wp_reserveChain _ _ _).apply hrun fun e he => (hA e he).1
  cases hchain with
  | returned hbody =>
    rw [hbody.provider, tally_stranded_of_not_failed (fun e he => (hA e he).2), add_zero]
    rfl

/-- The condition is that no billable provider billed a call that failed. -/
theorem failedWithinRounding_exact {cs : List ChatCall} {chars maxOutput : ℕ}
    (hrun : Coro.Runs (reserveChain settings chainName messages params requestId apiKey) s t (.ok x) s')
    (hA : ∀ e ∈ t, Unfailing e) (hbills : Bills settings chars maxOutput cs bills) :
    FailedWithinRounding (fun p => tally (moved (.provider p)) t) x.1 bills ↔
      ∀ y ∈ failedBills bills, y.1.provider ∉ FREE_PROVIDERS → y.2 = 0 := by
  refine failedWithinRounding_iff hbills fun p _ => ?_
  rw [moved_of_reserved hrun hA, roundingGain, Rounding.fl_exact, sub_self, sub_self, add_zero]

end Exact

/-! ## A call that timed out and was billed -/

section TimedOut

attribute [local instance] Rounding.double

/-- OpenAI times out whenever it is called, and Anthropic answers in five tokens. -/
def timedOut : (c : Cmd) → Reply c
  | .providerChat "openai" _ _ _ => .error (.exception (.providerError "timeout" true))
  | .providerChat "anthropic" _ _ _ => .ok ⟨.str "Hello!", .int 1, .int 5⟩
  | c => calm c

/-- A hello, to be answered in ten tokens at most. -/
def hello : List ChatMessage := [⟨"user", "hi!"⟩]

def tenTokens : SamplingParams := { maxTokens := some 10 }

/-- What the request holds on the default chain. -/
def helloHold : OrderedDict String ℚ × Finset String := held deployed "default" hello tenTokens

/-- The request is served: OpenAI times out twice, and Anthropic answers. -/
def timedOutRun : List Ev × (Except Exc ChatResponse × Unit) × Ledgers :=
  Prog.drive (answer timedOut) ((serveChat deployed
    (chat hello (some tenTokens) deployed.providerRetryAttempts helloHold.2 defaultHops)
    ⟨"k", "default", "r", helloHold.1⟩ : Py Unit _) ())
    (reservedRun deployed "default" hello tenTokens).2.2

theorem runs_timedOutRun : Coro.Runs (serveChat deployed
    (chat hello (some tenTokens) deployed.providerRetryAttempts helloHold.2 defaultHops)
    ⟨"k", "default", "r", helloHold.1⟩ : Py Unit _) () timedOutRun.1 timedOutRun.2.1.1
      timedOutRun.2.1.2 := by
  unfold timedOutRun
  exact Coro.runs_drive _ _ _ _

theorem unfailing_timedOutRun : ∀ e ∈ timedOutRun.1, Unfailing e :=
  Prog.forall_drive (fun L c => by cases c <;> exact ⟨by trivial, rfl⟩) _ _

theorem runs_hello : Coro.Runs (reserveChain deployed "default" hello (some tenTokens) "r" "k" :
    Py Unit _) () (reservedRun deployed "default" hello tenTokens).1 (.ok helloHold) () :=
  runs_reservedRun (by decide +kernel)

/-- All events of the request. -/
def timedOutTrace : List Ev := (reservedRun deployed "default" hello tenTokens).1 ++ timedOutRun.1

/-- The bills of the run when every call that timed out is billed `charge`. -/
def timedOutBills (charge : ℚ) : List (ChatCall × ℚ) :=
  (chatCalls timedOutRun.1).map fun c =>
    (c, match c.reply with
      | .ok completion => (estimateCostUsd deployed.pricing c.provider c.model
          completion.inputTokens completion.outputTokens).toOption.getD 0
      | .error _ => charge)

theorem bills_timedOutBills {charge : ℚ}
    (h : ∀ x ∈ timedOutBills charge, x.1.MayBill deployed 3 10 x.2) :
    Bills deployed 3 10 (chatCalls timedOutRun.1) (timedOutBills charge) where
  calls := by simp [timedOutBills, Function.comp_def]
  amount := h

end TimedOut

end LlmGateway
