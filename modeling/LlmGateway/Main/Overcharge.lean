import LlmGateway.Main.Accounts
import LlmGateway.Main.SettledOnce
import LlmGateway.Providers.Usage
import LlmGateway.Routing.Stream

/-!
# Settling above the reservation

A reservation is bounded by the output cap of the request. What the provider reports stays below it,
but two charges are estimated from characters: that of a stream which is left before its end, and
that of a response without a usage block. A token can be longer than three characters, so an estimate
can exceed what was reserved, and settling then raises the ledger past the total it was admitted at.
-/

namespace LlmGateway

open Coroutine
open Conservation (settledAt settlements settledAt_of_settles)
open Rounding (fl)

section Generic

variable [Rounding] {σ : Type} {s : σ} {settings : Settings} {A : Ev → Prop}

/-! ## What is reserved -/

section Reserved

variable {chars maxOutput : ℕ} {hops : List Hop}

/-- An estimate of so many input tokens and of one output token for three characters of text, but
one at least, costs no more than what is recorded for the provider, as both are computed. -/
def EstimateFits (settings : Settings) (chars maxOutput : ℕ) (hops : List Hop)
    (provider model : String) (inputTokens : ℚ) (textChars : ℕ) : Prop :=
  let price := (settings.pricing.price provider model).getD (0, 0)
  fl (fl (fl inputTokens * price.1) + fl (fl (max 1 (textChars / 3) : ℕ) * price.2))
    ≤ reservedFor settings chars maxOutput provider 0 (hops.map fun hop => (hop.provider, hop.model))

/-- What a request holds after `_reserve_chain` returned `x`. -/
structure Reserved (settings : Settings) (chars maxOutput : ℕ) (hops : List Hop)
    (x : OrderedDict String ℚ × Finset String) : Prop where
  nonneg : ∀ p, 0 ≤ x.1.getD p 0
  free : ∀ p ∈ FREE_PROVIDERS, p ∉ x.1
  hop : ∀ hop ∈ hops, hop.provider ∉ FREE_PROVIDERS → hop.provider ∉ x.2 →
    hop.provider ∈ x.1 ∧ (∃ price, settings.pricing.price hop.provider hop.model = some price) ∧
      x.1.getD hop.provider 0 = reservedFor settings chars maxOutput hop.provider 0
        (hops.map fun hop => (hop.provider, hop.model))

/-- Usage within the worst case of a call costs no more than what is recorded. -/
theorem WithinWorstCase.cost_le {hop : Hop} {inputTokens outputTokens : PyVal} {cost : ℚ}
    (h : WithinWorstCase chars maxOutput inputTokens outputTokens) (hmem : hop ∈ hops)
    (hprice : ∃ price, settings.pricing.price hop.provider hop.model = some price)
    (hcost : estimateCostUsd settings.pricing hop.provider hop.model inputTokens outputTokens
      = .ok cost) :
    cost ≤ reservedFor settings chars maxOutput hop.provider 0
      (hops.map fun hop => (hop.provider, hop.model)) := by
  obtain ⟨x, y, hx, hy, -, hx', -, hy'⟩ := h
  obtain ⟨price, hprice⟩ := hprice
  rw [estimateCostUsd_of_numbers hx hy, hprice] at hcost
  obtain rfl := Except.ok.inj hcost
  have hworst : worstCaseCostUsd settings.pricing hop.provider hop.model chars maxOutput
      = .ok (fl (fl (fl ((chars : ℚ) / 3) * price.1) + fl (fl maxOutput * price.2))) := by
    rw [worstCaseCostUsd, hprice]
    rfl
  have hchain : (hop.provider, hop.model) ∈ hops.map fun hop => (hop.provider, hop.model) :=
    List.mem_map.mpr ⟨hop, hmem, rfl⟩
  refine le_trans ?_ (worst_le_reservedFor Rounding.fl_zero le_rfl hchain hworst)
  have hin : fl (fl x * price.1) ≤ fl (fl ((chars : ℚ) / 3) * price.1) :=
    Rounding.mono (mul_le_mul_of_nonneg_right (Rounding.mono hx') price.1.coe_nonneg)
  have hout : fl (fl y * price.2) ≤ fl (fl maxOutput * price.2) :=
    Rounding.mono (mul_le_mul_of_nonneg_right (Rounding.mono hy') price.2.coe_nonneg)
  exact Rounding.mono (add_le_add hin hout)

theorem reserved_of_run {chainName requestId apiKey : String} {messages : List ChatMessage}
    {params : Option SamplingParams} {x : OrderedDict String ℚ × Finset String} {s s' : σ}
    {t : List Ev} (hchain : settings.fallbackChains.lookup chainName
      = some (hops.map fun hop => (hop.provider, hop.model)))
    (hrun : Coro.Runs (reserveChain settings chainName messages params requestId apiKey) s t
      (.ok x) s') :
    Reserved settings (promptChars messages) (maxOut params) hops x := by
  obtain ⟨l, hclaimed, rfl⟩ := claimed_of_run hchain hrun
  refine ⟨fun p => hclaimed.grows ReserveLocals.rounded_empty p,
    fun p hp hmem => OrderedDict.not_mem_empty (hclaimed.free p hp hmem), fun hop hmem hfree hskip => ?_⟩
  obtain ⟨hin, w, hw⟩ := hclaimed.hop _ (List.mem_map.mpr ⟨hop, hmem, rfl⟩) hfree hskip
  refine ⟨hin, ?_, hclaimed.covers _ hfree hskip⟩
  unfold worstCaseCostUsd at hw
  split at hw
  · rw [if_neg hfree] at hw
    cases hw
  · next price hprice => exact ⟨_, hprice⟩

end Reserved

/-! ## A response -/

/-- Metrics and pricing do not raise, and no `KeyboardInterrupt` reaches the request. -/
def Undisturbed (e : Ev) : Prop :=
  Healthy e ∧ raised e ≠ some .interrupt ∧ streamRaised e ≠ some .interrupt

omit [Rounding] in
theorem not_interrupted_of_undisturbed {t : List Ev} (h : ∀ e ∈ t, Undisturbed e) :
    ¬ Interrupted t := fun ⟨e, he, hx⟩ => (h e he).2.1 hx

section Response

variable {q : RequestArgs} {messages : List ChatMessage} {params : Option SamplingParams}
  {skip : Finset String} {hops : List Hop} {retryAttempts : ℕ}

/-- No call was answered with a usage that can be priced. -/
def Unpriced (settings : Settings) (cs : List ChatCall) : Prop :=
  ∀ provider model completion, ⟨provider, model, .ok completion⟩ ∈ cs → ∃ x,
    estimateCostUsd settings.pricing provider model completion.inputTokens completion.outputTokens
      = .error x

theorem unpriced_of_failed {cs : List ChatCall} (h : ∀ c ∈ cs, c.Failed) : Unpriced settings cs :=
  fun _ _ _ hmem => let ⟨_, hx⟩ := h _ hmem; nomatch hx

omit [Rounding] in
/-- After calls that failed, the one that was answered is the last. -/
theorem eq_last_of_answered {cs : List ChatCall} {p p' m m' : String} {c c' : Completion}
    (hfailed : ∀ c ∈ cs, c.Failed)
    (hmem : (⟨p', m', .ok c'⟩ : ChatCall) ∈ cs ++ [⟨p, m, .ok c⟩]) : p' = p ∧ m' = m ∧ c' = c := by
  rcases List.mem_append.mp hmem with hmem | hmem
  · obtain ⟨_, hx⟩ := hfailed _ hmem
    cases hx
  · injection List.mem_singleton.mp hmem with h₁ h₂ h₃
    injection h₃ with h₃
    exact ⟨h₁, h₂, h₃⟩

theorem Answers.unpriced {cs : List ChatCall} {result : ChatResponse} {x : Exc}
    (h : Answers cs (some result))
    (hx : estimateCostUsd settings.pricing result.provider result.model result.inputTokens
      result.outputTokens = .error x) : Unpriced settings cs := by
  cases h with
  | answered provider model completion hfailed =>
    intro p m c hmem
    obtain ⟨rfl, rfl, rfl⟩ := eq_last_of_answered hfailed hmem
    exact ⟨x, hx⟩

/-- The calls go to hops of the chain that are not to be skipped. -/
def OnHops (skip : Finset String) (hops : List Hop) (cs : List ChatCall) : Prop :=
  ∀ c ∈ cs, ∃ hop ∈ hops, hop.provider = c.provider ∧ hop.model = c.model ∧ hop.provider ∉ skip

omit [Rounding] in
theorem onHops_of_within {n : ℕ} {t : List Ev} (h : Within n skip hops (upstream t)) :
    OnHops skip hops (chatCalls t) := by
  intro c hc
  obtain ⟨hop, hmem, heq, hskip⟩ := h.exists_hop (mem_upstream_of_mem_chatCalls hc)
  obtain ⟨h₁, h₂⟩ := Prod.mk.inj heq
  exact ⟨hop, hmem, h₁, h₂, hskip⟩

theorem inward_serveResponse {result : ChatResponse} :
    (serveResponse settings q result : Py σ ChatResponse).Only Cmd.Inward :=
  .bind (only_metric trivial) fun _ => .bind (.bind (only_pricing trivial) fun _ => .ofExcept)
    fun _ => .bind (only_settleChain fun _ h => h.settling.inward) fun _ =>
      only_reportResponse (fun _ => trivial) fun _ h => h.inward

theorem inward_serveNothing : (serveNothing settings q : Py σ ChatResponse).Only Cmd.Inward :=
  .bind (only_settleChain fun _ h => h.settling.inward) fun _ => .bind (only_metric trivial) fun _ =>
    .bind (only_recordAuditLog fun _ h => h.inward) fun _ => only_throw

/-- What a run of `_serve_chat` settles: the price of the answered call, nothing if there was none,
and not at all if the price cannot be computed. -/
theorem wp_serveChat_paid :
    (serveChat settings (chat messages params retryAttempts skip hops) q).wp Healthy s
      fun t _ _ => OnHops skip hops (chatCalls t) ∧
        ((∃ provider cost, Paid settings provider cost (chatCalls t) ∧
          SettledAt q.apiKey q.reservations provider cost (calls t)) ∨
        calls t = [] ∧ Unpriced settings (chatCalls t)) := by
  have hinward : ∀ t : List Ev, (∀ e ∈ t, e.cmd.Inward) → ∀ t' : List Ev,
      chatCalls (t' ++ t) = chatCalls t' := fun t ht t' => by
    rw [chatCalls_append, chatCalls_of_inward ht, List.append_nil]
  have hwithin : (chat messages params retryAttempts skip hops).wp Healthy s fun t _ _ =>
      Within (retryAttempts + 1) skip hops (upstream t) :=
    wp_walk (fun _ _ => callsAtMost_chatAttempts _) hops 0 [] s
  have hrouter : (chat messages params retryAttempts skip hops).wp Healthy s fun t r _ =>
      Answers (chatCalls t) r.toOption ∧ OnHops skip hops (chatCalls t) ∧ calls t = [] := by
    refine Coro.wp_mono (Coro.wp_and ends_chat (Coro.wp_and hwithin only_chat.wp))
      fun t r s₁ _ h => ?_
    obtain ⟨hanswers, hwithin, honly⟩ := h
    exact ⟨hanswers, onHops_of_within hwithin,
      calls_of_unrecorded fun e he => (honly e he).unrecorded⟩
  have hlatency : Cmd.Inward (.metric .requestLatency) := trivial
  refine wp_serveChat_of hrouter ?_ ?_ ?_ ?_
  · rintro t result s₁ ⟨hanswers, hon, hquiet⟩ -
    refine Coro.wp_mono (Coro.wp_and wp_serveResponse inward_serveResponse.wp)
      fun t' _ _ hA h => ?_
    obtain ⟨h, hin⟩ := h
    have hcalls : calls (t ++ ⟨.metric .requestLatency, .ok ()⟩ :: t') = calls t' := by
      simp [hquiet, calls_cons, call?]
    have hchat : chatCalls (t ++ ⟨.metric .requestLatency, .ok ()⟩ :: t') = chatCalls t :=
      hinward _ (List.forall_mem_cons.mpr ⟨hlatency, hin⟩) t
    rw [hcalls, hchat]
    refine ⟨hon, ?_⟩
    rcases h with ⟨cost, hcost, hsettled⟩ | ⟨hnil, herr⟩
    · exact .inl ⟨_, cost, hanswers.paid hcost, hsettled⟩
    · obtain ⟨x, hx⟩ := herr hA
      exact .inr ⟨hnil, hanswers.unpriced hx⟩
  · intro _ _ _ _ e he
    cases he
  · rintro t m s₁ ⟨hanswers, hon, hquiet⟩
    refine Coro.wp_mono (Coro.wp_and wp_serveNothing inward_serveNothing.wp)
      fun t' _ s₂ _ h l _ x => ?_
    obtain ⟨⟨-, hsettled⟩, hin⟩ := h
    have hcalls : calls (t ++ t' ++ [⟨.metric .requestLatency, l⟩]) = calls t' := by
      simp [hquiet, calls_cons, call?]
    have hchat : chatCalls (t ++ t' ++ [⟨.metric .requestLatency, l⟩]) = chatCalls t := by
      rw [List.append_assoc, hinward]
      exact List.forall_mem_append.mpr ⟨hin, List.forall_mem_singleton.mpr hlatency⟩
    rw [← hcalls] at hsettled
    exact ⟨hchat.symm ▸ hon, .inl ⟨"", 0, .nothing (hchat.symm ▸ hanswers.failed), hsettled⟩⟩
  · rintro t x s₁ ⟨hanswers, hon, hquiet⟩ - l - x'
    rw [hinward _ (List.forall_mem_singleton.mpr hlatency)]
    exact ⟨hon, .inr ⟨by simp [hquiet, calls_cons, call?], unpriced_of_failed hanswers.failed⟩⟩

/-- What the provider answered a call with: a usage within the worst case of the call, or, if it is
OpenAI, a response without one. A free provider may report anything. -/
def ChatCall.Replied (messages : List ChatMessage) (maxOutput : ℕ) (c : ChatCall) : Prop :=
  match c.reply with
  | .error _ => True
  | .ok completion => c.provider ∈ FREE_PROVIDERS ∨
      WithinWorstCase (promptChars messages) maxOutput completion.inputTokens
        completion.outputTokens ∨
      c.provider = "openai" ∧ ∃ content, completion = OpenAI.completion messages content none

theorem estimate_le_iff {model : String} {content : Option String} {chars maxOutput : ℕ} {cost : ℚ}
    (hcost : estimateCostUsd settings.pricing "openai" model
      (OpenAI.completion messages content none).inputTokens
      (OpenAI.completion messages content none).outputTokens = .ok cost) :
    EstimateFits settings chars maxOutput hops "openai" model
        (max 1 (promptChars messages / 3) : ℕ) (content.getD "").length ↔
      cost ≤ reservedFor settings chars maxOutput "openai" 0
        (hops.map fun hop => (hop.provider, hop.model)) := by
  rw [OpenAI.completion, estimateCostUsd_of_numbers (PyVal.number_count _) (PyVal.number_count _)]
    at hcost
  obtain rfl := Except.ok.inj hcost
  rfl

/-- A response whose tokens are estimated is settled at no more than its reservation exactly when the
estimate fits; any other is anyway. -/
theorem serveChat_neverRaises_iff {x : OrderedDict String ℚ × Finset String} {t : List Ev}
    {r : Except Exc ChatResponse} {s' : σ}
    (hres : Reserved settings (promptChars messages) (maxOut params) hops x)
    (hq : q.reservations = x.1)
    (hrun : Coro.Runs (serveChat settings
      (chat messages params settings.providerRetryAttempts x.2 hops) q) s t r s')
    (hA : ∀ e ∈ t, Undisturbed e) (hreplied : ∀ c ∈ chatCalls t, c.Replied messages (maxOut params)) :
    NeverRaises t ↔ ∀ model content,
      ⟨"openai", model, .ok (OpenAI.completion messages content none)⟩ ∈ chatCalls t →
        EstimateFits settings (promptChars messages) (maxOut params) hops "openai" model
          (max 1 (promptChars messages / 3) : ℕ) (content.getD "").length := by
  have hhealthy : ∀ e ∈ t, Healthy e := fun e he => (hA e he).1
  have hacc : Accounts t :=
    (along_serveChat composes_accounts accounts_of_beside (fun _ _ _ => accounts_settleChain)
      (only_chat.mono fun _ h => h.beside) s).apply hrun hhealthy
  have hint := not_interrupted_of_undisturbed hA
  obtain ⟨hon, ⟨provider, cost, hpaid, hsettled⟩ | ⟨hnil, hunpriced⟩⟩ :=
    wp_serveChat_paid.apply hrun hhealthy
  · rw [hq] at hsettled
    generalize chatCalls t = cs at hpaid hon hreplied ⊢
    cases hpaid with
    | nothing hfailed =>
      have hnever := (hsettled.neverRaises_iff hacc hint hres.nonneg (.inr (.inr rfl))).mpr
        fun _ => hres.nonneg _
      exact iff_of_true hnever fun _ _ hmem => let ⟨_, hx⟩ := hfailed _ hmem; nomatch hx
    | @response cs p m completion _ hfailed hcost =>
      by_cases hfree : provider ∈ FREE_PROVIDERS
      · have hnever := (hsettled.neverRaises_iff hacc hint hres.nonneg (.inr (.inl hfree))).mpr
          fun hmem => absurd hmem (hres.free _ hfree)
        refine iff_of_true hnever fun model content hmem => ?_
        obtain ⟨rfl, -, -⟩ := eq_last_of_answered hfailed hmem
        exact absurd hfree (by decide)
      obtain ⟨hop, hmem, rfl, rfl, hskip⟩ := hon ⟨provider, m, .ok completion⟩ (by simp)
      obtain ⟨hin, hprice, hreserved⟩ := hres.hop hop hmem hfree hskip
      rw [hsettled.neverRaises_iff hacc hint hres.nonneg (.inl hin), hreserved]
      constructor
      · intro hle model content hmem
        obtain ⟨hp, rfl, rfl⟩ := eq_last_of_answered hfailed hmem
        rw [← hp] at hcost hle hin
        exact (estimate_le_iff hcost).mpr (hle hin)
      · intro hfits _
        rcases hreplied ⟨hop.provider, hop.model, .ok completion⟩ (by simp) with h | h | ⟨hp, content, hc⟩
        · exact absurd h hfree
        · exact h.cost_le hmem hprice hcost
        · dsimp only at hp hc
          subst hc
          rw [hp] at hcost hfits ⊢
          exact (estimate_le_iff hcost).mp (hfits _ content (by simp))
  · refine iff_of_true (neverRaises_of_nil hacc hnil) fun model content hmem => ?_
    obtain ⟨x, hx⟩ := hunpriced _ _ _ hmem
    rw [OpenAI.completion, estimateCostUsd_of_numbers (PyVal.number_count _) (PyVal.number_count _)]
      at hx
    cases hx

end Response

/-! ## A stream -/

section Stream

variable {q : RequestArgs} {stream : RouterStream} {chars maxOutput : ℕ} {hops : List Hop}
  {skip : Finset String}

omit [Rounding] in
/-- The usage names a stream as its chunks are stamped, or not at all. -/
theorem names_foldl {provider model : String} {chunks : List StreamChunk} {u : Usage}
    (hstamped : ∀ c ∈ chunks, c.provider = provider ∧ c.model = model)
    (hu : u.Names provider model) : (chunks.foldl Usage.absorb u).Names provider model := by
  induction chunks generalizing u with
  | nil => exact hu
  | cons c rest ih =>
    refine ih (fun d hd => hstamped d (.tail _ hd)) ?_
    obtain ⟨rfl, rfl⟩ := hstamped c (.head _)
    by_cases hc : c.Measured
    · exact .inl (hu.absorb hc)
    · obtain ⟨hdone, hlen⟩ := not_or.mp hc
      unfold Usage.absorb
      rw [if_neg hdone]
      split
      · exact hu
      · next n hn => exact absurd ⟨n, hn⟩ hlen

omit [Rounding] in
/-- A stream delivers no other chunks than the router has in store. -/
theorem wp_forChunks_received {deliver : StreamChunk → Py StreamLocals Unit}
    (honly : ∀ c, (deliver c).Only Cmd.Yielding) (ending : Option PyError)
    (chunks : List StreamChunk) (s : StreamLocals) :
    (forChunks deliver ending chunks).wp A s fun t _ _ => received t ⊆ chunks := by
  induction chunks generalizing s with
  | nil =>
    cases ending with
    | none => exact wp_anext_iff.mpr fun r _ => by simp [received, received?]
    | some e =>
      rw [forChunks, Coro.wp_bind, wp_anext_iff]
      rintro (x | ⟨⟩) _ <;> simp [received, received?]
  | cons c rest ih =>
    rw [forChunks, Coro.wp_bind, wp_anext_iff]
    rintro (x | ⟨⟩) _
    · exact List.nil_subset _
    dsimp only
    rw [Coro.wp_bind]
    refine Coro.wp_mono (honly c).wp fun t r s₁ _ ht => ?_
    have hfed : received t = [] := received_of_unfed fun e he => (ht e he).unfed
    have hone : received [(⟨.anext (.chunk c), .ok ()⟩ : Ev)] = [c] := rfl
    cases r with
    | error x =>
      rw [received_append, hfed, hone]
      exact List.cons_subset_cons c (List.nil_subset _)
    | ok u =>
      refine Coro.wp_mono (ih s₁) fun t' _ _ _ h => ?_
      rw [received_append, received_append, hfed, hone]
      exact List.cons_subset_cons c h

theorem wp_generator_received {C : Prop} {deliver : StreamChunk → Py StreamLocals Unit}
    {allFailed closing : Py StreamLocals Unit}
    (h : Clauses C settings q A deliver allFailed closing) :
    (generator settings q deliver allFailed closing stream).wp A {} fun t _ _ =>
      received t ⊆ stream.chunks := by
  refine wp_generator_of_phases (wp_forChunks_received h.delivers.only _ _ _) ?_ ?_ ?_
  · intro t x s ht
    refine Coro.wp_mono (only_loopClause h.failed_only).wp fun t' _ _ _ hfed l _ => ?_
    have hnil : received (t' ++ [⟨.metric .requestLatency, l⟩]) = [] :=
      received_of_unfed (List.forall_mem_append.mpr ⟨hfed, by simp [Cmd.Unfed]⟩)
    rwa [received_append, hnil, List.append_nil]
  · intro t s e ht _
    have hnil : received [(⟨.metric .requestLatency, .error e⟩ : Ev)] = [] := rfl
    rwa [received_append, hnil, List.append_nil]
  · intro t s ht _
    have honly : (bookkeeping settings q closing >>= finish).Only Cmd.Unfed :=
      (only_bookkeeping_finish h.closing_only).mono fun _ h => h.unfed
    refine Coro.wp_mono honly.wp fun t' _ _ _ hfed => ?_
    have hnil : received ((⟨.metric .requestLatency, .ok ()⟩ : Ev) :: t') = [] :=
      received_of_unfed (List.forall_mem_cons.mpr ⟨trivial, hfed⟩)
    rwa [received_append, hnil, List.append_nil]

theorem wp_endpoint_received (endpoint : Endpoint) :
    (endpoint.run settings q stream).wp A {} fun t _ _ => received t ⊆ stream.chunks := by
  have hstart : ∀ body : Py StreamLocals Unit,
      (body.wp A {} fun t _ _ => received t ⊆ stream.chunks) →
      (whenStarted body).wp A {} fun t _ _ => received t ⊆ stream.chunks := by
    intro body hbody
    rw [whenStarted, Coro.wp_bind, wp_start_iff]
    rintro (_ | _) _
    · exact List.nil_subset _
    · exact Coro.wp_mono hbody fun t _ _ _ h => h
  cases endpoint with
  | native => exact hstart _ (wp_generator_received clauses_native)
  | openai completionId created => exact hstart _ (wp_generator_received clauses_openai)

/-- The estimate of a stream that is left with this usage fits. -/
def Usage.EstimateFits (settings : Settings) (chars maxOutput : ℕ) (hops : List Hop) (u : Usage) :
    Prop :=
  u.finalProvider = "" ∨ u.finalProvider ∈ FREE_PROVIDERS ∨
    LlmGateway.EstimateFits settings chars maxOutput hops u.finalProvider u.finalModel
      (u.inputTokens.number.getD 0) u.streamedChars

/-- Every chunk with usage totals reports a usage within the worst case of a call. -/
def Reported (chars maxOutput : ℕ) (chunks : List StreamChunk) : Prop :=
  ∀ c ∈ chunks, c.done = true → WithinWorstCase chars maxOutput c.inputTokens c.outputTokens

omit [Rounding] in
/-- The usage of a stream is what its last chunk with totals reported, or nothing. -/
theorem withinWorstCase_usageOf {t : List Ev} (h : Reported chars maxOutput (received t)) :
    WithinWorstCase chars maxOutput (usageOf t).inputTokens (usageOf t).outputTokens := by
  obtain ⟨hin, hout⟩ := absorbed_tokens (received t) {}
  rw [usageOf, hin, hout]
  cases hlast : lastDone (received t) with
  | none =>
    refine ⟨0, 0, PyVal.number_zero, PyVal.number_zero, le_rfl, ?_, le_rfl, Nat.cast_nonneg _⟩
    exact div_nonneg (Nat.cast_nonneg _) (by norm_num)
  | some c =>
    have hmem := List.mem_filter.mp (List.mem_of_getLast? hlast)
    exact h c hmem.1 hmem.2

omit [Rounding] in
theorem WithinWorstCase.countable {u : Usage}
    (h : WithinWorstCase chars maxOutput u.inputTokens u.outputTokens) : u.Countable :=
  let ⟨x, y, hx, hy, hx', _, hy', _⟩ := h
  ⟨⟨x, hx, hx'⟩, ⟨y, hy, hy'⟩⟩

omit [Rounding] in
/-- A settlement is at the provider and the cost its calls tell. -/
theorem SettledAt.settlements_eq {apiKey provider : String} {reservations : OrderedDict String ℚ}
    {cost : ℚ} {t : List Ev} (h : SettledAt apiKey reservations provider cost (calls t)) :
    settlements t = [(provider, cost)] := by
  obtain ⟨cs, hcs, heq⟩ := h
  simp [settlements, heq, settledAt, settledAt_of_settles hcs]

omit [Rounding] in
/-- The hop a stream was served by, if it was served by one that charges money. -/
theorem exists_hop_of_stamped {t t' : List Ev} (hstamped : Stamped skip hops t')
    (hchunks : received t ⊆ yielded t') (hnamed : (usageOf t).finalProvider ≠ "") :
    ∃ hop ∈ hops, hop.provider ∉ skip ∧ (usageOf t).finalProvider = hop.provider ∧
      (usageOf t).finalModel = hop.model := by
  rcases hstamped with hnil | ⟨hop, hmem, hskip, hstamped⟩
  · rw [hnil] at hchunks
    rw [usageOf, List.subset_nil.mp hchunks] at hnamed
    exact absurd rfl hnamed
  · obtain ⟨hp, hm⟩ | ⟨hp, -⟩ := names_foldl (u := {}) (fun c hc => hstamped c (hchunks hc))
      (.inr ⟨rfl, rfl⟩)
    · exact ⟨hop, hmem, hskip, hp, hm⟩
    · exact absurd hp hnamed

/-- What a stream is settled at: the price of its totals if it ran out, and the estimate if not. -/
theorem cost_of_settled {endpoint : Endpoint} {t : List Ev} {r : Except Exc Unit}
    {s' : StreamLocals} {provider : String} {cost : ℚ}
    (hrun : Coro.Runs (endpoint.run settings q stream) {} t r s') (hhealthy : ∀ e ∈ t, Healthy e)
    (hcount : (usageOf t).Countable) (hone : settlements t = [(provider, cost)]) :
    provider = (usageOf t).finalProvider ∧
      (if Exhausted t then (usageOf t).fullCost settings else (usageOf t).abortCost settings)
        = .ok cost := by
  rcases (wp_endpoint_charged endpoint).apply hrun hhealthy hcount with h | ⟨cost', h, hcost⟩
  · rw [settlements, h] at hone
    cases hone
  · rw [settlements, h] at hone
    obtain ⟨hp, rfl⟩ := Prod.mk.inj (List.cons.inj hone).1
    exact ⟨hp.symm, hcost⟩

/-- A stream is settled at no more than its reservation exactly when it runs out, its settlement is
forestalled by the audit log, or the estimate it is settled at fits. -/
theorem stream_neverRaises_iff {endpoint : Endpoint} {x : OrderedDict String ℚ × Finset String}
    {t t' : List Ev} {r : Except Exc Unit} {s' : StreamLocals}
    (hres : Reserved settings chars maxOutput hops x) (hq : q.reservations = x.1)
    (hstamped : Stamped x.2 hops t') (hchunks : stream.chunks = yielded t')
    (hreported : Reported chars maxOutput stream.chunks)
    (hrun : Coro.Runs (endpoint.run settings q stream) {} t r s') (hA : ∀ e ∈ t, Undisturbed e) :
    NeverRaises t ↔ (endpoint.AuditsFirst ∧ AuditCut t) ∨ Exhausted t ∨
      (usageOf t).EstimateFits settings chars maxOutput hops := by
  have hhealthy : ∀ e ∈ t, Healthy e := fun e he => (hA e he).1
  have hacc : Accounts t :=
    (along_endpoint composes_accounts accounts_of_beside (fun _ _ _ => accounts_settleChain)
      endpoint {}).apply hrun hhealthy
  have hint := not_interrupted_of_undisturbed hA
  have hhalt : ¬ Halted t := fun ⟨e, he, hx⟩ => (hA e he).2.2 hx
  have hsub : received t ⊆ stream.chunks :=
    (wp_endpoint_received endpoint).apply hrun (A := fun _ => True) fun _ _ => trivial
  have hwithin : WithinWorstCase chars maxOutput (usageOf t).inputTokens (usageOf t).outputTokens :=
    withinWorstCase_usageOf fun c hc => hreported c (hsub hc)
  have hunnamed : received t = [] → (usageOf t).finalProvider = "" := fun hnil => by
    rw [usageOf, hnil]
    rfl
  have hsettlements := fun hne => settlements_of_run hrun hhealthy hhalt hne hwithin.countable
  rcases wp_endpoint_once.apply hrun (A := fun _ => True) fun _ _ => trivial with
    hnil | ⟨provider, cost, hsettled⟩
  · refine iff_of_true (neverRaises_of_nil hacc hnil) ?_
    by_cases hne : received t = []
    · exact .inr (.inr (.inl (hunnamed hne)))
    · obtain ⟨hcut, -⟩ | ⟨-, cost, hone, -⟩ := hsettlements hne
      · exact .inl hcut
      · simp [settlements, hnil] at hone
  have hone := hsettled.settlements_eq
  obtain ⟨rfl, hcost⟩ := cost_of_settled hrun hhealthy hwithin.countable hone
  -- neither a stream nobody served nor one of a free provider touches a reservation
  by_cases hnamed : (usageOf t).finalProvider = ""
  · have hzero : cost = 0 := by
      rw [Usage.fullCost, Usage.abortCost, if_pos hnamed, if_pos hnamed, ite_self] at hcost
      exact (Except.ok.inj hcost).symm
    rw [hq] at hsettled
    refine iff_of_true ((hsettled.neverRaises_iff hacc hint hres.nonneg (.inr (.inr hzero))).mpr
      fun _ => ?_) (.inr (.inr (.inl hnamed)))
    exact hzero.trans_le (hres.nonneg _)
  rw [hq] at hsettled
  by_cases hfree : (usageOf t).finalProvider ∈ FREE_PROVIDERS
  · exact iff_of_true ((hsettled.neverRaises_iff hacc hint hres.nonneg (.inr (.inl hfree))).mpr
      fun hmem => absurd hmem (hres.free _ hfree)) (.inr (.inr (.inr (.inl hfree))))
  have hreceived : received t ≠ [] := fun hnil => hnamed (hunnamed hnil)
  have hcut : ¬ (endpoint.AuditsFirst ∧ AuditCut t) := by
    obtain ⟨-, hnil⟩ | ⟨hcut, -⟩ := hsettlements hreceived
    · rw [hnil] at hone
      cases hone
    · exact hcut
  obtain ⟨hop, hmem, hskip, hp, hm⟩ := exists_hop_of_stamped hstamped (hchunks ▸ hsub) hnamed
  rw [hp] at hfree
  obtain ⟨hin, hprice, hreserved⟩ := hres.hop hop hmem hfree hskip
  rw [hsettled.neverRaises_iff hacc hint hres.nonneg (.inl (hp ▸ hin)), hp, hreserved]
  rw [Usage.fullCost, Usage.abortCost, if_neg hnamed, if_neg hnamed, hp, hm] at hcost
  by_cases hex : Exhausted t
  · rw [if_pos hex] at hcost
    exact iff_of_true (fun _ => hwithin.cost_le hmem hprice hcost) (.inr (.inl hex))
  · rw [if_neg hex] at hcost
    obtain ⟨i, o, hi, -⟩ := hwithin
    rw [estimateCostUsd_of_numbers hi (PyVal.number_count _)] at hcost
    obtain rfl := Except.ok.inj hcost
    have hnamed' : hop.provider ≠ "" := hp ▸ hnamed
    simp only [hcut, hex, Usage.EstimateFits, hnamed', hp, hm, hfree, false_or, hin, forall_const,
      LlmGateway.EstimateFits, hi, Option.getD_some]

end Stream

/-- However a request ends, it is settled at no more than was reserved for the provider that served
it, and raises no ledger, exactly when what it is charged is not an estimate or the estimate fits. A
response is estimated if OpenAI sent it without a usage block; a stream is if it is left before its
end, and settled at all. -/
theorem never_overcharged_iff {q : RequestArgs} {hops : List Hop}
    {chainName requestId apiKey : String} {messages : List ChatMessage}
    {params : Option SamplingParams} {x : OrderedDict String ℚ × Finset String} {t₀ : List Ev}
    {s₀ s₁ : σ} (hchain : settings.fallbackChains.lookup chainName
      = some (hops.map fun hop => (hop.provider, hop.model)))
    (hreserve : Coro.Runs (reserveChain settings chainName messages params requestId apiKey) s₀ t₀
      (.ok x) s₁) (hq : q.reservations = x.1) :
    (∀ (s s' : σ) (t : List Ev) (r : Except Exc ChatResponse), Coro.Runs (serveChat settings
        (chat messages params settings.providerRetryAttempts x.2 hops) q) s t r s' →
      (∀ e ∈ t, Undisturbed e) → (∀ c ∈ chatCalls t, c.Replied messages (maxOut params)) →
      (NeverRaises t ↔ ∀ model content,
        ⟨"openai", model, .ok (OpenAI.completion messages content none)⟩ ∈ chatCalls t →
          EstimateFits settings (promptChars messages) (maxOut params) hops "openai" model
            (max 1 (promptChars messages / 3) : ℕ) (content.getD "").length)) ∧
    ∀ (endpoint : Endpoint) (stream : RouterStream) (u u' : σ) (t' t : List Ev)
      (r' r : Except Exc Unit) (s' : StreamLocals), Coro.Runs
        (chatStream messages params settings.providerRetryAttempts x.2 hops) u t' r' u' →
      stream.chunks = yielded t' →
      Reported (promptChars messages) (maxOut params) stream.chunks →
      Coro.Runs (endpoint.run settings q stream) {} t r s' → (∀ e ∈ t, Undisturbed e) →
      (NeverRaises t ↔ (endpoint.AuditsFirst ∧ AuditCut t) ∨ Exhausted t ∨
        (usageOf t).EstimateFits settings (promptChars messages) (maxOut params) hops) := by
  have hres := reserved_of_run hchain hreserve
  refine ⟨fun s s' t r hrun hA hreplied => serveChat_neverRaises_iff hres hq hrun hA hreplied, ?_⟩
  intro endpoint stream u u' t' t r' r s' hroute hchunks hreported hrun hA
  have hstamped : Stamped x.2 hops t' :=
    stamped_chatStream.apply hroute (A := fun _ => True) fun _ _ => trivial
  exact stream_neverRaises_iff hres hq hstamped hchunks hreported hrun hA

end Generic

/-! ## A token of twelve characters -/

section Said

attribute [local instance] Rounding.double

variable {prompt text : String} {cap : ℕ}

def asking (prompt : String) : List ChatMessage := [⟨"user", prompt⟩]

def capped (n : ℕ) : SamplingParams := { maxTokens := some n }

/-- What such a request holds on the default chain, on empty ledgers. -/
def saidHold (prompt : String) (cap : ℕ) : OrderedDict String ℚ × Finset String :=
  held deployed "default" (asking prompt) (capped cap)

def saidRequest (prompt : String) (cap : ℕ) : RequestArgs :=
  ⟨"k", "default", "r", (saidHold prompt cap).1⟩

/-- OpenAI answers with this text and leaves out the usage. -/
def saying (prompt text : String) : (c : Cmd) → Reply c
  | .providerChat "openai" _ _ _ => .ok (OpenAI.completion (asking prompt) (some text) none)
  | .providerStream _ _ _ _ => .opened ⟨.str text, false, .int 0, .int 0, "", ""⟩ [] none
  | c => calm c

/-- The request is served with that text. -/
def saidRun (prompt : String) (cap : ℕ) (text : String) :
    List Ev × (Except Exc ChatResponse × Unit) × Ledgers :=
  Prog.drive (answer (saying prompt text)) ((serveChat deployed
    (chat (asking prompt) (some (capped cap)) deployed.providerRetryAttempts (saidHold prompt cap).2
      defaultHops) (saidRequest prompt cap) : Py Unit _) ()) fun _ => 0

/-- The router streams that text. -/
def saidChunks (prompt : String) (cap : ℕ) (text : String) :
    List Ev × (Except Exc Unit × Unit) × Ledgers :=
  Prog.drive (answer (saying prompt text)) ((chatStream (asking prompt) (some (capped cap))
    deployed.providerRetryAttempts (saidHold prompt cap).2 defaultHops : Py Unit _) ()) fun _ => 0

/-- The client leaves at the first frame. -/
def leftRun (prompt : String) (cap : ℕ) (text : String) :
    List Ev × (Except Exc Unit × StreamLocals) × Ledgers :=
  Prog.drive (answer leftAtOnce) (Endpoint.run deployed (saidRequest prompt cap) .native
    ⟨yielded (saidChunks prompt cap text).1, none⟩ {}) fun _ => 0

theorem runs_saidRun : Coro.Runs (serveChat deployed
    (chat (asking prompt) (some (capped cap)) deployed.providerRetryAttempts (saidHold prompt cap).2
      defaultHops) (saidRequest prompt cap) : Py Unit _) () (saidRun prompt cap text).1
      (saidRun prompt cap text).2.1.1 () := by
  unfold saidRun
  exact Coro.runs_drive _ _ _ _

theorem runs_saidChunks : Coro.Runs (chatStream (asking prompt) (some (capped cap))
    deployed.providerRetryAttempts (saidHold prompt cap).2 defaultHops : Py Unit _) ()
      (saidChunks prompt cap text).1 (saidChunks prompt cap text).2.1.1 () := by
  unfold saidChunks
  exact Coro.runs_drive _ _ _ _

theorem runs_leftRun : Coro.Runs (Endpoint.run deployed (saidRequest prompt cap) .native
    ⟨yielded (saidChunks prompt cap text).1, none⟩) {} (leftRun prompt cap text).1
      (leftRun prompt cap text).2.1.1 (leftRun prompt cap text).2.1.2 := by
  unfold leftRun
  exact Coro.runs_drive _ _ _ _

theorem undisturbed_saidRun : ∀ e ∈ (saidRun prompt cap text).1, Undisturbed e :=
  Prog.forall_drive (fun L c => by cases c <;> exact ⟨by trivial, nofun, nofun⟩) _ _

theorem undisturbed_leftRun : ∀ e ∈ (leftRun prompt cap text).1, Undisturbed e :=
  Prog.forall_drive (fun L c => by cases c <;> exact ⟨by trivial, nofun, nofun⟩) _ _

theorem replied_saidRun :
    ∀ c ∈ chatCalls (saidRun prompt cap text).1, c.Replied (asking prompt) (maxOut (capped cap)) := by
  have hreply : ∀ (L : Ledgers) (c : Cmd),
      ∀ call ∈ chatCall? ⟨c, (answer (saying prompt text) L c).1⟩,
        call.Replied (asking prompt) (maxOut (capped cap)) := by
    intro L c call hcall
    cases c with
    | providerChat provider model messages params =>
      obtain rfl := Option.some.inj hcall
      by_cases hp : provider = "openai"
      · subst hp
        exact .inr (.inr ⟨rfl, some text, rfl⟩)
      · have hcalm : saying prompt text (.providerChat provider model messages params)
            = .ok ⟨.str "", .int 0, .int 0⟩ := by simp [saying, calm, hp]
        have hworst : ∀ chars maxOutput, WithinWorstCase chars maxOutput (.int 0) (.int 0) :=
          fun _ _ => ⟨0, 0, PyVal.number_zero, PyVal.number_zero, le_rfl,
            div_nonneg (Nat.cast_nonneg _) (by norm_num), le_rfl, Nat.cast_nonneg _⟩
        change ChatCall.Replied _ _ ⟨provider, model,
          saying prompt text (.providerChat provider model messages params)⟩
        rw [hcalm]
        exact .inr (.inl (hworst _ _))
    | _ => cases hcall
  intro c hc
  obtain ⟨e, he, hcall⟩ := List.mem_filterMap.mp hc
  exact Prog.forall_drive (A := fun e => ∀ call ∈ chatCall? e,
    call.Replied (asking prompt) (maxOut (capped cap))) hreply _ _ e he c hcall

/-- A request that is overcharged: a call settles it at more than was reserved. -/
def overcharges : Call → Bool
  | .providerSettle _ reserved actual => reserved < actual
  | _ => false

theorem not_neverRaises {t : List Ev} (h : (calls t).any overcharges = true) : ¬ NeverRaises t := by
  intro hnever
  obtain ⟨c, hc, hover⟩ := List.any_eq_true.mp h
  match c, hover with
  | .providerSettle p reserved actual, hover =>
    exact absurd (hnever.settled p reserved actual hc) (not_le.mpr (of_decide_eq_true hover))

theorem reported_saidChunks (h : (yielded (saidChunks prompt cap text).1).all (!·.done) = true) :
    Reported (promptChars (asking prompt)) (maxOut (capped cap))
      (yielded (saidChunks prompt cap text).1) := by
  intro c hc hdone
  have hno := List.all_eq_true.mp h c hc
  simp [hdone] at hno

theorem never_overcharged_iff_hi :
    (NeverRaises (saidRun "hi!" 1 "hi").1 ↔ ∀ model content,
      ⟨"openai", model, .ok (OpenAI.completion (asking "hi!") content none)⟩
          ∈ chatCalls (saidRun "hi!" 1 "hi").1 →
        EstimateFits deployed 3 1 defaultHops "openai" model (1 : ℕ) (content.getD "").length) ∧
    (NeverRaises (leftRun "hi!" 1 "hi").1 ↔
      (Endpoint.native.AuditsFirst ∧ AuditCut (leftRun "hi!" 1 "hi").1) ∨
      Exhausted (leftRun "hi!" 1 "hi").1 ∨
      (usageOf (leftRun "hi!" 1 "hi").1).EstimateFits deployed 3 1 defaultHops) := by
  have hchain : deployed.fallbackChains.lookup "default"
      = some (defaultHops.map fun hop => (hop.provider, hop.model)) := rfl
  have hreserve : Coro.Runs (reserveChain deployed "default" (asking "hi!") (some (capped 1)) "r" "k" :
      Py Unit _) () (reservedRun deployed "default" (asking "hi!") (capped 1)).1
      (.ok (saidHold "hi!" 1)) () := runs_reservedRun (by decide +kernel)
  have h := never_overcharged_iff (q := saidRequest "hi!" 1) hchain hreserve rfl
  exact ⟨h.1 () () _ _ runs_saidRun undisturbed_saidRun replied_saidRun,
    h.2 .native _ () () _ _ _ _ _ runs_saidChunks rfl (reported_saidChunks (by decide +kernel))
      runs_leftRun undisturbed_leftRun⟩

/-- A prompt of three characters and an answer of one token, which is twelve characters long and was
all that was asked for. Two attempts are reserved for, at one output token each. Estimated at four,
the answer is charged more, both when it comes without its usage and when the client leaves it. And
an estimate of just what was reserved can be rounded above it. -/
theorem long_token_overcharged :
    (Coro.Runs (serveChat deployed (chat (asking "hi!") (some (capped 1))
        deployed.providerRetryAttempts (saidHold "hi!" 1).2 defaultHops) (saidRequest "hi!" 1) :
          Py Unit _) () (saidRun "hi!" 1 " information").1 (saidRun "hi!" 1 " information").2.1.1 () ∧
      (∀ e ∈ (saidRun "hi!" 1 " information").1, Undisturbed e) ∧
      (∀ c ∈ chatCalls (saidRun "hi!" 1 " information").1, c.Replied (asking "hi!") 1) ∧
      ¬ NeverRaises (saidRun "hi!" 1 " information").1) ∧
    (Coro.Runs (Endpoint.run deployed (saidRequest "hi!" 1) .native
        ⟨yielded (saidChunks "hi!" 1 " information").1, none⟩) {} (leftRun "hi!" 1 " information").1
        (leftRun "hi!" 1 " information").2.1.1 (leftRun "hi!" 1 " information").2.1.2 ∧
      (∀ e ∈ (leftRun "hi!" 1 " information").1, Undisturbed e) ∧
      Reported 3 1 (yielded (saidChunks "hi!" 1 " information").1) ∧
      ¬ NeverRaises (leftRun "hi!" 1 " information").1) ∧
    ((∀ e ∈ (saidRun "Who are you?" 2 "A fallback bot.").1, Undisturbed e) ∧
      (∀ c ∈ chatCalls (saidRun "Who are you?" 2 "A fallback bot.").1,
        c.Replied (asking "Who are you?") 2) ∧
      ¬ NeverRaises (saidRun "Who are you?" 2 "A fallback bot.").1) :=
  ⟨⟨runs_saidRun, undisturbed_saidRun, replied_saidRun, not_neverRaises (by decide +kernel)⟩,
    ⟨runs_leftRun, undisturbed_leftRun, reported_saidChunks (by decide +kernel),
      not_neverRaises (by decide +kernel)⟩,
    undisturbed_saidRun, replied_saidRun, not_neverRaises (by decide +kernel)⟩

end Said

end LlmGateway
