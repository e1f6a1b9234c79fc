import LlmGateway.Main.StreamAbandonment

/-!
# What a finished stream is charged

A stream that runs through without a failure is settled at the usage its chunks add up to. The token
counts are those of the last chunk marked done, and 0 if there was none: the characters that were
streamed are counted, but only a stream that is cut short is priced by them. So a stream whose final
chunk never arrives is free.
-/

namespace LlmGateway

open Coroutine

variable {σ : Type} {s : σ} {settings : Settings} {q : RequestArgs} {provider model : String}
  {cost : ℚ}

/-! ## Runs without a failure -/

/-- Metrics, pricing and Redis do not fail, every chunk arrives, and every frame is taken. -/
def Smooth : Ev → Prop
  | ⟨.metric _, r⟩ => r = .ok ()
  | ⟨.pricing, r⟩ => r = .ok ()
  | ⟨.start, started⟩ => started = true
  | ⟨.anext _, r⟩ => r = .ok ()
  | ⟨.yield _, r⟩ => r = .ok ()
  | e => failed e = false

theorem Smooth.healthy {e : Ev} (h : Smooth e) : Healthy e := by
  obtain ⟨c, r⟩ := e
  cases c <;> first | exact h | trivial

theorem Smooth.not_failed {e : Ev} (h : Smooth e) : failed e = false := by
  obtain ⟨c, r⟩ := e
  cases c <;> first | exact h | rfl

/-! ## The calls of a settlement -/

/-- The calls of a settlement that nothing cuts short. -/
def settlementCalls (q : RequestArgs) (provider : String) (cost : ℚ) : List Call :=
  .settleChain q.apiKey q.reservations provider cost
    :: (q.reservations.entries.map (settleCall provider cost)
      ++ if provider ≠ "" ∧ provider ∉ q.reservations then [.recordUnreserved provider cost] else [])
    ++ [.trackerSettle q.apiKey q.reservations.total cost]

/-- The calls of a settlement tell its provider and its amount. -/
theorem settlementCalls_inj {provider' : String} {cost' : ℚ}
    (h : settlementCalls q provider cost = settlementCalls q provider' cost') :
    provider = provider' ∧ cost = cost' := by
  have hhead := (List.cons.inj h).1
  simpa using hhead

section

variable [Rounding]

theorem wp_settleEach_smooth (es : List (String × ℚ)) :
    (settleEach settings provider cost es).wp Smooth none fun t r c =>
      r = .ok () ∧ c = none ∧ calls t = es.map (settleCall provider cost) := by
  have hasked : (settleEach settings provider cost es).wp Smooth none fun t r c =>
      EachAsked provider cost es none t r c :=
    Coro.wp_anti (wp_settleEach es none) fun _ he => Smooth.healthy he
  refine Coro.wp_mono (Coro.wp_and (calls_settleEach es none) hasked) fun t r c ht h => ?_
  obtain ⟨hrun, hasked⟩ := h
  have hr : r = .ok () := hasked.fromRedis.ok fun e he => (ht e he).not_failed
  obtain ⟨cs, hcs, -, hall⟩ := hrun.records
  refine ⟨hr, ?_, by rw [hcs.calls, hall hr]⟩
  match c with
  | none => rfl
  | some x =>
    obtain ⟨e, he, hx⟩ := (hasked.held x rfl).resolve_left nofun
    have hnone := (ht e he).not_failed
    rw [failed, hx] at hnone
    cases hnone

omit [Rounding] in
theorem wp_settleUnreserved_smooth :
    (settleUnreserved settings q.reservations provider cost).wp Smooth none fun t r c =>
      r = .ok () ∧ c = none ∧ calls t =
        if provider ≠ "" ∧ provider ∉ q.reservations then [.recordUnreserved provider cost]
        else [] := by
  have hasked : (settleUnreserved settings q.reservations provider cost).wp Smooth none
      fun t r c => c = none ∧ FromRedis t r ∧
        ∀ k, tally (asked k) t = surcharge q.reservations provider cost k :=
    Coro.wp_anti wp_settleUnreserved fun _ he => Smooth.healthy he
  have hcalls : (settleUnreserved settings q.reservations provider cost).wp Smooth none
      fun t _ _ => calls t = if provider ≠ "" ∧ provider ∉ q.reservations then
        [.recordUnreserved provider cost] else [] := by
    rw [settleUnreserved, Coro.wp_ite]
    refine ⟨fun h => ?_, fun h => (if_neg h).symm⟩
    rw [if_pos h]
    have hrecord : (ProviderBudget.recordUnreserved settings.providerLifetimeBudgetUsd provider
        cost).wp Smooth (none : Option Exc) fun t _ _ =>
          calls t = [.recordUnreserved provider cost] := by
      refine Coro.wp_mono ProviderBudget.calls_recordUnreserved fun t r c _ ht => ?_
      obtain ⟨-, t, rfl, ht⟩ := ht
      rw [calls_cons, ht.calls]
      rfl
    exact wp_tryPass hrecord (fun _ _ h => h) (fun _ _ _ h => h) fun _ _ _ h _ => h
  refine Coro.wp_mono (Coro.wp_and hasked hcalls) fun t r c ht h => ?_
  obtain ⟨⟨hc, hfrom, -⟩, hcalls⟩ := h
  exact ⟨hfrom.ok fun e he => (ht e he).not_failed, hc, hcalls⟩

/-- Nothing cuts a settlement short. -/
theorem wp_settleChain_smooth :
    (settleChain settings q.apiKey q.reservations provider cost).wp Smooth s fun t r s' =>
      s' = s ∧ r = .ok () ∧ calls t = settlementCalls q provider cost := by
  rw [settleChain, Coro.wp_bind, wp_log_iff]
  intro _
  dsimp only
  rw [Coro.wp_ensure, settleProviders, Coro.wp_scope, Coro.wp_bind]
  refine Coro.wp_mono (wp_settleEach_smooth _) fun t₁ r c ht₁ h => ?_
  obtain ⟨rfl, rfl, heach⟩ := h
  dsimp only
  rw [Coro.wp_bind]
  refine Coro.wp_mono wp_settleUnreserved_smooth fun t₂ r c ht₂ h => ?_
  obtain ⟨rfl, rfl, hunreserved⟩ := h
  refine wp_raiseHeld (fun _ => ?_) (by rintro _ ⟨⟩)
  have htracker : (BudgetTracker.settle settings.hashKey q.apiKey q.reservations.total cost).wp
      Smooth s fun t r s' => s' = s ∧
        BudgetTracker.SettleRun settings.hashKey q.apiKey q.reservations.total cost t r :=
    Coro.wp_anti BudgetTracker.wp_settle fun _ he => Smooth.healthy he
  refine Coro.wp_mono (Coro.wp_and BudgetTracker.calls_settle htracker) fun t₃ r s' ht₃ h => ?_
  obtain ⟨⟨rfl, hcalls, -⟩, -, hrun⟩ := h
  have hr : r = .ok () := by
    have hfrom : FromRedis t₃ r := by
      rintro x rfl
      exact hrun.raised
    exact hfrom.ok fun e he => (ht₃ e he).not_failed
  subst hr
  refine ⟨rfl, rfl, ?_⟩
  simp [settlementCalls, calls_cons, call?, heach, hunreserved, hcalls]

/-! ## The usage of a stream -/

/-- The final chunk of a stream: the last one marked done. -/
def lastDone (chunks : List StreamChunk) : Option StreamChunk :=
  (chunks.filter (·.done)).getLast?

omit [Rounding] in
theorem lastDone_cons (c : StreamChunk) (chunks : List StreamChunk) :
    lastDone (c :: chunks) = (lastDone chunks).or (if c.done then some c else none) := by
  unfold lastDone
  cases hc : c.done with
  | false => simp [hc]
  | true =>
    cases hrest : chunks.filter (·.done) with
    | nil => simp [hc, hrest]
    | cons d ds => simp [hc, hrest, List.getLast?_cons]

omit [Rounding] in
theorem lastDone_isSome_iff {chunks : List StreamChunk} :
    (lastDone chunks).isSome ↔ ∃ c ∈ chunks, c.done = true := by
  simp [lastDone]

/-- A chunk the loop can count: its content, unless it is the final one, has a length. -/
def StreamChunk.Measured (c : StreamChunk) : Prop := c.done = true ∨ ∃ n, c.content.len = .ok n

omit [Rounding] in
/-- The token counts after the loop are those of the final chunk. -/
theorem absorbed_tokens (chunks : List StreamChunk) (u : Usage) :
    (chunks.foldl Usage.absorb u).inputTokens
        = ((lastDone chunks).map (·.inputTokens)).getD u.inputTokens ∧
      (chunks.foldl Usage.absorb u).outputTokens
        = ((lastDone chunks).map (·.outputTokens)).getD u.outputTokens := by
  induction chunks generalizing u with
  | nil => exact ⟨rfl, rfl⟩
  | cons c rest ih =>
    obtain ⟨hin, hout⟩ := ih (u.absorb c)
    rw [List.foldl_cons, hin, hout, lastDone_cons]
    cases hrest : lastDone rest with
    | some d => exact ⟨rfl, rfl⟩
    | none =>
      cases hc : c.done with
      | true => simp [Usage.absorb, hc]
      | false =>
        -- a content chunk leaves the counts alone, whether or not it has a length
        unfold Usage.absorb
        rw [hc]
        cases c.content.len <;> exact ⟨rfl, rfl⟩

/-- A usage that names the provider and model of its stream, or nothing yet. -/
def Usage.Names (u : Usage) (provider model : String) : Prop :=
  u.finalProvider = provider ∧ u.finalModel = model ∨ u.finalProvider = "" ∧ u.finalModel = ""

omit [Rounding] in
theorem Usage.Names.absorb {u : Usage} {c : StreamChunk} (h : u.Names c.provider c.model)
    (hc : c.Measured) :
    (u.absorb c).finalProvider = c.provider ∧ (u.absorb c).finalModel = c.model := by
  unfold Usage.absorb
  cases hdone : c.done with
  | true => exact ⟨rfl, rfl⟩
  | false =>
    obtain ⟨n, hn⟩ := hc.resolve_left (by simp [hdone])
    rw [hn]
    rcases h with ⟨hp, hm⟩ | ⟨hp, hm⟩ <;> simp [hp, hm]

omit [Rounding] in
/-- Once a chunk has come, the usage names the provider and model the chunks are stamped with. -/
theorem absorbed_names {chunks : List StreamChunk} {u : Usage}
    (hstamped : ∀ c ∈ chunks, c.provider = provider ∧ c.model = model)
    (hmeasured : ∀ c ∈ chunks, c.Measured) (hu : u.Names provider model) :
    (chunks.foldl Usage.absorb u).Names provider model ∧ (chunks ≠ [] →
      (chunks.foldl Usage.absorb u).finalProvider = provider ∧
        (chunks.foldl Usage.absorb u).finalModel = model) := by
  induction chunks generalizing u with
  | nil => exact ⟨hu, fun h => absurd rfl h⟩
  | cons c rest ih =>
    have hc : (u.absorb c).finalProvider = provider ∧ (u.absorb c).finalModel = model := by
      obtain ⟨rfl, rfl⟩ := hstamped c (.head _)
      exact hu.absorb (hmeasured c (.head _))
    have hrest := ih (fun d hd => hstamped d (.tail _ hd)) (fun d hd => hmeasured d (.tail _ hd))
      (.inl hc)
    refine ⟨hrest.1, fun _ => ?_⟩
    match rest with
    | [] => exact hc
    | d :: ds => exact hrest.2 (List.cons_ne_nil d ds)

/-! ## The loop and the bookkeeping -/

/-- What the loop does with a chunk it can count returns. -/
def Relays (deliver : StreamChunk → Py StreamLocals Unit) : Prop :=
  ∀ (c : StreamChunk) (s : StreamLocals), c.Measured →
    (deliver c).wp Smooth s fun _ r _ => r = .ok ()

variable {deliver : StreamChunk → Py StreamLocals Unit} {onAllFailed closing : Py StreamLocals Unit}

omit [Rounding] in
theorem wp_forChunks_smooth (h : Delivers Smooth deliver) (hrelays : Relays deliver)
    {chunks : List StreamChunk} (hmeasured : ∀ c ∈ chunks, c.Measured) (s : StreamLocals) :
    (forChunks deliver none chunks).wp Smooth s fun t r s' =>
      r = .ok () ∧ s'.toUsage = chunks.foldl Usage.absorb s.toUsage ∧ calls t = [] := by
  induction chunks generalizing s with
  | nil =>
    rw [forChunks, wp_anext_iff]
    intro r hr
    exact ⟨hr, rfl, rfl⟩
  | cons c rest ih =>
    rw [forChunks, Coro.wp_bind, wp_anext_iff]
    intro r hr
    obtain rfl : r = .ok () := hr
    dsimp only
    rw [Coro.wp_bind]
    refine Coro.wp_mono (Coro.wp_and (Coro.wp_and (h.usage c s) (h.only c).wp)
      (hrelays c s (hmeasured c (.head _)))) fun t r s₁ _ hc => ?_
    obtain ⟨⟨⟨husage, -, -⟩, honly⟩, rfl⟩ := hc
    have hcalls : calls t = [] := calls_of_unrecorded fun e he => (honly e he).unrecorded
    refine Coro.wp_mono (ih (fun d hd => hmeasured d (.tail _ hd)) s₁) fun t' r' s' _ h' => ?_
    obtain ⟨hr', husage', hcalls'⟩ := h'
    refine ⟨hr', ?_, ?_⟩
    · rw [husage', husage, List.foldl_cons]
    · rw [List.singleton_append, calls_cons, calls_append, hcalls, hcalls']
      rfl

theorem wp_guardedLoop_smooth (h : Delivers Smooth deliver) (hrelays : Relays deliver)
    {chunks : List StreamChunk} (hmeasured : ∀ c ∈ chunks, c.Measured) :
    (guardedLoop settings q deliver onAllFailed ⟨chunks, none⟩).wp Smooth {} fun t r s' =>
      r = .ok true ∧ s'.toUsage = chunks.foldl Usage.absorb {} ∧ calls t = [] := by
  rw [guardedLoop, Coro.wp_ensure, Coro.wp_attempt, Coro.wp_bind]
  refine Coro.wp_mono (wp_forChunks_smooth h hrelays hmeasured {}) fun t r s₁ _ hloop => ?_
  obtain ⟨rfl, husage, hcalls⟩ := hloop
  dsimp only
  rw [Coro.wp_pure]
  dsimp only
  rw [wp_metric_iff]
  intro r hr
  obtain rfl : r = .ok () := hr
  refine ⟨rfl, husage, ?_⟩
  simp [hcalls, calls_cons, call?]

/-- The cost of a usage with counts that Prometheus takes. -/
theorem wp_priceStream_smooth {inputTokens outputTokens : PyVal} (hp : provider ≠ "")
    (hin : inputTokens.Countable) (hout : outputTokens.Countable)
    (hcost : estimateCostUsd settings.pricing provider model inputTokens outputTokens = .ok cost) :
    (priceStream settings provider model inputTokens outputTokens).wp Smooth s fun t r s' =>
      s' = s ∧ r = .ok cost ∧ calls t = [] := by
  refine Coro.wp_mono (Coro.wp_and wp_priceStream (Coro.wp_anti
    (wp_priceStream_countable hin hout) fun _ h => h.healthy)) fun t r s' _ h => ?_
  obtain ⟨⟨rfl, hplain, -, -⟩, -, cost', rfl, -, hpriced⟩ := h
  rw [hcost] at hpriced
  obtain rfl := Except.ok.inj (hpriced.resolve_left fun h => hp h.1).2
  exact ⟨rfl, rfl, calls_of_unrecorded fun e he => (hplain e he).1⟩

theorem wp_bookkeeping_smooth {s : StreamLocals}
    (hframe : ∀ s, closing.wp Smooth s fun _ _ s' => s' = s)
    (honly : closing.Only Cmd.Unrecorded) (hp : s.finalProvider ≠ "")
    (hin : s.inputTokens.Countable) (hout : s.outputTokens.Countable)
    (hcost : estimateCostUsd settings.pricing s.finalProvider s.finalModel s.inputTokens
      s.outputTokens = .ok cost) :
    (bookkeeping settings q closing).wp Smooth s fun t _ _ =>
      calls t = settlementCalls q s.finalProvider cost := by
  refine wp_bookkeeping_of hframe honly ?_
  rw [settleStreamSpend, Coro.wp_bind]
  refine Coro.wp_mono (wp_priceStream_smooth hp hin hout hcost) fun t₁ r s₁ _ h => ?_
  obtain ⟨rfl, rfl, hpriced⟩ := h
  dsimp only
  rw [Coro.wp_bind]
  refine Coro.wp_mono wp_settleChain_smooth fun t₂ r s₂ _ h => ?_
  obtain ⟨rfl, rfl, hsettled⟩ := h
  refine Coro.wp_pure.mpr ⟨rfl, .inl ⟨by rintro _ ⟨⟩, fun t' ht' => ?_⟩⟩
  simp [hpriced, hsettled, ht']

/-! ## The endpoints -/

omit [Rounding] in
theorem wp_absorb_measured {A : Ev → Prop} {c : StreamChunk} {s : StreamLocals} (hc : c.Measured) :
    (absorb c).wp A s fun t r s' =>
      t = [] ∧ r = .ok () ∧ s' = { s with toUsage := s.toUsage.absorb c } := by
  rw [absorb, Coro.wp_ite]
  refine ⟨fun _ => ⟨rfl, rfl, rfl⟩, fun hdone => ?_⟩
  obtain ⟨n, hn⟩ := hc.resolve_left hdone
  rw [hn]
  exact ⟨rfl, rfl, rfl⟩

omit [Rounding] in
theorem wp_emit_smooth {f : Frame} {s : StreamLocals} :
    (emit f).wp Smooth s fun _ r s' => r = .ok () ∧ s' = s := by
  rw [wp_emit_iff]
  intro r hr
  exact ⟨hr, rfl⟩

omit [Rounding] in
theorem relays_relayChunk : Relays relayChunk := by
  intro c s hc
  rw [relayChunk, Coro.wp_bind]
  refine Coro.wp_mono (wp_absorb_measured hc) fun t r s₁ _ h => ?_
  obtain ⟨-, rfl, -⟩ := h
  exact Coro.wp_mono wp_emit_smooth fun _ _ _ _ h => h.1

omit [Rounding] in
theorem relays_relayDelta {completionId : String} {created : ℤ} :
    Relays (relayDelta q completionId created) := by
  intro c s hc
  rw [relayDelta, Coro.wp_bind]
  refine Coro.wp_mono (wp_absorb_measured hc) fun t r s₁ _ h => ?_
  obtain ⟨-, rfl, -⟩ := h
  dsimp only
  rw [Coro.wp_ite]
  refine ⟨fun _ => rfl, fun _ => ?_⟩
  rw [Coro.wp_bind, Coro.wp_locals]
  dsimp only
  have hcontent : ∀ s, (emit (.content completionId created
      (if c.model = "" then q.requestedModel else c.model) c.content) : Py StreamLocals Unit).wp
      Smooth s fun _ r _ => r = .ok () :=
    fun s => Coro.wp_mono wp_emit_smooth fun _ _ _ _ h => h.1
  rw [Coro.wp_ite]
  refine ⟨fun _ => ?_, fun _ => hcontent s₁⟩
  rw [Coro.wp_bind]
  refine Coro.wp_mono wp_emit_smooth fun t r s₂ _ h => ?_
  obtain ⟨rfl, rfl⟩ := h
  dsimp only
  rw [Coro.wp_bind, Coro.wp_update]
  exact hcontent _

/-- A chunk whose token counts Prometheus takes. -/
def StreamChunk.Counted (c : StreamChunk) : Prop :=
  ∃ x y, c.inputTokens.number = some x ∧ 0 ≤ x ∧ c.outputTokens.number = some y ∧ 0 ≤ y

/-- The chunks of a stream with some text, of a billable provider with a price, that the loop and
the pricing of the final chunk go through. -/
structure Billed (settings : Settings) (provider model : String) (chunks : List StreamChunk) :
    Prop where
  named : provider ≠ ""
  billable : provider ∉ FREE_PROVIDERS
  priced : (settings.pricing.price provider model).isSome
  stamped : ∀ c ∈ chunks, c.provider = provider ∧ c.model = model
  measured : ∀ c ∈ chunks, c.Measured
  text : ∃ c ∈ chunks, c.done = false ∧ ∃ n, c.content.len = .ok (n + 1)
  counted : ∀ c, lastDone chunks = some c → c.Counted

variable {chunks : List StreamChunk}

/-- The usage a stream ends with. -/
def totalUsage (chunks : List StreamChunk) : Usage := chunks.foldl Usage.absorb {}

omit [Rounding] in
theorem Billed.names (h : Billed settings provider model chunks) :
    (totalUsage chunks).finalProvider = provider ∧ (totalUsage chunks).finalModel = model := by
  have hne : chunks ≠ [] := by
    obtain ⟨c, hc, -⟩ := h.text
    exact List.ne_nil_of_mem hc
  exact (absorbed_names h.stamped h.measured (.inr ⟨rfl, rfl⟩)).2 hne

omit [Rounding] in
theorem Billed.counts (h : Billed settings provider model chunks) :
    ∃ x y, (totalUsage chunks).inputTokens.number = some x ∧ 0 ≤ x ∧
      (totalUsage chunks).outputTokens.number = some y ∧ 0 ≤ y := by
  obtain ⟨hin, hout⟩ := absorbed_tokens chunks {}
  rw [totalUsage, hin, hout]
  cases hlast : lastDone chunks with
  | none => exact ⟨0, 0, PyVal.number_zero, le_rfl, PyVal.number_zero, le_rfl⟩
  | some c => exact h.counted c hlast

/-- The bookkeeping of a stream that ran through settles it at the price of its usage. -/
theorem wp_generator_smooth {C : Prop}
    (hclauses : Clauses C settings q Smooth deliver onAllFailed closing)
    (hrelays : Relays deliver) (h : Billed settings provider model chunks)
    (hcost : estimateCostUsd settings.pricing provider model (totalUsage chunks).inputTokens
      (totalUsage chunks).outputTokens = .ok cost) :
    (generator settings q deliver onAllFailed closing ⟨chunks, none⟩).wp Smooth {} fun t _ _ =>
      calls t = settlementCalls q provider cost := by
  obtain ⟨hprovider, hmodel⟩ := h.names
  obtain ⟨x, y, hin, hx, hout, hy⟩ := h.counts
  rw [generator, Coro.wp_bind]
  refine Coro.wp_mono (wp_guardedLoop_smooth hclauses.delivers hrelays h.measured)
    fun t r s₁ _ hloop => ?_
  obtain ⟨rfl, husage, hcalls⟩ := hloop
  have husage' : s₁.toUsage = totalUsage chunks := husage
  dsimp only
  rw [Coro.wp_ite]
  refine ⟨fun _ => ?_, fun hfalse => absurd rfl hfalse⟩
  have hnamed : s₁.finalProvider ≠ "" := by
    rw [husage', hprovider]
    exact h.named
  have hprice : estimateCostUsd settings.pricing s₁.finalProvider s₁.finalModel s₁.inputTokens
      s₁.outputTokens = .ok cost := by
    rwa [husage', hprovider, hmodel]
  have hbook : (bookkeeping settings q closing).wp Smooth s₁ fun t _ _ =>
      calls t = settlementCalls q s₁.finalProvider cost :=
    wp_bookkeeping_smooth hclauses.frame
      (hclauses.closing_only.mono fun _ h => h.unrecorded) hnamed
      (by rw [husage']; exact ⟨x, hin, hx⟩) (by rw [husage']; exact ⟨y, hout, hy⟩) hprice
  rw [Coro.wp_bind]
  refine Coro.wp_mono hbook fun t₁ r s₂ _ hbooked => ?_
  rw [husage', hprovider] at hbooked
  cases r with
  | error x => simpa [hcalls] using hbooked
  | ok booked =>
    have honly : (finish booked).Only Cmd.Unrecorded := (only_finish booked).mono fun _ h => h.1.1
    refine Coro.wp_mono (wp_unrecorded honly) fun t₂ r' s₃ _ hnil => ?_
    simp [hcalls, hbooked, hnil]

theorem wp_endpoint_smooth {endpoint : Endpoint} (h : Billed settings provider model chunks)
    (hcost : estimateCostUsd settings.pricing provider model (totalUsage chunks).inputTokens
      (totalUsage chunks).outputTokens = .ok cost) :
    (endpoint.run settings q ⟨chunks, none⟩).wp Smooth {} fun t _ _ =>
      calls t = settlementCalls q provider cost := by
  have hstart : ∀ body : Py StreamLocals Unit,
      (body.wp Smooth {} fun t _ _ => calls t = settlementCalls q provider cost) →
      (whenStarted body).wp Smooth {} fun t _ _ => calls t = settlementCalls q provider cost := by
    intro body hbody
    rw [whenStarted, Coro.wp_bind, wp_start_iff]
    rintro started (rfl : started = true)
    dsimp only
    rw [if_pos rfl]
    refine Coro.wp_mono hbody fun t _ _ _ ht => ?_
    rw [List.singleton_append, calls_cons, ht]
    rfl
  cases endpoint with
  | native => exact hstart _ (wp_generator_smooth clauses_native relays_relayChunk h hcost)
  | openai completionId created =>
    exact hstart _ (wp_generator_smooth clauses_openai relays_relayDelta h hcost)

end

/-! ## A stream is charged when its final chunk arrives -/

/-- What `_settle_stream_on_abort` would charge for the stream. -/
def abortEstimate (settings : Settings) (provider model : String) (chunks : List StreamChunk) :
    Except Exc ℚ :=
  estimateCostUsd settings.pricing provider model (totalUsage chunks).inputTokens
    (.count (max 1 ((totalUsage chunks).streamedChars / 3)))

/-- The stream is settled at the usage its final chunk carries; without a final chunk, at more than
nothing and no less than if it had been cut short. -/
def NeverFree (settings : Settings) (q : RequestArgs) (provider model : String)
    (chunks : List StreamChunk) (cs : List Call) : Prop :=
  ∃ cost, cs = settlementCalls q provider cost ∧
    match lastDone chunks with
    | some c =>
      estimateCostUsd settings.pricing provider model c.inputTokens c.outputTokens = .ok cost
    | none =>
      0 < cost ∧ ∃ estimate, abortEstimate settings provider model chunks = .ok estimate ∧
        estimate ≤ cost

theorem estimateCostUsd_zero :
    estimateCostUsd settings.pricing provider model (.int 0) (.int 0) = .ok 0 := by
  rw [estimateCostUsd_of_numbers PyVal.number_zero PyVal.number_zero]
  simp

/-- Without a final chunk the stream is settled at nothing. -/
theorem not_neverFree {cs : List Call} (hlast : lastDone chunks = none)
    (hcs : cs = settlementCalls q provider 0) :
    ¬ NeverFree settings q provider model chunks cs := by
  rintro ⟨cost, hcost, hfree⟩
  rw [hlast] at hfree
  have hzero : (0 : ℚ) = cost := (settlementCalls_inj (hcs.symm.trans hcost)).2
  exact absurd hfree.1 (hzero ▸ lt_irrefl _)

/-- A stream that runs through is charged exactly when a chunk marked done arrived. -/
theorem never_free_iff {endpoint : Endpoint} {t : List Ev} {r : Except Exc Unit}
    {s' : StreamLocals} (h : Billed settings provider model chunks)
    (hrun : Coro.Runs (endpoint.run settings q ⟨chunks, none⟩) {} t r s')
    (ht : ∀ e ∈ t, Smooth e) :
    NeverFree settings q provider model chunks (calls t) ↔ ∃ c ∈ chunks, c.done = true := by
  obtain ⟨hin, hout⟩ := absorbed_tokens chunks {}
  cases hlast : lastDone chunks with
  | none =>
    rw [hlast] at hin hout
    have hcost : estimateCostUsd settings.pricing provider model (totalUsage chunks).inputTokens
        (totalUsage chunks).outputTokens = .ok 0 := by
      rw [totalUsage, hin, hout]
      exact estimateCostUsd_zero
    have hcalls := (wp_endpoint_smooth h hcost).apply hrun ht
    have hnone : ¬ ∃ c ∈ chunks, c.done = true := by
      rw [← lastDone_isSome_iff, hlast]
      nofun
    exact iff_of_false (not_neverFree hlast hcalls) hnone
  | some c =>
    rw [hlast] at hin hout
    obtain ⟨x, y, hx, -, hy, -⟩ := h.counted c hlast
    have hprice : estimateCostUsd settings.pricing provider model c.inputTokens c.outputTokens
        = .ok _ := estimateCostUsd_of_numbers hx hy
    have hcalls := (wp_endpoint_smooth h (by rw [totalUsage, hin, hout]; exact hprice)).apply hrun ht
    refine iff_of_true ⟨_, hcalls, ?_⟩ (lastDone_isSome_iff.mp (by rw [hlast]; rfl))
    rw [hlast]
    exact hprice

/-! ## A stream without a final chunk -/

/-- OpenAI closes the stream after one piece of text. -/
def cutText : List StreamChunk :=
  [⟨.str "hi", false, .int 0, .int 0, "openai", "gpt-4o-mini"⟩]

/-- The same text with its usage. -/
def wholeText : List StreamChunk :=
  cutText ++ [⟨.str "", true, .int 3, .int 1, "openai", "gpt-4o-mini"⟩]

theorem billed_cutText : Billed { hashKey := id } "openai" "gpt-4o-mini" cutText where
  named := by decide
  billable := by decide
  priced := by decide +kernel
  stamped := by simp [cutText]
  measured := by simp [cutText, StreamChunk.Measured, PyVal.len]
  text := ⟨_, .head _, rfl, 1, rfl⟩
  counted := by simp [cutText, lastDone]

theorem billed_wholeText : Billed { hashKey := id } "openai" "gpt-4o-mini" wholeText where
  named := by decide
  billable := by decide
  priced := by decide +kernel
  stamped := by simp [wholeText, cutText]
  measured := by simp [wholeText, cutText, StreamChunk.Measured, PyVal.len]
  text := ⟨_, .head _, rfl, 1, rfl⟩
  counted c hc := by
    obtain rfl : _ = c := Option.some.inj hc
    exact ⟨3, 1, PyVal.number_int (by decide +kernel), by decide,
      PyVal.number_int (by decide +kernel), by decide⟩

theorem smooth_streamed {endpoint : Endpoint} {stream : RouterStream} :
    ∀ e ∈ (streamed calm endpoint stream).1, Smooth e :=
  forall_streamed fun L c => by cases c <;> trivial

theorem never_free_iff_whole :
    NeverFree { hashKey := id } heldStream "openai" "gpt-4o-mini" wholeText
        (calls (streamed calm .native ⟨wholeText, none⟩).1) ↔
      ∃ c ∈ wholeText, c.done = true :=
  never_free_iff billed_wholeText runs_streamed smooth_streamed

/-- The endpoint runs through the stream whose usage never arrives and leaves it free. -/
structure Free (endpoint : Endpoint) : Prop where
  run : Coro.Runs (endpoint.run { hashKey := id } heldStream ⟨cutText, none⟩) {}
    (streamed calm endpoint ⟨cutText, none⟩).1 (streamed calm endpoint ⟨cutText, none⟩).2.1.1
    (streamed calm endpoint ⟨cutText, none⟩).2.1.2
  smooth : ∀ e ∈ (streamed calm endpoint ⟨cutText, none⟩).1, Smooth e
  free : ¬ NeverFree { hashKey := id } heldStream "openai" "gpt-4o-mini" cutText
    (calls (streamed calm endpoint ⟨cutText, none⟩).1)

theorem free_cutText (endpoint : Endpoint) : Free endpoint where
  run := runs_streamed
  smooth := smooth_streamed
  free := by
    have hcalls : calls (streamed calm endpoint ⟨cutText, none⟩).1
        = settlementCalls heldStream "openai" 0 :=
      (wp_endpoint_smooth billed_cutText estimateCostUsd_zero).apply runs_streamed smooth_streamed
    exact not_neverFree rfl hcalls

theorem free_stream :
    Billed { hashKey := id } "openai" "gpt-4o-mini" cutText ∧ Free .native ∧
      Free (.openai "id" 0) :=
  ⟨billed_cutText, free_cutText _, free_cutText _⟩

end LlmGateway
