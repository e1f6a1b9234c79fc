import LlmGateway.Main.Coverage

/-!
# The reservation covers the calls

What is recorded for a provider is a rounded sum of rounded products, and the router can make every
attempt it was claimed for: each breaker may be closed and each call may fail. The reservation
therefore covers the calls exactly when the rounding does not take it below the worst cases it is
made of.
-/

namespace LlmGateway

open Coroutine
open Rounding (fl)

section Generic

variable [Rounding] {σ α : Type} {s : σ} {settings : Settings} {chars maxOutput : ℕ}
  {requestId apiKey p : String} {messages : List ChatMessage} {params : Option SamplingParams}
  {skip : Finset String} {hops : List Hop} {chain : Chain}

/-- The calls of a request are covered by its reservations. -/
structure Covered (settings : Settings) (chars maxOutput : ℕ) (reservations : OrderedDict String ℚ)
    (cs : List (String × String)) : Prop where
  priced : ∀ c ∈ cs, c.1 ∉ FREE_PROVIDERS → c.1 ∈ reservations ∧
    ∃ w, worstCaseCostUsd settings.pricing c.1 c.2 chars maxOutput = .ok w
  bounded : ∀ p ∉ FREE_PROVIDERS,
    (cs.map (worstCase settings chars maxOutput p)).sum ≤ reservations.getD p 0

/-- The worst cases of all attempts at the hops of `p`. -/
def worstCases (settings : Settings) (chars maxOutput : ℕ) (p : String) (chain : Chain) : ℚ :=
  (chain.map fun hop => (settings.providerRetryAttempts + 1 : ℕ)
    * worstCase settings chars maxOutput p hop).sum

/-- Every hop of `p` has a price. -/
def PricedThroughout (settings : Settings) (chars maxOutput : ℕ) (p : String) (chain : Chain) : Prop :=
  ∀ hop ∈ chain, hop.1 = p →
    ∃ w, worstCaseCostUsd settings.pricing hop.1 hop.2 chars maxOutput = .ok w

/-- What is recorded for a provider is no less than the worst cases of all attempts at its hops. One
with a hop that has no price is not called at all. -/
def RoundsUp (settings : Settings) (chars maxOutput : ℕ) (chain : Chain) : Prop :=
  ∀ p ∉ FREE_PROVIDERS, PricedThroughout settings chars maxOutput p chain →
    worstCases settings chars maxOutput p chain ≤ reservedFor settings chars maxOutput p 0 chain

/-! ## Covered -/

/-- The hops to be skipped do not matter to a provider that is not. -/
theorem sum_unskipped (hp : p ∉ skip) :
    (hops.map fun hop => if hop.provider ∈ skip then 0 else
      (settings.providerRetryAttempts + 1 : ℕ)
        * worstCase settings chars maxOutput p (hop.provider, hop.model)).sum
      = worstCases settings chars maxOutput p (hops.map fun hop => (hop.provider, hop.model)) := by
  rw [worstCases, List.map_map]
  refine congrArg List.sum (List.map_congr_left fun hop _ => ?_)
  by_cases hne : hop.provider = p
  · rw [hne, if_neg hp]
    simp [hne]
  · simp [worstCase_of_ne, hne]

theorem Claimed.covered {s' : ReserveLocals} {cs : List (String × String)}
    (h : Claimed settings chars maxOutput {} (hops.map fun hop => (hop.provider, hop.model)) s')
    (hup : RoundsUp settings chars maxOutput (hops.map fun hop => (hop.provider, hop.model)))
    (hcs : Within (settings.providerRetryAttempts + 1) s'.skip hops cs) :
    Covered settings chars maxOutput s'.reservations cs where
  priced c hc hfree := by
    obtain ⟨hop, hmem, rfl, hskip⟩ := hcs.exists_hop hc
    exact h.hop _ (List.mem_map.mpr ⟨hop, hmem, rfl⟩) hfree hskip
  bounded p hfree := by
    refine (hcs.sum_le (worstCase_nonneg p)).trans ?_
    by_cases hp : p ∈ s'.skip
    · -- nothing is called, and what was recorded before the provider ran out is not negative
      have hzero : (hops.map fun hop => if hop.provider ∈ s'.skip then 0 else
          (settings.providerRetryAttempts + 1 : ℕ)
            * worstCase settings chars maxOutput p (hop.provider, hop.model)).sum = 0 := by
        refine List.sum_eq_zero fun x hx => ?_
        obtain ⟨hop, -, rfl⟩ := List.mem_map.mp hx
        by_cases hne : hop.provider = p
        · rw [hne, if_pos hp]
        · simp [worstCase_of_ne, hne]
      rw [hzero]
      exact h.grows ReserveLocals.rounded_empty p
    · rw [sum_unskipped hp, h.covers p hfree hp]
      refine hup p hfree fun hop hmem heq => ?_
      subst heq
      exact (h.hop hop hmem hfree hp).2

/-! ## A router that makes every attempt -/

/-- Every breaker lets the router through, and every call fails and may be tried again. -/
def Exhausting : Ev → Prop
  | ⟨.metric _, r⟩ => r = .ok ()
  | ⟨.sleep, r⟩ => r = .ok ()
  | ⟨.allowRequest _, r⟩ => r = true
  | ⟨.providerChat _ _ _ _, r⟩ => ∃ message, r = .error (.exception (.providerError message true))
  | _ => True

/-- All attempts at the hops that are not to be skipped. -/
def everyCall (n : ℕ) (skip : Finset String) (hops : List Hop) : List (String × String) :=
  hops.flatMap fun hop =>
    if hop.provider ∈ skip then [] else List.replicate n (hop.provider, hop.model)

omit [Rounding] in
theorem sum_everyCall (n : ℕ) (w : String × String → ℚ) :
    ((everyCall n skip hops).map w).sum = (hops.map fun hop =>
      if hop.provider ∈ skip then 0 else n * w (hop.provider, hop.model)).sum := by
  induction hops with
  | nil => rfl
  | cons hop rest ih =>
    rw [everyCall, List.flatMap_cons, ← everyCall, List.map_append, List.sum_append, ih,
      List.map_cons, List.sum_cons]
    congr 1
    split
    · rfl
    · rw [List.map_replicate, List.sum_replicate, nsmul_eq_mul]

omit [Rounding] in
theorem wp_chatOnce_exhausting {hop : Hop} {attempt n : ℕ}
    {again : String → Py σ (Except String ChatResponse)}
    (hagain : ∀ message s, (again message).wp Exhausting s fun t r _ =>
      upstream t = List.replicate n (hop.provider, hop.model) ∧ ∃ e, r = .ok (.error e)) :
    ((chatOnce messages params attempt hop).attempt (onProviderError hop again)).wp Exhausting s
      fun t r _ => upstream t = List.replicate (n + 1) (hop.provider, hop.model) ∧
        ∃ e, r = .ok (.error e) := by
  rw [Coro.wp_attempt, chatOnce_eq, Coro.wp_bind]
  refine Coro.wp_perform.mpr fun reply hreply => ?_
  obtain ⟨message, rfl⟩ := hreply
  dsimp only
  rw [Coro.wp_bind]
  refine Coro.wp_ofExcept.mpr ?_
  dsimp only [onProviderError]
  rw [Coro.wp_bind, wp_metric_iff]
  rintro _ rfl
  dsimp only [Except.mapError]
  rw [Coro.wp_bind, wp_metric_iff]
  rintro _ rfl
  dsimp only [Except.mapError]
  rw [if_pos rfl]
  refine Coro.wp_mono (hagain message s) fun t r _ _ h => ?_
  obtain ⟨ht, hr⟩ := h
  refine ⟨?_, hr⟩
  simp [upstream_cons, called, List.replicate_succ, ht]

omit [Rounding] in
theorem wp_chatAttempts_exhausting {hop : Hop} {attempt : ℕ} (retries : ℕ) (s : σ) :
    (chatAttempts messages params attempt hop retries).wp Exhausting s fun t r _ =>
      upstream t = List.replicate (retries + 1) (hop.provider, hop.model) ∧
        ∃ e, r = .ok (.error e) := by
  refine attempts_rule (P := fun n (m : Py σ (Except String ChatResponse)) => ∀ s,
    m.wp Exhausting s fun t r _ =>
      upstream t = List.replicate n (hop.provider, hop.model) ∧ ∃ e, r = .ok (.error e))
    _ rfl (fun _ => rfl) (fun message _ => ⟨rfl, message, rfl⟩) (fun n m h s => ?_)
    (fun n again hagain s => wp_chatOnce_exhausting hagain) retries s
  rw [Coro.wp_bind, backOff, Coro.wp_bind]
  refine Coro.wp_perform.mpr fun r hr => ?_
  obtain rfl : r = .ok () := hr
  refine Coro.wp_ofExcept.mpr ?_
  exact Coro.wp_mono (h s) fun t r _ _ h => h

omit [Rounding] in
theorem wp_walk_exhausting (retries : ℕ) (hops : List Hop) (attempt : ℕ) (errors : List String)
    (s : σ) :
    (walk skip (fun attempt hop => chatAttempts messages params attempt hop retries) attempt errors
      hops).wp Exhausting s fun t _ _ => upstream t = everyCall (retries + 1) skip hops := by
  have hpublish : ∀ (hop : Hop) s, (publishCircuitState hop : Py σ Unit).wp Exhausting s
      fun t r _ => r = .ok () ∧ upstream t = [] := by
    intro hop s
    rw [publishCircuitState, Coro.wp_bind]
    refine Coro.wp_perform.mpr fun state _ => ?_
    dsimp only
    rw [wp_metric_iff]
    rintro _ rfl
    exact ⟨rfl, rfl⟩
  induction hops generalizing attempt errors s with
  | nil => rfl
  | cons hop rest ih =>
    rw [walk, Coro.wp_ite]
    refine ⟨fun hskip => ?_, fun hskip => ?_⟩
    · simpa [everyCall, hskip] using ih (attempt + 1) _ s
    rw [Coro.wp_bind]
    refine Coro.wp_perform.mpr fun allowed hallowed => ?_
    obtain rfl : allowed = true := hallowed
    dsimp only
    rw [Coro.wp_bind]
    refine Coro.wp_mono (hpublish hop s) fun t₁ r s₁ _ h₁ => ?_
    obtain ⟨rfl, h₁⟩ := h₁
    dsimp only
    rw [if_pos rfl, Coro.wp_bind]
    refine Coro.wp_mono (wp_chatAttempts_exhausting retries s₁) fun t₂ r s₂ _ h₂ => ?_
    obtain ⟨h₂, e, rfl⟩ := h₂
    dsimp only
    rw [Coro.wp_bind]
    refine Coro.wp_perform.mpr fun _ _ => ?_
    dsimp only
    rw [Coro.wp_bind]
    refine Coro.wp_mono (hpublish hop s₂) fun t₃ r s₃ _ h₃ => ?_
    obtain ⟨rfl, h₃⟩ := h₃
    refine Coro.wp_mono (ih (attempt + 1) _ s₃) fun t₄ _ _ _ h₄ => ?_
    have hcons : everyCall (retries + 1) skip (hop :: rest)
        = List.replicate (retries + 1) (hop.provider, hop.model)
          ++ everyCall (retries + 1) skip rest := by
      rw [everyCall, List.flatMap_cons, if_neg hskip]
      rfl
    simp [upstream_cons, called, h₁, h₂, h₃, h₄, hcons]

/-! ## A reservation that goes through -/

/-- Metrics do not raise, and every claim is answered with a total within its cap. -/
def Generous (settings : Settings) (e : Ev) : Prop :=
  Healthy e ∧ match e with
    | ⟨.incrbyfloat _ _, r⟩ => ∃ total ≤ settings.providerLifetimeBudgetUsd, r = .ok total
    | ⟨.incrbyfloatExpire _ _ _, r⟩ => ∃ total ≤ settings.monthlyBudgetUsdPerKey, r = .ok total
    | _ => True

/-- From `s` to `s'`, `p` was not dropped and every one of its hops counted as billable. -/
structure Spared (p : String) (s : ReserveLocals) (chain : Chain) (s' : ReserveLocals) : Prop where
  skip : p ∉ s.skip → p ∉ s'.skip
  count : s'.skip.card + (chain.filter (·.1 = p)).length + s.billable
    ≤ s.skip.card + s'.billable

omit [Rounding] in
theorem wp_reserve_generous {w : ℚ} {provider : String} :
    (ProviderBudget.reserve settings.providerLifetimeBudgetUsd provider w).wp (Generous settings) s
      fun _ r s' => r = .ok () ∧ s' = s := by
  refine Coro.wp_mono (Coro.wp_anti ProviderBudget.wp_reserve fun _ h => h.1) fun t r s' hA h => ?_
  obtain ⟨rfl, hrun⟩ := h
  refine ⟨?_, rfl⟩
  have hanswered : ∀ (k : LedgerKey) (d : ℚ) (r : Sent ℚ), ⟨.incrbyfloat k d, r⟩ ∈ t →
      ∃ total ≤ settings.providerLifetimeBudgetUsd, r = .ok total := fun k d r hmem => (hA _ hmem).2
  cases hrun with
  | exempt h => rfl
  | admitted hp hw total h => rfl
  | unanswered hp hw e a =>
    obtain ⟨_, _, h⟩ := hanswered _ _ _ (.head _)
    cases h
  | refused hp hw total total' h | leaked hp hw total h e a | interrupted hp hw total h e he a =>
    obtain ⟨_, hle, heq⟩ := hanswered _ _ _ (.head _)
    obtain rfl := Sent.ok.inj heq
    exact absurd hle h

theorem wp_reserveHop_generous {hop : String × String} (hp : p ∉ FREE_PROVIDERS)
    (hpriced : PricedThroughout settings chars maxOutput p [hop]) (s : ReserveLocals) :
    (reserveHop settings chars maxOutput hop).wp (Generous settings) s fun _ r s' =>
      r = .ok () ∧ Spared p s [hop] s' := by
  refine wp_reserveHop_of (fun hfree => ⟨rfl, id, ?_⟩) (fun _ hcost => ⟨rfl, ?_⟩)
    fun cost _ _ => ?_
  · have hne : hop.1 ≠ p := fun h => hp (h ▸ hfree)
    simp [hne]
  · have hne : hop.1 ≠ p := by
      intro h
      obtain ⟨w, hw⟩ := hpriced hop (.head _) h
      rw [hopCost_of_worst hw] at hcost
      cases hcost
    refine ⟨fun hs => by simp [Ne.symm hne, hs], ?_⟩
    have hcard := Finset.card_insert_le hop.1 s.skip
    simp only [hne, decide_false, List.filter_cons, Bool.false_eq_true, if_false, List.filter_nil,
      List.length_nil]
    omega
  · refine Coro.wp_mono wp_reserve_generous fun t r s₁ _ h => ?_
    obtain ⟨rfl, rfl⟩ := h
    refine ⟨fun _ => ⟨rfl, id, ?_⟩, fun _ _ _ => nofun, fun _ => nofun⟩
    have hlen : ([hop].filter (·.1 = p)).length ≤ 1 := List.length_filter_le _ _
    dsimp only
    omega

theorem wp_reserveHops_generous (hp : p ∉ FREE_PROVIDERS)
    (hpriced : PricedThroughout settings chars maxOutput p chain) (s : ReserveLocals) :
    (reserveHops settings chars maxOutput chain).wp (Generous settings) s fun _ r s' =>
      r = .ok () ∧ Spared p s chain s' := by
  induction chain generalizing s with
  | nil => exact ⟨rfl, id, by simp⟩
  | cons hop rest ih =>
    rw [reserveHops, Coro.wp_bind]
    refine Coro.wp_mono (wp_reserveHop_generous hp
      (fun x hx => hpriced x (by simp [List.mem_singleton.mp hx])) s) fun t r s₁ _ h => ?_
    obtain ⟨rfl, h⟩ := h
    refine Coro.wp_mono (ih (fun x hx => hpriced x (.tail _ hx)) s₁) fun t' r s' _ h' => ?_
    obtain ⟨rfl, h'⟩ := h'
    refine ⟨rfl, fun hs => h'.skip (h.skip hs), ?_⟩
    have hlen : ((hop :: rest).filter (·.1 = p)).length
        = ([hop].filter (·.1 = p)).length + (rest.filter (·.1 = p)).length := by
      rw [← List.length_append, ← List.filter_append, List.singleton_append]
    have hfirst := h.count
    have hrest := h'.count
    omega

omit [Rounding] in
theorem wp_reserveKey_generous (s : ReserveLocals) :
    (reserveKey settings requestId apiKey).wp (Generous settings) s fun _ r s' =>
      r = .ok () ∧ s' = s := by
  refine Coro.wp_mono (Coro.wp_anti (wp_reserveKey s) fun _ h => h.1) fun t r s' hA h => ?_
  obtain ⟨rfl, hrun⟩ := h
  refine ⟨?_, rfl⟩
  have hanswered : ∀ t' ⊆ t, ∀ (k : LedgerKey) (d : ℚ) (n : ℕ) (r : Sent ℚ),
      ⟨.incrbyfloatExpire k d n, r⟩ ∈ t' →
      ∃ total ≤ settings.monthlyBudgetUsdPerKey, r = .ok total :=
    fun t' ht _ _ _ _ hmem => (hA _ (ht hmem)).2
  have hclaim : ∀ {t' : List Ev} {r : Except Exc Unit} {w : ℚ}, t' ⊆ t →
      BudgetTracker.ReserveRun settings.hashKey settings.monthlyBudgetUsdPerKey apiKey w t' r →
      r = .ok () := by
    intro t' r w ht h
    cases h with
    | exempt hw => rfl
    | admitted hw now total h => rfl
    | unanswered hw now e a =>
      obtain ⟨_, _, h⟩ := hanswered _ ht _ _ _ _ (.tail _ (.head _))
      cases h
    | refused hw now total now' total' h | leaked hw now total now' h e a
      | interrupted hw now total now' h e he a =>
      obtain ⟨_, hle, heq⟩ := hanswered _ ht _ _ _ _ (.tail _ (.head _))
      obtain rfl := Sent.ok.inj heq
      exact absurd hle h
  cases hrun with
  | unneeded hw => rfl
  | claim h => exact hclaim (List.Subset.refl _) h
  | refused reason h => cases hclaim (List.subset_append_left _ _) h

/-- With room on every ledger, a provider all of whose hops have a price is not skipped. -/
theorem wp_reserveChain_generous {chainName : String}
    (hchain : settings.fallbackChains.lookup chainName = some chain) (hp : p ∉ FREE_PROVIDERS)
    (hmem : ∃ hop ∈ chain, hop.1 = p)
    (hpriced : PricedThroughout settings (promptChars messages) (maxOut params) p chain) :
    (reserveChain settings chainName messages params requestId apiKey).wp (Generous settings) s
      fun _ r _ => ∃ x, r = .ok x ∧ p ∉ x.2 := by
  have hbody : (reserveBody settings chainName (promptChars messages) (maxOut params) requestId
      apiKey).wp (Generous settings) {} fun _ r s' => r = .ok () ∧ p ∉ s'.skip := by
    rw [reserveBody, hchain]
    dsimp only
    rw [Coro.wp_bind]
    refine Coro.wp_mono (wp_reserveHops_generous hp hpriced {}) fun t r s₁ _ h => ?_
    obtain ⟨rfl, hspared⟩ := h
    -- the hops of `p` count as billable and `p` is not skipped, so there are too few to refuse
    have hfewer : s₁.skip.card ≠ s₁.billable := by
      obtain ⟨hop, hhop, heq⟩ := hmem
      have hpos : 0 < (chain.filter (·.1 = p)).length :=
        List.length_pos_of_mem (List.mem_filter.mpr ⟨hhop, by simpa using heq⟩)
      have hcount := hspared.count
      have hzero : ({} : ReserveLocals).skip.card = 0 := rfl
      have hnone : ({} : ReserveLocals).billable = 0 := rfl
      omega
    dsimp only
    rw [Coro.wp_bind, refuseUnusable, Coro.wp_bind, Coro.wp_locals]
    dsimp only
    rw [if_neg fun h => hfewer h.2.1, Coro.wp_pure]
    dsimp only
    refine Coro.wp_mono (wp_reserveKey_generous s₁) fun t' r s' _ h => ?_
    obtain ⟨rfl, rfl⟩ := h
    exact ⟨rfl, hspared.skip (Finset.notMem_empty p)⟩
  refine wp_reserveChain_of hbody (fun t s' h => ⟨_, rfl, h.2⟩) fun t e s' h => ?_
  cases h.1

/-- An environment in which every claim goes through. -/
def generous (settings : Settings) : (c : Cmd) → Reply c
  | .incrbyfloat _ _ => .ok settings.providerLifetimeBudgetUsd
  | .incrbyfloatExpire _ _ _ => .ok settings.monthlyBudgetUsdPerKey
  | c => calm c

/-- One in which every call fails. -/
def exhausting : (c : Cmd) → Reply c
  | .providerChat _ _ _ _ => .error (.exception (.providerError "timeout" true))
  | c => calm c

omit [Rounding] in
theorem generous_generous (c : Cmd) : Generous settings ⟨c, generous settings c⟩ := by
  cases c with
  | incrbyfloat | incrbyfloatExpire => exact ⟨trivial, _, le_rfl, rfl⟩
  | metric | pricing => exact ⟨rfl, trivial⟩
  | _ => exact ⟨trivial, trivial⟩

omit [Rounding] in
theorem exhausting_exhausting (c : Cmd) : Exhausting ⟨c, exhausting c⟩ := by
  cases c with
  | providerChat => exact ⟨"timeout", rfl⟩
  | metric | sleep | allowRequest => rfl
  | _ => trivial

/-- In some run `p` is not skipped and the router makes every attempt. -/
theorem exists_run_everyCall {chainName : String} (requestId apiKey : String)
    (hchain : settings.fallbackChains.lookup chainName
      = some (hops.map fun hop => (hop.provider, hop.model)))
    (hp : p ∉ FREE_PROVIDERS) (hmem : ∃ hop ∈ hops.map fun hop => (hop.provider, hop.model), hop.1 = p)
    (hpriced : PricedThroughout settings (promptChars messages) (maxOut params) p
      (hops.map fun hop => (hop.provider, hop.model))) (s : σ) :
    ∃ (x : OrderedDict String ℚ × Finset String) (s' : σ) (t t' : List Ev),
      Coro.Runs (reserveChain settings chainName messages params requestId apiKey) s t (.ok x) s' ∧
      p ∉ x.2 ∧ Routed settings messages x.2 hops t' ∧
      upstream t' = everyCall (settings.providerRetryAttempts + 1) x.2 hops := by
  have hreserve := Coro.runs_drive (fun (_ : Unit) c => (generous settings c, ()))
    (reserveChain settings chainName messages params requestId apiKey) s ()
  obtain ⟨x, hx, hskip⟩ := (wp_reserveChain_generous hchain hp hmem hpriced).apply hreserve
    (Prog.forall_drive (fun _ c => generous_generous c) _ _)
  rw [hx] at hreserve
  have hroute := Coro.runs_drive (fun (_ : Unit) c => (exhausting c, ()))
    (chat messages params settings.providerRetryAttempts x.2 hops) () ()
  have hcalls := (wp_walk_exhausting settings.providerRetryAttempts hops 0 [] ()).apply hroute
    (Prog.forall_drive (fun _ c => exhausting_exhausting c) _ _)
  exact ⟨x, _, _, _, hreserve, hskip, .chat hroute, hcalls⟩

/-! ## The equivalence -/

/-- Every billable call the router makes for a request is covered by its reservations, in every run
of the two, exactly when rounding takes no reservation below the worst cases it is made of. -/
theorem calls_covered_iff {chainName : String}
    (hchain : settings.fallbackChains.lookup chainName
      = some (hops.map fun hop => (hop.provider, hop.model))) :
    (∀ (x : OrderedDict String ℚ × Finset String) (s' : σ) (t t' : List Ev),
      Coro.Runs (reserveChain settings chainName messages params requestId apiKey) s t (.ok x) s' →
      Routed settings messages x.2 hops t' →
      Covered settings (promptChars messages) (maxOut params) x.1 (upstream t')) ↔
    RoundsUp settings (promptChars messages) (maxOut params)
      (hops.map fun hop => (hop.provider, hop.model)) := by
  constructor
  · intro h p hp hpriced
    by_cases hmem : ∃ hop ∈ hops.map fun hop => (hop.provider, hop.model), hop.1 = p
    · obtain ⟨x, s', t, t', hreserve, hskip, hroute, hcalls⟩ :=
        exists_run_everyCall requestId apiKey hchain hp hmem hpriced s
      have hbound := (h x s' t t' hreserve hroute).bounded p hp
      obtain ⟨l, hl, rfl⟩ := claimed_of_run hchain hreserve
      rw [hcalls, sum_everyCall, sum_unskipped hskip, hl.covers p hp hskip] at hbound
      exact hbound
    · -- nothing is recorded for a provider without a hop, and there is nothing to cover
      have hzero : worstCases settings (promptChars messages) (maxOut params) p
          (hops.map fun hop => (hop.provider, hop.model)) = 0 := by
        refine List.sum_eq_zero fun y hy => ?_
        obtain ⟨hop, hhop, rfl⟩ := List.mem_map.mp hy
        rw [worstCase_of_ne fun heq => hmem ⟨hop, hhop, heq⟩, mul_zero]
      rw [hzero]
      exact le_reservedFor Rounding.fl_zero _
  · intro hup x s' t t' hreserve hroute
    obtain ⟨l, hl, rfl⟩ := claimed_of_run hchain hreserve
    exact hl.covered hup hroute.within

end Generic

/-! ## In exact arithmetic -/

section Exact

variable {settings : Settings} {chars maxOutput : ℕ} {p : String} {chain : Chain}

/-- What is recorded is the sum of the worst cases. -/
theorem reservedFor_exact (hpriced : PricedThroughout settings chars maxOutput p chain) (recorded : ℚ) :
    reservedFor settings chars maxOutput p recorded chain
      = recorded + worstCases settings chars maxOutput p chain := by
  induction chain generalizing recorded with
  | nil => simp [reservedFor, worstCases]
  | cons hop rest ih =>
    have hcons : worstCases settings chars maxOutput p (hop :: rest)
        = (settings.providerRetryAttempts + 1 : ℕ) * worstCase settings chars maxOutput p hop
          + worstCases settings chars maxOutput p rest := List.sum_cons
    rw [reservedFor, ih (fun x hx => hpriced x (.tail _ hx)), hcons, ← add_assoc]
    congr 1
    split
    · next hp =>
      obtain ⟨w, hw⟩ := hpriced hop (.head _) hp
      rw [hopCost_of_worst hw, worstCase, if_pos hp, hw]
      simp [Except.toOption, mul_comm]
    · next hp => rw [worstCase_of_ne hp, mul_zero, add_zero]

/-- Every reservation covers the calls. -/
theorem roundsUp_exact : RoundsUp settings chars maxOutput chain := by
  intro p _ hpriced
  rw [reservedFor_exact hpriced, zero_add]

end Exact

/-! ## Six attempts in doubles -/

section Doubles

attribute [local instance] Rounding.double

theorem calls_covered_iff_default :
    (∀ (x : OrderedDict String ℚ × Finset String) (s' : Unit) (t t' : List Ev),
      Coro.Runs (reserveChain deployed "default" [⟨"user", "hi!"⟩] none "r" "k") () t (.ok x) s' →
      Routed deployed [⟨"user", "hi!"⟩] x.2 defaultHops t' →
      Covered deployed 3 2048 x.1 (upstream t')) ↔
    RoundsUp deployed 3 2048 (defaultHops.map fun hop => (hop.provider, hop.model)) :=
  calls_covered_iff rfl

/-- Five retries on a chain of one hop. -/
def sixAttempts : Settings :=
  { deployed with
    providerRetryAttempts := 5
    fallbackChains := [("mini", [("openai", "gpt-4o-mini")])] }

/-- The router calls six times. -/
def sixCalls : List Ev × (Except Exc ChatResponse × Unit) × Unit :=
  Prog.drive (fun _ c => (exhausting c, ()))
    ((chat [⟨"user", "?"⟩] none 5 (held sixAttempts "mini" [⟨"user", "?"⟩] none).2
      [⟨"openai", "gpt-4o-mini", "openai"⟩] : Py Unit _) ()) ()

/-- The reservation for a question of one character is rounded below six times its worst case. -/
theorem sixth_call_uncovered :
    Coro.Runs (reserveChain sixAttempts "mini" [⟨"user", "?"⟩] none "r" "k" : Py Unit _) ()
      (reservedRun sixAttempts "mini" [⟨"user", "?"⟩] none).1
      (.ok (held sixAttempts "mini" [⟨"user", "?"⟩] none)) () ∧
    Routed sixAttempts [⟨"user", "?"⟩] (held sixAttempts "mini" [⟨"user", "?"⟩] none).2
      [⟨"openai", "gpt-4o-mini", "openai"⟩] sixCalls.1 ∧
    ¬ Covered sixAttempts 1 2048 (held sixAttempts "mini" [⟨"user", "?"⟩] none).1
      (upstream sixCalls.1) := by
  refine ⟨runs_reservedRun (by decide +kernel), ?_, fun hcovered => ?_⟩
  · unfold sixCalls
    exact .chat (Coro.runs_drive _ _ _ _)
  · have hbelow : (held sixAttempts "mini" [⟨"user", "?"⟩] none).1.getD "openai" 0
        < ((upstream sixCalls.1).map (worstCase sixAttempts 1 2048 "openai")).sum := by decide +kernel
    exact absurd (hcovered.bounded "openai" (by decide)) (not_le.mpr hbelow)

end Doubles

end LlmGateway
