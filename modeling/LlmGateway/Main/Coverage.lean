import LlmGateway.Main.Footprint
import LlmGateway.Main.ReserveRun
import LlmGateway.Routing.Fallback
import LlmGateway.Gateway.Redis

/-!
# What is reserved and what is called

`_reserve_chain` walks the chain by provider and model and records sums by provider; the router
walks its hops and skips by provider. The two meet here: what is recorded against a provider that
is not to be skipped is the rounded sum of what its hops were claimed at (`Claimed`), and the router
makes no more attempts than were claimed for, and none at a provider that is to be skipped. Redis,
the metrics and the providers may do anything.
-/

namespace LlmGateway

open Coroutine
open Rounding (fl)

section Generic

variable [Rounding] {σ : Type} {A : Ev → Prop} {settings : Settings} {chars maxOutput : ℕ}
  {requestId apiKey : String}

/-! ## What the loop records -/

/-- The worst case of a call, as far as it is one to `p`. -/
def worstCase (settings : Settings) (chars maxOutput : ℕ) (p : String) (c : String × String) : ℚ :=
  if c.1 = p then
    (worstCaseCostUsd settings.pricing c.1 c.2 chars maxOutput).toOption.getD 0
  else 0

/-- What `_reserve_chain` records for `p` along the chain, from `recorded` on. -/
def reservedFor (settings : Settings) (chars maxOutput : ℕ) (p : String) : ℚ → Chain → ℚ
  | recorded, [] => recorded
  | recorded, hop :: rest =>
    reservedFor settings chars maxOutput p
      (if hop.1 = p then
        fl (recorded + (hopCost settings chars maxOutput hop).toOption.getD 0)
      else recorded) rest

theorem worstCase_nonneg (p : String) (c : String × String) :
    0 ≤ worstCase settings chars maxOutput p c := by
  unfold worstCase
  split
  · cases h : worstCaseCostUsd settings.pricing c.1 c.2 chars maxOutput with
    | error e => exact le_rfl
    | ok w => exact worstCaseCostUsd_nonneg h
  · exact le_rfl

theorem worstCase_of_ne {p : String} {c : String × String} (h : c.1 ≠ p) :
    worstCase settings chars maxOutput p c = 0 := if_neg h

/-- A hop is claimed at no less than the worst case of one call. -/
theorem worst_le_hopCost {hop : String × String} {w : ℚ}
    (h : worstCaseCostUsd settings.pricing hop.1 hop.2 chars maxOutput = .ok w) :
    ∃ cost, hopCost settings chars maxOutput hop = .ok cost ∧ fl cost = cost ∧ w ≤ cost := by
  refine ⟨_, hopCost_of_worst h, Rounding.fl_fl _, Rounding.le_fl (fl_worstCaseCostUsd h) ?_⟩
  refine le_mul_of_one_le_right (worstCaseCostUsd_nonneg h) (Rounding.one_le_fl ?_)
  exact_mod_cast Nat.succ_le_succ (Nat.zero_le _)

section ReservedFor

variable {p : String} {recorded : ℚ}

/-- What has been recorded only grows, and stays rounded. -/
theorem le_reservedFor (hr : fl recorded = recorded) (chain : Chain) :
    recorded ≤ reservedFor settings chars maxOutput p recorded chain := by
  induction chain generalizing recorded with
  | nil => exact le_rfl
  | cons hop rest ih =>
    rw [reservedFor]
    split
    · refine le_trans ?_ (ih (Rounding.fl_fl _))
      refine Rounding.le_fl hr (le_add_of_nonneg_right ?_)
      cases hcost : hopCost settings chars maxOutput hop with
      | error e => exact le_rfl
      | ok cost => exact hopCost_nonneg hcost
    · exact ih hr

/-- The worst case of a call to a hop is part of what is recorded for its provider. -/
theorem worst_le_reservedFor {chain : Chain} {hop : String × String} {w : ℚ}
    (hr : fl recorded = recorded) (h0 : 0 ≤ recorded) (hmem : hop ∈ chain)
    (h : worstCaseCostUsd settings.pricing hop.1 hop.2 chars maxOutput = .ok w) :
    w ≤ reservedFor settings chars maxOutput hop.1 recorded chain := by
  induction chain generalizing recorded with
  | nil => cases hmem
  | cons hop' rest ih =>
    rw [reservedFor]
    rcases List.mem_cons.mp hmem with rfl | hmem
    · obtain ⟨cost, hcost, hfl, hle⟩ := worst_le_hopCost h
      rw [if_pos rfl, hcost]
      refine hle.trans (le_trans ?_ (le_reservedFor (Rounding.fl_fl _) rest))
      exact Rounding.le_fl hfl (le_add_of_nonneg_left h0)
    · split
      · refine ih (Rounding.fl_fl _) (Rounding.fl_nonneg (add_nonneg h0 ?_)) hmem
        cases hcost : hopCost settings chars maxOutput hop' with
        | error e => exact le_rfl
        | ok cost => exact hopCost_nonneg hcost
      · exact ih hr h0 hmem

end ReservedFor

/-- Every recorded amount is a rounded one. -/
def ReserveLocals.Rounded (s : ReserveLocals) : Prop :=
  ∀ p, fl (s.reservations.getD p 0) = s.reservations.getD p 0

theorem ReserveLocals.rounded_empty : ReserveLocals.Rounded {} := fun _ => Rounding.fl_zero

/-- The loop went through `chain` from `s` to `s'`: a provider that is not to be skipped has what all
its hops were claimed at recorded against it. -/
structure Claimed (settings : Settings) (chars maxOutput : ℕ) (s : ReserveLocals) (chain : Chain)
    (s' : ReserveLocals) : Prop where
  skip : s.skip ⊆ s'.skip
  keep : ∀ p ∈ s.reservations, p ∈ s'.reservations
  free : ∀ p ∈ FREE_PROVIDERS, p ∈ s'.reservations → p ∈ s.reservations
  rounded : s.Rounded → s'.Rounded
  grows : s.Rounded → ∀ p, s.reservations.getD p 0 ≤ s'.reservations.getD p 0
  hop : ∀ hop ∈ chain, hop.1 ∉ FREE_PROVIDERS → hop.1 ∉ s'.skip → hop.1 ∈ s'.reservations ∧
    ∃ w, worstCaseCostUsd settings.pricing hop.1 hop.2 chars maxOutput = .ok w
  covers : ∀ p ∉ FREE_PROVIDERS, p ∉ s'.skip → s'.reservations.getD p 0
    = reservedFor settings chars maxOutput p (s.reservations.getD p 0) chain

namespace Claimed

variable {s s₁ s' : ReserveLocals} {chain rest : Chain} {hop : String × String}

theorem nil : Claimed settings chars maxOutput s [] s :=
  ⟨subset_rfl, fun _ h => h, fun _ _ h => h, id, fun _ _ => le_rfl, nofun, fun _ _ _ => rfl⟩

theorem cons (h : Claimed settings chars maxOutput s [hop] s₁)
    (h' : Claimed settings chars maxOutput s₁ rest s') :
    Claimed settings chars maxOutput s (hop :: rest) s' where
  skip := h.skip.trans h'.skip
  keep p hp := h'.keep p (h.keep p hp)
  free p hp hmem := h.free p hp (h'.free p hp hmem)
  rounded hs := h'.rounded (h.rounded hs)
  grows hs p := (h.grows hs p).trans (h'.grows (h.rounded hs) p)
  hop x hx hfree hskip := by
    rcases List.mem_cons.mp hx with rfl | hx
    · obtain ⟨hmem, hprice⟩ := h.hop x (.head _) hfree fun hs => hskip (h'.skip hs)
      exact ⟨h'.keep _ hmem, hprice⟩
    · exact h'.hop x hx hfree hskip
  covers p hfree hskip := by
    have hfirst := h.covers p hfree fun hs => hskip (h'.skip hs)
    rw [h'.covers p hfree hskip, hfirst]
    rfl

/-- A hop of a free provider is not claimed against. -/
theorem of_free (hfree : hop.1 ∈ FREE_PROVIDERS) : Claimed settings chars maxOutput s [hop] s where
  skip := subset_rfl
  keep _ h := h
  free _ _ h := h
  rounded := id
  grows _ _ := le_rfl
  hop x hx hnot := by
    obtain rfl := List.mem_singleton.mp hx
    exact absurd hfree hnot
  covers p hp _ := by
    have hne : hop.1 ≠ p := fun h => hp (h ▸ hfree)
    simp [reservedFor, hne]

/-- A hop that is dropped takes its provider with it. -/
theorem of_skip (hs : s'.skip = insert hop.1 s.skip) (hres : s'.reservations = s.reservations) :
    Claimed settings chars maxOutput s [hop] s' where
  skip := hs ▸ Finset.subset_insert _ _
  keep p h := hres ▸ h
  free p _ h := hres ▸ h
  rounded h p := by rw [hres, h p]
  grows _ p := by rw [hres]
  hop x hx _ hskip := by
    obtain rfl := List.mem_singleton.mp hx
    exact absurd (Finset.mem_insert_self _ _) (hs ▸ hskip)
  covers p _ hskip := by
    have hne : hop.1 ≠ p := by
      rintro rfl
      exact hskip (hs ▸ Finset.mem_insert_self _ _)
    simp [reservedFor, hne, hres]

/-- A claim that went through is recorded in full. -/
theorem of_claim {cost : ℚ} (hfree : hop.1 ∉ FREE_PROVIDERS)
    (hcost : hopCost settings chars maxOutput hop = .ok cost) (hs : s'.skip = s.skip)
    (hres : s'.reservations = accumulate s.reservations hop.1 cost) :
    Claimed settings chars maxOutput s [hop] s' where
  skip := hs ▸ subset_rfl
  keep p h := by
    rw [hres, accumulate, OrderedDict.mem_set]
    exact .inr h
  free p hp h := by
    rw [hres, accumulate, OrderedDict.mem_set] at h
    exact h.resolve_left fun heq => hfree (heq ▸ hp)
  rounded h p := by
    rw [hres, accumulate, OrderedDict.getD_set]
    split
    · exact Rounding.fl_fl _
    · exact h p
  grows h p := by
    rw [hres, accumulate, OrderedDict.getD_set]
    split
    · next heq =>
      subst heq
      exact Rounding.le_fl (h _) (le_add_of_nonneg_right (hopCost_nonneg hcost))
    · exact le_rfl
  hop x hx _ _ := by
    obtain rfl := List.mem_singleton.mp hx
    refine ⟨by rw [hres, accumulate, OrderedDict.mem_set]; exact .inl rfl, ?_⟩
    cases hw : worstCaseCostUsd settings.pricing x.1 x.2 chars maxOutput with
    | error e => simp [hopCost, hw] at hcost
    | ok w => exact ⟨w, rfl⟩
  covers p _ _ := by
    rw [hres, accumulate, OrderedDict.getD_set, reservedFor, reservedFor, hcost]
    by_cases hp : hop.1 = p
    · simp [hp, Except.toOption]
    · simp [hp, Ne.symm hp]

end Claimed

theorem claimed_reserveHop (hop : String × String) (s : ReserveLocals) :
    (reserveHop settings chars maxOutput hop).wp A s fun _ r s' =>
      r = .ok () → Claimed settings chars maxOutput s [hop] s' := by
  refine wp_reserveHop_of (fun hfree _ => .of_free hfree) (fun _ _ _ => .of_skip rfl rfl)
    fun cost hfree hcost => ?_
  refine Coro.wp_mono (ProviderBudget.keeps_reserve A _) fun t r s₁ _ hs => ?_
  subst hs
  exact ⟨fun _ _ => .of_claim hfree hcost rfl rfl, fun _ _ _ _ _ => .of_skip rfl rfl, fun _ _ _ => nofun⟩

theorem claimed_reserveHops (chain : Chain) (s : ReserveLocals) :
    (reserveHops settings chars maxOutput chain).wp A s fun _ r s' =>
      r = .ok () → Claimed settings chars maxOutput s chain s' := by
  induction chain generalizing s with
  | nil => exact fun _ => .nil
  | cons hop rest ih =>
    rw [reserveHops, Coro.wp_bind]
    refine Coro.wp_mono (claimed_reserveHop hop s) fun t r s₁ _ hhop => ?_
    cases r with
    | error e => rintro ⟨⟩
    | ok u => exact Coro.wp_mono (ih s₁) fun _ _ _ _ hrest hr => .cons (hhop rfl) (hrest hr)

/-- What a successful `_reserve_chain` returns is what its loop claimed along the chain. -/
theorem claimed_reserveChain {chainName : String} {messages : List ChatMessage}
    {params : Option SamplingParams} {s : σ} :
    (reserveChain settings chainName messages params requestId apiKey).wp A s fun _ r _ =>
      ∀ x, r = .ok x → ∃ chain s', settings.fallbackChains.lookup chainName = some chain ∧
        Claimed settings (promptChars messages) (maxOut params) {} chain s' ∧
        x = (s'.reservations, s'.skip) := by
  have hbody : (reserveBody settings chainName (promptChars messages) (maxOut params) requestId
      apiKey).wp A {} fun _ r s' => r = .ok () → ∃ chain,
        settings.fallbackChains.lookup chainName = some chain ∧
        Claimed settings (promptChars messages) (maxOut params) {} chain s' := by
    unfold reserveBody
    split
    · nofun
    · next chain hchain =>
      rw [Coro.wp_bind]
      refine Coro.wp_mono (claimed_reserveHops chain {}) fun t r s₁ _ hloop => ?_
      match r with
      | .error e => nofun
      | .ok () =>
        have hkeeps : (do
            refuseUnusable settings chain requestId
            reserveKey settings requestId apiKey).Keeps :=
          .bind (keeps_refuseUnusable chain) fun _ => keeps_reserveKey
        refine Coro.wp_mono (hkeeps A s₁) fun _ _ s' _ hs _ => ?_
        subst hs
        exact ⟨chain, hchain, hloop rfl⟩
  refine wp_reserveChain_of hbody (fun t s' h => ?_) fun t e s' _ => ?_
  · obtain ⟨chain, hchain, hclaimed⟩ := h rfl
    rintro x ⟨⟩
    exact ⟨chain, s', hchain, hclaimed, rfl⟩
  · exact Coro.wp_mono Coro.wp_true fun _ _ _ _ _ _ _ => nofun

/-- The same of a run over a chain that is known. -/
theorem claimed_of_run {chainName : String} {messages : List ChatMessage}
    {params : Option SamplingParams} {s s' : σ} {t : List Ev}
    {x : OrderedDict String ℚ × Finset String}
    (hchain : settings.fallbackChains.lookup chainName = some chain)
    (hrun : Coro.Runs (reserveChain settings chainName messages params requestId apiKey) s t
      (.ok x) s') :
    ∃ l, Claimed settings (promptChars messages) (maxOut params) {} chain l ∧
      x = (l.reservations, l.skip) := by
  obtain ⟨chain', l, hlookup, hclaimed, hx⟩ :=
    claimed_reserveChain.apply hrun (A := fun _ => True) (fun _ _ => trivial) x rfl
  obtain rfl := Option.some.inj (hlookup.symm.trans hchain)
  exact ⟨l, hclaimed, hx⟩

/-! ## Reservations and calls -/

/-- A run of the router for a request: either of its methods, as the endpoints call them. -/
inductive Routed (settings : Settings) (messages : List ChatMessage) (skip : Finset String)
    (hops : List Hop) : List Ev → Prop
  | chat {τ : Type} {params : Option SamplingParams} {s s' : τ} {t : List Ev} {r : Except Exc ChatResponse}
      (h : Coro.Runs (LlmGateway.chat messages params settings.providerRetryAttempts skip hops) s t r
        s') : Routed settings messages skip hops t
  | stream {τ : Type} {params : Option SamplingParams} {s s' : τ} {t : List Ev} {r : Except Exc Unit}
      (h : Coro.Runs (chatStream messages params settings.providerRetryAttempts skip hops) s t r
        s') : Routed settings messages skip hops t

omit [Rounding] in
theorem Routed.within {messages : List ChatMessage} {skip : Finset String} {hops : List Hop}
    {t : List Ev} (h : Routed settings messages skip hops t) :
    Within (settings.providerRetryAttempts + 1) skip hops (upstream t) := by
  have hany : ∀ e ∈ t, (fun _ : Ev => True) e := fun _ _ => trivial
  cases h with
  | chat h =>
    exact (wp_walk (fun _ _ => callsAtMost_chatAttempts _) hops 0 [] _).apply h hany
  | stream h =>
    exact (wp_walk (fun _ _ => callsAtMost_streamAttempts _) hops 0 [] _).apply h hany

/-! ## A request on empty ledgers -/

/-- The request `r` of the key `k` is reserved for, on empty ledgers. -/
def reservedRun (settings : Settings) (chainName : String) (messages : List ChatMessage)
    (params : Option SamplingParams) :
    List Ev × (Except Exc (OrderedDict String ℚ × Finset String) × Unit) × Ledgers :=
  Prog.drive (answer calm)
    ((reserveChain settings chainName messages params "r" "k" : Py Unit _) ()) fun _ => 0

/-- What it holds then. -/
@[irreducible] def held (settings : Settings) (chainName : String) (messages : List ChatMessage)
    (params : Option SamplingParams) : OrderedDict String ℚ × Finset String :=
  (reservedRun settings chainName messages params).2.1.1.toOption.getD (.empty, ∅)

theorem runs_reservedRun {chainName : String} {messages : List ChatMessage}
    {params : Option SamplingParams}
    (hok : (reservedRun settings chainName messages params).2.1.1.isOk = true) :
    Coro.Runs (reserveChain settings chainName messages params "r" "k" : Py Unit _) ()
      (reservedRun settings chainName messages params).1
      (.ok (held settings chainName messages params)) () := by
  have hruns : Coro.Runs (reserveChain settings chainName messages params "r" "k" : Py Unit _) ()
      (reservedRun settings chainName messages params).1
      (reservedRun settings chainName messages params).2.1.1 () := by
    unfold reservedRun
    exact Coro.runs_drive _ _ _ _
  unfold held
  revert hruns hok
  cases (reservedRun settings chainName messages params).2.1.1 with
  | error e => nofun
  | ok x => exact fun _ hruns => hruns

end Generic

/-- The default settings, with the prices in doubles. -/
def deployed : Settings := { pricing := @PRICING Rounding.double, hashKey := id }

/-- The hops of the default chain. -/
def defaultHops : List Hop :=
  [⟨"openai", "gpt-4o-mini", "openai"⟩, ⟨"anthropic", "claude-haiku-4-5", "anthropic"⟩,
    ⟨"ollama", "llama3", "ollama"⟩]

end LlmGateway
