import LlmGateway.Main.ReserveChain
import Mathlib.Tactic.Ring

/-!
# The runs of `_reserve_chain`

The loop over the chain keeps the books: each ledger has moved by what was recorded against it and
by what a failing command stranded (`Recorded`). The caller's share comes last, so a run is a
recorded loop followed by at most one claim on the key ledger, and by the unwinding if it did not
return.
-/

namespace LlmGateway

open Coroutine
open Rounding (fl)

variable {σ : Type} {settings : Settings} {chars maxOutput : ℕ} {requestId apiKey : String}

/-! ## The loop over the chain -/

/-- What is recorded against the ledger `k`. -/
def ReserveLocals.recorded (s : ReserveLocals) : LedgerKey → ℚ
  | .provider p => s.reservations.getD p 0
  | .key _ _ => 0

/-- From `s` to `s'` the recorded amounts account for every ledger. -/
structure Recorded (s : ReserveLocals) (t : List Ev) (s' : ReserveLocals) : Prop where
  moved : ∀ k, tally (moved k) t = s'.recorded k - s.recorded k + tally (stranded k) t
  leaked : ∀ l, tally (leaked l) t = tally (excused l) t
  calls : calls t = []
  keyless : Keyless t
  total : s.reservations.total ≤ s'.reservations.total
  free : ∀ p ∈ FREE_PROVIDERS, p ∈ s'.reservations → p ∈ s.reservations

namespace Recorded

variable {s s₁ s' : ReserveLocals} {t t' : List Ev}

/-- Events that touch nothing, while the reservations stay what they are. -/
theorem idle (ht : ∀ e ∈ t, Idle e) (hs : s'.reservations = s.reservations) : Recorded s t s' where
  moved k := by
    have hrec : s'.recorded k = s.recorded k := by cases k <;> simp [ReserveLocals.recorded, hs]
    rw [tally_eq_zero fun e he => (ht e he).moved k,
      tally_eq_zero fun e he => (ht e he).stranded k, hrec, sub_self, add_zero]
  leaked l := by
    rw [tally_eq_zero fun e he => (ht e he).leaked l, tally_eq_zero fun e he => (ht e he).excused l]
  calls := calls_of_idle ht
  keyless e he _ _ := (ht e he).asked _
  total := by rw [hs]
  free p _ hp := by rwa [hs] at hp

theorem of_eq (hs : s'.reservations = s.reservations) : Recorded s [] s' := idle (by simp) hs

theorem trans (h : Recorded s t s₁) (h' : Recorded s₁ t' s') : Recorded s (t ++ t') s' where
  moved k := by
    rw [tally_append, tally_append, h.moved, h'.moved]
    ring
  leaked l := by rw [tally_append, tally_append, h.leaked, h'.leaked]
  calls := by rw [calls_append, h.calls, h'.calls, List.append_nil]
  keyless := List.forall_mem_append.mpr ⟨h.keyless, h'.keyless⟩
  total := h.total.trans h'.total
  free p hp hmem := h.free p hp (h'.free p hp hmem)

/-- A claim that was refused or interrupted is not recorded. -/
theorem of_error {capUsd w : ℚ} {p : String} {e : Exc}
    (h : ProviderBudget.ReserveRun capUsd p w t (.error e)) (hw : 0 ≤ w)
    (hs : s'.reservations = s.reservations) : Recorded s t s' where
  moved k := by
    have hrec : s'.recorded k = s.recorded k := by cases k <;> simp [ReserveLocals.recorded, hs]
    rw [h.moved_eq hw, hrec, sub_self]
    rfl
  leaked := h.leaked_eq
  calls := h.calls_eq
  keyless := h.keyless
  total := by rw [hs]
  free p _ hp := by rwa [hs] at hp

/-- A claim that went through is recorded. -/
theorem of_ok {capUsd w : ℚ} {p : String} (h : ProviderBudget.ReserveRun capUsd p w t (.ok ()))
    (hp : p ∉ FREE_PROVIDERS) (hw : 0 ≤ w) (hs : s'.reservations = s.reservations.addTo p w) :
    Recorded s t s' where
  moved k := by
    rw [h.moved_eq hw]
    cases k with
    | provider q =>
      simp [ReserveLocals.recorded, hs, OrderedDict.getD_addTo, ProviderBudget.onLedger,
        ProviderBudget.key, hp, Except.isOk, Except.toBool]
    | key h P => simp [ReserveLocals.recorded, ProviderBudget.onLedger, ProviderBudget.key]
  leaked := h.leaked_eq
  calls := h.calls_eq
  keyless := h.keyless
  total := by simpa [hs] using hw
  free q hq hmem := by
    rw [hs] at hmem
    rcases OrderedDict.mem_addTo.mp hmem with rfl | hmem
    · exact absurd hq hp
    · exact hmem

end Recorded

theorem hopCost_of_worst [Rounding] {hop : String × String} {w : ℚ}
    (h : worstCaseCostUsd settings.pricing hop.1 hop.2 chars maxOutput = .ok w) :
    hopCost settings chars maxOutput hop
      = .ok (fl (w * fl (settings.providerRetryAttempts + 1 : ℕ))) := by
  rw [hopCost, h]
  rfl

theorem hopCost_nonneg [Rounding] {hop : String × String} {cost : ℚ}
    (h : hopCost settings chars maxOutput hop = .ok cost) : 0 ≤ cost := by
  cases hw : worstCaseCostUsd settings.pricing hop.1 hop.2 chars maxOutput with
  | error e => simp [hopCost, hw] at h
  | ok w =>
    obtain rfl := Except.ok.inj ((hopCost_of_worst hw).symm.trans h)
    exact Rounding.fl_nonneg (mul_nonneg (worstCaseCostUsd_nonneg hw)
      (Rounding.fl_nonneg (Nat.cast_nonneg _)))

theorem hopCost_error [Rounding] {hop : String × String} {e : Exc}
    (h : hopCost settings chars maxOutput hop = .error e) :
    e = .exception (.unpricedModel hop.1 hop.2) := by
  cases hw : worstCaseCostUsd settings.pricing hop.1 hop.2 chars maxOutput with
  | error e' =>
    obtain rfl : e' = e := by simpa [hopCost, hw] using h
    exact worstCaseCostUsd_error hw
  | ok w => simp [hopCost, hw] at h

/-- The rule for a hop: it is free, it has no price, or it is claimed. A claim that goes through is
recorded, a refused one takes its provider out of the chain, and any other failure ends the loop. -/
theorem wp_reserveHop_of [Rounding] {A : Ev → Prop} {hop : String × String} {s : ReserveLocals}
    {Q : List Ev → Except Exc Unit → ReserveLocals → Prop}
    (hfree : hop.1 ∈ FREE_PROVIDERS → Q [] (.ok ()) s)
    (hunpriced : hop.1 ∉ FREE_PROVIDERS →
      hopCost settings chars maxOutput hop = .error (.exception (.unpricedModel hop.1 hop.2)) →
      Q [] (.ok ()) { s with
        billable := s.billable + 1
        skip := insert hop.1 s.skip
        unpriced := insert hop.1 s.unpriced })
    (hpriced : ∀ cost, hop.1 ∉ FREE_PROVIDERS → hopCost settings chars maxOutput hop = .ok cost →
      (ProviderBudget.reserve settings.providerLifetimeBudgetUsd hop.1 cost).wp A
        { s with billable := s.billable + 1 } fun t r s₁ =>
          (r = .ok () →
            Q t (.ok ()) { s₁ with reservations := accumulate s₁.reservations hop.1 cost }) ∧
          (∀ p spent cap, r = .error (.exception (.providerBudgetExhausted p spent cap)) →
            Q t (.ok ()) { s₁ with skip := insert hop.1 s₁.skip }) ∧
          ∀ e, r = .error e → (∀ p spent cap, e ≠ .exception (.providerBudgetExhausted p spent cap)) →
            Q t (.error e) s₁) :
    (reserveHop settings chars maxOutput hop).wp A s Q := by
  rw [reserveHop, Coro.wp_ite]
  refine ⟨fun hf => Coro.wp_pure.mpr (hfree hf), fun hf => ?_⟩
  rw [Coro.wp_bind, Coro.wp_update]
  dsimp only
  rw [Coro.wp_attemptElse, Coro.wp_ofExcept]
  cases hcost : hopCost settings chars maxOutput hop with
  | error e =>
    obtain rfl := hopCost_error hcost
    exact Coro.wp_update.mpr (hunpriced hf hcost)
  | ok cost =>
    dsimp only
    rw [Coro.wp_attempt, Coro.wp_bind]
    refine Coro.wp_mono (hpriced cost hf hcost) fun t r s₁ _ h => ?_
    obtain ⟨hclaimed, hrefused, hfailed⟩ := h
    match r with
    | .ok () =>
      refine Coro.wp_update.mpr ?_
      simpa using hclaimed rfl
    | .error e =>
      dsimp only
      split
      · next c hc =>
        split at hc
        · obtain rfl := Option.some.inj hc
          refine Coro.wp_update.mpr ?_
          simpa using hrefused _ _ _ rfl
        · cases hc
      · next hc =>
        refine hfailed e rfl ?_
        rintro p spent cap rfl
        cases hc

theorem wp_reserveHop (hop : String × String) (s : ReserveLocals) :
    (reserveHop settings chars maxOutput hop).wp Healthy s fun t _ s' => Recorded s t s' := by
  refine wp_reserveHop_of (fun _ => .of_eq rfl) (fun _ _ => .of_eq rfl) fun cost hfree hcost => ?_
  have hnonneg := hopCost_nonneg hcost
  refine Coro.wp_mono ProviderBudget.wp_reserve fun t r s₁ _ h => ?_
  obtain ⟨rfl, hrun⟩ := h
  -- recorded only once `reserve` has returned: a claim interrupted before that is not
  refine ⟨?_, ?_, ?_⟩
  · rintro rfl
    exact .of_ok hrun hfree hnonneg rfl
  · rintro p spent cap rfl
    exact .of_error hrun hnonneg rfl
  · rintro e rfl -
    exact .of_error hrun hnonneg rfl

theorem wp_reserveHops (chain : Chain) (s : ReserveLocals) :
    (reserveHops settings chars maxOutput chain).wp Healthy s fun t _ s' => Recorded s t s' := by
  induction chain generalizing s with
  | nil => exact Recorded.of_eq rfl
  | cons hop rest ih =>
    rw [reserveHops, Coro.wp_bind]
    refine Coro.wp_mono (wp_reserveHop hop s) fun t r s₁ _ h => ?_
    match r with
    | .error e => exact h
    | .ok () => exact Coro.wp_mono (ih s₁) fun t' r' s' _ h' => h.trans h'

/-! ## The refusal of a chain -/

theorem idle_get {k : LedgerKey} {r : Sent ℚ} : Idle ⟨.get k, r⟩ :=
  ⟨fun _ => rfl, fun _ => rfl, fun _ => rfl, rfl⟩

theorem wp_spent {capUsd : ℚ} {p : String} {s : σ} :
    (ProviderBudget.spent capUsd p).wp Healthy s fun t _ s' => s' = s ∧ ∀ e ∈ t, Idle e := by
  rw [ProviderBudget.spent, Coro.wp_bind, wp_get]
  rintro (total | ⟨e, a⟩)
  · dsimp only [Sent.toExcept]
    rw [Coro.wp_bind, ProviderBudget.wp_publish]
    refine Coro.wp_pure.mpr ⟨rfl, ?_⟩
    simpa [idle_get] using ProviderBudget.published_idle total
  · exact ⟨rfl, by simp [idle_get]⟩

theorem wp_snapshot {capUsd : ℚ} {s : σ} (providers : List String) :
    (ProviderBudget.snapshot capUsd providers).wp Healthy s fun t _ s' =>
      s' = s ∧ ∀ e ∈ t, Idle e := by
  induction providers with
  | nil => exact ⟨rfl, by simp⟩
  | cons p rest ih =>
    rw [ProviderBudget.snapshot, Coro.wp_bind]
    refine Coro.wp_mono wp_spent fun t r s' _ h => ?_
    obtain ⟨rfl, ht⟩ := h
    match r with
    | .error e => exact ⟨rfl, ht⟩
    | .ok total =>
      dsimp only
      rw [Coro.wp_bind]
      refine Coro.wp_mono ih fun t' r' s' _ h => ?_
      obtain ⟨rfl, ht'⟩ := h
      match r' with
      | .error e => exact ⟨rfl, List.forall_mem_append.mpr ⟨ht, ht'⟩⟩
      | .ok others =>
        refine Coro.wp_pure.mpr ⟨rfl, ?_⟩
        rw [List.append_nil]
        exact List.forall_mem_append.mpr ⟨ht, ht'⟩

theorem idle_refused {reason : String} : Idle ⟨.metric (.requestsRefused reason), .ok ()⟩ :=
  ⟨fun _ => rfl, fun _ => rfl, fun _ => rfl, rfl⟩

/-- A chain is let through without an event, or refused after reading the ledgers. -/
theorem wp_refuseUnusable (chain : Chain) (s : ReserveLocals) :
    (refuseUnusable settings chain requestId).wp Healthy s fun t r s' =>
      s' = s ∧ (∀ e ∈ t, Idle e) ∧ (r = .ok () → t = []) := by
  rw [refuseUnusable, Coro.wp_bind, Coro.wp_locals]
  dsimp only
  rw [Coro.wp_ite]
  refine ⟨fun _ => ?_, fun _ => ⟨rfl, by simp, fun _ => rfl⟩⟩
  rw [Coro.wp_bind, wp_metric]
  dsimp only
  rw [Coro.wp_bind]
  refine Coro.wp_mono (wp_snapshot _) fun t r s' _ h => ?_
  obtain ⟨rfl, ht⟩ := h
  cases r with
  | error e => exact ⟨rfl, by simpa [idle_refused] using ht, by rintro ⟨⟩⟩
  | ok spent => exact ⟨rfl, by simpa [idle_refused] using ht, by rintro ⟨⟩⟩

/-! ## The caller's share -/

/-- The runs of the claim on the caller's share, `w` being the sum of the reservations. -/
inductive KeyRun (settings : Settings) (apiKey : String) (w : ℚ) :
    List Ev → Except Exc Unit → Prop
  | unneeded (hw : w = 0) : KeyRun settings apiKey w [] (.ok ())
  | claim {t : List Ev} {r : Except Exc Unit}
      (h : BudgetTracker.ReserveRun settings.hashKey settings.monthlyBudgetUsdPerKey apiKey w t r) :
      KeyRun settings apiKey w t r
  /-- The refusal is reported to the client as an `HTTPException`. -/
  | refused {t : List Ev} {e e' : Exc} (reason : String)
      (h : BudgetTracker.ReserveRun settings.hashKey settings.monthlyBudgetUsdPerKey apiKey w t
        (.error e)) :
      KeyRun settings apiKey w (t ++ [⟨.metric (.requestsRefused reason), .ok ()⟩]) (.error e')

theorem wp_reserveKey (s : ReserveLocals) :
    (reserveKey settings requestId apiKey).wp Healthy s fun t r s' =>
      s' = s ∧ KeyRun settings apiKey s.reservations.total t r := by
  rw [reserveKey, Coro.wp_bind, Coro.wp_locals]
  dsimp only
  rw [Coro.wp_ite]
  refine ⟨fun _ => ?_, fun h => ⟨rfl, .unneeded (by simpa using h)⟩⟩
  rw [Coro.wp_attempt]
  refine Coro.wp_mono BudgetTracker.wp_reserve fun t r s' _ h => ?_
  obtain ⟨rfl, h⟩ := h
  match r with
  | .ok () => exact ⟨rfl, .claim h⟩
  | .error e =>
    dsimp only
    split
    · next c hc =>
      split at hc
      · obtain rfl := Option.some.inj hc
        rw [Coro.wp_bind, wp_metric]
        exact ⟨rfl, .refused _ h⟩
      · cases hc
    · exact ⟨rfl, .claim h⟩

section KeyRun

variable {w : ℚ} {t : List Ev} {r : Except Exc Unit} {P : ℤ}

/-- The claim on the caller's share moves its ledger by `w` if it returns, and by what a failing
command stranded. -/
theorem KeyRun.moved_eq (h : KeyRun settings apiKey w t r) (hw : 0 ≤ w)
    (hP : ∀ e ∈ t, BudgetTracker.InPeriod P e) (k : LedgerKey) :
    tally (moved k) t = (if r.isOk ∧ k = .key (settings.hashKey apiKey) P then w else 0)
      + tally (stranded k) t := by
  cases h with
  | unneeded hw => simp [hw]
  | claim h => exact h.moved_eq hw hP k
  | refused reason h =>
    rw [tally_append, tally_append, h.moved_eq hw fun e he => hP e (List.mem_append_left _ he)]
    simp [Except.isOk, Except.toBool]

theorem KeyRun.provider (h : KeyRun settings apiKey w t r) (p : String) :
    tally (moved (.provider p)) t = 0 ∧ tally (stranded (.provider p)) t = 0 := by
  cases h with
  | unneeded hw => exact ⟨rfl, rfl⟩
  | claim h => exact h.provider p
  | refused reason h => simpa using h.provider p

theorem KeyRun.leaked_eq (h : KeyRun settings apiKey w t r) (l : Ledger) :
    tally (leaked l) t = tally (excused l) t := by
  cases h with
  | unneeded hw => rfl
  | claim h => exact h.leaked_eq l
  | refused reason h =>
    rw [tally_append, tally_append, h.leaked_eq]
    simp [idle_refused.leaked, idle_refused.excused]

theorem KeyRun.calls_eq (h : KeyRun settings apiKey w t r) : calls t = [] := by
  cases h with
  | unneeded hw => rfl
  | claim h => exact h.calls_eq
  | refused reason h => rw [calls_append, h.calls_eq]; rfl

end KeyRun

/-! ## The whole function -/

/-- The runs of the body of the `try`, from no reservations to `s'`. -/
inductive BodyRun (settings : Settings) (apiKey : String) :
    List Ev → Except Exc Unit → ReserveLocals → Prop
  | stopped {t : List Ev} {s' : ReserveLocals} {e : Exc} (h : Recorded {} t s') :
      BodyRun settings apiKey t (.error e) s'
  | share {t t' : List Ev} {r : Except Exc Unit} {s' : ReserveLocals} (h : Recorded {} t s')
      (hk : KeyRun settings apiKey s'.reservations.total t' r) :
      BodyRun settings apiKey (t ++ t') r s'

theorem wp_reserveBody (chainName : String) :
    (reserveBody settings chainName chars maxOutput requestId apiKey).wp Healthy {} fun t r s' =>
      BodyRun settings apiKey t r s' := by
  unfold reserveBody
  split
  · exact .stopped (.of_eq rfl)
  · next chain _ =>
    rw [Coro.wp_bind]
    refine Coro.wp_mono (wp_reserveHops chain {}) fun t r s₁ _ h => ?_
    match r with
    | .error e => exact .stopped h
    | .ok () =>
      dsimp only
      rw [Coro.wp_bind]
      refine Coro.wp_mono (wp_refuseUnusable chain s₁) fun t' r s' _ h' => ?_
      obtain ⟨rfl, hidle, hnil⟩ := h'
      match r with
      | .error e => exact .stopped (h.trans (.idle hidle rfl))
      -- a chain that was let through left no event, so the share follows the loop directly
      | .ok () =>
        refine Coro.wp_mono (wp_reserveKey s') fun t'' r s'' _ h'' => ?_
        obtain ⟨rfl, hkey⟩ := h''
        rw [hnil rfl, List.nil_append]
        exact .share h hkey

/-- After the body, every ledger has moved by what is recorded, the caller's share if it was
claimed, and what a failing command stranded. -/
theorem BodyRun.moved_eq {t : List Ev} {r : Except Exc Unit} {s' : ReserveLocals} {P : ℤ}
    (h : BodyRun settings apiKey t r s') (hP : ∀ e ∈ t, BudgetTracker.InPeriod P e) (k : LedgerKey) :
    tally (moved k) t = s'.recorded k
      + (if r.isOk ∧ k = .key (settings.hashKey apiKey) P then s'.reservations.total else 0)
      + tally (stranded k) t := by
  have hempty : ReserveLocals.recorded {} k = 0 := by cases k <;> rfl
  cases h with
  | stopped h => simp [h.moved, hempty, Except.isOk, Except.toBool]
  | share h hk =>
    have hkey := hk.moved_eq h.total (fun e he => hP e (List.mem_append_right _ he)) k
    rw [tally_append, tally_append, h.moved, hkey, hempty]
    ring

/-- The ledgers of the providers do not depend on the period. -/
theorem BodyRun.provider {t : List Ev} {r : Except Exc Unit} {s' : ReserveLocals}
    (h : BodyRun settings apiKey t r s') (p : String) :
    tally (moved (.provider p)) t = s'.recorded (.provider p)
      + tally (stranded (.provider p)) t := by
  cases h with
  | stopped h => simp [h.moved, ReserveLocals.recorded]
  | share h hk => simp [h.moved, hk.provider, ReserveLocals.recorded]

theorem BodyRun.recorded {t : List Ev} {r : Except Exc Unit} {s' : ReserveLocals}
    (h : BodyRun settings apiKey t r s') :
    0 ≤ s'.reservations.total ∧ ∀ p ∈ FREE_PROVIDERS, p ∉ s'.reservations := by
  cases h with
  | stopped h | share h hk =>
    exact ⟨h.total, fun p hp hmem => OrderedDict.not_mem_empty (h.free p hp hmem)⟩

theorem BodyRun.calls_eq {t : List Ev} {r : Except Exc Unit} {s' : ReserveLocals}
    (h : BodyRun settings apiKey t r s') : calls t = [] := by
  cases h with
  | stopped h => exact h.calls
  | share h hk => rw [calls_append, h.calls, hk.calls_eq, List.append_nil]

theorem BodyRun.leaked_eq {t : List Ev} {r : Except Exc Unit} {s' : ReserveLocals}
    (h : BodyRun settings apiKey t r s') (l : Ledger) : tally (leaked l) t = tally (excused l) t := by
  cases h with
  | stopped h => exact h.leaked l
  | share h hk => rw [tally_append, tally_append, h.leaked, hk.leaked_eq]

/-- Settling what is recorded at no cost takes all of it back. -/
theorem recorded_add_settlement {s : ReserveLocals}
    (hfree : ∀ p ∈ FREE_PROVIDERS, p ∉ s.reservations) (k : LedgerKey) :
    s.recorded k + settlement s.reservations "" 0 k = 0 := by
  cases k with
  | key h P => simp [ReserveLocals.recorded, settlement_key]
  | provider p =>
    rw [ReserveLocals.recorded, settlement_provider]
    by_cases hmem : p ∈ s.reservations
    · have hp : p ∉ FREE_PROVIDERS := fun h => hfree p h hmem
      simp [hmem, hp]
    · simp [hmem, OrderedDict.getD_of_not_mem hmem]

/-- The runs of `_reserve_chain`: the body returned, or it raised and what it recorded was handed
back. -/
inductive ChainRun (settings : Settings) (apiKey : String) :
    List Ev → Except Exc (OrderedDict String ℚ × Finset String) → Prop
  | returned {t : List Ev} {s' : ReserveLocals} (h : BodyRun settings apiKey t (.ok ()) s') :
      ChainRun settings apiKey t (.ok (s'.reservations, s'.skip))
  | unwound {t t' : List Ev} {s' : ReserveLocals} {e e' : Exc}
      (h : BodyRun settings apiKey t (.error e) s')
      (hu : Interrupted t' ∨ ∀ k, tally (asked k) t' = settlement s'.reservations "" 0 k)
      {cs : List Call} (hc : Settles s'.reservations "" 0 cs) (hrec : Records t' cs) :
      ChainRun settings apiKey (t ++ t') (.error e')

theorem wp_reserveChain (chainName : String) (messages : List ChatMessage)
    (params : Option SamplingParams) {s : σ} :
    (reserveChain settings chainName messages params requestId apiKey).wp Healthy s fun t r s' =>
      s' = s ∧ ChainRun settings apiKey t r := by
  refine wp_reserveChain_of (wp_reserveBody chainName) (fun t s' h => ⟨rfl, .returned h⟩)
    fun t e s' h => wp_unwind_of ?_
  -- the handler runs on every exception, so what was recorded is settled at nothing
  refine Coro.wp_mono (Coro.wp_and wp_settleProviders calls_settleProviders) fun t' _ _ _ h' => ?_
  obtain ⟨⟨-, -, hu⟩, -, -, cs, hc, hrec⟩ := h'
  exact fun _ _ _ => ⟨rfl, .unwound h hu hc hrec⟩

end LlmGateway
