import LlmGateway.Gateway.Redis
import LlmGateway.Main.ReserveRun

/-!
# Which chains are refused

When no Redis command fails, what becomes of each hop of a chain is decided by the price table and
the ledgers `_reserve_chain` finds: it is free, it has no price, it does not fit under the ceiling,
or its worst case is reserved. The refusal compares a number of hops with a number of providers, and
the skip set holds providers, so both are right only for chains in which the hops of a provider do
not get in each other's way.
-/

namespace LlmGateway

open Coroutine

variable {σ : Type} {settings : Settings} {chars maxOutput : ℕ} {requestId apiKey : String}

/-! ## The fate of each hop -/

/-- What becomes of a hop of a chain. -/
inductive Fate where
  | free
  | unpriced
  | exhausted
  | reserved (cost : ℚ)
  deriving DecidableEq

/-- The hop is billable and nothing was reserved for it. -/
def Fate.missed : Fate → Bool
  | .unpriced | .exhausted => true
  | _ => false

/-- A reservation was obtained for the hop. -/
def Fate.isReserved : Fate → Bool
  | .reserved _ => true
  | _ => false

/-- What becomes of a hop that finds the ledgers at `L`. -/
def hopFate (settings : Settings) (chars maxOutput : ℕ) (L : Ledgers) (hop : String × String) :
    Fate :=
  if hop.1 ∈ FREE_PROVIDERS then .free
  else
    match hopCost settings chars maxOutput hop with
    | .error _ => .unpriced
    | .ok cost =>
      if cost ≤ 0 ∨ L (.provider hop.1) + cost ≤ settings.providerLifetimeBudgetUsd then
        .reserved cost
      else .exhausted

/-- The ledgers after a hop of the provider. -/
def Fate.claim (L : Ledgers) (provider : String) : Fate → Ledgers
  | .reserved cost => Function.update L (.provider provider) (L (.provider provider) + cost)
  | _ => L

/-- A hop leaves the ledgers of the callers alone. -/
@[simp] theorem Fate.claim_key {fate : Fate} {L : Ledgers} {provider keyHash : String} {P : ℤ} :
    fate.claim L provider (.key keyHash P) = L (.key keyHash P) := by
  cases fate <;> simp [Fate.claim]

/-- What becomes of the hops of a chain, with the provider of each. -/
def fates (settings : Settings) (chars maxOutput : ℕ) : Ledgers → Chain → List (String × Fate)
  | _, [] => []
  | L, hop :: rest =>
    let fate := hopFate settings chars maxOutput L hop
    (hop.1, fate) :: fates settings chars maxOutput (fate.claim L hop.1) rest

/-- What `_reserve_chain` records of a hop. -/
def ReserveLocals.record (s : ReserveLocals) : String × Fate → ReserveLocals
  | (_, .free) => s
  | (p, .unpriced) =>
    { s with billable := s.billable + 1, skip := insert p s.skip, unpriced := insert p s.unpriced }
  | (p, .exhausted) => { s with billable := s.billable + 1, skip := insert p s.skip }
  | (p, .reserved cost) =>
    { s with billable := s.billable + 1, reservations := s.reservations.addTo p cost }

/-! ## The loop over the chain -/

/-- A claim that does not fit under the ceiling is the only one refused. -/
theorem ProviderBudget.ReserveRun.error_of_sound {capUsd w : ℚ} {p : String} {t : List Ev} {e : Exc}
    (h : ProviderBudget.ReserveRun capUsd p w t (.error e)) (hA : ∀ e ∈ t, Sound e) :
    ∃ spent, e = .exception (.providerBudgetExhausted p spent capUsd) := by
  have hfailed : ∀ e ∈ t, failed e = false := fun e he => (hA e he).2
  cases h with
  | unanswered _ hw e a => cases hfailed _ (.head _)
  | refused _ hw total total' hle => exact ⟨_, rfl⟩
  | leaked _ hw total hle e a => cases hfailed _ (.tail _ (.head _))
  | interrupted _ hw total hle e he a => cases hfailed _ (.tail _ (.head _))

/-- A claim that fits is on the ledger, and one that does not leaves no trace on it. -/
theorem ProviderBudget.ReserveRun.sound {capUsd w : ℚ} {p : String} {t : List Ev}
    {r : Except Exc Unit} {L L' : Ledgers} (h : ProviderBudget.ReserveRun capUsd p w t r)
    (hp : p ∉ FREE_PROVIDERS) (hw : 0 ≤ w) (hA : ∀ e ∈ t, Sound e)
    (hL : (redis Sound).Evolves L t L') :
    if w ≤ 0 ∨ L (.provider p) + w ≤ capUsd then
      r = .ok () ∧ L' = Function.update L (.provider p) (L (.provider p) + w)
    else r ≠ .ok () ∧ L' = L := by
  have hfailed : ∀ e ∈ t, failed e = false := fun e he => (hA e he).2
  cases h with
  | exempt hx =>
    have hzero : w ≤ 0 := hx.resolve_left hp
    obtain rfl := World.Evolves.nil_iff.mp hL
    rw [if_pos (.inl hzero)]
    exact ⟨rfl, by simp [le_antisymm hzero hw]⟩
  | admitted _ hw total hle =>
    obtain ⟨rfl, hrest⟩ := evolves_incrbyfloat hL
    rw [if_pos (.inr hle)]
    exact ⟨rfl, evolves_still hrest fun e he => (published_still _ e he).moved⟩
  | unanswered _ hw e a => cases hfailed _ (.head _)
  | refused _ hw total total' hle =>
    obtain ⟨rfl, hrest⟩ := evolves_incrbyfloat hL
    obtain ⟨-, hrest⟩ := evolves_incrbyfloat hrest
    have hover : ¬ (w ≤ 0 ∨ L (.provider p) + w ≤ capUsd) := not_or.mpr ⟨hw.not_ge, hle⟩
    rw [if_neg hover, evolves_still hrest fun e he => (published_still _ e he).moved]
    simp [ProviderBudget.key]
  | leaked _ hw total hle e a => cases hfailed _ (.tail _ (.head _))
  | interrupted _ hw total hle e he a => cases hfailed _ (.tail _ (.head _))

theorem wp_reserveHop_sound (hop : String × String) (s : ReserveLocals) :
    (reserveHop settings chars maxOutput hop).wp Sound s fun t r s' => ∀ L L' : Ledgers,
      (redis Sound).Evolves L t L' →
        r = .ok () ∧ s' = s.record (hop.1, hopFate settings chars maxOutput L hop) ∧
          L' = (hopFate settings chars maxOutput L hop).claim L hop.1 := by
  refine wp_reserveHop_of (fun hfree L L' hL => ?_) (fun hfree hcost L L' hL => ?_)
    fun cost hfree hcost => ?_
  · have hfate : hopFate settings chars maxOutput L hop = .free := if_pos hfree
    rw [hfate]
    exact ⟨rfl, rfl, World.Evolves.nil_iff.mp hL⟩
  · have hfate : hopFate settings chars maxOutput L hop = .unpriced := by
      simp only [hopFate, if_neg hfree, hcost]
    rw [hfate]
    exact ⟨rfl, rfl, World.Evolves.nil_iff.mp hL⟩
  · have hfate : ∀ L : Ledgers, hopFate settings chars maxOutput L hop
        = if cost ≤ 0 ∨ L (.provider hop.1) + cost ≤ settings.providerLifetimeBudgetUsd then
            .reserved cost else .exhausted := fun L => by
      simp only [hopFate, if_neg hfree, hcost]
    refine Coro.wp_mono (Coro.wp_anti ProviderBudget.wp_reserve fun _ h => h.1)
      fun t r s₁ hA h => ?_
    obtain ⟨rfl, hrun⟩ := h
    refine ⟨?_, ?_, ?_⟩
    · rintro rfl L L' hL
      have hsound := hrun.sound hfree (hopCost_nonneg hcost) hA hL
      rw [hfate]
      by_cases hfit : cost ≤ 0 ∨ L (.provider hop.1) + cost ≤ settings.providerLifetimeBudgetUsd
      · rw [if_pos hfit] at hsound ⊢
        exact ⟨rfl, rfl, hsound.2⟩
      · rw [if_neg hfit] at hsound
        exact absurd rfl hsound.1
    · rintro p spent cap rfl L L' hL
      have hsound := hrun.sound hfree (hopCost_nonneg hcost) hA hL
      rw [hfate]
      by_cases hfit : cost ≤ 0 ∨ L (.provider hop.1) + cost ≤ settings.providerLifetimeBudgetUsd
      · rw [if_pos hfit] at hsound
        cases hsound.1
      · rw [if_neg hfit] at hsound ⊢
        exact ⟨rfl, rfl, hsound.2⟩
    · rintro e rfl hother
      obtain ⟨spent, rfl⟩ := hrun.error_of_sound hA
      exact absurd rfl (hother _ _ _)

theorem wp_reserveHops_sound (chain : Chain) (s : ReserveLocals) :
    (reserveHops settings chars maxOutput chain).wp Sound s fun t r s' => ∀ L L' : Ledgers,
      (redis Sound).Evolves L t L' →
        r = .ok () ∧ s' = (fates settings chars maxOutput L chain).foldl ReserveLocals.record s ∧
          ∀ h P, L' (.key h P) = L (.key h P) := by
  induction chain generalizing s with
  | nil =>
    refine Coro.wp_pure.mpr fun L L' hL => ?_
    rw [World.Evolves.nil_iff.mp hL]
    exact ⟨rfl, rfl, fun _ _ => rfl⟩
  | cons hop rest ih =>
    rw [reserveHops, Coro.wp_bind]
    refine Coro.wp_mono (wp_reserveHop_sound hop s) fun t r s₁ _ hhop => ?_
    cases r with
    | error e =>
      intro L L' hL
      cases (hhop L L' hL).1
    | ok u =>
      refine Coro.wp_mono (ih s₁) fun t' r' s' _ hrest L L' hL => ?_
      obtain ⟨L₁, hL₁, hL'⟩ := World.Evolves.append_iff.mp hL
      obtain ⟨-, rfl, rfl⟩ := hhop L L₁ hL₁
      obtain ⟨hr, hs, hkey⟩ := hrest _ L' hL'
      exact ⟨hr, hs, fun h P => (hkey h P).trans Fate.claim_key⟩

/-! ## The refusal and the caller's share -/

/-- A chain is refused: no billable hop is free, and there are as many providers to skip as billable
hops. -/
def ReserveLocals.Unusable (s : ReserveLocals) (chain : Chain) : Prop :=
  s.billable ≠ 0 ∧ s.skip.card = s.billable ∧ ¬ chain.any (·.1 ∈ FREE_PROVIDERS)

/-- The status of the refusal. -/
def ReserveLocals.statusCode (s : ReserveLocals) : ℕ :=
  if (s.skip \ s.unpriced).Nonempty then 402 else 503

/-- The chain was refused with this status. -/
def ChainRefused {α : Type} (statusCode : ℕ) (r : Except Exc α) : Prop :=
  ∃ error spent capUsd unpriced requestId, r = .error (.exception (.httpException {
    statusCode := statusCode, detail := .chainRefused error spent capUsd unpriced requestId }))

theorem wp_spent_sound {capUsd : ℚ} {p : String} {s : σ} :
    (ProviderBudget.spent capUsd p).wp Sound s fun _ r _ => ∃ total, r = .ok total := by
  rw [ProviderBudget.spent, Coro.wp_bind, wp_get_iff]
  rintro (total | ⟨e, a⟩) hget
  · dsimp only [Sent.toExcept]
    rw [Coro.wp_bind]
    exact Coro.wp_anti (ProviderBudget.wp_publish.mpr ⟨total, rfl⟩) fun _ h => h.1
  · cases hget.2

theorem wp_snapshot_sound {capUsd : ℚ} {s : σ} (providers : List String) :
    (ProviderBudget.snapshot capUsd providers).wp Sound s fun _ r _ => ∃ spent, r = .ok spent := by
  induction providers generalizing s with
  | nil => exact ⟨[], rfl⟩
  | cons p rest ih =>
    rw [ProviderBudget.snapshot, Coro.wp_bind]
    refine Coro.wp_mono wp_spent_sound fun t r s' _ h => ?_
    obtain ⟨total, rfl⟩ := h
    dsimp only
    rw [Coro.wp_bind]
    refine Coro.wp_mono ih fun t' r' s'' _ h => ?_
    obtain ⟨others, rfl⟩ := h
    exact ⟨_, rfl⟩

theorem wp_refuseUnusable_sound (chain : Chain) (s : ReserveLocals) :
    (refuseUnusable settings chain requestId).wp Sound s fun _ r _ =>
      (s.Unusable chain ∧ ChainRefused s.statusCode r) ∨ (¬ s.Unusable chain ∧ r = .ok ()) := by
  rw [refuseUnusable, Coro.wp_bind, Coro.wp_locals]
  dsimp only
  rw [Coro.wp_ite]
  refine ⟨fun hunusable => ?_, fun husable => .inr ⟨husable, rfl⟩⟩
  rw [Coro.wp_bind, wp_metric_iff]
  intro r hr
  obtain rfl : r = .ok () := hr.1
  dsimp only [Except.mapError]
  rw [Coro.wp_bind]
  refine Coro.wp_mono (wp_snapshot_sound _) fun t' r' s' _ h => ?_
  obtain ⟨spent, rfl⟩ := h
  exact .inl ⟨hunusable, _, spent, _, _, requestId, rfl⟩

/-- A claim for which the caller's ledger has room goes through. -/
theorem BudgetTracker.ReserveRun.ok_of_room {hashKey : String → String} {capUsd w : ℚ} {t : List Ev}
    {r : Except Exc Unit} {L L' : Ledgers}
    (h : BudgetTracker.ReserveRun hashKey capUsd apiKey w t r) (hA : ∀ e ∈ t, Sound e)
    (hL : (redis Sound).Evolves L t L')
    (hroom : ∀ P, L (.key (hashKey apiKey) P) + w ≤ capUsd) : r = .ok () := by
  have hfailed : ∀ e ∈ t, failed e = false := fun e he => (hA e he).2
  have htotal : ∀ {now total : ℚ} {t' : List Ev},
      (redis Sound).Evolves L (applied hashKey apiKey w now (.ok total) ++ t') L' →
        total ≤ capUsd := by
    intro now total t' hL
    obtain ⟨L₁, htime, hrest⟩ := World.Evolves.cons_iff.mp hL
    rw [evolves_incrbyfloatExpire hrest, htime.2.1, moved_time, add_zero]
    exact hroom _
  cases h with
  | exempt hw => rfl
  | admitted hw now total hle => rfl
  | unanswered hw now e a => cases hfailed _ (.tail _ (.head _))
  | refused hw now total now' total' hle => exact absurd (htotal hL) hle
  | leaked hw now total now' hle e a => exact absurd (htotal hL) hle
  | interrupted hw now total now' hle e he a => exact absurd (htotal hL) hle

theorem wp_reserveKey_sound (s : ReserveLocals) :
    (reserveKey settings requestId apiKey).wp Sound s fun t r s' => ∀ L L' : Ledgers,
      (redis Sound).Evolves L t L' →
      (∀ P, L (.key (settings.hashKey apiKey) P) + s.reservations.total
        ≤ settings.monthlyBudgetUsdPerKey) → r = .ok () ∧ s' = s := by
  refine Coro.wp_mono (Coro.wp_anti (wp_reserveKey s) fun _ h => h.1) fun t r s' hA h => ?_
  obtain ⟨rfl, hrun⟩ := h
  intro L L' hL hroom
  refine ⟨?_, rfl⟩
  cases hrun with
  | unneeded hw => rfl
  | claim h => exact h.ok_of_room hA hL hroom
  | refused reason h =>
    obtain ⟨L₁, hL₁, -⟩ := World.Evolves.append_iff.mp hL
    cases h.ok_of_room (fun e he => hA e (List.mem_append_left _ he)) hL₁ hroom

/-! ## The whole function -/

/-- What `_reserve_chain` has recorded after the loop. -/
def recordedFates (fs : List (String × Fate)) : ReserveLocals := fs.foldl ReserveLocals.record {}

theorem wp_reserveBody_sound {chainName : String} {chain : Chain}
    (hchain : settings.fallbackChains.lookup chainName = some chain) :
    (reserveBody settings chainName chars maxOutput requestId apiKey).wp Sound {} fun t r s' =>
      ∀ L L' : Ledgers, (redis Sound).Evolves L t L' →
        (∀ P, L (.key (settings.hashKey apiKey) P)
          + (recordedFates (fates settings chars maxOutput L chain)).reservations.total
            ≤ settings.monthlyBudgetUsdPerKey) →
        s' = recordedFates (fates settings chars maxOutput L chain) ∧
          ((s'.Unusable chain ∧ ChainRefused s'.statusCode r) ∨
            (¬ s'.Unusable chain ∧ r = .ok ())) := by
  rw [reserveBody, hchain]
  dsimp only
  rw [Coro.wp_bind]
  refine Coro.wp_mono (wp_reserveHops_sound chain {}) fun t r s₁ _ hhops => ?_
  match r with
  | .error e =>
    intro L L' hL
    cases (hhops L L' hL).1
  | .ok () =>
    dsimp only
    rw [Coro.wp_bind]
    refine Coro.wp_mono (Coro.wp_and (Coro.wp_anti (wp_refuseUnusable chain s₁) fun _ h => h.1)
      (wp_refuseUnusable_sound chain s₁)) fun t' r' s₂ _ hrefuse => ?_
    obtain ⟨⟨rfl, hidle, -⟩, hrefuse⟩ := hrefuse
    match r' with
    | .error e =>
      intro L L' hL _
      obtain ⟨L₁, hL₁, -⟩ := World.Evolves.append_iff.mp hL
      exact ⟨(hhops L L₁ hL₁).2.1, hrefuse⟩
    | .ok () =>
      have husable := hrefuse.resolve_left fun ⟨_, _, _, _, _, _, h⟩ => nomatch h
      refine Coro.wp_mono (wp_reserveKey_sound s₂) fun t'' r'' s' _ hkey L L' hL hroom => ?_
      obtain ⟨L₁, hL₁, hL'⟩ := World.Evolves.append_iff.mp hL
      obtain ⟨L₂, hL₂, hL''⟩ := World.Evolves.append_iff.mp hL'
      obtain ⟨-, hs, hkeys⟩ := hhops L L₁ hL₁
      obtain rfl := evolves_still hL₂ fun e he => (hidle e he).moved
      obtain ⟨hr, rfl⟩ := hkey _ L' hL'' fun P => by
        rw [hkeys, hs]
        exact hroom P
      exact ⟨hs, .inr ⟨husable.1, hr⟩⟩

/-- With nothing to hand back, the unwinding raises what it was called with. -/
theorem wp_unwind_empty {A : Ev → Prop} {s : ReserveLocals} {e : Exc}
    (h : s.reservations.entries = []) :
    (unwind settings e).wp A s fun _ r _ => r = .error e := by
  simp [unwind, settleProviders, h, settleEach, settleUnreserved, raiseHeld]

/-! ## What the fates decide -/

theorem Fate.missed_iff {fate : Fate} :
    fate.missed = true ↔ fate ≠ .free ∧ fate.isReserved = false := by
  cases fate <;> simp [Fate.missed, Fate.isReserved]

theorem hopFate_eq_free_iff {L : Ledgers} {hop : String × String} :
    hopFate settings chars maxOutput L hop = .free ↔ hop.1 ∈ FREE_PROVIDERS := by
  unfold hopFate
  split
  · next hfree => simp [hfree]
  · next hfree =>
    simp only [hfree, iff_false]
    split
    · simp
    · split <;> simp

theorem free_mem_fates {L : Ledgers} {chain : Chain} :
    chain.any (·.1 ∈ FREE_PROVIDERS) = true ↔
      ∃ f ∈ fates settings chars maxOutput L chain, f.2 = .free := by
  induction chain generalizing L with
  | nil => simp [fates]
  | cons hop rest ih =>
    simp only [List.any_cons, Bool.or_eq_true, decide_eq_true_eq, fates, List.exists_mem_cons_iff,
      hopFate_eq_free_iff, ih (L := (hopFate settings chars maxOutput L hop).claim L hop.1)]

section Recorded

variable {fs : List (String × Fate)} {s : ReserveLocals} {p : String}

/-- A condition that each step of a fold can only add to holds in the end if it held before or one
of the steps added it. -/
theorem foldl_or_iff {α β : Type} {f : β → α → β} {m : β → Prop} {q : α → Prop}
    (hstep : ∀ b a, m (f b a) ↔ m b ∨ q a) (l : List α) (b : β) :
    m (l.foldl f b) ↔ m b ∨ ∃ a ∈ l, q a := by
  induction l generalizing b with
  | nil => simp
  | cons a l ih => rw [List.foldl_cons, ih, hstep, or_assoc, List.exists_mem_cons_iff]

theorem mem_skip : p ∈ (recordedFates fs).skip ↔ ∃ f ∈ fs, f.1 = p ∧ f.2.missed = true := by
  have hstep : ∀ (s : ReserveLocals) (f : String × Fate),
      p ∈ (s.record f).skip ↔ p ∈ s.skip ∨ (f.1 = p ∧ f.2.missed = true) := by
    rintro s ⟨q, fate⟩
    cases fate <;> simp [ReserveLocals.record, Fate.missed, or_comm, eq_comm]
  simpa [recordedFates] using foldl_or_iff (m := fun s : ReserveLocals => p ∈ s.skip) hstep fs {}

theorem mem_unpriced : p ∈ (recordedFates fs).unpriced ↔ (p, Fate.unpriced) ∈ fs := by
  have hstep : ∀ (s : ReserveLocals) (f : String × Fate),
      p ∈ (s.record f).unpriced ↔ p ∈ s.unpriced ∨ f = (p, .unpriced) := by
    rintro s ⟨q, fate⟩
    cases fate <;> simp [ReserveLocals.record, or_comm, eq_comm]
  simpa [recordedFates] using
    foldl_or_iff (m := fun s : ReserveLocals => p ∈ s.unpriced) hstep fs {}

theorem billable_eq :
    (recordedFates fs).billable = fs.countP (fun f => decide (f.2 ≠ .free)) := by
  have hall : ∀ (fs : List (String × Fate)) (s : ReserveLocals),
      (fs.foldl ReserveLocals.record s).billable
        = s.billable + fs.countP (fun f => decide (f.2 ≠ .free)) := by
    intro fs
    induction fs with
    | nil => simp
    | cons f fs ih =>
      intro s
      obtain ⟨q, fate⟩ := f
      cases fate <;> simp [ReserveLocals.record, ih, add_assoc, add_comm]
  exact (hall fs {}).trans (Nat.zero_add _)

theorem reservations_of_missed (h : ∀ f ∈ fs, f.2.missed = true) :
    (recordedFates fs).reservations = .empty := by
  have hall : ∀ (fs : List (String × Fate)) (s : ReserveLocals), (∀ f ∈ fs, f.2.missed = true) →
      (fs.foldl ReserveLocals.record s).reservations = s.reservations := by
    intro fs
    induction fs with
    | nil => exact fun _ _ => rfl
    | cons f fs ih =>
      rintro s h
      rw [List.forall_mem_cons] at h
      obtain ⟨q, fate⟩ := f
      rw [List.foldl_cons, ih _ h.2]
      cases fate with
      | reserved cost => cases h.1
      | _ => rfl
  exact hall fs {} h

/-- There are as many providers to skip as hops exactly when every hop is missed and no provider is
listed twice. -/
theorem card_skip_eq_length_iff :
    (recordedFates fs).skip.card = fs.length ↔
      (∀ f ∈ fs, f.2.missed = true) ∧ (fs.map Prod.fst).Nodup := by
  let missed := fs.filter fun f => f.2.missed
  have hskip : (recordedFates fs).skip = (missed.map Prod.fst).toFinset := by
    ext p
    simp [mem_skip, missed, and_assoc]
  have hcard : (missed.map Prod.fst).toFinset.card = (missed.map Prod.fst).length ↔
      (missed.map Prod.fst).Nodup :=
    Multiset.toFinset_card_eq_card_iff_nodup (m := Multiset.ofList (missed.map Prod.fst))
  have hlen : (missed.map Prod.fst).length = missed.length := List.length_map _
  have hle : (missed.map Prod.fst).toFinset.card ≤ missed.length :=
    (List.toFinset_card_le _).trans hlen.le
  have hfilter : missed.length ≤ fs.length := List.length_filter_le _ _
  rw [hskip]
  constructor
  · intro h
    have hall : ∀ f ∈ fs, f.2.missed = true :=
      List.length_filter_eq_length_iff.mp (le_antisymm hfilter (h.symm.trans_le hle))
    have hself : missed = fs := List.filter_eq_self.mpr hall
    rw [hself] at hcard hlen h
    exact ⟨hall, hcard.mp (h.trans hlen.symm)⟩
  · rintro ⟨hall, hnodup⟩
    have hself : missed = fs := List.filter_eq_self.mpr hall
    rw [hself] at hcard hlen ⊢
    rw [hcard.mpr hnodup, hlen]

theorem unusable_iff {chain : Chain}
    (hfree : chain.any (·.1 ∈ FREE_PROVIDERS) = true ↔ ∃ f ∈ fs, f.2 = .free) :
    (recordedFates fs).Unusable chain ↔
      fs ≠ [] ∧ (∀ f ∈ fs, f.2.missed = true) ∧ (fs.map Prod.fst).Nodup := by
  have hbillable : (∀ f ∈ fs, f.2 ≠ .free) → (recordedFates fs).billable = fs.length := fun h => by
    rw [billable_eq, List.countP_eq_length]
    simpa using h
  rw [ReserveLocals.Unusable, hfree, ← card_skip_eq_length_iff]
  constructor
  · rintro ⟨hne, hcard, hnofree⟩
    rw [hbillable fun f hf hfree => hnofree ⟨f, hf, hfree⟩] at hne hcard
    exact ⟨fun hnil => hne (by simp [hnil]), hcard⟩
  · rintro ⟨hne, hcard⟩
    have hnofree : ∀ f ∈ fs, f.2 ≠ .free := fun f hf =>
      (Fate.missed_iff.mp ((card_skip_eq_length_iff.mp hcard).1 f hf)).1
    rw [hbillable hnofree]
    exact ⟨by simpa using hne, hcard, fun ⟨f, hf, hfree⟩ => hnofree f hf hfree⟩

end Recorded

/-- What `_reserve_chain` ends in is what the fates of the hops decide. -/
theorem reserveChain_of_fates {chainName : String} {chain : Chain} {messages : List ChatMessage}
    {params : Option SamplingParams} {s : σ}
    (hchain : settings.fallbackChains.lookup chainName = some chain) :
    (reserveChain settings chainName messages params requestId apiKey).wp Sound s fun t r _ =>
      ∀ L L' : Ledgers, (redis Sound).Evolves L t L' →
        let fs := fates settings (promptChars messages) (maxOut params) L chain
        let s' := recordedFates fs
        (∀ P, L (.key (settings.hashKey apiKey) P) + s'.reservations.total
            ≤ settings.monthlyBudgetUsdPerKey) →
        (s'.Unusable chain ∧ ChainRefused s'.statusCode r) ∨
          (¬ s'.Unusable chain ∧ r = .ok (s'.reservations, s'.skip)) := by
  refine wp_reserveChain_of (wp_reserveBody_sound hchain) (fun t s₁ hbody => ?_)
    fun t e s₁ hbody => ?_
  · intro L L' hL fs s' hroom
    obtain ⟨rfl, hdone⟩ := hbody L L' hL hroom
    have husable := hdone.resolve_left fun ⟨_, _, _, _, _, _, h⟩ => nomatch h
    exact .inr ⟨husable.1, rfl⟩
  · refine Coro.wp_mono (Coro.wp_imp wp_unwind_empty) fun t' r' s₂ _ hraise => ?_
    rintro e' rfl L L' hL fs s' hroom
    obtain ⟨L₁, hL₁, -⟩ := World.Evolves.append_iff.mp hL
    obtain ⟨rfl, hdone⟩ := hbody L L₁ hL₁ hroom
    obtain ⟨hunusable, error, spent, cap, names, rid, heq⟩ :=
      hdone.resolve_right fun h => nomatch h.2
    have hmissed := ((unusable_iff free_mem_fates).mp hunusable).2.1
    cases hraise (by rw [reservations_of_missed hmissed]; rfl)
    cases heq
    exact .inl ⟨hunusable, error, spent, cap, names, rid, rfl⟩

/-! ## When the decision is right -/

/-- A chain is refused when it has no free hop and none of its hops got a reservation, for a lack of
budget if there was one, and the providers skipped are otherwise those that got none. -/
structure RefusalDecided (fs : List (String × Fate))
    (r : Except Exc (OrderedDict String ℚ × Finset String)) : Prop where
  refused_iff : (∃ statusCode, ChainRefused statusCode r) ↔
    (∀ f ∈ fs, f.2 ≠ .free) ∧ ∀ f ∈ fs, f.2.isReserved = false
  statusCode_eq : ∀ statusCode, ChainRefused statusCode r →
    statusCode = if ∃ f ∈ fs, f.2 = .exhausted then 402 else 503
  mem_skip_iff : ∀ x, r = .ok x → ∀ p, p ∈ x.2 ↔
    (∃ f ∈ fs, f.1 = p ∧ f.2 ≠ .free) ∧ ∀ f ∈ fs, f.1 = p → f.2.isReserved = false

/-- No hop is free or got a reservation, and a provider is listed twice. -/
def Relisted (fs : List (String × Fate)) : Prop :=
  (∀ f ∈ fs, f.2.missed = true) ∧ ¬ (fs.map Prod.fst).Nodup

/-- A provider got a reservation for one hop and none for another. -/
def HalfReserved (fs : List (String × Fate)) : Prop :=
  ∃ f ∈ fs, ∃ f' ∈ fs, f.1 = f'.1 ∧ f.2.missed = true ∧ f'.2.isReserved = true

theorem statusCode_eq {fs : List (String × Fate)} (h : (fs.map Prod.fst).Nodup) :
    (recordedFates fs).statusCode = if ∃ f ∈ fs, f.2 = .exhausted then 402 else 503 := by
  have hexhausted : ((recordedFates fs).skip \ (recordedFates fs).unpriced).Nonempty ↔
      ∃ f ∈ fs, f.2 = .exhausted := by
    constructor
    · rintro ⟨p, hp⟩
      rw [Finset.mem_sdiff, mem_skip, mem_unpriced] at hp
      obtain ⟨⟨⟨q, fate⟩, hf, rfl, hmissed⟩, hpriced⟩ := hp
      cases fate with
      | unpriced => exact absurd hf hpriced
      | exhausted => exact ⟨_, hf, rfl⟩
      | free | reserved => cases hmissed
    · rintro ⟨⟨p, fate⟩, hf, rfl⟩
      refine ⟨p, Finset.mem_sdiff.mpr ⟨mem_skip.mpr ⟨_, hf, rfl, rfl⟩, fun hunpriced => ?_⟩⟩
      -- the provider is listed once, so with one fate
      cases List.inj_on_of_nodup_map h hf (mem_unpriced.mp hunpriced) rfl
  simp only [ReserveLocals.statusCode, hexhausted]

theorem ChainRefused.statusCode_eq {α : Type} {r : Except Exc α} {code code' : ℕ}
    (h : ChainRefused code r) (h' : ChainRefused code' r) : code = code' := by
  obtain ⟨_, _, _, _, _, rfl⟩ := h
  obtain ⟨_, _, _, _, _, heq⟩ := h'
  cases heq
  rfl

/-- A deployment with one chain. -/
def deployment (chain : Chain) : Settings :=
  { hashKey := id, fallbackChains := [("default", chain)] }

/-- Reserving for a short prompt on it, from empty ledgers. -/
def reserved (chain : Chain) :
    List Ev × (Except Exc (OrderedDict String ℚ × Finset String) × Unit) × Ledgers :=
  (reserveChain (deployment chain) "default" [⟨"user", "hi!"⟩] none "r" "k" ()).drive (answer calm)
    fun _ => 0

/-- What becomes of the hops. -/
def reservedFates (chain : Chain) : List (String × Fate) :=
  fates (deployment chain) (promptChars [⟨"user", "hi!"⟩]) (maxOut none) (fun _ => 0) chain

theorem evolves_reserved (chain : Chain) :
    (redis Sound).Evolves (fun _ => 0) (reserved chain).1 (reserved chain).2.2 :=
  Pool.evolves_drive (redis_answer fun L c => sound_answer L c healthy_calm) _ _

/-- A provider listed twice with both hops reserved, and one without a price. -/
def mixedChain : Chain :=
  [("openai", "gpt-4o-mini"), ("openai", "gpt-4o"), ("anthropic", "unknown")]

/-- A provider listed twice with no price for either hop. -/
def unpricedChain : Chain := [("openai", "unknown"), ("openai", "other")]

/-- A provider listed twice with a price for one of the hops. -/
def halfChain : Chain := [("openai", "gpt-4o-mini"), ("openai", "unknown")]

/-- The providers the router is told to skip. -/
def skipped : Except Exc (OrderedDict String ℚ × Finset String) → Finset String
  | .ok x => x.2
  | .error _ => ∅

end LlmGateway
