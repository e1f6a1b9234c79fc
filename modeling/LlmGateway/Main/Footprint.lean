import LlmGateway.Gateway.Footprint
import LlmGateway.Main.ReserveChain

/-!
# What reserving and settling issue

Both talk to the ledgers, the clock and the metrics only. Settling also records its calls, which
reserving does not before it unwinds, and reserving leaves its locals to the loop over the chain.
-/

namespace LlmGateway

open Coroutine

variable {σ : Type} {settings : Settings} {requestId apiKey : String} {B : Cmd → Prop}

theorem ProviderBudget.only_publish {capUsd total : ℚ} {provider : String}
    (hspent : ∀ v, B (.metric (.providerBudgetSpent provider v)))
    (hremaining : ∀ v, B (.metric (.providerBudgetRemaining provider v))) :
    (ProviderBudget.publish capUsd provider total : Py σ Unit).Only B :=
  .ite (fun _ => .pure) fun _ => .bind (only_metric (hspent _)) fun _ => only_metric (hremaining _)

theorem BudgetTracker.only_apply {hashKey : String → String} {d : ℚ} (htime : B .time)
    (hincr : ∀ k d n, B (.incrbyfloatExpire k d n)) :
    (BudgetTracker.apply hashKey apiKey d : Py σ ℚ).Only B :=
  .bind (.bind (only_time htime) fun _ => .pure) fun _ => only_incrbyfloatExpire (hincr _ _ _)

/-! ## Reserving -/

section Reserve

variable (h : ∀ c : Cmd, c.Claiming → B c)
include h

theorem ProviderBudget.only_snapshot {capUsd : ℚ} (providers : List String) :
    (ProviderBudget.snapshot capUsd providers : Py σ _).Only B := by
  have hspent : ∀ p, (ProviderBudget.spent capUsd p : Py σ ℚ).Only B := fun p =>
    .bind (.bind (.perform (h _ trivial)) fun _ => .ofExcept) fun _ =>
      .bind (only_publish (fun _ => h _ trivial) fun _ => h _ trivial) fun _ => .pure
  induction providers with
  | nil => exact .pure
  | cons p rest ih => exact .bind (hspent p) fun _ => .bind ih fun _ => .pure

theorem ProviderBudget.only_reserve {capUsd w : ℚ} {provider : String} :
    (ProviderBudget.reserve capUsd provider w : Py σ Unit).Only B := by
  have hpublish : ∀ total, (ProviderBudget.publish capUsd provider total : Py σ Unit).Only B :=
    fun _ => only_publish (fun _ => h _ trivial) fun _ => h _ trivial
  refine .ite (fun _ => .pure) fun _ => .bind (only_incrbyfloat (h _ trivial)) fun total =>
    .ite (fun _ => hpublish _) fun _ => .bind ?_ fun _ => only_throw
  exact only_tryExceptElse (only_incrbyfloat (h _ trivial))
    (fun _ => .bind (only_metric (h _ trivial)) fun _ => hpublish _) fun _ => hpublish _

theorem BudgetTracker.only_reserve {hashKey : String → String} {capUsd w : ℚ} :
    (BudgetTracker.reserve hashKey capUsd apiKey w : Py σ Unit).Only B := by
  have happly : ∀ d, (BudgetTracker.apply hashKey apiKey d : Py σ ℚ).Only B := fun _ =>
    only_apply (h _ trivial) fun _ _ _ => h _ trivial
  refine .ite (fun _ => .pure) fun _ => .bind (happly _) fun total =>
    .ite (fun _ => .pure) fun _ => .bind ?_ fun _ => only_throw
  exact only_tryExceptElse (happly _) (fun _ => only_metric (h _ trivial)) fun _ => .pure

theorem only_reserveHops [Rounding] {chars maxOutput : ℕ} (chain : Chain) :
    (reserveHops settings chars maxOutput chain).Only B := by
  induction chain with
  | nil => exact .pure
  | cons hop rest ih =>
    refine .bind (.ite (fun _ => .pure) fun _ => .bind .update fun _ => ?_) fun _ => ih
    refine .attemptElse .ofExcept (fun x c hc => ?_) fun cost =>
      .attempt (.bind (ProviderBudget.only_reserve h) fun _ => .update) fun x c hc => ?_
    · split at hc
      · obtain rfl := Option.some.inj hc
        exact .update
      · cases hc
    · split at hc
      · obtain rfl := Option.some.inj hc
        exact .update
      · cases hc

theorem only_reserveBody [Rounding] {chainName : String} {chars maxOutput : ℕ} :
    (reserveBody settings chainName chars maxOutput requestId apiKey).Only B := by
  unfold reserveBody
  split
  · exact only_throw
  · refine .bind (only_reserveHops h _) fun _ => .bind (.bind .locals fun s => ?_) fun _ =>
      .bind .locals fun s => ?_
    · exact .ite (fun _ => .bind (only_metric (h _ trivial)) fun _ =>
        .bind (ProviderBudget.only_snapshot h _) fun _ => only_throw) fun _ => .pure
    · refine .ite (fun _ => .attempt (BudgetTracker.only_reserve h) fun x c hc => ?_) fun _ => .pure
      split at hc
      · obtain rfl := Option.some.inj hc
        exact .bind (only_metric (h _ trivial)) fun _ => only_throw
      · cases hc

end Reserve

/-! ## Settling -/

section Settle

variable (h : ∀ c : Cmd, c.Accounting → B c)
include h

theorem ProviderBudget.only_settle [Rounding] {capUsd reservedUsd actualUsd : ℚ} {provider : String} :
    (ProviderBudget.settle capUsd provider reservedUsd actualUsd : Py σ Unit).Only B :=
  .bind (only_log (h _ trivial)) fun _ => .ite (fun _ => .pure) fun _ => .ite (fun _ => .pure)
    fun _ => .bind (only_incrbyfloat (h _ trivial)) fun _ =>
      only_publish (fun _ => h _ trivial) fun _ => h _ trivial

theorem ProviderBudget.only_recordUnreserved {capUsd actualUsd : ℚ} {provider : String} :
    (ProviderBudget.recordUnreserved capUsd provider actualUsd : Py σ Unit).Only B :=
  .bind (only_log (h _ trivial)) fun _ => .ite (fun _ => .pure) fun _ =>
    .bind (only_incrbyfloat (h _ trivial)) fun _ =>
      only_publish (fun _ => h _ trivial) fun _ => h _ trivial

theorem BudgetTracker.only_settle [Rounding] {hashKey : String → String} {reservedUsd actualUsd : ℚ} :
    (BudgetTracker.settle hashKey apiKey reservedUsd actualUsd : Py σ Unit).Only B :=
  .bind (only_log (h _ trivial)) fun _ => .ite (fun _ => .pure) fun _ =>
    only_tryExceptElse (only_apply (h _ trivial) fun _ _ _ => h _ trivial) (fun _ => .pure)
      fun _ => .pure

theorem only_settleEach [Rounding] {servedProvider : String} {actualUsd : ℚ} (es : List (String × ℚ)) :
    (settleEach settings servedProvider actualUsd es).Only B := by
  induction es with
  | nil => exact .pure
  | cons e es ih =>
    refine .bind (.attempt (ProviderBudget.only_settle h) fun x c hc => ?_) fun _ => ih
    cases x with
    | exception e =>
      obtain rfl := Option.some.inj hc
      exact .pure
    | interrupt => cases hc
    | cancelled | generatorExit =>
      obtain rfl := Option.some.inj hc
      exact .update

theorem only_settleProviders [Rounding] {servedProvider : String} {actualUsd : ℚ}
    {reservations : OrderedDict String ℚ} :
    (settleProviders settings reservations servedProvider actualUsd : Py σ Unit).Only B := by
  refine .scope (.bind (only_settleEach h _) fun _ => .bind ?_ fun _ => .bind .locals fun c => ?_)
  · exact .ite (fun _ => only_tryExcept (ProviderBudget.only_recordUnreserved h) fun _ => .pure)
      fun _ => .pure
  · cases c with
    | none => exact .pure
    | some e => exact .raise

theorem only_settleChain [Rounding] {servedProvider : String} {actualUsd : ℚ}
    {reservations : OrderedDict String ℚ} :
    (settleChain settings apiKey reservations servedProvider actualUsd : Py σ Unit).Only B :=
  .bind (only_log (h _ trivial)) fun _ =>
    .ensure (only_settleProviders h) (BudgetTracker.only_settle h)

end Settle

/-- `_reserve_chain` issues what reserving and, should it unwind, settling the providers does. -/
theorem only_reserveChain [Rounding] {chainName : String} {messages : List ChatMessage}
    {params : Option SamplingParams} (h : ∀ c : Cmd, c.Settling → B c) :
    (reserveChain settings chainName messages params requestId apiKey : Py σ _).Only B := by
  refine .scope (.bind (.attempt (only_reserveBody fun _ hc => h _ hc.settling) fun x c hc => ?_)
    fun _ => .bind .locals fun _ => .pure)
  obtain rfl := Option.some.inj hc
  exact .bind .locals fun _ =>
    .bind (only_settleProviders fun _ hc => h _ hc.settling) fun _ => .raise

/-! ## What leaves the locals of `_reserve_chain` to the loop -/

theorem keeps_metric {m : Metric} : (metric m : Py σ Unit).Keeps :=
  .bind .perform fun _ => .ofExcept

theorem ProviderBudget.keeps_publish {capUsd total : ℚ} {provider : String} :
    (publish capUsd provider total : Py σ Unit).Keeps :=
  .ite .pure (.bind keeps_metric fun _ => keeps_metric)

theorem keeps_tryExceptElse {α β : Type} {m : Py σ α} {h : PyError → Py σ β} {k : α → Py σ β}
    (hm : m.Keeps) (hh : ∀ e, (h e).Keeps) (hk : ∀ a, (k a).Keeps) :
    (tryExceptElse m h k).Keeps := by
  refine .attemptElse hm (fun x c hc => ?_) hk
  split at hc
  · obtain rfl := Option.some.inj hc
    exact hh _
  · cases hc

theorem ProviderBudget.keeps_reserve {capUsd w : ℚ} {provider : String} :
    (reserve capUsd provider w : Py σ Unit).Keeps := by
  have hincr : ∀ k d, (incrbyfloat k d : Py σ ℚ).Keeps := fun _ _ =>
    .bind .perform fun _ => .ofExcept
  refine .ite .pure (.bind (hincr _ _) fun total => .ite keeps_publish (.bind ?_ fun _ => .raise))
  exact keeps_tryExceptElse (hincr _ _) (fun _ => .bind keeps_metric fun _ => keeps_publish)
    fun _ => keeps_publish

theorem BudgetTracker.keeps_reserve {hashKey : String → String} {capUsd w : ℚ} :
    (reserve hashKey capUsd apiKey w : Py σ Unit).Keeps := by
  have happly : ∀ d, (BudgetTracker.apply hashKey apiKey d : Py σ ℚ).Keeps := fun _ =>
    .bind (.bind .perform fun _ => .pure) fun _ => .bind .perform fun _ => .ofExcept
  refine .ite .pure (.bind (happly _) fun total => .ite .pure (.bind ?_ fun _ => .raise))
  exact keeps_tryExceptElse (happly _) (fun _ => keeps_metric) fun _ => .pure

theorem ProviderBudget.keeps_snapshot {capUsd : ℚ} (providers : List String) :
    (snapshot capUsd providers : Py σ _).Keeps := by
  have hspent : ∀ p, (spent capUsd p : Py σ ℚ).Keeps := fun p =>
    .bind (.bind .perform fun _ => .ofExcept) fun _ => .bind keeps_publish fun _ => .pure
  induction providers with
  | nil => exact .pure
  | cons p rest ih => exact .bind (hspent p) fun _ => .bind ih fun _ => .pure

theorem keeps_refuseUnusable (chain : Chain) :
    (refuseUnusable settings chain requestId).Keeps :=
  .bind .locals fun _ => .ite (.bind keeps_metric fun _ =>
    .bind (ProviderBudget.keeps_snapshot _) fun _ => .raise) .pure

theorem keeps_reserveKey : (reserveKey settings requestId apiKey).Keeps := by
  refine .bind .locals fun s => .ite (.attempt BudgetTracker.keeps_reserve fun x c hc => ?_) .pure
  split at hc
  · obtain rfl := Option.some.inj hc
    exact .bind keeps_metric fun _ => .raise
  · cases hc

end LlmGateway
