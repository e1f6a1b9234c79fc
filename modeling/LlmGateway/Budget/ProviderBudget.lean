import LlmGateway.Gateway.Observe
import LlmGateway.Budget.Pricing

/-!
# The lifetime ceiling per provider

Mirrors `app/budget/provider_budget.py`. Each function is followed by the runs it has in a healthy
environment, as an inductive predicate on its trace and outcome.
-/

namespace LlmGateway.ProviderBudget

open Coroutine
open Rounding (fl)

variable {σ : Type} {s : σ}

/-- `provider_budget:{provider}`. -/
def key (provider : String) : LedgerKey := .provider provider

/-! ## The functions -/

/-- Mirror the ledger onto its gauges. -/
def publish (capUsd : ℚ) (provider : String) (total : ℚ) : Py σ Unit :=
  if provider ∈ FREE_PROVIDERS then pure ()
  else do
    metric (.providerBudgetSpent provider total)
    metric (.providerBudgetRemaining provider (max 0 (capUsd - total)))

/-- Lifetime USD recorded against a provider, republished on the way. -/
def spent (capUsd : ℚ) (provider : String) : Py σ ℚ := do
  let total ← get (key provider)
  publish capUsd provider total
  pure total

/-- Claim headroom, and hand it straight back when that crosses the cap. -/
def reserve (capUsd : ℚ) (provider : String) (worstCaseUsd : ℚ) : Py σ Unit :=
  if provider ∈ FREE_PROVIDERS ∨ worstCaseUsd ≤ 0 then pure ()
  else do
    let total ← incrbyfloat (key provider) worstCaseUsd
    if total ≤ capUsd then publish capUsd provider total
    else do
      tryExceptElse (incrbyfloat (key provider) (-worstCaseUsd))
        -- the hand-back did not land: the claim stays, and the refusal stands
        (fun _ => do
          metric (.budgetReservationLeaked .provider worstCaseUsd)
          publish capUsd provider total)
        (fun _ => publish capUsd provider (total - worstCaseUsd))
      throw (.providerBudgetExhausted provider (total - worstCaseUsd) capUsd)

/-- Replace a reservation with the real cost. -/
def settle [Rounding] (capUsd : ℚ) (provider : String) (reservedUsd actualUsd : ℚ) :
    Py σ Unit := do
  log (.providerSettle provider reservedUsd actualUsd)
  if provider ∈ FREE_PROVIDERS then pure ()
  else if fl (actualUsd - reservedUsd) = 0 then pure ()
  else do
    let total ← incrbyfloat (key provider) (fl (actualUsd - reservedUsd))
    publish capUsd provider total

/-- Charge spend that never had a reservation. -/
def recordUnreserved (capUsd : ℚ) (provider : String) (actualUsd : ℚ) : Py σ Unit := do
  log (.recordUnreserved provider actualUsd)
  if provider ∈ FREE_PROVIDERS ∨ actualUsd ≤ 0 then pure ()
  else do
    let total ← incrbyfloat (key provider) actualUsd
    publish capUsd provider total

/-- Current spend per provider. -/
def snapshot (capUsd : ℚ) : List String → Py σ (List (String × ℚ))
  | [] => pure []
  | provider :: rest => do
    let total ← spent capUsd provider
    let others ← snapshot capUsd rest
    pure ((provider, total) :: others)

/-! ## Their runs -/

/-- The gauge updates of `publish`. -/
def published (capUsd : ℚ) (provider : String) (total : ℚ) : List Ev :=
  if provider ∈ FREE_PROVIDERS then []
  else [⟨.metric (.providerBudgetSpent provider total), .ok ()⟩,
    ⟨.metric (.providerBudgetRemaining provider (max 0 (capUsd - total))), .ok ()⟩]

/-- The runs of an increment followed by its publication. -/
inductive ChargeRun (capUsd : ℚ) (provider : String) (delta : ℚ) :
    List Ev → Except Exc Unit → Prop
  | done (total : ℚ) : ChargeRun capUsd provider delta
      (⟨.incrbyfloat (key provider) delta, .ok total⟩ :: published capUsd provider total) (.ok ())
  | failed (e : Exc) (a : Bool) : ChargeRun capUsd provider delta
      [⟨.incrbyfloat (key provider) delta, .failed e a⟩] (.error e)

/-- The runs of `reserve`. -/
inductive ReserveRun (capUsd : ℚ) (provider : String) (w : ℚ) : List Ev → Except Exc Unit → Prop
  | exempt (h : provider ∈ FREE_PROVIDERS ∨ w ≤ 0) : ReserveRun capUsd provider w [] (.ok ())
  | admitted (hp : provider ∉ FREE_PROVIDERS) (hw : 0 < w) (total : ℚ) (h : total ≤ capUsd) :
      ReserveRun capUsd provider w
        (⟨.incrbyfloat (key provider) w, .ok total⟩ :: published capUsd provider total) (.ok ())
  | unanswered (hp : provider ∉ FREE_PROVIDERS) (hw : 0 < w) (e : Exc) (a : Bool) :
      ReserveRun capUsd provider w [⟨.incrbyfloat (key provider) w, .failed e a⟩] (.error e)
  | refused (hp : provider ∉ FREE_PROVIDERS) (hw : 0 < w) (total total' : ℚ) (h : ¬ total ≤ capUsd) :
      ReserveRun capUsd provider w
        (⟨.incrbyfloat (key provider) w, .ok total⟩ ::
          ⟨.incrbyfloat (key provider) (-w), .ok total'⟩ :: published capUsd provider (total - w))
        (.error (.exception (.providerBudgetExhausted provider (total - w) capUsd)))
  | leaked (hp : provider ∉ FREE_PROVIDERS) (hw : 0 < w) (total : ℚ) (h : ¬ total ≤ capUsd)
      (e : PyError) (a : Bool) :
      ReserveRun capUsd provider w
        (⟨.incrbyfloat (key provider) w, .ok total⟩ ::
          ⟨.incrbyfloat (key provider) (-w), .failed (.exception e) a⟩ ::
          ⟨.metric (.budgetReservationLeaked .provider w), .ok ()⟩ ::
          published capUsd provider total)
        (.error (.exception (.providerBudgetExhausted provider (total - w) capUsd)))
  | interrupted (hp : provider ∉ FREE_PROVIDERS) (hw : 0 < w) (total : ℚ) (h : ¬ total ≤ capUsd)
      (e : Exc) (he : e.isException = false) (a : Bool) :
      ReserveRun capUsd provider w
        [⟨.incrbyfloat (key provider) w, .ok total⟩,
          ⟨.incrbyfloat (key provider) (-w), .failed e a⟩] (.error e)

/-- The runs of `settle`. -/
inductive SettleRun [Rounding] (capUsd : ℚ) (provider : String) (reservedUsd actualUsd : ℚ) :
    List Ev → Except Exc Unit → Prop
  | unchanged (h : provider ∈ FREE_PROVIDERS ∨ fl (actualUsd - reservedUsd) = 0) :
      SettleRun capUsd provider reservedUsd actualUsd
        [⟨.log (.providerSettle provider reservedUsd actualUsd), ()⟩] (.ok ())
  | charged (hp : provider ∉ FREE_PROVIDERS) {t : List Ev} {r : Except Exc Unit}
      (h : ChargeRun capUsd provider (fl (actualUsd - reservedUsd)) t r) :
      SettleRun capUsd provider reservedUsd actualUsd
        (⟨.log (.providerSettle provider reservedUsd actualUsd), ()⟩ :: t) r

/-- The runs of `record_unreserved`. -/
inductive RecordRun (capUsd : ℚ) (provider : String) (actualUsd : ℚ) :
    List Ev → Except Exc Unit → Prop
  | exempt (h : provider ∈ FREE_PROVIDERS ∨ actualUsd ≤ 0) :
      RecordRun capUsd provider actualUsd
        [⟨.log (.recordUnreserved provider actualUsd), ()⟩] (.ok ())
  | charged (hp : provider ∉ FREE_PROVIDERS) (ha : 0 < actualUsd) {t : List Ev}
      {r : Except Exc Unit} (h : ChargeRun capUsd provider actualUsd t r) :
      RecordRun capUsd provider actualUsd
        (⟨.log (.recordUnreserved provider actualUsd), ()⟩ :: t) r

variable {capUsd : ℚ} {provider : String}

@[simp] theorem wp_publish {total : ℚ} {Q : List Ev → Except Exc Unit → σ → Prop} :
    (publish capUsd provider total).wp Healthy s Q
      ↔ Q (published capUsd provider total) (.ok ()) s := by
  by_cases hp : provider ∈ FREE_PROVIDERS <;> simp [publish, published, hp]

theorem published_still (total : ℚ) : ∀ e ∈ published capUsd provider total, Still e := by
  unfold published
  split
  · simp
  · intro e he
    rcases List.mem_pair.mp he with rfl | rfl <;> exact still_of_sync rfl

theorem published_idle (total : ℚ) : ∀ e ∈ published capUsd provider total, Idle e := by
  unfold published
  split
  · simp
  · intro e he
    rcases List.mem_pair.mp he with rfl | rfl <;>
      exact ⟨fun _ => rfl, fun _ => rfl, fun _ => rfl, rfl⟩

@[simp] theorem tally_asked_published (k : LedgerKey) (total : ℚ) :
    tally (asked k) (published capUsd provider total) = 0 :=
  tally_asked_of_still (published_still total) k

@[simp] theorem tally_moved_published (k : LedgerKey) (total : ℚ) :
    tally (moved k) (published capUsd provider total) = 0 :=
  tally_moved_of_still (published_still total) k

@[simp] theorem tally_stranded_published (k : LedgerKey) (total : ℚ) :
    tally (stranded k) (published capUsd provider total) = 0 :=
  tally_stranded_of_still (published_still total) k

@[simp] theorem tally_leaked_published (l : Ledger) (total : ℚ) :
    tally (leaked l) (published capUsd provider total) = 0 :=
  tally_eq_zero fun e he => (published_idle total e he).leaked l

@[simp] theorem tally_excused_published (l : Ledger) (total : ℚ) :
    tally (excused l) (published capUsd provider total) = 0 :=
  tally_eq_zero fun e he => (published_idle total e he).excused l

@[simp] theorem calls_published (total : ℚ) : calls (published capUsd provider total) = [] :=
  calls_of_idle (published_idle total)

theorem stages_publish {A : Ev → Prop} (hA : ∀ e, A e → Healthy e) {total : ℚ}
    {Q : List Ev → Option (Except Exc Unit × σ) → Prop}
    (h : Q (published capUsd provider total) (some (.ok (), s))) :
    (publish capUsd provider total).stages A s Q := by
  unfold publish
  by_cases hp : provider ∈ FREE_PROVIDERS
  · simpa [published, hp] using h
  · rw [if_neg hp, Coro.stages_bind, stages_metric_iff]
    rintro r hr
    obtain rfl := hA _ hr
    dsimp only [Except.mapError]
    rw [stages_metric_iff]
    rintro r hr
    obtain rfl := hA _ hr
    simpa [published, hp, Except.mapError] using h

theorem wp_charge {delta : ℚ} :
    (do let total ← incrbyfloat (key provider) delta
        publish capUsd provider total : Py σ Unit).wp Healthy s
      fun t r s' => s' = s ∧ ChargeRun capUsd provider delta t r := by
  rw [Coro.wp_bind, wp_incrbyfloat]
  intro r
  cases r with
  | ok total => simpa [Sent.toExcept] using ChargeRun.done total
  | failed e a => exact ⟨rfl, .failed e a⟩

theorem wp_reserve {w : ℚ} :
    (reserve capUsd provider w).wp Healthy s fun t r s' =>
      s' = s ∧ ReserveRun capUsd provider w t r := by
  rw [reserve, Coro.wp_ite]
  refine ⟨fun h => ⟨rfl, .exempt h⟩, fun h => ?_⟩
  rw [not_or, not_le] at h
  obtain ⟨hp, hw⟩ := h
  rw [Coro.wp_bind, wp_incrbyfloat]
  intro r
  cases r with
  | failed e a => exact ⟨rfl, .unanswered hp hw e a⟩
  | ok total =>
    dsimp only [Sent.toExcept]
    rw [Coro.wp_ite, wp_publish]
    refine ⟨fun h => ⟨rfl, .admitted hp hw total h⟩, fun h => ?_⟩
    rw [Coro.wp_bind, tryExceptElse, Coro.wp_attemptElse, wp_incrbyfloat]
    intro r
    cases r with
    | ok total' => simpa [Sent.toExcept] using ReserveRun.refused hp hw total total' h
    | failed e a =>
      cases e with
      | exception e => simpa [Sent.toExcept] using ReserveRun.leaked hp hw total h e a
      | cancelled => exact ⟨rfl, .interrupted hp hw total h _ rfl a⟩
      | generatorExit => exact ⟨rfl, .interrupted hp hw total h _ rfl a⟩
      | interrupt => exact ⟨rfl, .interrupted hp hw total h _ rfl a⟩

theorem wp_settle [Rounding] {reservedUsd actualUsd : ℚ} :
    (settle capUsd provider reservedUsd actualUsd).wp Healthy s fun t r s' =>
      s' = s ∧ SettleRun capUsd provider reservedUsd actualUsd t r := by
  rw [settle, Coro.wp_bind, wp_log]
  dsimp only
  rw [Coro.wp_ite]
  refine ⟨fun hp => ⟨rfl, .unchanged (.inl hp)⟩, fun hp => ?_⟩
  rw [Coro.wp_ite]
  refine ⟨fun h => ⟨rfl, .unchanged (.inr h)⟩, fun _ => ?_⟩
  exact Coro.wp_mono wp_charge fun t r s' _ h => ⟨h.1, .charged hp h.2⟩

theorem wp_recordUnreserved {actualUsd : ℚ} :
    (recordUnreserved capUsd provider actualUsd).wp Healthy s fun t r s' =>
      s' = s ∧ RecordRun capUsd provider actualUsd t r := by
  rw [recordUnreserved, Coro.wp_bind, wp_log]
  dsimp only
  rw [Coro.wp_ite]
  refine ⟨fun h => ⟨rfl, .exempt h⟩, fun h => ?_⟩
  rw [not_or, not_le] at h
  exact Coro.wp_mono wp_charge fun t r s' _ hr => ⟨hr.1, .charged h.1 h.2 hr.2⟩

/-! ## The calls they record -/

section Calls

variable {A : Ev → Prop} {reservedUsd actualUsd : ℚ}

theorem silent_publish {total : ℚ} :
    (publish capUsd provider total).wp A s fun t _ s' => s' = s ∧ Silent t := by
  rw [publish, Coro.wp_ite]
  refine ⟨fun _ => ⟨rfl, .nil⟩, fun _ => ?_⟩
  rw [Coro.wp_bind, wp_metric_iff]
  rintro (e | ⟨⟩) _
  · exact ⟨rfl, .cons rfl (fun _ => rfl) (fun _ _ => rfl) .nil⟩
  · exact wp_metric_iff.mpr fun _ _ =>
      ⟨rfl, .cons rfl (fun _ => rfl) (fun _ _ => rfl) (.cons rfl (fun _ => rfl) (fun _ _ => rfl) .nil)⟩

theorem silent_charge {delta : ℚ} :
    (do let total ← incrbyfloat (key provider) delta
        publish capUsd provider total : Py σ Unit).wp A s
      fun t _ s' => s' = s ∧ Silent t := by
  rw [Coro.wp_bind, wp_incrbyfloat_iff]
  rintro (total | ⟨e, a⟩) _
  · exact Coro.wp_mono silent_publish fun t r s' _ h =>
      ⟨h.1, .cons rfl (fun _ => rfl) (fun _ _ => rfl) h.2⟩
  · exact ⟨rfl, .cons rfl (fun _ => rfl) (fun _ _ => rfl) .nil⟩

theorem calls_settle [Rounding] : (settle capUsd provider reservedUsd actualUsd).wp A s fun t _ s' =>
    s' = s ∧ ∃ t', t = ⟨.log (.providerSettle provider reservedUsd actualUsd), ()⟩ :: t' ∧
      Silent t' := by
  rw [settle, Coro.wp_bind, wp_log_iff]
  intro _
  dsimp only
  rw [Coro.wp_ite]
  refine ⟨fun _ => ⟨rfl, _, rfl, .nil⟩, fun _ => ?_⟩
  rw [Coro.wp_ite]
  refine ⟨fun _ => ⟨rfl, _, rfl, .nil⟩, fun _ => ?_⟩
  exact Coro.wp_mono silent_charge fun t r s' _ h => ⟨h.1, t, rfl, h.2⟩

theorem calls_recordUnreserved :
    (recordUnreserved capUsd provider actualUsd).wp A s fun t _ s' =>
      s' = s ∧ ∃ t', t = ⟨.log (.recordUnreserved provider actualUsd), ()⟩ :: t' ∧ Silent t' := by
  rw [recordUnreserved, Coro.wp_bind, wp_log_iff]
  intro _
  dsimp only
  rw [Coro.wp_ite]
  refine ⟨fun _ => ⟨rfl, _, rfl, .nil⟩, fun _ => ?_⟩
  exact Coro.wp_mono silent_charge fun t r s' _ h => ⟨h.1, t, rfl, h.2⟩

end Calls

/-! ## What they ask of the ledgers -/

/-- An amount on the ledger of a billable provider, nothing on the others. -/
def onLedger (provider : String) (k : LedgerKey) (amount : ℚ) : ℚ :=
  if k = key provider ∧ provider ∉ FREE_PROVIDERS then amount else 0

section Runs

variable {delta reservedUsd actualUsd : ℚ} {t : List Ev} {r : Except Exc Unit}

theorem ChargeRun.asked (h : ChargeRun capUsd provider delta t r) (k : LedgerKey) :
    tally (asked k) t = if k = key provider then delta else 0 := by
  cases h <;> simp [LlmGateway.asked, eq_comm]

theorem ChargeRun.raised {e : Exc} (h : ChargeRun capUsd provider delta t (.error e)) :
    ∃ ev ∈ t, raised ev = some e := by
  cases h
  exact ⟨_, List.mem_singleton_self _, rfl⟩

/-- `settle` asks for the real cost less what was reserved. -/
theorem SettleRun.asked [Rounding] (h : SettleRun capUsd provider reservedUsd actualUsd t r)
    (k : LedgerKey) : tally (asked k) t = onLedger provider k (fl (actualUsd - reservedUsd)) := by
  cases h with
  | unchanged h =>
    rcases h with h | h <;> simp [onLedger, LlmGateway.asked, h]
  | charged hp h => simp [onLedger, LlmGateway.asked, h.asked, hp]

theorem SettleRun.raised [Rounding] {e : Exc}
    (h : SettleRun capUsd provider reservedUsd actualUsd t (.error e)) : ∃ ev ∈ t, raised ev = some e := by
  cases h with
  | charged hp h =>
    obtain ⟨ev, hmem, hev⟩ := h.raised
    exact ⟨ev, List.mem_cons_of_mem _ hmem, hev⟩

theorem RecordRun.asked (h : RecordRun capUsd provider actualUsd t r) (k : LedgerKey) :
    tally (asked k) t = onLedger provider k (max 0 actualUsd) := by
  cases h with
  | exempt h =>
    rcases h with h | h <;> simp [onLedger, LlmGateway.asked, h]
  | charged hp ha h => simp [onLedger, LlmGateway.asked, h.asked, hp, ha.le]

theorem RecordRun.raised {e : Exc} (h : RecordRun capUsd provider actualUsd t (.error e)) :
    ∃ ev ∈ t, raised ev = some e := by
  cases h with
  | charged hp ha h =>
    obtain ⟨ev, hmem, hev⟩ := h.raised
    exact ⟨ev, List.mem_cons_of_mem _ hmem, hev⟩

/-! ## What a reservation leaves behind -/

/-- `reserve` moves the ledger by what it claims, which is nothing unless it returns, and by what a
failing command stranded. -/
theorem ReserveRun.moved_eq {w : ℚ} (h : ReserveRun capUsd provider w t r) (hw : 0 ≤ w)
    (k : LedgerKey) :
    tally (moved k) t = (if r.isOk then onLedger provider k w else 0) + tally (stranded k) t := by
  cases h with
  | exempt h =>
    rcases h with h | h
    · simp [onLedger, h]
    · simp [onLedger, le_antisymm h hw]
  | admitted hp hw total h => simp [onLedger, hp, eq_comm, Except.isOk, Except.toBool]
  | unanswered hp hw e a => simp [strandedBy, hw, Except.isOk, Except.toBool]
  | refused hp hw total total' h =>
    by_cases hk : key provider = k <;> simp [hk, Except.isOk, Except.toBool]
  | leaked hp hw total h e a | interrupted hp hw total h e he a =>
    by_cases hk : key provider = k <;> cases a <;>
      simp [hk, strandedBy, not_lt.mpr hw.le, Except.isOk, Except.toBool]

/-- A hand-back that ends in an `Exception` is counted, and nothing else is. -/
theorem ReserveRun.leaked_eq {w : ℚ} (h : ReserveRun capUsd provider w t r) (l : Ledger) :
    tally (LlmGateway.leaked l) t = tally (excused l) t := by
  cases h with
  | exempt h => rfl
  | admitted hp hw total h => simp [LlmGateway.leaked, excused]
  | unanswered hp hw e a => cases e <;> simp [LlmGateway.leaked, excused, not_lt.mpr hw.le]
  | refused hp hw total total' h => simp [LlmGateway.leaked, excused]
  | leaked hp hw total h e a =>
    simp [LlmGateway.leaked, excused, hw, key, LedgerKey.ledger]
  | interrupted hp hw total h e he a =>
    cases e with
    | exception e => cases he
    | _ => simp [LlmGateway.leaked, excused]

/-- `reserve` leaves the ledgers of the callers alone. -/
theorem ReserveRun.keyless {w : ℚ} (h : ReserveRun capUsd provider w t r) : Keyless t := by
  have hpub : ∀ total, Keyless (published capUsd provider total) :=
    fun total e he h P => (published_idle total e he).asked _
  cases h with
  | exempt h => simp [Keyless]
  | admitted hp hw total h => exact List.forall_mem_cons.mpr ⟨fun _ _ => rfl, hpub _⟩
  | unanswered hp hw e a => exact List.forall_mem_cons.mpr ⟨fun _ _ => rfl, by simp⟩
  | refused hp hw total total' h =>
    exact List.forall_mem_cons.mpr ⟨fun _ _ => rfl, List.forall_mem_cons.mpr
      ⟨fun _ _ => rfl, hpub _⟩⟩
  | leaked hp hw total h e a =>
    exact List.forall_mem_cons.mpr ⟨fun _ _ => rfl, List.forall_mem_cons.mpr
      ⟨fun _ _ => rfl, List.forall_mem_cons.mpr ⟨fun _ _ => rfl, hpub _⟩⟩⟩
  | interrupted hp hw total h e he a =>
    exact List.forall_mem_cons.mpr ⟨fun _ _ => rfl, List.forall_mem_cons.mpr
      ⟨fun _ _ => rfl, by simp⟩⟩

/-- `reserve` settles nothing. -/
theorem ReserveRun.calls_eq {w : ℚ} (h : ReserveRun capUsd provider w t r) : LlmGateway.calls t = [] := by
  cases h <;> simp [calls_cons, call?]

end Runs

end LlmGateway.ProviderBudget
