import LlmGateway.Gateway.Footprint
import LlmGateway.Budget.Pricing
import LlmGateway.Gateway.Settings

/-!
# Pricing, metrics and the audit log

Mirrors `_record_usage` of `app/main.py` and `app/db/audit.py`. Metrics raise for a negative amount
or one that is not a number, and nothing but an `Exception`. The audit log swallows every
`Exception`, so what leaves it is a cancellation.
-/

namespace LlmGateway

open Coroutine

variable {σ : Type} {s : σ} {A : Ev → Prop}

/-- What a request that got its reservations is served with. -/
structure RequestArgs where
  apiKey : String
  requestedModel : String
  requestId : String
  reservations : OrderedDict String ℚ

/-! ## The functions -/

/-- `estimate_cost_usd`, as called from the request path. -/
def estimateCost [Rounding] (settings : Settings) (provider model : String)
    (inputTokens outputTokens : PyVal) : Py σ ℚ := do
  pricing
  Coro.ofExcept (estimateCostUsd settings.pricing provider model inputTokens outputTokens)

/-- `COST_USD.labels(...).inc(amount)`. -/
def incCost (provider model : String) (amount : ℚ) : Py σ Unit :=
  if amount < 0 then throw .valueError else metric (.costUsd provider model amount)

/-- What a counter raises for an amount that is no number a `float` can hold. It first asks whether
the amount is negative. -/
def PyVal.incRefusal : PyVal → PyError
  | .int n => if n < 0 then .valueError else .overflowError
  | _ => .typeError

/-- `TOKENS.labels(...).inc(amount)`. -/
def incTokens (provider model direction : String) (amount : PyVal) : Py σ Unit :=
  match amount.number with
  | none => throw amount.incRefusal
  | some x =>
    if x < 0 then throw .valueError else metric (.tokens provider model direction amount)

/-- Publish spend and token counts to Prometheus. -/
def recordUsage (provider model : String) (inputTokens outputTokens : PyVal) (costUsd : ℚ) :
    Py σ Unit :=
  if provider = "" then pure ()
  else do
    incCost provider model costUsd
    incTokens provider model "input" inputTokens
    incTokens provider model "output" outputTokens

/-- The row `record_audit_log` writes, but for the team. -/
structure AuditFields where
  requestedModel : String
  outcome : String
  provider : String := ""
  inputTokens : PyVal := .int 0
  outputTokens : PyVal := .int 0
  costUsd : ℚ := 0
  requestId : String

/-- Write one audit row. -/
def recordAuditLog (settings : Settings) (apiKey : String) (row : AuditFields) : Py σ Unit :=
  tryExcept
    (do
      openSession
      (do
        -- the key itself is never written, only its hash
        let team ← selectTeam (settings.hashKey apiKey)
        commitAudit {
          requestId := row.requestId
          apiKeyHash := settings.hashKey apiKey
          team := team.getD "unlinked"
          requestedModel := row.requestedModel
          provider := row.provider
          outcome := row.outcome
          inputTokens := row.inputTokens
          outputTokens := row.outputTokens
          costUsd := row.costUsd }).ensure closeSession)
    fun _ => pure ()

/-! ## What they issue -/

variable {settings : Settings} {provider model direction apiKey : String}
  {inputTokens outputTokens amount : PyVal} {costUsd : ℚ} {row : AuditFields}

theorem only_incTokens :
    (incTokens provider model direction amount : Py σ Unit).Only Cmd.Publishing := by
  unfold incTokens
  split
  · exact only_throw
  · exact .ite (fun _ => only_throw) fun _ => only_metric trivial

theorem only_recordUsage_publishing :
    (recordUsage provider model inputTokens outputTokens costUsd : Py σ Unit).Only
      Cmd.Publishing := by
  refine .ite (fun _ => .pure) fun _ => .bind ?_ fun _ =>
    .bind only_incTokens fun _ => only_incTokens
  exact .ite (fun _ => only_throw) fun _ => only_metric trivial

theorem only_recordUsage {B : Cmd → Prop} (h : ∀ m, B (.metric m)) :
    (recordUsage provider model inputTokens outputTokens costUsd : Py σ Unit).Only B :=
  only_recordUsage_publishing.mono fun c hc => by
    cases c with
    | metric m => exact h m
    | _ => exact hc.elim

theorem only_recordAuditLog {B : Cmd → Prop} (h : ∀ c : Cmd, c.Auditing → B c) :
    (recordAuditLog settings apiKey row : Py σ Unit).Only B := by
  refine only_tryExcept (.bind (.bind (.perform (h _ trivial)) fun _ => .ofExcept) fun _ =>
    .ensure ?_ (.bind (.perform (h _ trivial)) fun _ => .ofExcept)) fun _ => .pure
  exact .bind (.bind (.perform (h _ trivial)) fun _ => .ofExcept) fun _ =>
    .bind (.perform (h _ trivial)) fun _ => .ofExcept

/-! ## What they raise -/

/-- `m` leaves the locals alone and raises only what `except Exception` catches. -/
def Catchable (A : Ev → Prop) {α : Type} (m : Py σ α) : Prop :=
  ∀ s, m.wp A s fun _ r s' => s' = s ∧ ∀ x, r = .error x → x.isException = true

namespace Catchable

variable {α β : Type}

theorem pure {a : α} : Catchable A (Pure.pure a : Py σ α) := fun _ => ⟨rfl, nofun⟩

theorem throw {e : PyError} : Catchable A (LlmGateway.throw e : Py σ α) := fun _ =>
  ⟨rfl, by rintro x ⟨⟩; rfl⟩

theorem bind {m : Py σ α} {f : α → Py σ β} (h : Catchable A m) (hf : ∀ a, Catchable A (f a)) :
    Catchable A (m >>= f) := by
  intro s
  rw [Coro.wp_bind]
  refine Coro.wp_mono (h s) fun t r s' _ hr => ?_
  obtain ⟨rfl, hr⟩ := hr
  match r with
  | .error x => exact ⟨rfl, fun y hy => hr y (by cases hy; rfl)⟩
  | .ok a => exact hf a s'

theorem ite {c : Prop} [Decidable c] {m m' : Py σ α} (h : Catchable A m) (h' : Catchable A m') :
    Catchable A (if c then m else m') := by
  split
  · exact h
  · exact h'

theorem attemptElse {m : Py σ α} {h : Exc → Option (Py σ β)} {k : α → Py σ β}
    (hm : Catchable A m) (hh : ∀ e c, h (.exception e) = some c → Catchable A c)
    (hk : ∀ a, Catchable A (k a)) : Catchable A (m.attemptElse h k) := by
  intro s
  rw [Coro.wp_attemptElse]
  refine Coro.wp_mono (hm s) fun t r s' _ hr => ?_
  obtain ⟨rfl, hr⟩ := hr
  match r with
  | .ok a => exact hk a s'
  | .error x =>
    cases x with
    | exception e =>
      dsimp only
      split
      · next c hc => exact hh e c hc s'
      · exact ⟨rfl, by rintro x ⟨⟩; rfl⟩
    | _ => cases hr _ rfl

theorem attempt {m : Py σ α} {h : Exc → Option (Py σ α)} (hm : Catchable A m)
    (hh : ∀ e c, h (.exception e) = some c → Catchable A c) : Catchable A (m.attempt h) :=
  hm.attemptElse hh fun _ => .pure

end Catchable

theorem catchable_metric {m : Metric} : Catchable A (metric m : Py σ Unit) := by
  intro s
  rw [wp_metric_iff]
  rintro (e | ⟨⟩) _
  · exact ⟨rfl, by rintro x ⟨⟩; rfl⟩
  · exact ⟨rfl, nofun⟩

/-- What the price table cannot multiply raises an `Exception`. -/
theorem estimateCostUsd_raises [Rounding] {table : PricingTable} {x : Exc}
    (h : estimateCostUsd table provider model inputTokens outputTokens = .error x) :
    ∃ e, x = .exception e := by
  by_cases hnum : inputTokens.IsNumber ∧ outputTokens.IsNumber
  · exact absurd hnum (estimateCostUsd_error_iff.mp ⟨x, h⟩)
  · by_cases hin : inputTokens.IsNumber
    · have hout : ¬ outputTokens.IsNumber := fun hout => hnum ⟨hin, hout⟩
      obtain ⟨y, hy⟩ := Option.isSome_iff_exists.mp hin
      simp only [estimateCostUsd, PyVal.mul_of_number hy, PyVal.mul_of_not_isNumber hout] at h
      exact ⟨_, (Except.error.inj h).symm⟩
    · simp only [estimateCostUsd, PyVal.mul_of_not_isNumber hin] at h
      exact ⟨_, (Except.error.inj h).symm⟩

theorem catchable_estimateCost [Rounding] :
    Catchable A (estimateCost settings provider model inputTokens outputTokens : Py σ ℚ) := by
  intro s
  rw [estimateCost, Coro.wp_bind, wp_pricing_iff]
  rintro (e | ⟨⟩) _
  · exact ⟨rfl, by rintro x ⟨⟩; rfl⟩
  · refine ⟨rfl, fun x hx => ?_⟩
    obtain ⟨e, rfl⟩ := estimateCostUsd_raises hx
    rfl

theorem catchable_incTokens :
    Catchable A (incTokens provider model direction amount : Py σ Unit) := by
  unfold incTokens
  split
  · exact .throw
  · exact .ite .throw catchable_metric

theorem catchable_recordUsage :
    Catchable A (recordUsage provider model inputTokens outputTokens costUsd : Py σ Unit) :=
  .ite .pure <| .bind (.ite .throw catchable_metric) fun _ =>
    .bind catchable_incTokens fun _ => catchable_incTokens

/-! ## Counts that Prometheus takes -/

/-- A number that a counter can be increased by. -/
def PyVal.Countable (v : PyVal) : Prop := ∃ x, v.number = some x ∧ 0 ≤ x

theorem PyVal.Countable.isNumber {v : PyVal} (h : v.Countable) : v.IsNumber := by
  obtain ⟨x, hx, -⟩ := h
  rw [PyVal.IsNumber, hx]
  rfl

theorem PyVal.countable_count (n : ℕ) : (PyVal.count n).Countable :=
  ⟨n, number_count n, Nat.cast_nonneg n⟩

theorem PyVal.countable_zero : (PyVal.int 0).Countable := ⟨0, number_zero, le_rfl⟩

/-- Counts that are not negative cost something that is not negative. -/
theorem estimateCostUsd_of_countable [Rounding] (table : PricingTable) (provider model : String)
    (hin : inputTokens.Countable) (hout : outputTokens.Countable) :
    ∃ cost, estimateCostUsd table provider model inputTokens outputTokens = .ok cost ∧ 0 ≤ cost := by
  obtain ⟨x, hx, hx0⟩ := hin
  obtain ⟨y, hy, hy0⟩ := hout
  refine ⟨_, estimateCostUsd_of_numbers hx hy, ?_⟩
  exact Rounding.fl_nonneg (add_nonneg
    (Rounding.fl_nonneg (mul_nonneg (Rounding.fl_nonneg hx0) (NNRat.cast_nonneg _)))
    (Rounding.fl_nonneg (mul_nonneg (Rounding.fl_nonneg hy0) (NNRat.cast_nonneg _))))

theorem wp_incTokens_countable (h : amount.Countable) :
    (incTokens provider model direction amount).wp Healthy s fun t r s' =>
      t = [⟨.metric (.tokens provider model direction amount), .ok ()⟩] ∧ r = .ok () ∧ s' = s := by
  obtain ⟨x, hx, hx0⟩ := h
  unfold incTokens
  rw [hx]
  dsimp only
  rw [if_neg (not_lt.mpr hx0), wp_metric]
  exact ⟨rfl, rfl, rfl⟩

/-- Usage with counts that are not negative can be published. -/
theorem wp_recordUsage_countable (hcost : 0 ≤ costUsd) (hin : inputTokens.Countable)
    (hout : outputTokens.Countable) :
    (recordUsage provider model inputTokens outputTokens costUsd).wp Healthy s fun _ r s' =>
      r = .ok () ∧ s' = s := by
  rw [recordUsage, Coro.wp_ite]
  refine ⟨fun _ => ⟨rfl, rfl⟩, fun _ => ?_⟩
  rw [Coro.wp_bind, incCost, if_neg (not_lt.mpr hcost), wp_metric]
  dsimp only
  rw [Coro.wp_bind]
  refine Coro.wp_mono (wp_incTokens_countable hin) fun t r s' _ h => ?_
  obtain ⟨-, rfl, rfl⟩ := h
  exact Coro.wp_mono (wp_incTokens_countable hout) fun t' r s' _ h => h.2

theorem wp_estimateCost [Rounding] {Q : List Ev → Except Exc ℚ → σ → Prop} :
    (estimateCost settings provider model inputTokens outputTokens).wp Healthy s Q ↔
      Q [⟨.pricing, .ok ()⟩]
        (estimateCostUsd settings.pricing provider model inputTokens outputTokens) s := by
  rw [estimateCost, Coro.wp_bind, wp_pricing]
  rfl

/-! ## Usage that cannot be published -/

/-- The price table or a counter of what requests use raised. -/
def unpublished : Ev → Bool
  | ⟨.pricing, .error _⟩ => true
  | ⟨.metric (.costUsd _ _ _), .error _⟩ => true
  | ⟨.metric (.tokens _ _ _ _), .error _⟩ => true
  | _ => false

/-- Neither of them raised. -/
def Published (t : List Ev) : Prop := ∀ e ∈ t, unpublished e = false

instance (t : List Ev) : Decidable (Published t) :=
  inferInstanceAs (Decidable (∀ e ∈ t, unpublished e = false))

theorem published_append {t t' : List Ev} : Published (t ++ t') ↔ Published t ∧ Published t' :=
  List.forall_mem_append

theorem published_cons {e : Ev} {t : List Ev} :
    Published (e :: t) ↔ unpublished e = false ∧ Published t :=
  List.forall_mem_cons

theorem published_singleton {e : Ev} : Published [e] ↔ unpublished e = false :=
  List.forall_mem_singleton

theorem published_of_healthy {t : List Ev} (h : ∀ e ∈ t, Healthy e) : Published t := by
  rintro ⟨c, r⟩ he
  have hr := h _ he
  cases c with
  | pricing =>
    obtain rfl : r = .ok () := hr
    rfl
  | metric m =>
    obtain rfl : r = .ok () := hr
    cases m <;> rfl
  | _ => rfl

theorem wp_estimateCost_iff [Rounding] :
    (estimateCost settings provider model inputTokens outputTokens).wp A s fun t r s' => s' = s ∧
      ∀ cost, r = .ok cost ↔ Published t ∧
        estimateCostUsd settings.pricing provider model inputTokens outputTokens = .ok cost := by
  rw [estimateCost, Coro.wp_bind, wp_pricing_iff]
  rintro (e | ⟨⟩) _
  · exact ⟨rfl, fun cost => iff_of_false nofun fun h => nomatch published_singleton.mp h.1⟩
  · dsimp only [Except.mapError]
    rw [Coro.wp_ofExcept]
    exact ⟨rfl, fun cost => (and_iff_right (published_singleton.mpr rfl)).symm⟩

/-- A counter takes what does not bring it down, if it works. -/
theorem wp_incTokens_iff : (incTokens provider model direction amount).wp A s fun t r s' =>
    s' = s ∧ (r = .ok () ↔ Published t ∧ amount.Countable) := by
  unfold incTokens
  split
  · next h =>
    refine ⟨rfl, iff_of_false nofun ?_⟩
    rintro ⟨-, x, hx, -⟩
    rw [h] at hx
    cases hx
  · next x h =>
    rw [Coro.wp_ite]
    refine ⟨fun hx => ⟨rfl, iff_of_false nofun ?_⟩, fun hx => ?_⟩
    · rintro ⟨-, y, hy, hy0⟩
      rw [h] at hy
      exact absurd hy0 (not_le.mpr (Option.some.inj hy ▸ hx))
    · rw [wp_metric_iff]
      rintro (e | ⟨⟩) _
      · exact ⟨rfl, iff_of_false nofun fun h => nomatch published_singleton.mp h.1⟩
      · exact ⟨rfl, iff_of_true rfl ⟨published_singleton.mpr rfl, x, h, not_lt.mp hx⟩⟩

theorem wp_recordUsage_iff :
    (recordUsage provider model inputTokens outputTokens costUsd).wp A s fun t r s' => s' = s ∧
      (r = .ok () ↔ provider = "" ∨
        Published t ∧ 0 ≤ costUsd ∧ inputTokens.Countable ∧ outputTokens.Countable) := by
  rw [recordUsage, Coro.wp_ite]
  refine ⟨fun hp => ⟨rfl, iff_of_true rfl (.inl hp)⟩, fun hp => ?_⟩
  rw [Coro.wp_bind, incCost, Coro.wp_ite]
  refine ⟨fun hcost => ⟨rfl, iff_of_false nofun ?_⟩, fun hcost => ?_⟩
  · rintro (h | ⟨-, h, -⟩)
    · exact hp h
    · exact not_le.mpr hcost h
  rw [wp_metric_iff]
  rintro (e | ⟨⟩) _
  · exact ⟨rfl, iff_of_false nofun fun h => nomatch published_singleton.mp (h.resolve_left hp).1⟩
  dsimp only [Except.mapError]
  rw [Coro.wp_bind]
  refine Coro.wp_mono wp_incTokens_iff fun t r s₁ _ h => ?_
  obtain ⟨rfl, hr⟩ := h
  match r with
  | .error x =>
    refine ⟨rfl, iff_of_false nofun fun h => ?_⟩
    obtain ⟨hpub, -, hin, -⟩ := h.resolve_left hp
    exact nomatch hr.mpr ⟨(published_append.mp hpub).2, hin⟩
  | .ok () =>
    refine Coro.wp_mono wp_incTokens_iff fun t' r' s₂ _ h' => ⟨h'.1, h'.2.trans ?_⟩
    simp [hp, not_lt.mp hcost, hr.mp rfl, published_cons, published_append, unpublished]

/-! ## The audit log -/

/-- The exception a command of the audit log raised. -/
def auditRaised : Ev → Option Exc
  | ⟨.openSession, r⟩ => Sent.raised r
  | ⟨.selectTeam _, r⟩ => Sent.raised r
  | ⟨.commitAudit _, r⟩ => Sent.raised r
  | ⟨.closeSession, r⟩ => Sent.raised r
  | _ => none

/-- The exception the audit log is left by, if it is not swallowed: that of its last command to
raise. -/
def auditRaise (t : List Ev) : Option Exc := t.reverse.findSome? auditRaised

theorem wp_openSession_iff {Q : List Ev → Except Exc Unit → σ → Prop} :
    openSession.wp A s Q ↔ ∀ r : Sent Unit, A ⟨.openSession, r⟩ →
      Q [⟨.openSession, r⟩] r.toExcept s := Iff.rfl

theorem wp_selectTeam_iff {keyHash : String}
    {Q : List Ev → Except Exc (Option String) → σ → Prop} :
    (selectTeam keyHash).wp A s Q ↔ ∀ r : Sent (Option String), A ⟨.selectTeam keyHash, r⟩ →
      Q [⟨.selectTeam keyHash, r⟩] r.toExcept s := Iff.rfl

theorem wp_commitAudit_iff {entry : AuditLogEntry} {Q : List Ev → Except Exc Unit → σ → Prop} :
    (commitAudit entry).wp A s Q ↔ ∀ r : Sent Unit, A ⟨.commitAudit entry, r⟩ →
      Q [⟨.commitAudit entry, r⟩] r.toExcept s := Iff.rfl

theorem wp_closeSession_iff {Q : List Ev → Except Exc Unit → σ → Prop} :
    closeSession.wp A s Q ↔ ∀ r : Sent Unit, A ⟨.closeSession, r⟩ →
      Q [⟨.closeSession, r⟩] r.toExcept s := Iff.rfl

/-- The `try` of `record_audit_log` is left by the exception of the last command to raise, since the
closing of the session replaces what came before it. -/
theorem wp_auditBody {fields : Option String → AuditLogEntry} {keyHash : String} :
    (do
      openSession
      (do
        let team ← selectTeam keyHash
        commitAudit (fields team)).ensure closeSession : Py σ Unit).wp A s fun t r s' =>
      s' = s ∧ ∀ x, r = .error x ↔ auditRaise t = some x := by
  rw [Coro.wp_bind, wp_openSession_iff]
  rintro (⟨⟩ | ⟨x₀, a₀⟩) _
  · dsimp only [Sent.toExcept]
    rw [Coro.wp_ensure, Coro.wp_bind, wp_selectTeam_iff]
    rintro (team | ⟨x₁, a₁⟩) _
    · dsimp only [Sent.toExcept]
      rw [wp_commitAudit_iff]
      rintro (⟨⟩ | ⟨x₂, a₂⟩) _ <;> rw [wp_closeSession_iff] <;>
        rintro (⟨⟩ | ⟨x₃, a₃⟩) _ <;>
          simp [auditRaise, List.findSome?, auditRaised, Sent.raised, Sent.toExcept]
    · dsimp only [Sent.toExcept]
      rw [wp_closeSession_iff]
      rintro (⟨⟩ | ⟨x₃, a₃⟩) _ <;>
        simp [auditRaise, List.findSome?, auditRaised, Sent.raised, Sent.toExcept]
  · simp [auditRaise, auditRaised, Sent.raised, Sent.toExcept]

/-- The audit log swallows every `Exception`, and lets anything else through. -/
theorem wp_recordAuditLog : (recordAuditLog settings apiKey row : Py σ Unit).wp A s fun t r s' =>
    s' = s ∧ ∀ x, r = .error x ↔ auditRaise t = some x ∧ x.isException = false := by
  rw [recordAuditLog]
  refine wp_tryPass wp_auditBody ?_ ?_ ?_
  · rintro t _ ⟨rfl, hr⟩
    have hnone : ∀ x, auditRaise t ≠ some x := fun x hx => nomatch (hr x).mpr hx
    exact ⟨rfl, fun x => ⟨nofun, fun h => absurd h.1 (hnone x)⟩⟩
  · rintro t e _ ⟨rfl, hr⟩
    have he : auditRaise t = some (.exception e) := (hr _).mp rfl
    refine ⟨rfl, fun x => ⟨nofun, ?_⟩⟩
    rintro ⟨hx, hfalse⟩
    rw [he] at hx
    obtain rfl := Option.some.inj hx
    cases hfalse
  · rintro t y _ ⟨rfl, hr⟩ hy
    have hraise : auditRaise t = some y := (hr y).mp rfl
    refine ⟨rfl, fun x => ⟨?_, fun h => ?_⟩⟩
    · rintro ⟨⟩
      exact ⟨hraise, hy⟩
    · rw [hraise] at h
      rw [Option.some.inj h.1]

end LlmGateway
