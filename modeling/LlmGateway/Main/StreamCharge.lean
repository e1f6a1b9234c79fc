import LlmGateway.Main.StreamCost
import LlmGateway.Main.StreamPhases
import LlmGateway.Main.Conservation

/-!
# What a stream is settled at

A stream is settled at the provider that served it, and at one of two amounts: the cost of its usage
if the router's stream ran out, and an estimate from the characters that were streamed if it was left
before. The estimate leaves out the prompt as long as no chunk has carried its tokens.
-/

namespace LlmGateway

open Coroutine
open Conservation (settledAt settlements settledAt_of_settles)

variable {σ α β : Type} {s : σ} {settings : Settings} {q : RequestArgs} {A : Ev → Prop}
  {stream : RouterStream}

section

variable [Rounding]

/-! ## The two amounts -/

/-- What a stream that ran out is settled at. -/
def Usage.fullCost (settings : Settings) (u : Usage) : Except Exc ℚ :=
  if u.finalProvider = "" then .ok 0
  else estimateCostUsd settings.pricing u.finalProvider u.finalModel u.inputTokens u.outputTokens

/-- What a stream that was left before its end is settled at. -/
def Usage.abortCost (settings : Settings) (u : Usage) : Except Exc ℚ :=
  if u.finalProvider = "" then .ok 0
  else estimateCostUsd settings.pricing u.finalProvider u.finalModel u.inputTokens
    (.count (max 1 (u.streamedChars / 3)))

/-- The token counts can be priced and published. -/
def Usage.Countable (u : Usage) : Prop := u.inputTokens.Countable ∧ u.outputTokens.Countable

/-- The router's stream ended, as opposed to being left or failing. -/
def ranOut : Ev → Bool
  | ⟨.anext .stop, .ok ()⟩ => true
  | _ => false

/-- The router's stream ran out. -/
def Exhausted (t : List Ev) : Prop := ∃ e ∈ t, ranOut e = true

instance (t : List Ev) : Decidable (Exhausted t) :=
  inferInstanceAs (Decidable (∃ e ∈ t, ranOut e = true))

omit [Rounding] in
theorem exhausted_append {t t' : List Ev} : Exhausted (t ++ t') ↔ Exhausted t ∨ Exhausted t' := by
  simp [Exhausted, or_and_right, exists_or]

omit [Rounding] in
theorem exhausted_cons {e : Ev} {t : List Ev} :
    Exhausted (e :: t) ↔ ranOut e = true ∨ Exhausted t := by
  simp [Exhausted]

omit [Rounding] in
theorem not_exhausted_of_unfed {t : List Ev} (h : ∀ e ∈ t, e.cmd.Unfed) : ¬ Exhausted t := by
  rintro ⟨⟨c, r⟩, he, hout⟩
  have hc := h _ he
  cases c <;> first | cases hout | exact hc.elim

omit [Rounding] in
/-- What comes after the loop does not say whether the source ran out. -/
theorem exhausted_append_of_unfed {t t' : List Ev} (h : ∀ e ∈ t', e.cmd.Unfed) :
    Exhausted (t ++ t') ↔ Exhausted t := by
  rw [exhausted_append, or_iff_left (not_exhausted_of_unfed h)]

/-! ## One settlement, at most -/

/-- Nothing is settled, or the provider is, at an amount that satisfies `P`. -/
def SettledOnceAt (provider : String) (P : ℚ → Prop) (cs : List Call) : Prop :=
  cs.filterMap settledAt = [] ∨ ∃ cost, cs.filterMap settledAt = [(provider, cost)] ∧ P cost

omit [Rounding] in
theorem SettledAt.settledOnceAt {apiKey provider : String} {reservations : OrderedDict String ℚ}
    {cost : ℚ} {P : ℚ → Prop} {cs : List Call}
    (h : SettledAt apiKey reservations provider cost cs) (hcost : P cost) :
    SettledOnceAt provider P cs := by
  obtain ⟨cs', hcs', rfl⟩ := h
  refine .inr ⟨cost, ?_, hcost⟩
  simp [List.filterMap_cons, settledAt, settledAt_of_settles hcs']

omit [Rounding] in
/-- What goes before without a call does not matter to the calls. -/
theorem wp_quiet_bind {K : List Call → Prop} {m : Py σ α} {f : α → Py σ β} (hnil : K [])
    (hm : m.wp A s fun t _ s' => calls t = [] ∧ s' = s)
    (hf : ∀ a, (f a).wp A s fun t _ _ => K (calls t)) :
    (m >>= f).wp A s fun t _ _ => K (calls t) := by
  rw [Coro.wp_bind]
  refine Coro.wp_mono hm fun t r s' _ h => ?_
  obtain ⟨hcalls, rfl⟩ := h
  match r with
  | .error x => rwa [hcalls]
  | .ok a => exact Coro.wp_mono (hf a) fun t' _ _ _ h => by rwa [calls_append, hcalls]

omit [Rounding] in
/-- Nor does what goes after. -/
theorem wp_bind_quiet {K : List Call → Prop} {m : Py σ α} {f : α → Py σ β}
    (hm : m.wp A s fun t _ _ => K (calls t)) (hf : ∀ a, (f a).Only Cmd.Unrecorded) :
    (m >>= f).wp A s fun t _ _ => K (calls t) := by
  rw [Coro.wp_bind]
  refine Coro.wp_mono hm fun t r s' _ h => ?_
  match r with
  | .error x => exact h
  | .ok a =>
    refine Coro.wp_mono (wp_unrecorded (hf a)) fun t' _ _ _ h' => ?_
    rwa [calls_append, h', List.append_nil]

omit [Rounding] in
theorem wp_metric_quiet {m : Metric} :
    (metric m).wp A s fun t _ s' => calls t = [] ∧ s' = s := by
  rw [wp_metric_iff]
  exact fun r _ => ⟨rfl, rfl⟩

/-- An estimate that went through is the one of the price table. -/
theorem wp_estimateCost_bind_calls {K : List Call → Prop} {provider model : String}
    {inputTokens outputTokens : PyVal} {f : ℚ → Py σ α} (hnil : K [])
    (hf : ∀ cost, estimateCostUsd settings.pricing provider model inputTokens outputTokens
      = .ok cost → (f cost).wp A s fun t _ _ => K (calls t)) :
    (estimateCost settings provider model inputTokens outputTokens >>= f).wp A s
      fun t _ _ => K (calls t) := by
  rw [Coro.wp_bind, estimateCost, Coro.wp_bind, wp_pricing_iff]
  rintro (e | ⟨⟩) _
  · exact hnil
  dsimp only [Except.mapError]
  rw [Coro.wp_ofExcept]
  split
  · next cost hcost => exact hf cost hcost
  · exact hnil

/-- What a stream that ends early is settled at. -/
theorem wp_settleStreamOnAbort_at {u : Usage} :
    (settleStreamOnAbort settings q u.finalProvider u.finalModel u.inputTokens u.streamedChars).wp
      A s fun t _ _ =>
        SettledOnceAt u.finalProvider (fun cost => u.abortCost settings = .ok cost) (calls t) := by
  rw [settleStreamOnAbort, Coro.wp_ite]
  refine ⟨fun hp => ?_, fun hp => ?_⟩
  · refine Coro.wp_mono calls_settleChain fun t r s' _ h => ?_
    rw [Usage.abortCost, if_pos hp, hp]
    exact h.2.2.settledOnceAt rfl
  · refine wp_estimateCost_bind_calls (.inl rfl) fun cost hcost => wp_bind_quiet ?_ fun _ => ?_
    · refine Coro.wp_mono calls_settleChain fun t r s' _ h => ?_
      rw [Usage.abortCost, if_neg hp]
      exact h.2.2.settledOnceAt hcost
    · exact .bind (only_recordUsage fun _ => trivial) fun _ =>
        only_recordAuditLog fun _ h => h.unrecorded

theorem wp_trySettleStreamOnAbort_at {u : Usage} :
    (trySettleStreamOnAbort settings q u.finalProvider u.finalModel u.inputTokens
      u.streamedChars).wp A s fun t _ _ =>
        SettledOnceAt u.finalProvider (fun cost => u.abortCost settings = .ok cost) (calls t) :=
  wp_tryPass wp_settleStreamOnAbort_at (fun _ _ h => h) (fun _ _ _ h => h) fun _ _ _ h _ => h

/-! ## The phases -/

section Phases

variable {s : StreamLocals} {deliver : StreamChunk → Py StreamLocals Unit}
  {allFailed closing : Py StreamLocals Unit}

/-- The trace settles the usage at nothing, or once at its estimate. -/
def AbortedAt (settings : Settings) (u : Usage) (cs : List Call) : Prop :=
  SettledOnceAt u.finalProvider (fun cost => u.abortCost settings = .ok cost) cs

theorem wp_abortStream_at :
    (abortStream settings q).wp A s fun t _ _ => AbortedAt settings s.toUsage (calls t) := by
  rw [abortStream, Coro.wp_bind, Coro.wp_locals]
  exact wp_settleStreamOnAbort_at

theorem wp_tryAbortStream_at :
    (tryAbortStream settings q).wp A s fun t _ _ => AbortedAt settings s.toUsage (calls t) := by
  rw [tryAbortStream, Coro.wp_bind, Coro.wp_locals]
  exact wp_trySettleStreamOnAbort_at

/-- Each clause settles at the estimate. -/
theorem wp_loopClause_at {x : Exc}
    (hfailed : allFailed.wp A s fun t _ _ => AbortedAt settings s.toUsage (calls t)) :
    (loopClause settings q allFailed x).wp A s
      fun t _ _ => AbortedAt settings s.toUsage (calls t) := by
  have hdisconnect : ∀ y, (onDisconnect settings q y : Py StreamLocals Unit).wp A s
      fun t _ _ => AbortedAt settings s.toUsage (calls t) := fun y =>
    wp_quiet_bind (.inl rfl) wp_metric_quiet fun _ => wp_bind_quiet wp_abortStream_at fun _ => .raise
  have hunexpected : (onUnexpected settings q).wp A s
      fun t _ _ => AbortedAt settings s.toUsage (calls t) :=
    wp_quiet_bind (.inl rfl) wp_metric_quiet fun _ => wp_quiet_bind (.inl rfl) wp_metric_quiet
      fun _ => wp_bind_quiet wp_tryAbortStream_at fun _ => only_emit trivial
  cases x with
  | generatorExit | cancelled => exact hdisconnect _
  | interrupt => exact .inl rfl
  | exception e =>
    cases e with
    | allProvidersFailed m => exact hfailed
    | _ => exact hunexpected

theorem wp_onAllFailed_at :
    (onAllFailed settings q).wp A s fun t _ _ => AbortedAt settings s.toUsage (calls t) := by
  refine wp_quiet_bind (.inl rfl) wp_metric_quiet fun _ => wp_quiet_bind (.inl rfl) ?_
    fun _ => wp_bind_quiet wp_abortStream_at fun _ => only_emit trivial
  exact Coro.wp_mono (Coro.wp_and wp_recordAuditLog (wp_unrecorded
    (only_recordAuditLog fun _ h => h.unrecorded))) fun t r s' _ h => ⟨h.2, h.1.1⟩

theorem wp_onAllFailedOpenai_at :
    (onAllFailedOpenai settings q).wp A s fun t _ _ => AbortedAt settings s.toUsage (calls t) :=
  wp_quiet_bind (.inl rfl) wp_metric_quiet fun _ =>
    wp_bind_quiet wp_abortStream_at fun _ => only_emit trivial

/-- The bookkeeping of a stream whose counts can be published settles it at the cost of its usage.
-/
theorem wp_bookkeeping_at (hA : ∀ e, A e → Healthy e)
    (hclosing : ∀ s, closing.wp A s fun _ _ s' => s' = s) (honly : closing.Only Cmd.Unrecorded)
    (hcount : s.toUsage.Countable) :
    (bookkeeping settings q closing >>= finish).wp A s fun t _ _ =>
      SettledOnceAt s.finalProvider (fun cost => s.toUsage.fullCost settings = .ok cost)
        (calls t) := by
  refine wp_bind_quiet ?_ fun b => (only_finish b).mono fun _ h => h.1.1
  refine wp_bookkeeping_of hclosing honly ?_
  rw [settleStreamSpend, Coro.wp_bind]
  refine Coro.wp_mono (Coro.wp_and (Coro.wp_anti
    (wp_priceStream_countable hcount.1 hcount.2) hA) wp_priceStream) fun t₁ r s₁ _ h => ?_
  obtain ⟨⟨rfl, cost, rfl, -, hcost⟩, -, hplain, -⟩ := h
  have hfull : s₁.toUsage.fullCost settings = .ok cost := by
    rw [Usage.fullCost]
    rcases hcost with ⟨hp, rfl⟩ | ⟨hp, hcost⟩
    · rw [if_pos hp]
    · rwa [if_neg hp]
  have hcalls : calls t₁ = [] := calls_of_unrecorded fun e he => (hplain e he).1
  dsimp only
  rw [Coro.wp_bind]
  refine Coro.wp_mono calls_settleChain fun t₂ r s₂ _ h => ?_
  obtain ⟨rfl, hr, hsettled⟩ := h
  have hdone : ∀ t', calls t' = [] → SettledOnceAt s₂.finalProvider
      (fun cost => s₂.toUsage.fullCost settings = .ok cost) (calls (t₁ ++ (t₂ ++ t'))) := by
    intro t' ht'
    rw [calls_append, calls_append, hcalls, ht', List.nil_append, List.append_nil]
    exact hsettled.settledOnceAt hfull
  cases r with
  | ok u =>
    refine Coro.wp_pure.mpr ⟨rfl, .inl ⟨by rintro _ ⟨⟩, fun t' ht' => ?_⟩⟩
    simpa using hdone t' ht'
  | error x =>
    refine ⟨rfl, .inl ⟨fun e he => hr e (by cases he; rfl), fun t' ht' => ?_⟩⟩
    simpa using hdone t' ht'

end Phases

/-! ## The endpoints -/

section Endpoints

variable {deliver : StreamChunk → Py StreamLocals Unit} {allFailed closing : Py StreamLocals Unit}

omit [Rounding] in
/-- The loop goes through exactly when the router's stream runs out. -/
theorem wp_forChunks_exhausted (h : Delivers A deliver) (ending : Option PyError)
    (chunks : List StreamChunk) (s : StreamLocals) :
    (forChunks deliver ending chunks).wp A s fun t r _ => r = .ok () ↔ Exhausted t := by
  induction chunks generalizing s with
  | nil =>
    unfold forChunks
    cases ending with
    | none =>
      rw [wp_anext_iff]
      rintro (x | ⟨⟩) _
      · exact iff_of_false (by rintro ⟨⟩) (by simp [Exhausted, ranOut])
      · exact iff_of_true rfl (by simp [Exhausted, ranOut])
    | some e =>
      dsimp only
      rw [Coro.wp_bind, wp_anext_iff]
      rintro (x | ⟨⟩) _
      · exact iff_of_false (by rintro ⟨⟩) (by simp [Exhausted, ranOut])
      · exact iff_of_false (by rintro ⟨⟩) (by simp [Exhausted, ranOut])
  | cons c rest ih =>
    rw [forChunks, Coro.wp_bind, wp_anext_iff]
    rintro (x | ⟨⟩) _
    · exact iff_of_false (by rintro ⟨⟩) (by simp [Exhausted, ranOut])
    dsimp only
    rw [Coro.wp_bind]
    refine Coro.wp_mono (h.only c).wp fun t r s₁ _ honly => ?_
    have ht : ¬ Exhausted t := not_exhausted_of_unfed fun e he => (honly e he).unfed
    cases r with
    | error x => exact iff_of_false (by rintro ⟨⟩) (by simp [exhausted_cons, ranOut, ht])
    | ok u =>
      refine Coro.wp_mono (ih s₁) fun t' r' s' _ h' => ?_
      simp [h', exhausted_cons, exhausted_append, ranOut, ht]

/-- What a stream that ran out, or was left before, is settled at. -/
def Charged (settings : Settings) (t : List Ev) : Prop :=
  (usageOf t).Countable → SettledOnceAt (usageOf t).finalProvider
    (fun cost => (if Exhausted t then (usageOf t).fullCost settings
      else (usageOf t).abortCost settings) = .ok cost) (calls t)

/-- What follows the loop is settled for the usage the loop left. -/
theorem Looped.charged {t t' : List Ev} {r : Except Exc Unit} {s : StreamLocals}
    (h : Looped {} t r s) (hfed : ∀ e ∈ t', e.cmd.Unfed)
    (hat : s.toUsage.Countable → SettledOnceAt s.finalProvider
      (fun cost => (if Exhausted t then s.toUsage.fullCost settings
        else s.toUsage.abortCost settings) = .ok cost) (calls t')) :
    Charged settings (t ++ t') := by
  have husage : usageOf (t ++ t') = s.toUsage := by
    rw [usageOf_append_of_unfed hfed, h.usage, usageOf]
  have hcalls : calls t = [] := calls_of_unrecorded fun e he => (h.streaming e he).unrecorded
  have hout : Exhausted (t ++ t') ↔ Exhausted t := exhausted_append_of_unfed hfed
  rw [Charged, husage, calls_append, hcalls, List.nil_append]
  simpa only [hout] using hat

theorem only_loopClause {x : Exc} (h : allFailed.Only Cmd.Unfed) :
    (loopClause settings q allFailed x).Only Cmd.Unfed := by
  cases x with
  | generatorExit | cancelled => exact only_onDisconnect
  | interrupt => exact .raise
  | exception e =>
    cases e with
    | allProvidersFailed m => exact h
    | _ => exact only_onUnexpected

theorem wp_generator_charged {C : Prop} (h : Clauses C settings q Healthy deliver allFailed closing)
    (hfailed : ∀ s : StreamLocals,
      allFailed.wp Healthy s fun t _ _ => AbortedAt settings s.toUsage (calls t)) :
    (generator settings q deliver allFailed closing stream).wp Healthy {} fun t _ _ =>
      Charged settings t := by
  refine wp_generator_of_phases (Coro.wp_and (wp_forChunks h.delivers _ _ _)
    (wp_forChunks_exhausted h.delivers _ _ _)) ?_ ?_ ?_
  · rintro t x s ⟨hloop, hout⟩
    refine Coro.wp_mono (Coro.wp_and (wp_loopClause_at (hfailed s))
      (only_loopClause h.failed_only).wp) fun t' r s' _ hclause l _ => ?_
    refine hloop.charged ?_ fun _ => ?_
    · exact List.forall_mem_append.mpr ⟨hclause.2, by simp [Cmd.Unfed]⟩
    · have hnot : ¬ Exhausted t := fun hex => by cases hout.mpr hex
      simpa [AbortedAt, hnot, calls_cons, call?] using hclause.1
  · rintro t s e - he
    cases he
  · rintro t s ⟨hloop, hout⟩ -
    have honly : (bookkeeping settings q closing >>= finish).Only Cmd.Unfed :=
      (only_bookkeeping_finish h.closing_only).mono fun _ h => h.unfed
    have hat : (bookkeeping settings q closing >>= finish).wp Healthy s fun t _ _ =>
        s.toUsage.Countable → SettledOnceAt s.finalProvider
          (fun cost => s.toUsage.fullCost settings = .ok cost) (calls t) :=
      Coro.wp_imp <| wp_bookkeeping_at (fun _ h => h) h.frame
        (h.closing_only.mono fun _ h => h.unrecorded)
    refine Coro.wp_mono (Coro.wp_and hat honly.wp) fun t' r s' _ hbook => ?_
    refine hloop.charged (List.forall_mem_cons.mpr ⟨trivial, hbook.2⟩) fun hcount => ?_
    simpa [hout.mp rfl, calls_cons, call?] using hbook.1 hcount

/-- What an endpoint settles a stream at. -/
theorem wp_endpoint_charged (endpoint : Endpoint) :
    (endpoint.run settings q stream).wp Healthy {} fun t _ _ => Charged settings t := by
  have hstart : ∀ body : Py StreamLocals Unit,
      (body.wp Healthy {} fun t _ _ => Charged settings t) →
      (whenStarted body).wp Healthy {} fun t _ _ => Charged settings t := by
    intro body hbody
    rw [whenStarted, Coro.wp_bind, wp_start_iff]
    rintro (_ | _) _
    · exact fun _ => .inl rfl
    · refine Coro.wp_mono hbody fun t _ _ _ h => ?_
      have husage : usageOf (⟨.start, true⟩ :: t) = usageOf t := rfl
      have hex : Exhausted (⟨.start, true⟩ :: t) ↔ Exhausted t := by
        simp [exhausted_cons, ranOut]
      simpa [Charged, husage, hex, calls_cons, call?] using h
  cases endpoint with
  | native => exact hstart _ (wp_generator_charged clauses_native fun _ => wp_onAllFailed_at)
  | openai completionId created =>
    exact hstart _ (wp_generator_charged clauses_openai fun _ => wp_onAllFailedOpenai_at)

theorem wp_endpoint_unstarted (endpoint : Endpoint) :
    (endpoint.run settings q stream).wp A {} fun t _ _ => Started t ∨ received t = [] := by
  have hstart : ∀ body : Py StreamLocals Unit,
      (whenStarted body).wp A {} fun t _ _ => Started t ∨ received t = [] := by
    intro body
    rw [whenStarted, Coro.wp_bind, wp_start_iff]
    rintro (_ | _) _
    · exact .inr rfl
    · exact Coro.wp_mono Coro.wp_true fun _ _ _ _ _ => .inl rfl
  cases endpoint <;> exact hstart _

/-- A stream that delivered a chunk and whose counts can be published is settled once, unless a
write to the audit log comes first and is interrupted. -/
theorem settlements_of_run {endpoint : Endpoint} {t : List Ev} {r : Except Exc Unit}
    {s' : StreamLocals} (hrun : Coro.Runs (endpoint.run settings q stream) {} t r s')
    (hA : ∀ e ∈ t, Healthy e) (hhalt : ¬ Halted t) (hchunks : received t ≠ [])
    (hcount : (usageOf t).Countable) :
    (endpoint.AuditsFirst ∧ AuditCut t) ∧ settlements t = [] ∨
      ¬ (endpoint.AuditsFirst ∧ AuditCut t) ∧
        ∃ cost, settlements t = [((usageOf t).finalProvider, cost)] ∧
          (if Exhausted t then (usageOf t).fullCost settings
            else (usageOf t).abortCost settings) = .ok cost := by
  have hstart : Started t := ((wp_endpoint_unstarted endpoint).apply hrun hA).resolve_right hchunks
  have hended := ((wp_endpoint endpoint).apply hrun hA).resolve_left fun h => h.1 hstart
  cases hended.2.resolve_left fun h => hhalt h.1 with
  | settled _ h hcut =>
    refine .inr ⟨fun hc => hcut hc.2, ?_⟩
    refine (((wp_endpoint_charged endpoint).apply hrun hA) hcount).resolve_left fun hnil => ?_
    obtain ⟨cs, -, hcs⟩ := h
    simp [hcs, List.filterMap_cons, settledAt] at hnil
  | unpriced _ hP _ => exact absurd (.inr hcount.1.isNumber) (hP hA)
  | cut hC h hcut => exact .inl ⟨⟨hC, hcut⟩, by rw [settlements, h]; rfl⟩

end Endpoints

end

/-! ## Bills -/

/-- A bill the provider can have made out for what was sent and what was streamed. -/
def Bill (price : ℚ≥0 × ℚ≥0) (promptChars streamedChars : ℕ) (bill : ℚ) : Prop :=
  ∃ i o : ℕ, 1 ≤ i ∧ 3 * i ≤ promptChars ∧ 3 * o ≤ streamedChars ∧ bill = price.1 * i + price.2 * o

theorem forall_bill_le_iff {price : ℚ≥0 × ℚ≥0} {promptChars streamedChars : ℕ} {amount : ℚ} :
    (∀ bill, Bill price promptChars streamedChars bill → bill ≤ amount) ↔
      promptChars < 3 ∨
        price.1 * (promptChars / 3 : ℕ) + price.2 * (streamedChars / 3 : ℕ) ≤ amount := by
  constructor
  · intro h
    by_cases hp : promptChars < 3
    · exact .inl hp
    · exact .inr (h _ ⟨promptChars / 3, streamedChars / 3, by omega, by omega, by omega, rfl⟩)
  · rintro h bill ⟨i, o, hi, hi3, ho3, rfl⟩
    have hbill : (price.1 * (promptChars / 3 : ℕ) + price.2 * (streamedChars / 3 : ℕ) : ℚ)
        ≤ amount := h.resolve_left (by omega)
    refine le_trans (add_le_add ?_ ?_) hbill
    · exact mul_le_mul_of_nonneg_left (by exact_mod_cast (by omega : i ≤ promptChars / 3))
        (NNRat.cast_nonneg _)
    · exact mul_le_mul_of_nonneg_left (by exact_mod_cast (by omega : o ≤ streamedChars / 3))
        (NNRat.cast_nonneg _)

variable {provider model : String} {price : ℚ≥0 × ℚ≥0} {promptChars : ℕ} {t : List Ev}

/-- A stream of a billable provider with a price that delivered at least one chunk. -/
structure PaidStream (settings : Settings) (provider model : String) (price : ℚ≥0 × ℚ≥0)
    (t : List Ev) : Prop where
  named : provider ≠ ""
  billable : provider ∉ FREE_PROVIDERS
  priced : settings.pricing.price provider model = some price
  delivered : received t ≠ []
  stamped : ∀ c ∈ received t, c.provider = provider ∧ c.model = model
  measured : ∀ c ∈ received t, c.Measured
  counted : ∀ c, lastDone (received t) = some c → c.Counted

/-- The stream was settled, at no less than the cost of the usage its final chunk carried, or, if
that had not come, than any bill for what was sent and streamed. -/
def NotUndercharged (settings : Settings) (provider model : String) (price : ℚ≥0 × ℚ≥0)
    (promptChars : ℕ) (t : List Ev) : Prop :=
  ∃ amount, settlements t = [(provider, amount)] ∧
    match lastDone (received t) with
    | some c => ∀ cost, estimateCostUsd settings.pricing provider model c.inputTokens c.outputTokens
        = .ok cost → cost ≤ amount
    | none => ∀ bill, Bill price promptChars (usageOf t).streamedChars bill → bill ≤ amount

/-- Where the two amounts are enough: the final chunk came, and the router's stream ran out or the
tokens it carried are no more than the characters allow; or it did not come, and neither side of
a bill is larger than the single output token that is charged at least. -/
def ChargeSuffices (price : ℚ≥0 × ℚ≥0) (promptChars : ℕ) (t : List Ev) : Prop :=
  match lastDone (received t) with
  | some c => Exhausted t ∨ price.2 = 0 ∨
      ∃ y, c.outputTokens.number = some y ∧ y ≤ (max 1 ((usageOf t).streamedChars / 3) : ℕ)
  | none => promptChars < 3 ∨
      if Exhausted t then price.1 = 0 ∧ (price.2 = 0 ∨ (usageOf t).streamedChars < 3)
      else price.1 * (promptChars / 3 : ℕ) ≤ if (usageOf t).streamedChars < 3 then price.2 else 0

theorem PaidStream.countable (h : PaidStream settings provider model price t) :
    (usageOf t).Countable := by
  obtain ⟨hin, hout⟩ := absorbed_tokens (received t) {}
  rw [Usage.Countable, usageOf, hin, hout]
  cases hlast : lastDone (received t) with
  | none => exact ⟨PyVal.countable_zero, PyVal.countable_zero⟩
  | some c =>
    obtain ⟨x, y, hx, hx0, hy, hy0⟩ := h.counted c hlast
    exact ⟨⟨x, hx, hx0⟩, y, hy, hy0⟩

theorem PaidStream.names (h : PaidStream settings provider model price t) :
    (usageOf t).finalProvider = provider ∧ (usageOf t).finalModel = model :=
  (absorbed_names h.stamped h.measured (.inr ⟨rfl, rfl⟩)).2 h.delivered

theorem PaidStream.estimate (h : PaidStream settings provider model price t) {i o : PyVal}
    {x y : ℚ} (hx : i.number = some x) (hy : o.number = some y) :
    estimateCostUsd settings.pricing provider model i o = .ok (x * price.1 + y * price.2) := by
  rw [estimateCostUsd_of_numbers hx hy, h.priced]
  rfl

/-! ### The arithmetic of a bill -/

theorem mul_price_le_iff {x y : ℚ} {p : ℚ≥0} : x * p ≤ y * p ↔ p = 0 ∨ x ≤ y := by
  rcases eq_or_ne p 0 with rfl | hp
  · simp
  · have hpos : (0 : ℚ) < p := by exact_mod_cast pos_iff_ne_zero.mpr hp
    rw [mul_le_mul_iff_left₀ hpos, or_iff_right hp]

/-- A stream charged nothing is charged enough for the largest bill if that is nothing too. -/
theorem bill_nonpos_iff {m chars : ℕ} (hm : 1 ≤ m) :
    (price.1 * m + price.2 * (chars / 3 : ℕ) : ℚ) ≤ 0 ↔
      price.1 = 0 ∧ (price.2 = 0 ∨ chars < 3) := by
  have hcast : (price.1 * m + price.2 * (chars / 3 : ℕ) : ℚ) ≤ 0 ↔
      price.1 * m + price.2 * (chars / 3 : ℕ) ≤ 0 := by exact_mod_cast Iff.rfl
  have hm0 : (m : ℚ≥0) ≠ 0 := by exact_mod_cast (by omega : m ≠ 0)
  rw [hcast, nonpos_iff_eq_zero, add_eq_zero, mul_eq_zero, mul_eq_zero, or_iff_left hm0,
    Nat.cast_eq_zero]
  exact and_congr_right fun _ => or_congr_right (by omega)

/-- The single output token that is charged at least makes up for the prompt only if nothing else
was streamed. -/
theorem bill_le_iff {m chars : ℕ} :
    (price.1 * m + price.2 * (chars / 3 : ℕ) : ℚ) ≤ (max 1 (chars / 3) : ℕ) * price.2 ↔
      price.1 * m ≤ if chars < 3 then price.2 else 0 := by
  by_cases hchars : chars < 3
  · have hdiv : chars / 3 = 0 := by omega
    rw [if_pos hchars, hdiv]
    simp only [Nat.cast_zero, mul_zero, add_zero, max_eq_left zero_le_one, Nat.cast_one, one_mul]
    exact_mod_cast Iff.rfl
  · have hdiv : 1 ≤ chars / 3 := by omega
    rw [if_neg hchars, max_eq_right hdiv, mul_comm _ (price.2 : ℚ), add_le_iff_nonpos_left]
    exact_mod_cast Iff.rfl

/-- The amount a stream is settled at is enough exactly where it should be. -/
theorem chargeSuffices_iff (h : PaidStream settings provider model price t) {cost : ℚ}
    (hcost : (if Exhausted t then (usageOf t).fullCost settings
      else (usageOf t).abortCost settings) = .ok cost) :
    (match lastDone (received t) with
      | some c => ∀ full, estimateCostUsd settings.pricing provider model c.inputTokens
          c.outputTokens = .ok full → full ≤ cost
      | none => ∀ bill, Bill price promptChars (usageOf t).streamedChars bill → bill ≤ cost) ↔
      ChargeSuffices price promptChars t := by
  obtain ⟨hprovider, hmodel⟩ := h.names
  obtain ⟨hin, hout⟩ := absorbed_tokens (received t) {}
  rw [← usageOf] at hin hout
  rw [Usage.fullCost, Usage.abortCost, hprovider, if_neg h.named, if_neg h.named, hmodel, hin,
    hout] at hcost
  have hprice₁ : (0 : ℚ) ≤ price.1 := NNRat.cast_nonneg _
  have hprice₂ : (0 : ℚ) ≤ price.2 := NNRat.cast_nonneg _
  unfold ChargeSuffices
  cases hlast : lastDone (received t) with
  | some c =>
    obtain ⟨x, y, hx, -, hy, -⟩ := h.counted c hlast
    rw [hlast] at hcost
    simp only [Option.map_some, Option.getD_some] at hcost
    rw [h.estimate hx hy, h.estimate hx (PyVal.number_count _)] at hcost
    have hfull : (∀ full, estimateCostUsd settings.pricing provider model c.inputTokens
        c.outputTokens = .ok full → full ≤ cost) ↔ x * price.1 + y * price.2 ≤ cost := by
      rw [h.estimate hx hy]
      simp
    refine hfull.trans ?_
    by_cases hex : Exhausted t
    · rw [if_pos hex] at hcost
      exact iff_of_true (Except.ok.inj hcost).le (.inl hex)
    · rw [if_neg hex] at hcost
      obtain rfl := Except.ok.inj hcost
      rw [add_le_add_iff_left, mul_price_le_iff]
      simp [hex, hy]
  | none =>
    rw [hlast] at hcost
    simp only [Option.map_none, Option.getD_none] at hcost
    rw [h.estimate PyVal.number_zero PyVal.number_zero,
      h.estimate PyVal.number_zero (PyVal.number_count _)] at hcost
    refine forall_bill_le_iff.trans (or_congr_right' fun hprompt => ?_)
    have hprompt : 1 ≤ promptChars / 3 := by omega
    by_cases hex : Exhausted t
    · rw [if_pos hex] at hcost ⊢
      obtain rfl : 0 = cost := by simpa using Except.ok.inj hcost
      rw [bill_nonpos_iff hprompt]
    · rw [if_neg hex] at hcost ⊢
      obtain rfl := Except.ok.inj hcost
      rw [zero_mul, zero_add]
      exact bill_le_iff

theorem PaidStream.notUndercharged_iff (h : PaidStream settings provider model price t) {cost : ℚ}
    (hone : settlements t = [((usageOf t).finalProvider, cost)])
    (hcost : (if Exhausted t then (usageOf t).fullCost settings
      else (usageOf t).abortCost settings) = .ok cost) :
    NotUndercharged settings provider model price promptChars t ↔
      ChargeSuffices price promptChars t := by
  rw [← chargeSuffices_iff h hcost]
  constructor
  · rintro ⟨amount, hamount, hcovers⟩
    rw [hone] at hamount
    obtain ⟨-, rfl⟩ : _ ∧ cost = amount := by simpa using hamount
    exact hcovers
  · exact fun hcovers => ⟨cost, by rw [hone, h.names.1], hcovers⟩

theorem not_notUndercharged_of_nil (h : settlements t = []) :
    ¬ NotUndercharged settings provider model price promptChars t := by
  rintro ⟨amount, hamount, -⟩
  rw [h] at hamount
  cases hamount

/-- A stream of a paid provider that delivered a chunk is charged enough exactly when the amount it
is settled at suffices and its settlement is not forestalled by the audit log, however it ends. -/
theorem not_undercharged_iff {endpoint : Endpoint} {r : Except Exc Unit} {s' : StreamLocals}
    (h : PaidStream settings provider model price t)
    (hrun : Coro.Runs (endpoint.run settings q stream) {} t r s') (hA : ∀ e ∈ t, Healthy e)
    (hhalt : ¬ Halted t) :
    NotUndercharged settings provider model price promptChars t ↔
      ¬ (endpoint.AuditsFirst ∧ AuditCut t) ∧ ChargeSuffices price promptChars t := by
  rcases settlements_of_run hrun hA hhalt h.delivered h.countable with
    ⟨hcut, hnil⟩ | ⟨hcut, cost, hone, hcost⟩
  · exact iff_of_false (not_notUndercharged_of_nil hnil) fun hc => hc.1 hcut
  · rw [and_iff_right hcut, h.notUndercharged_iff hone hcost]

/-! ## Streams that are left early -/

instance (v : PyVal) : Decidable v.Countable :=
  decidable_of_iff (v.number.any (0 ≤ ·)) (by cases h : v.number <;> simp [PyVal.Countable, h])

instance (c : StreamChunk) : Decidable c.Measured :=
  decidable_of_iff (c.done || c.content.len.isOk) <| by
    cases hlen : c.content.len <;> simp [StreamChunk.Measured, hlen, Except.isOk, Except.toBool]

instance : Decidable (ChargeSuffices price promptChars t) :=
  match h : lastDone (received t) with
  | some c => decidable_of_iff (Exhausted t ∨ price.2 = 0 ∨
      c.outputTokens.number.any fun y : ℚ => y ≤ (max 1 ((usageOf t).streamedChars / 3) : ℕ)) <| by
    cases hy : c.outputTokens.number <;> simp [ChargeSuffices, h, hy]
  | none => decidable_of_iff (promptChars < 3 ∨
      if Exhausted t then price.1 = 0 ∧ (price.2 = 0 ∨ (usageOf t).streamedChars < 3)
      else price.1 * (promptChars / 3 : ℕ) ≤ if (usageOf t).streamedChars < 3 then price.2 else 0) <| by
    simp [ChargeSuffices, h]

/-- A chunk of the provider's that can be counted and published. -/
def StreamChunk.Plain (provider model : String) (c : StreamChunk) : Prop :=
  (c.provider = provider ∧ c.model = model) ∧ c.Measured ∧
    c.inputTokens.Countable ∧ c.outputTokens.Countable

instance (c : StreamChunk) : Decidable (c.Plain provider model) :=
  inferInstanceAs (Decidable ((c.provider = provider ∧ c.model = model) ∧ c.Measured ∧
    c.inputTokens.Countable ∧ c.outputTokens.Countable))

theorem PaidStream.of_plain (hnamed : provider ≠ "") (hbillable : provider ∉ FREE_PROVIDERS)
    (hpriced : settings.pricing.price provider model = some price)
    (hdelivered : (received t).isEmpty = false)
    (hplain : ∀ c ∈ received t, c.Plain provider model) :
    PaidStream settings provider model price t where
  named := hnamed
  billable := hbillable
  priced := hpriced
  delivered hnil := by simp [hnil] at hdelivered
  stamped c hc := (hplain c hc).1
  measured c hc := (hplain c hc).2.1
  counted c hc := by
    have hmem : c ∈ received t := List.mem_of_mem_filter (List.mem_of_getLast? hc)
    obtain ⟨⟨x, hx, hx0⟩, y, hy, hy0⟩ := (hplain c hmem).2.2
    exact ⟨x, y, hx, hx0, hy, hy0⟩

/-- The client leaves at `[DONE]`. -/
def leftAtDone : (c : Cmd) → Reply c
  | .yield .done => .error .generatorExit
  | c => calm c

/-- The client leaves at the first frame. -/
def leftAtOnce : (c : Cmd) → Reply c
  | .yield _ => .error .generatorExit
  | c => calm c

/-- The client leaves after the last chunk. -/
def leftBeforeEnd : (c : Cmd) → Reply c
  | .anext .stop => .error .cancelled
  | c => calm c

/-- The price of `gpt-4o-mini`. -/
def miniPrice : ℚ≥0 × ℚ≥0 := (PRICING.price "openai" "gpt-4o-mini").getD (0, 0)

/-- A short answer that took five tokens. -/
def fiveTokens : List StreamChunk :=
  cutText ++ [⟨.str "", true, .int 3, .int 5, "openai", "gpt-4o-mini"⟩]

/-- A stream of `gpt-4o-mini` when everything but the ledgers is answered by `other`. -/
theorem paidStream_streamed {other : (c : Cmd) → Reply c} {endpoint : Endpoint}
    (hdelivered : (received (streamed other endpoint stream).1).isEmpty = false)
    (hplain : ∀ c ∈ received (streamed other endpoint stream).1, c.Plain "openai" "gpt-4o-mini") :
    PaidStream { hashKey := id } "openai" "gpt-4o-mini" miniPrice
      (streamed other endpoint stream).1 :=
  .of_plain (by decide) (by decide) (by decide +kernel) hdelivered hplain

theorem not_undercharged_iff_leftAtDone :
    NotUndercharged { hashKey := id } "openai" "gpt-4o-mini" miniPrice 300
        (streamed leftAtDone .native ⟨wholeText, none⟩).1 ↔
      ¬ (Endpoint.native.AuditsFirst ∧ AuditCut (streamed leftAtDone .native ⟨wholeText, none⟩).1) ∧
        ChargeSuffices miniPrice 300 (streamed leftAtDone .native ⟨wholeText, none⟩).1 :=
  not_undercharged_iff (q := heldStream) (paidStream_streamed (by decide +kernel) (by decide +kernel))
    runs_streamed (forall_streamed fun L c => by cases c <;> trivial) (by decide +kernel)

/-- With everything but the ledgers answered by `other`, the stream is charged less than it cost. -/
structure Undercharged (other : (c : Cmd) → Reply c) (endpoint : Endpoint)
    (chunks : List StreamChunk) (promptChars : ℕ) : Prop where
  run : Coro.Runs (endpoint.run { hashKey := id } heldStream ⟨chunks, none⟩) {}
    (streamed other endpoint ⟨chunks, none⟩).1 (streamed other endpoint ⟨chunks, none⟩).2.1.1
    (streamed other endpoint ⟨chunks, none⟩).2.1.2
  healthy : ∀ e ∈ (streamed other endpoint ⟨chunks, none⟩).1, Healthy e
  running : ¬ Halted (streamed other endpoint ⟨chunks, none⟩).1
  paid : PaidStream { hashKey := id } "openai" "gpt-4o-mini" miniPrice
    (streamed other endpoint ⟨chunks, none⟩).1
  undercharged : ¬ NotUndercharged { hashKey := id } "openai" "gpt-4o-mini" miniPrice promptChars
    (streamed other endpoint ⟨chunks, none⟩).1

theorem undercharged_of_decided {other : (c : Cmd) → Reply c} {endpoint : Endpoint}
    {chunks : List StreamChunk} (hother : ∀ L c, Healthy ⟨c, (answer other L c).1⟩)
    (hrunning : ¬ Halted (streamed other endpoint ⟨chunks, none⟩).1)
    (hpaid : PaidStream { hashKey := id } "openai" "gpt-4o-mini" miniPrice
      (streamed other endpoint ⟨chunks, none⟩).1)
    (hsuffices : ¬ ChargeSuffices miniPrice promptChars
      (streamed other endpoint ⟨chunks, none⟩).1) :
    Undercharged other endpoint chunks promptChars where
  run := runs_streamed
  healthy := forall_streamed hother
  running := hrunning
  paid := hpaid
  undercharged := by
    rcases settlements_of_run runs_streamed (forall_streamed hother) hrunning
      hpaid.delivered hpaid.countable with ⟨-, hnil⟩ | ⟨-, cost, hone, hcost⟩
    · exact not_notUndercharged_of_nil hnil
    · rwa [hpaid.notUndercharged_iff hone hcost]

/-- A client that leaves at the first frame is not charged for its prompt of 300 characters, and one
that leaves once the usage has arrived is charged for one of five tokens. -/
theorem stream_undercharged :
    Undercharged leftAtOnce .native cutText 300 ∧
      Undercharged leftBeforeEnd (.openai "id" 0) fiveTokens 300 := by
  constructor
  · exact undercharged_of_decided (fun L c => by cases c <;> trivial) (by decide +kernel)
      (paidStream_streamed (by decide +kernel) (by decide +kernel)) (by decide +kernel)
  · refine undercharged_of_decided (fun L c => ?_) (by decide +kernel)
      (paidStream_streamed (by decide +kernel) (by decide +kernel)) (by decide +kernel)
    cases c <;> trivial

end LlmGateway
