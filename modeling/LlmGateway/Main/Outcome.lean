import LlmGateway.Main.Bookkeeping
import LlmGateway.Main.Footprint

/-!
# How a request ends

A request that has its reservations either settles them once or abandons them. `Outcome` records
which, and why: it settles unless pricing raises first, or a write to the audit log that comes first
is interrupted. The rules below say what the statements around a settlement do to it.
-/

namespace LlmGateway

open Coroutine

variable {σ α β : Type} {s : σ} {settings : Settings} {A : Ev → Prop} {apiKey : String}
  {reservations : OrderedDict String ℚ} {t t' : List Ev} {C P : Prop}

/-! ## Settled or not -/

/-- `_settle_chain` was invoked for the reservations. -/
def Settled (apiKey : String) (reservations : OrderedDict String ℚ) (t : List Ev) : Prop :=
  ∃ provider cost, .settleChain apiKey reservations provider cost ∈ calls t

theorem SettledAt.settled {provider : String} {cost : ℚ}
    (h : SettledAt apiKey reservations provider cost (calls t)) :
    Settled apiKey reservations t := by
  obtain ⟨cs, -, hcs⟩ := h
  exact ⟨provider, cost, by simp [hcs]⟩

theorem SettledAt.ne_nil {provider : String} {cost : ℚ} {cs : List Call}
    (h : SettledAt apiKey reservations provider cost cs) : cs ≠ [] := by
  obtain ⟨cs', -, rfl⟩ := h
  simp

theorem not_settled_of_nil (h : calls t = []) : ¬ Settled apiKey reservations t := by
  rintro ⟨provider, cost, hmem⟩
  simp [h] at hmem

/-! ## The audit log before the settlement -/

/-- The events before the first recorded call. -/
def beforeSettlement (t : List Ev) : List Ev := t.takeWhile fun e => (call? e).isNone

/-- A write to the audit log was interrupted before any settlement. -/
def AuditCut (t : List Ev) : Prop :=
  ∃ x, auditRaise (beforeSettlement t) = some x ∧ x.isException = false

theorem call?_of_calls_nil (h : calls t = []) : ∀ e ∈ t, (call? e).isNone = true := by
  intro e he
  rw [List.filterMap_eq_nil_iff.mp h e he]
  rfl

theorem beforeSettlement_append_of_nil (h : calls t = []) :
    beforeSettlement (t ++ t') = t ++ beforeSettlement t' :=
  List.takeWhile_append_of_pos (call?_of_calls_nil h)

theorem beforeSettlement_append_of_ne_nil (h : calls t ≠ []) :
    beforeSettlement (t ++ t') = beforeSettlement t := by
  induction t with
  | nil => exact absurd rfl h
  | cons e t ih =>
    cases hc : call? e with
    | some c => simp [beforeSettlement, hc]
    | none =>
      have ht : calls t ≠ [] := by simpa [calls_cons, hc] using h
      have hrest := ih ht
      simp only [beforeSettlement] at hrest
      simp [beforeSettlement, hc, hrest]

theorem beforeSettlement_of_nil (h : calls t = []) : beforeSettlement t = t := by
  have happ : beforeSettlement (t ++ []) = t ++ beforeSettlement [] :=
    beforeSettlement_append_of_nil h
  simpa [beforeSettlement] using happ

theorem auditRaise_append : auditRaise (t ++ t') = (auditRaise t').or (auditRaise t) := by
  rw [auditRaise, List.reverse_append, List.findSome?_append]
  rfl

/-- No event of the trace is one of the audit log. -/
def Unaudited (t : List Ev) : Prop := ∀ e ∈ t, ¬ e.cmd.Auditing

theorem Unaudited.auditRaise (h : Unaudited t) : auditRaise t = none := by
  refine List.findSome?_eq_none_iff.mpr fun e he => ?_
  have hc := h e (List.mem_reverse.mp he)
  obtain ⟨c, r⟩ := e
  cases c <;> first | rfl | exact absurd trivial hc

theorem Unaudited.harmless (h : Unaudited t) (x : Exc) (hx : LlmGateway.auditRaise t = some x) :
    x.isException = true := by
  rw [h.auditRaise] at hx
  cases hx

theorem Unaudited.not_cut (h : Unaudited t) : ¬ AuditCut t := by
  rintro ⟨x, hx, -⟩
  have hbefore : Unaudited (beforeSettlement t) := fun e he => h e (List.takeWhile_subset _ he)
  rw [hbefore.auditRaise] at hx
  cases hx

/-- A write to the audit log that went through, or was not made, does not count. -/
theorem auditCut_append_left (hc : calls t = [])
    (hu : ∀ x, auditRaise t = some x → x.isException = true) :
    AuditCut (t ++ t') ↔ AuditCut t' := by
  rw [AuditCut, beforeSettlement_append_of_nil hc, auditRaise_append, AuditCut]
  cases h : auditRaise (beforeSettlement t') with
  | some x => simp
  | none =>
    simp only [Option.none_or]
    refine iff_of_false ?_ (by simp)
    rintro ⟨x, hx, hfalse⟩
    rw [hu x hx] at hfalse
    cases hfalse

theorem auditCut_append_of_ne_nil (hc : calls t ≠ []) : AuditCut (t ++ t') ↔ AuditCut t := by
  rw [AuditCut, beforeSettlement_append_of_ne_nil hc, AuditCut]

theorem auditCut_append_right (hc : calls t' = []) (hu : Unaudited t') :
    AuditCut (t ++ t') ↔ AuditCut t := by
  by_cases ht : calls t = []
  · rw [AuditCut, beforeSettlement_append_of_nil ht, beforeSettlement_of_nil hc, auditRaise_append,
      hu.auditRaise, Option.none_or, AuditCut, beforeSettlement_of_nil ht]
  · exact auditCut_append_of_ne_nil ht

/-! ## One settlement -/

theorem wp_unrecorded {m : Py σ α} (h : m.Only Cmd.Unrecorded) :
    m.wp A s fun t _ _ => calls t = [] :=
  Coro.wp_mono h.wp fun _ _ _ _ ht => calls_of_unrecorded ht

/-- `_settle_chain` settles once, writes nothing to the audit log, and raises no `Exception`. -/
theorem wp_settleChain_once [Rounding] {provider : String} {cost : ℚ} :
    (settleChain settings apiKey reservations provider cost).wp A s fun t r s' =>
      s' = s ∧ (∀ e, r ≠ .error (.exception e)) ∧
        SettledAt apiKey reservations provider cost (calls t) ∧ ¬ AuditCut t := by
  refine Coro.wp_mono (Coro.wp_and calls_settleChain
    (only_settleChain (B := Cmd.Settling) fun _ h => h.settling).wp) fun t r s' _ h => ?_
  obtain ⟨⟨hs, hr, hsettled⟩, honly⟩ := h
  exact ⟨hs, hr, hsettled, Unaudited.not_cut fun e he => (honly e he).not_auditing⟩

/-- A function that settles and then only reports has settled once, before any write to the audit
log. -/
theorem wp_settleChain_bind [Rounding] {provider : String} {cost : ℚ} {f : Unit → Py σ α}
    (hf : (f ()).Only Cmd.Unrecorded) :
    (settleChain settings apiKey reservations provider cost >>= f).wp A s fun t _ _ =>
      SettledAt apiKey reservations provider cost (calls t) ∧ ¬ AuditCut t := by
  rw [Coro.wp_bind]
  refine Coro.wp_mono wp_settleChain_once fun t r s' _ h => ?_
  obtain ⟨rfl, -, hsettled, hcut⟩ := h
  match r with
  | .error x => exact ⟨hsettled, hcut⟩
  | .ok () =>
    refine Coro.wp_mono (wp_unrecorded hf) fun t' r' s'' _ ht' => ?_
    refine ⟨by rwa [calls_append, ht', List.append_nil], ?_⟩
    rwa [auditCut_append_of_ne_nil hsettled.ne_nil]

/-! ## Outcomes -/

/-- How a trace ends that settles unless it is kept from it: `P` is whether the spend can be priced,
`C` whether a write to the audit log comes before the settlement. -/
inductive Outcome (C : Prop) (apiKey : String) (reservations : OrderedDict String ℚ) (P : Prop)
    (t : List Ev) : Prop
  | settled (hP : P) {provider : String} {cost : ℚ}
      (h : SettledAt apiKey reservations provider cost (calls t)) (hcut : ¬ AuditCut t)
  | unpriced (h : calls t = []) (hP : (∀ e ∈ t, Healthy e) → ¬ P) (hcut : ¬ AuditCut t)
  | cut (hC : C) (h : calls t = []) (hcut : AuditCut t)

namespace Outcome

theorem once (h : Outcome C apiKey reservations P t) :
    calls t = [] ∨ ∃ provider cost, SettledAt apiKey reservations provider cost (calls t) := by
  cases h with
  | settled _ h _ => exact .inr ⟨_, _, h⟩
  | unpriced h _ _ | cut _ h _ => exact .inl h

theorem settled_iff (h : Outcome C apiKey reservations P t) (hA : ∀ e ∈ t, Healthy e) :
    Settled apiKey reservations t ↔ P ∧ ¬ (C ∧ AuditCut t) := by
  cases h with
  | settled hP h hcut => exact iff_of_true h.settled ⟨hP, fun hc => hcut hc.2⟩
  | unpriced h hP _ => exact iff_of_false (not_settled_of_nil h) fun hp => hP hA hp.1
  | cut hC h hcut => exact iff_of_false (not_settled_of_nil h) fun hp => hp.2 ⟨hC, hcut⟩

/-- Something raised before anything was settled. -/
theorem of_unhealthy (h : calls t = []) (hu : Unaudited t) (hA : ¬ ∀ e ∈ t, Healthy e) :
    Outcome C apiKey reservations P t :=
  .unpriced h (fun h => absurd h hA) hu.not_cut

theorem prepend_audit (h : Outcome C apiKey reservations P t') (hc : calls t = [])
    (hu : ∀ x, auditRaise t = some x → x.isException = true) :
    Outcome C apiKey reservations P (t ++ t') := by
  have hcut : AuditCut (t ++ t') ↔ AuditCut t' := auditCut_append_left hc hu
  have hcalls : calls (t ++ t') = calls t' := by rw [calls_append, hc, List.nil_append]
  cases h with
  | settled hP h hn => exact .settled hP (by rwa [hcalls]) (by rwa [hcut])
  | unpriced h hP hn =>
    exact .unpriced (by rwa [hcalls]) (fun hA => hP fun e he => hA e (List.mem_append_right _ he))
      (by rwa [hcut])
  | cut hC h hy => exact .cut hC (by rwa [hcalls]) (by rwa [hcut])

theorem prepend (h : Outcome C apiKey reservations P t') (hc : calls t = []) (hu : Unaudited t) :
    Outcome C apiKey reservations P (t ++ t') :=
  h.prepend_audit hc hu.harmless

theorem append (h : Outcome C apiKey reservations P t) (hc : calls t' = []) (hu : Unaudited t') :
    Outcome C apiKey reservations P (t ++ t') := by
  have hcut := auditCut_append_right (t := t) hc hu
  have hcalls : calls (t ++ t') = calls t := by rw [calls_append, hc, List.append_nil]
  cases h with
  | settled hP h hn => exact .settled hP (by rwa [hcalls]) (by rwa [hcut])
  | unpriced h hP hn =>
    exact .unpriced (by rwa [hcalls]) (fun hA => hP fun e he => hA e (List.mem_append_left _ he))
      (by rwa [hcut])
  | cut hC h hy => exact .cut hC (by rwa [hcalls]) (by rwa [hcut])

/-- Nothing that happens after a settlement matters, unless it settles again. -/
theorem append_of_settled {provider : String} {cost : ℚ} (hP : P)
    (h : SettledAt apiKey reservations provider cost (calls t)) (hcut : ¬ AuditCut t)
    (hc : calls t' = []) : Outcome C apiKey reservations P (t ++ t') :=
  .settled hP (by rwa [calls_append, hc, List.append_nil])
    (by rwa [auditCut_append_of_ne_nil h.ne_nil])

end Outcome

/-! ### Statements around a settlement -/

/-- Plain commands before a settlement do not matter. -/
theorem wp_metric_bind_outcome {m : Metric} {f : Unit → Py σ α}
    (h : (f ()).wp A s fun t _ _ => Outcome C apiKey reservations P t) :
    (metric m >>= f).wp A s fun t _ _ => Outcome C apiKey reservations P t := by
  rw [Coro.wp_bind, wp_metric_iff]
  rintro (e | ⟨⟩) _
  · exact .of_unhealthy rfl (by simp [Unaudited, Cmd.Auditing]) fun h => nomatch h _ (.head _)
  · exact Coro.wp_mono h fun t r s' _ ht => ht.prepend rfl (by simp [Unaudited, Cmd.Auditing])

/-- Nor do plain commands after it. -/
theorem wp_bind_plain_outcome {m : Py σ α} {f : α → Py σ β}
    (h : m.wp A s fun t _ _ => Outcome C apiKey reservations P t)
    (hf : ∀ a, (f a).Only Cmd.Plain) :
    (m >>= f).wp A s fun t _ _ => Outcome C apiKey reservations P t := by
  rw [Coro.wp_bind]
  refine Coro.wp_mono h fun t r s' _ ht => ?_
  match r with
  | .error x => exact ht
  | .ok a =>
    refine Coro.wp_mono (hf a).wp fun t' r' s'' _ hplain => ?_
    exact ht.append (calls_of_unrecorded fun e he => (hplain e he).1) fun e he => (hplain e he).2

end LlmGateway
