import LlmGateway.Budget.ProviderBudget
import LlmGateway.Gateway.Redis
import Mathlib.Algebra.Order.BigOperators.Group.Finset
import Mathlib.Tactic.Linarith

/-!
# The lifetime ceiling under concurrency

Any number of callers reserve and, once admitted, settle at no more than they reserved. Their Redis
commands interleave in any order, and each of them may fail without being applied.

A refused caller inflates the ledger until its hand-back lands, for good if it never does. That is
the safe direction: the ledger is at least what the admitted callers account for, and it was within
the cap at the last admission.
-/

namespace LlmGateway.LifetimeCeiling

open Coroutine ProviderBudget

/-- A caller: the worst case it claims, and what it turns out to cost. -/
structure Caller where
  worst : ℚ
  actual : ℚ
  worst_pos : 0 < worst
  actual_nonneg : 0 ≤ actual
  actual_le : actual ≤ worst

/-- Reserve and, unless refused, settle. -/
def Caller.run (capUsd : ℚ) (provider : String) (c : Caller) : Py Unit Unit := do
  reserve capUsd provider c.worst
  settle capUsd provider c.worst c.actual

/-- A command that fails was not applied. -/
def LossOnly (e : Ev) : Prop := Healthy e ∧ (failed e = true → landed e = false)

/-- The outcome of a finished caller. -/
abbrev Outcome : Type := Option (Except Exc Unit × Unit)

/-- `reserve` has returned: the caller went on to call `settle`. -/
def admitted (t : List Ev) : Bool := !(calls t).isEmpty

/-- Admitted, and `settle` has returned as well. -/
def settled (t : List Ev) : Outcome → Bool
  | some (.ok (), _) => admitted t
  | _ => false

/-- Admitted and not settled. -/
def live (t : List Ev) (o : Outcome) : Bool := admitted t && !settled t o

/-- What a ceiling counts a caller as that claims `worst` and costs `actual`. -/
def chargeOf (worst actual : ℚ) (t : List Ev) (o : Outcome) : ℚ :=
  (if settled t o then actual else 0) + if live t o then worst else 0

/-- What the ceiling counts a caller as. -/
def Caller.charge (c : Caller) (t : List Ev) (o : Outcome) : ℚ :=
  (if settled t o then c.actual else 0) + if live t o then c.worst else 0

section Charge

variable {worst actual : ℚ} {t : List Ev} {o : Outcome}

theorem chargeOf_of_not_admitted (h : admitted t = false) : chargeOf worst actual t o = 0 := by
  have hs : settled t o = false := by
    unfold settled
    split
    · exact h
    · rfl
  simp [chargeOf, live, hs, h]

theorem chargeOf_of_settled (h : settled t o = true) : chargeOf worst actual t o = actual := by
  simp [chargeOf, live, h]

theorem chargeOf_of_live (h : live t o = true) : chargeOf worst actual t o = worst := by
  have hs : settled t o = false := by
    rw [live, Bool.and_eq_true, Bool.not_eq_true'] at h
    exact h.2
  simp [chargeOf, h, hs]

theorem chargeOf_nonneg (ha : 0 ≤ actual) (hw : 0 ≤ worst) : 0 ≤ chargeOf worst actual t o :=
  add_nonneg (by split <;> simp [ha]) (by split <;> simp [hw])

theorem chargeOf_le_worst (h₀ : 0 ≤ actual) (h : actual ≤ worst) :
    chargeOf worst actual t o ≤ worst := by
  cases ha : admitted t with
  | false =>
    rw [chargeOf_of_not_admitted ha]
    exact h₀.trans h
  | true =>
    cases hs : settled t o with
    | true =>
      rw [chargeOf_of_settled hs]
      exact h
    | false => exact (chargeOf_of_live (by simp [live, ha, hs])).le

/-- An admitted caller that has not finished is live. -/
theorem chargeOf_of_unfinished (h : admitted t = true) : chargeOf worst actual t none = worst :=
  chargeOf_of_live (by simp [live, settled, h])

/-- A turn that does not admit a caller makes it count for no more. -/
theorem chargeOf_slice_le {p q : Prog gateway (Except Exc Unit × Unit)} {t' : List Ev}
    (h₀ : 0 ≤ actual) (hle : actual ≤ worst) (hs : Slice p t' q)
    (h : admitted t = true ∨ admitted (t ++ t') = false) :
    chargeOf worst actual (t ++ t') q.value? ≤ chargeOf worst actual t p.value? := by
  rw [hs.value?_eq_none]
  rcases h with h | h
  · rw [chargeOf_of_unfinished h]
    exact chargeOf_le_worst h₀ hle
  · have hbefore : admitted t = false := by
      simp only [admitted, calls_append, Bool.not_eq_false', List.isEmpty_iff,
        List.append_eq_nil_iff] at h ⊢
      exact h.1
    rw [chargeOf_of_not_admitted h, chargeOf_of_not_admitted hbefore]

end Charge

variable {capUsd : ℚ} {provider : String} {c : Caller} {t : List Ev} {o : Outcome}

theorem charge_of_not_admitted (h : admitted t = false) : c.charge t o = 0 :=
  chargeOf_of_not_admitted h

theorem charge_of_settled (h : settled t o = true) : c.charge t o = c.actual :=
  chargeOf_of_settled h

theorem charge_le_worst : c.charge t o ≤ c.worst := chargeOf_le_worst c.actual_nonneg c.actual_le

/-! ## One caller -/

/-- The claim of an admitted caller: answered with a total within the cap. -/
def Claimed (capUsd : ℚ) (provider : String) (worst : ℚ) (t : List Ev) : Prop :=
  ∃ total ≤ capUsd, t.head? = some ⟨.incrbyfloat (key provider) worst, .ok total⟩

/-- Where a caller can be found between turns: it is admitted exactly when its claim was answered
within the cap, and the ledger holds at least what it counts as. -/
structure Stage (capUsd : ℚ) (provider : String) (c : Caller) (t : List Ev) (o : Outcome) :
    Prop where
  admitted_iff : admitted t = true ↔ Claimed capUsd provider c.worst t
  charge_le : c.charge t o ≤ tally (moved (key provider)) t

theorem Stage.outside (ha : admitted t = false) (hc : ¬ Claimed capUsd provider c.worst t)
    (hm : 0 ≤ tally (moved (key provider)) t) : Stage capUsd provider c t o where
  admitted_iff := by simp [ha, hc]
  charge_le := (charge_of_not_admitted ha).trans_le hm

/-- What the trace of a claim within the cap looks like when `reserve` returns. -/
structure Held (capUsd : ℚ) (provider : String) (worst : ℚ) (t : List Ev) : Prop where
  claimed : Claimed capUsd provider worst t
  calls_eq : calls t = []
  moved_eq : tally (moved (key provider)) t = worst

theorem Claimed.append (h : Claimed capUsd provider c.worst t) (t' : List Ev) :
    Claimed capUsd provider c.worst (t ++ t') := by
  obtain ⟨total, hle, ht⟩ := h
  exact ⟨total, hle, by rw [List.head?_append, ht, Option.some_or]⟩

theorem not_claimed_of_total {total : ℚ} (h : ¬ total ≤ capUsd) {t : List Ev} :
    ¬ Claimed capUsd provider c.worst
      (⟨.incrbyfloat (key provider) c.worst, .ok total⟩ :: t) := by
  rintro ⟨total', hle, ht⟩
  obtain rfl : total = total' := by simpa using ht
  exact h hle

/-- `reserve` either returns holding the claim or leaves the caller outside. -/
theorem stages_reserve (hp : provider ∉ FREE_PROVIDERS) :
    (reserve capUsd provider c.worst).stages LossOnly () fun t o =>
      match o with
      | some (.ok (), _) => Held capUsd provider c.worst t
      | o => Stage capUsd provider c t o := by
  have hA : ∀ e, LossOnly e → Healthy e := fun e h => h.1
  have hw := c.worst_pos
  rw [reserve, if_neg (by simp [hp, hw]), Coro.stages_bind, stages_incrbyfloat_iff]
  refine ⟨.outside rfl (by simp [Claimed]) le_rfl, fun r hr => ?_⟩
  cases r with
  | failed e a =>
    obtain rfl : a = false := hr.2 rfl
    exact .outside rfl (by simp [Claimed]) (by simp [moved, landed, Sent.applied])
  | ok total =>
    dsimp only [Sent.toExcept]
    rw [Coro.stages_ite]
    refine ⟨fun hle => stages_publish hA ?_, fun hle => ?_⟩
    · exact ⟨⟨total, hle, rfl⟩, by simp [calls_cons, call?],
        by simp [moved, landed, Sent.applied, asked]⟩
    -- refused: every stage from here on has the claim on the ledger, or has handed it back
    · rw [Coro.stages_bind, tryExceptElse, Coro.stages_attemptElse, stages_incrbyfloat_iff]
      refine ⟨.outside rfl (not_claimed_of_total hle)
        (by simp [moved, landed, Sent.applied, asked, hw.le]), fun r hr => ?_⟩
      cases r with
      | ok total' =>
        refine stages_publish hA (.outside ?_ (not_claimed_of_total hle) ?_)
        · simp [admitted, calls_cons, call?]
        · simp [moved, landed, Sent.applied, asked]
      | failed e a =>
        obtain rfl : a = false := hr.2 rfl
        cases e with
        | exception e =>
          dsimp only [Sent.toExcept]
          rw [Coro.stages_bind, stages_metric_iff]
          rintro r hr
          obtain rfl := hA _ hr
          refine stages_publish hA (.outside ?_ (not_claimed_of_total hle) ?_)
          · simp [admitted, calls_cons, call?]
          · simp [moved, landed, Sent.applied, asked, hw.le]
        | cancelled =>
          exact .outside rfl (not_claimed_of_total hle)
            (by simp [moved, landed, Sent.applied, asked, hw.le])
        | generatorExit =>
          exact .outside rfl (not_claimed_of_total hle)
            (by simp [moved, landed, Sent.applied, asked, hw.le])
        | interrupt =>
          exact .outside rfl (not_claimed_of_total hle)
            (by simp [moved, landed, Sent.applied, asked, hw.le])

theorem Held.stage (h : Held capUsd provider c.worst t) {t' : List Ev}
    (ha : admitted (t ++ t') = true)
    (hm : c.charge (t ++ t') o ≤ c.worst + tally (moved (key provider)) t') :
    Stage capUsd provider c (t ++ t') o where
  admitted_iff := by simp [ha, h.claimed.append]
  charge_le := by rwa [tally_append, h.moved_eq]

/-- `settle` keeps a held claim on the ledger until it has replaced it by the actual cost. -/
theorem stages_settle (hp : provider ∉ FREE_PROVIDERS) (h : Held capUsd provider c.worst t) :
    (settle capUsd provider c.worst c.actual).stages LossOnly () fun t' o =>
      Stage capUsd provider c (t ++ t') o := by
  have hA : ∀ e, LossOnly e → Healthy e := fun e h => h.1
  rw [settle, Coro.stages_bind, stages_log_iff]
  intro _
  dsimp only
  rw [if_neg hp, Coro.stages_ite]
  refine ⟨fun hd => h.stage ?_ ?_, fun _ => ?_⟩
  · simp [admitted, calls_cons, call?]
  · simpa [moved, asked, landed] using charge_le_worst
  rw [Coro.stages_bind, stages_incrbyfloat_iff]
  refine ⟨h.stage ?_ ?_, fun r hr => ?_⟩
  · simp [admitted, calls_cons, call?]
  · simpa [moved, asked, landed] using charge_le_worst
  cases r with
  | failed e a =>
    obtain rfl : a = false := hr.2 rfl
    refine h.stage ?_ ?_
    · simp [admitted, calls_cons, call?]
    · simpa [moved, asked, landed, Sent.applied] using charge_le_worst
  | ok total =>
    refine stages_publish hA (h.stage ?_ (le_of_eq ?_))
    · simp [admitted, calls_cons, call?]
    · rw [charge_of_settled (by simp [settled, admitted, calls_cons, call?])]
      simp [moved, asked, landed, Sent.applied]

/-- A caller is always at one of the stages. -/
theorem stages_run (hp : provider ∉ FREE_PROVIDERS) :
    (c.run capUsd provider).stages LossOnly () (Stage capUsd provider c) := by
  rw [Caller.run, Coro.stages_bind]
  refine Coro.stages_mono (stages_reserve hp) fun t o _ h => ?_
  match o with
  | none => exact h
  | some (.error _, _) => exact h
  | some (.ok (), _) => exact stages_settle hp h

/-! ## Any number of callers -/

section Pool

variable {ι : Type} [DecidableEq ι] {callers : ι → Caller} {L₀ : Ledgers}
  {P : Pool (redis LossOnly) ι (Except Exc Unit × Unit)}

/-- The callers, not started. -/
def opening (capUsd : ℚ) (provider : String) (callers : ι → Caller) (L₀ : Ledgers) :
    Pool (redis LossOnly) ι (Except Exc Unit × Unit) :=
  Pool.start L₀ fun i => (callers i).run capUsd provider ()

theorem reaches_stage (hp : provider ∉ FREE_PROVIDERS)
    (h : (opening capUsd provider callers L₀).Reaches P) (i : ι) :
    Stage capUsd provider (callers i) (P.hist i) (P.prog i).value? := by
  refine h.stages (fun _ _ _ ha => ha.1) (stages_run hp) ?_
  exact .outside rfl (by simp [Claimed]) le_rfl

/-- The ledger holds at least what the callers count as. -/
theorem charges_le_ledger [Fintype ι] (hp : provider ∉ FREE_PROVIDERS)
    (h : (opening capUsd provider callers L₀).Reaches P) :
    L₀ (key provider) + ∑ i, (callers i).charge (P.hist i) (P.prog i).value?
      ≤ P.world (key provider) := by
  rw [Pool.Reaches.tally (g := fun L : Ledgers => L (key provider)) h (redis_moves _)]
  exact (add_le_add_iff_left _).mpr
    (Finset.sum_le_sum fun i _ => (reaches_stage hp h i).charge_le)

/-- A turn that admits a caller leaves the ledger at the total its claim was answered with. -/
theorem world_le_of_admission {i : ι} {q : Prog gateway (Except Exc Unit × Unit)} {L : Ledgers}
    (hp : provider ∉ FREE_PROVIDERS) (h : (opening capUsd provider callers L₀).Reaches P)
    (hs : Slice (P.prog i) t q) (hL : (redis LossOnly).Evolves P.world t L)
    (hbefore : admitted (P.hist i) = false) (hafter : admitted (P.hist i ++ t) = true) :
    L (key provider) ≤ capUsd := by
  have hstage : Stage capUsd provider (callers i) (P.hist i ++ t) q.value? := by
    simpa [Pool.turn] using reaches_stage hp (h.tail (.turn hs hL)) i
  obtain ⟨total, hle, ht⟩ := hstage.admitted_iff.mp hafter
  -- the claim is the first command of a caller, so a caller that had one was admitted before
  have hnil : P.hist i = [] := by
    by_contra hne
    have hhead : (P.hist i).head? = some ⟨.incrbyfloat (key provider) (callers i).worst, .ok total⟩ :=
      by rwa [List.head?_append_of_ne_nil _ hne] at ht
    exact absurd ((reaches_stage hp h i).admitted_iff.mpr ⟨total, hle, hhead⟩) (by simp [hbefore])
  obtain ⟨e, t', rfl, hsync⟩ := hs.sync_tail
  obtain rfl : e = ⟨.incrbyfloat (key provider) (callers i).worst, .ok total⟩ := by
    simpa [hnil] using ht
  rw [evolves_claim hL fun e he => still_of_sync (hsync e he)]
  exact hle

/-- What the callers count as stays within the cap, or where the ledger started. -/
theorem charges_le_cap [Fintype ι] (hp : provider ∉ FREE_PROVIDERS)
    (h : (opening capUsd provider callers L₀).Reaches P) :
    L₀ (key provider) + ∑ i, (callers i).charge (P.hist i) (P.prog i).value?
      ≤ max capUsd (L₀ (key provider)) := by
  suffices hinv : (opening capUsd provider callers L₀).Reaches P ∧
      L₀ (key provider) + ∑ i, (callers i).charge (P.hist i) (P.prog i).value?
        ≤ max capUsd (L₀ (key provider)) from hinv.2
  refine h.invariant (J := fun P => (opening capUsd provider callers L₀).Reaches P ∧
    L₀ (key provider) + ∑ i, (callers i).charge (P.hist i) (P.prog i).value?
      ≤ max capUsd (L₀ (key provider))) ⟨.refl, ?_⟩ ?_
  · have hzero : ∀ i, (callers i).charge [] ((callers i).run capUsd provider ()).value? = 0 :=
      fun i => charge_of_not_admitted rfl
    simp [Pool.start, hzero]
  · rintro P i t q L ⟨hreach, ih⟩ hs hL
    have hreach' := hreach.tail (.turn hs hL)
    refine ⟨hreach', ?_⟩
    -- a turn that admits has just read the total; any other lets no caller count for more
    by_cases hadm : admitted (P.hist i) = false ∧ admitted (P.hist i ++ t) = true
    · calc L₀ (key provider) + ∑ j, _ ≤ L (key provider) := charges_le_ledger hp hreach'
        _ ≤ capUsd := world_le_of_admission hp hreach hs hL hadm.1 hadm.2
        _ ≤ _ := le_max_left _ _
    · have hother : admitted (P.hist i) = true ∨ admitted (P.hist i ++ t) = false := by
        simpa [-not_and, not_and_or] using hadm
      refine le_trans ((add_le_add_iff_left _).mpr (Finset.sum_le_sum fun j _ => ?_)) ih
      by_cases hj : j = i
      · subst hj
        have hle : (callers j).charge (P.hist j ++ t) q.value?
            ≤ (callers j).charge (P.hist j) (P.prog j).value? :=
          chargeOf_slice_le (callers j).actual_nonneg (callers j).actual_le hs hother
        simpa [Pool.turn] using hle
      · simp [Pool.turn, hj]

/-- The lifetime ceiling: whatever the order of the commands and whichever of them are lost, the
settled callers at their cost and the others admitted at their worst case fit under the cap, or
under the value the ledger started at. -/
theorem lifetime_ceiling [Fintype ι] (hp : provider ∉ FREE_PROVIDERS)
    (h : (opening capUsd provider callers L₀).Reaches P) :
    L₀ (key provider)
      + ∑ i with settled (P.hist i) (P.prog i).value? = true, (callers i).actual
      + ∑ i with live (P.hist i) (P.prog i).value? = true, (callers i).worst
      ≤ max capUsd (L₀ (key provider)) := by
  have hcharges := charges_le_cap hp h
  simp only [Caller.charge, Finset.sum_add_distrib, ← add_assoc] at hcharges
  rwa [Finset.sum_filter, Finset.sum_filter]

end Pool

/-! ## Two callers -/

/-- A caller that claims 3 and costs 1. -/
def three : Caller := ⟨3, 1, by decide, by decide, by decide⟩

/-- Two of them on a ledger at 4 under a cap of 10: both are admitted, then the first one settles.
-/
def twoCallers : Pool (redis LossOnly) (Fin 2) (Except Exc Unit × Unit) :=
  (opening 10 "openai" (fun _ => three) fun _ => 4).schedule (answer calm) [0, 1, 0]

theorem reaches_twoCallers :
    (opening 10 "openai" (fun _ : Fin 2 => three) fun _ => 4).Reaches twoCallers := by
  refine Pool.reaches_schedule (redis_answer fun L c => ?_) _ _
  have hsound : Sound ⟨c, (answer calm L c).1⟩ := sound_answer L c healthy_calm
  exact ⟨hsound.1, fun hfailed => absurd hfailed (by simp [hsound.2])⟩

theorem lifetime_ceiling_two_callers :
    settled (twoCallers.hist 0) (twoCallers.prog 0).value? = true ∧
    live (twoCallers.hist 1) (twoCallers.prog 1).value? = true ∧
    4 + ∑ i with settled (twoCallers.hist i) (twoCallers.prog i).value? = true, three.actual
      + ∑ i with live (twoCallers.hist i) (twoCallers.prog i).value? = true, three.worst
      ≤ max 10 4 :=
  ⟨by decide +kernel, by decide +kernel, lifetime_ceiling (by decide) reaches_twoCallers⟩

end LlmGateway.LifetimeCeiling
