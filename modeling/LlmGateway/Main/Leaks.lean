import LlmGateway.Main.Conservation
import LlmGateway.Main.Outcome
import Mathlib.Algebra.BigOperators.Group.Finset.Piecewise

/-!
# What `BUDGET_RESERVATION_LEAKED` counts

Any number of requests reserve and settle while Redis may refuse any command. A claim it refused
leaves nothing behind, and a hand-back it refused with an `Exception` is counted by the metric. What
a cancelled hand-back leaves is not, and neither is what a refused unwinding or settlement does: it
is at most logged. So the metric tells what the ledgers are off by as long as only the former
happens.
-/

namespace LlmGateway.Leaks

open Coroutine
open Conservation (Request Finished share)

/-! ## The property -/

/-- A Redis command may fail by an `Exception` or a `CancelledError` and is then not applied. Nothing
else fails, and the clock stays in the period `P`. -/
structure Lossy (P : ℤ) (e : Ev) : Prop where
  healthy : Healthy e
  period : BudgetTracker.InPeriod P e
  unapplied : failed e = true → ∀ k, moved k e = 0
  kind : ∀ x, raised e = some x → x.isException = true ∨ x = .cancelled

/-- The ledger an event increments. -/
def target? : Ev → Option LedgerKey
  | ⟨.incrbyfloat k _, _⟩ => some k
  | ⟨.incrbyfloatExpire k _ _, _⟩ => some k
  | _ => none

/-- The ledgers `K` are of the label `l`, and all of that label that the trace increments are among
them. -/
structure Covers (K : Finset LedgerKey) (l : Ledger) (t : List Ev) : Prop where
  label : ∀ k ∈ K, k.ledger = l
  target : ∀ e ∈ t, ∀ k ∈ target? e, k.ledger = l → k ∈ K

variable {ι : Type} [DecidableEq ι] [Fintype ι] {settings : Settings} {P : ℤ}
  {requests : ι → Request} {L₀ : Ledgers} {Q : Pool (redis (Lossy P)) ι (Except Exc Unit × Unit)}

/-- The requests, not started. -/
def opening (settings : Settings) (P : ℤ) (requests : ι → Request) (L₀ : Ledgers) :
    Pool (redis (Lossy P)) ι (Except Exc Unit × Unit) :=
  Pool.start L₀ fun i => (requests i).run settings ()

/-- Not started yet, or finished. -/
def AtRest (Q : Pool (redis (Lossy P)) ι (Except Exc Unit × Unit)) (i : ι) : Prop :=
  Q.hist i = [] ∨ (Q.prog i).value?.isSome

/-- What a ledger is off by: how far it has moved beyond the costs of the requests that reached
`_settle_chain`. -/
def gap (settings : Settings) (requests : ι → Request) (L₀ : Ledgers)
    (Q : Pool (redis (Lossy P)) ι (Except Exc Unit × Unit)) (k : LedgerKey) : ℚ :=
  Q.world k - L₀ k - ∑ i, share settings P (requests i) (Q.hist i) k

/-- The ledgers of a label are off by what was added to `BUDGET_RESERVATION_LEAKED` for it. The metric
does not tell the ledgers of a label apart, so they are taken together. -/
def AllCounted (settings : Settings) (requests : ι → Request) (L₀ : Ledgers)
    (Q : Pool (redis (Lossy P)) ι (Except Exc Unit × Unit)) : Prop :=
  ∀ l K, (∀ i, Covers K l (Q.hist i)) →
    ∑ k ∈ K, gap settings requests L₀ Q k = ∑ i, tally (leaked l) (Q.hist i)

/-! ## The condition -/

/-- The events from the first recorded call on: those of the unwinding or the settlement. -/
def fromSettlement (t : List Ev) : List Ev := t.dropWhile fun e => (call? e).isNone

/-- A hand-back that fails raises an `Exception`, and nothing fails in the unwinding or the
settlement. -/
structure Accountable (t : List Ev) : Prop where
  handBack : ∀ e ∈ beforeSettlement t, ∀ k, asked k e < 0 →
    ∀ x, raised e = some x → x.isException = true
  settlement : ∀ e ∈ fromSettlement t, failed e = false

/-! ## One command -/

theorem target?_of_asked {e : Ev} {k : LedgerKey} (h : asked k e ≠ 0) : target? e = some k := by
  obtain ⟨c, r⟩ := e
  cases c with
  | incrbyfloat k' d | incrbyfloatExpire k' d n =>
    obtain rfl : k' = k := by
      by_contra hne
      exact h (if_neg hne)
    rfl
  | _ => exact absurd rfl h

/-- A failed claim strands nothing, a failed hand-back its amount. -/
theorem strandedBy_of_unapplied {e : Ev} {k : LedgerKey} {d : ℚ} {a : Bool} {x : Exc}
    (hl : Lost e k d a x) (h : ∀ k, moved k e = 0) :
    strandedBy d a = if d < 0 then -d else 0 := by
  by_cases hd : d = 0
  · simp [strandedBy, hd]
  · have hmoved := h k
    rw [moved, hl.asked, if_pos rfl, hl.landed hd] at hmoved
    cases a with
    | true => exact absurd hmoved hd
    | false =>
      rcases lt_or_gt_of_ne hd with hneg | hpos
      · simp [strandedBy, hneg, not_lt.mpr hneg.le]
      · simp [strandedBy, hpos, not_lt.mpr hpos.le]

/-- What an accountable command strands on the ledgers of a label is what the label counts of it. -/
theorem sum_stranded {e : Ev} (h : Lossy P e)
    (hback : ∀ k, asked k e < 0 → ∀ x, raised e = some x → x.isException = true)
    {K : Finset LedgerKey} {l : Ledger} (hlabel : ∀ k ∈ K, k.ledger = l)
    (htarget : ∀ k ∈ target? e, k.ledger = l → k ∈ K) :
    ∑ k ∈ K, stranded k e = excused l e := by
  cases hf : failed e with
  | false =>
    rw [excused_of_not_failed hf]
    exact Finset.sum_eq_zero fun k _ => stranded_of_not_failed hf k
  | true =>
    obtain ⟨k, d, a, x, hl⟩ := exists_lost hf
    rw [Finset.sum_congr rfl fun k' _ => hl.stranded k', Finset.sum_ite_eq,
      strandedBy_of_unapplied hl (h.unapplied hf), hl.excused]
    by_cases hd : d < 0
    · have hask : asked k e = d := by rw [hl.asked, if_pos rfl]
      have hx : x.isException = true := hback k (by rwa [hask]) x hl.raised
      have hk : k ∈ K ↔ k.ledger = l :=
        ⟨hlabel k, htarget k (target?_of_asked (by rw [hask]; exact hd.ne))⟩
      simp [hd, hx, hk]
    · simp [hd]

/-! ## One request -/

section Request

variable {q : Request} {t t₁ t₂ : List Ev} {r : Except Exc Unit}

theorem sum_tally_stranded {K : Finset LedgerKey} {l : Ledger} (hK : Covers K l t)
    (h : ∀ e ∈ t, Lossy P e)
    (hback : ∀ e ∈ t, ∀ k, asked k e < 0 → ∀ x, raised e = some x → x.isException = true) :
    ∑ k ∈ K, tally (stranded k) t = tally (excused l) t := by
  obtain ⟨hlabel, htarget⟩ := hK
  induction t with
  | nil => simp
  | cons e t ih =>
    obtain ⟨he, ht⟩ := List.forall_mem_cons.mp h
    obtain ⟨hbe, hbt⟩ := List.forall_mem_cons.mp hback
    obtain ⟨hte, htt⟩ := List.forall_mem_cons.mp htarget
    simp only [tally_cons, Finset.sum_add_distrib]
    rw [sum_stranded he hbe hlabel hte, ih ht hbt htt]

theorem beforeSettlement_of_headed (hcalls : calls t₁ = []) (hhead : Headed t₂) :
    beforeSettlement (t₁ ++ t₂) = t₁ := by
  rw [beforeSettlement_append_of_nil hcalls]
  rcases hhead with rfl | ⟨c, t, rfl⟩ <;> simp [beforeSettlement, call?]

theorem fromSettlement_of_headed (hcalls : calls t₁ = []) (hhead : Headed t₂) :
    fromSettlement (t₁ ++ t₂) = t₂ := by
  rw [fromSettlement, List.dropWhile_append_of_pos (call?_of_calls_nil hcalls)]
  rcases hhead with rfl | ⟨c, t, rfl⟩ <;> simp [call?]

/-- The books of a request that is over: its ledgers have moved by its cost and what was stranded, and
the leaks counted are the hand-backs that ended in an `Exception`. -/
structure Closed (settings : Settings) (P : ℤ) (q : Request) (t : List Ev) : Prop where
  moved : ∀ k, tally (moved k) t = share settings P q t k + tally (stranded k) t
  leaked : ∀ l, tally (leaked l) t = tally (excused l) t
  handBack : ∀ e ∈ t, ∀ k, asked k e < 0 → ∀ x, raised e = some x → x.isException = true

theorem closed_nil : Closed settings P q [] :=
  ⟨fun k => by simp [Conservation.share_of_refused (t := []) rfl], fun _ => rfl, by simp⟩

theorem closed_of_finished (h : Finished settings P q t₁ t₂ r) (hacc : Accountable (t₁ ++ t₂)) :
    Closed settings P q (t₁ ++ t₂) := by
  obtain ⟨hback, hquiet⟩ := hacc
  rw [beforeSettlement_of_headed h.calls h.headed] at hback
  rw [fromSettlement_of_headed h.calls h.headed] at hquiet
  have hmoved := h.moved.resolve_left (not_interrupted hquiet)
  refine ⟨fun k => ?_, fun l => ?_, List.forall_mem_append.mpr ⟨hback, fun e he k _ x hx => ?_⟩⟩
  · rw [tally_append, tally_moved_of_not_failed hquiet, hmoved, tally_append,
      tally_stranded_of_not_failed hquiet, add_zero]
  · rw [h.leaked, tally_append, tally_eq_zero fun e he => excused_of_not_failed (hquiet e he) l,
      add_zero]
  · have hf := hquiet e he
    rw [failed, hx] at hf
    cases hf

end Request

/-! ## Any number of requests -/

omit [Fintype ι] in
theorem closed_at_rest (h : (opening settings P requests L₀).Reaches Q) {i : ι} (hi : AtRest Q i)
    (hacc : Accountable (Q.hist i)) : Closed settings P (requests i) (Q.hist i) := by
  rcases hi with hnil | hdone
  · rw [hnil]
    exact closed_nil
  · obtain ⟨⟨r, ⟨⟩⟩, hr⟩ := Option.isSome_iff_exists.mp hdone
    have hwp : (((requests i).run settings) ()).wp (Lossy P) _ :=
      Coro.wp_anti Conservation.wp_finished fun e he => ⟨he.healthy, he.period⟩
    obtain ⟨t₁, t₂, ht, hfin⟩ :=
      Pool.Reaches.wp_apply h redis_admits hwp (Conservation.Prog.eq_ret_of_value? hr)
    rw [ht] at hacc ⊢
    exact closed_of_finished hfin hacc

/-- A ledger is off by what was stranded on it. -/
theorem gap_eq (h : (opening settings P requests L₀).Reaches Q) (hrest : ∀ i, AtRest Q i)
    (hacc : ∀ i, Accountable (Q.hist i)) (k : LedgerKey) :
    gap settings requests L₀ Q k = ∑ i, tally (stranded k) (Q.hist i) := by
  have hworld : Q.world k = L₀ k + ∑ i, tally (moved k) (Q.hist i) :=
    Pool.Reaches.tally (g := fun L : Ledgers => L k) h (redis_moves k)
  have hmoved : ∑ i, tally (moved k) (Q.hist i)
      = ∑ i, share settings P (requests i) (Q.hist i) k + ∑ i, tally (stranded k) (Q.hist i) := by
    rw [← Finset.sum_add_distrib]
    exact Finset.sum_congr rfl fun i _ => (closed_at_rest h (hrest i) (hacc i)).moved k
  rw [gap, hworld, hmoved]
  ring

/-- Redis refuses every refund of a provider, and nothing else. -/
def refusing (L : Ledgers) : (c : Cmd) → Reply c × Ledgers
  | .incrbyfloat k d =>
    if d < 0 then (.failed (.exception (.other "ConnectionError")) false, L)
    else answer calm L (.incrbyfloat k d)
  | c => answer calm L c

theorem lossy_calm (L : Ledgers) (c : Cmd) : Lossy 0 ⟨c, (answer calm L c).1⟩ := by
  refine ⟨healthy_answer L c healthy_calm, ?_, fun h => ?_, fun x hx => ?_⟩
  · cases c with
    | time => exact Conservation.period_zero
    | _ => trivial
  · rw [failed, raised_answer] at h
    cases h
  · rw [raised_answer] at hx
    cases hx

theorem refusing_of_neg {L : Ledgers} {k : LedgerKey} {d : ℚ} (hd : d < 0) :
    refusing L (.incrbyfloat k d) = (.failed (.exception (.other "ConnectionError")) false, L) :=
  if_pos hd

theorem refusing_of_nonneg {L : Ledgers} {k : LedgerKey} {d : ℚ} (hd : ¬ d < 0) :
    refusing L (.incrbyfloat k d) = answer calm L (.incrbyfloat k d) :=
  if_neg hd

theorem redis_refusing (L : Ledgers) (c : Cmd) :
    (redis (Lossy 0)).answers L ⟨c, (refusing L c).1⟩ (refusing L c).2 := by
  cases c with
  | incrbyfloat k d =>
    by_cases hd : d < 0
    · rw [refusing_of_neg hd]
      have hmoved : ∀ k', moved k' ⟨.incrbyfloat k d,
          .failed (.exception (.other "ConnectionError")) false⟩ = 0 := fun k' => by simp
      refine ⟨⟨trivial, trivial, fun _ => hmoved, fun x hx => ?_⟩, fun k' => ?_, trivial⟩
      · obtain rfl := Option.some.inj hx
        exact .inl rfl
      · rw [hmoved, add_zero]
    · rw [refusing_of_nonneg hd]
      exact redis_answer lossy_calm L _
  | _ => exact redis_answer lossy_calm L _

/-- One request while refunds are refused, run to its end. -/
def refused (settings : Settings) : Pool (redis (Lossy 0)) (Fin 1) (Except Exc Unit × Unit) :=
  (opening settings 0 (fun _ => Conservation.prompt) fun _ => 0).schedule refusing
    (List.replicate 12 0)

theorem reaches_refused (settings : Settings) :
    (opening settings 0 (fun _ : Fin 1 => Conservation.prompt) fun _ => 0).Reaches
      (refused settings) :=
  Pool.reaches_schedule redis_refusing _ _

/-- A deployment whose providers have no budget left. -/
def spent : Settings := { hashKey := id, providerLifetimeBudgetUsd := 0 }

theorem accountable_spent (i : Fin 1) : Accountable ((refused spent).hist i) := by
  have hraised : ∀ i : Fin 1, ∀ e ∈ beforeSettlement ((refused spent).hist i),
      (raised e).all Exc.isException = true := by decide +kernel
  have hquiet : ∀ i : Fin 1, ∀ e ∈ fromSettlement ((refused spent).hist i), failed e = false := by
    decide +kernel
  refine ⟨fun e he k _ x hx => ?_, hquiet i⟩
  simpa [hx] using hraised i e he

end LlmGateway.Leaks
