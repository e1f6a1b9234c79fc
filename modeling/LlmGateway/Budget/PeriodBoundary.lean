import LlmGateway.Budget.MonthlyCap

/-!
# Requests that straddle a period boundary

`reserve` and `settle` each read the clock, so a request that settles in a later period than it
claimed in takes its surplus off the ledger of that later period, where it never claimed anything.
A run in which no request does so keeps every ledger at what it has to cover.

Expiry is left out: the ledgers are those that were written, whether or not Redis still has them.
-/

namespace LlmGateway.PeriodBoundary

open Coroutine BudgetTracker
open LifetimeCeiling (LossOnly Outcome admitted settled live chargeOf chargeOf_of_not_admitted)
open MonthlyCap (Request Stage lastReading stages_run mem_of_lastReading three)

theorem lossOnly_of_sound {e : Ev} (h : Sound e) : LossOnly e := ⟨h.1, by simp [h.2]⟩

/-- The period a request claimed in: that of the first time it read. -/
def claimedIn : List Ev → Option ℤ
  | [] => none
  | ⟨.time, now⟩ :: _ => some (period now)
  | _ :: t => claimedIn t

/-- The period the cost of a settled request is charged in: that of the last time it read. -/
def chargedIn (t : List Ev) : Option ℤ := (lastReading none t).map period

variable {t : List Ev} {P p : ℤ}

theorem claimedIn_eq (hP : ∀ e ∈ t, InPeriod P e) (h : claimedIn t = some p) : p = P := by
  induction t with
  | nil => cases h
  | cons e t ih =>
    rw [List.forall_mem_cons] at hP
    obtain ⟨c, r⟩ := e
    cases c with
    | time =>
      have hperiod : period r = P := hP.1
      exact (Option.some.inj h).symm.trans hperiod
    | _ => exact ih hP.2 h

theorem chargedIn_eq (hP : ∀ e ∈ t, InPeriod P e) (h : chargedIn t = some p) : p = P := by
  obtain ⟨now, hlast, rfl⟩ := Option.map_eq_some_iff.mp h
  exact hP _ (mem_of_lastReading hlast)

/-- What a ledger has to cover of one request. -/
def share (keyHash : String) (P : ℤ) (hashKey : String → String) (q : Request) (t : List Ev)
    (o : Outcome) : ℚ :=
  (if hashKey q.apiKey = keyHash ∧ claimedIn t = some P ∧ live t o = true then q.worst else 0)
    + if hashKey q.apiKey = keyHash ∧ chargedIn t = some P ∧ settled t o = true then q.actual else 0

variable {hashKey : String → String} {capUsd : ℚ} {keyHash : String} {q : Request} {o : Outcome}

theorem share_le_charge : share keyHash p hashKey q t o ≤ q.charge t o := by
  have hle : ∀ {a b c : Prop} [Decidable a] [Decidable b] [Decidable c] {x : ℚ}, 0 ≤ x →
      (if a ∧ b ∧ c then x else 0) ≤ if c then x else 0 := by
    intro a b c _ _ _ x hx
    by_cases hc : c
    · rw [if_pos hc]
      split
      · exact le_rfl
      · exact hx
    · simp [hc]
  rw [share, Request.charge, chargeOf, add_comm]
  exact add_le_add (hle q.actual_nonneg) (hle q.worst_nonneg)

/-- A request that reads the clock in one period only has moved every ledger by at least what the
ledger has to cover of it. -/
theorem share_le_moved (h : Stage hashKey capUsd q t o) (hP : ∀ e ∈ t, InPeriod P e) :
    share keyHash p hashKey q t o ≤ tally (moved (.key keyHash p)) t ∧
      0 ≤ tally (moved (.key keyHash p)) t := by
  by_cases hown : LedgerKey.key keyHash p = .key (hashKey q.apiKey) P
  · rw [hown]
    have hcharge := h.charge_le P hP
    exact ⟨share_le_charge.trans hcharge, Request.charge_nonneg.trans hcharge⟩
  · rw [h.moved_of_ne hP hown]
    have hclaimed : ¬ (hashKey q.apiKey = keyHash ∧ claimedIn t = some p ∧ live t o = true) :=
      fun hc => hown (by rw [hc.1, claimedIn_eq hP hc.2.1])
    have hcharged : ¬ (hashKey q.apiKey = keyHash ∧ chargedIn t = some p ∧ settled t o = true) :=
      fun hc => hown (by rw [hc.1, chargedIn_eq hP hc.2.1])
    simp [share, hclaimed, hcharged]

section Pool

variable {ι : Type} [DecidableEq ι] {requests : ι → Request} {L₀ : Ledgers}
  {Q : Pool (redis Sound) ι (Except Exc Unit × Unit)}

/-- The requests, not started. -/
def opening (hashKey : String → String) (capUsd : ℚ) (requests : ι → Request) (L₀ : Ledgers) :
    Pool (redis Sound) ι (Except Exc Unit × Unit) :=
  Pool.start L₀ fun i => (requests i).run hashKey capUsd ()

/-- Every ledger of a caller covers the reservations its live requests claimed in the period and the
costs charged in the period, and is not negative. -/
def Covered [Fintype ι] (hashKey : String → String) (requests : ι → Request)
    (Q : Pool (redis Sound) ι (Except Exc Unit × Unit)) : Prop :=
  ∀ keyHash P, 0 ≤ Q.world (.key keyHash P) ∧
    ∑ i with hashKey (requests i).apiKey = keyHash ∧ claimedIn (Q.hist i) = some P ∧
        live (Q.hist i) (Q.prog i).value? = true, (requests i).worst
      + ∑ i with hashKey (requests i).apiKey = keyHash ∧ chargedIn (Q.hist i) = some P ∧
        settled (Q.hist i) (Q.prog i).value? = true, (requests i).actual
      ≤ Q.world (.key keyHash P)

theorem reaches_stage (h : (opening hashKey capUsd requests L₀).Reaches Q) (i : ι) :
    Stage hashKey capUsd (requests i) (Q.hist i) (Q.prog i).value? := by
  refine h.stages redis_admits (Prog.stages_anti stages_run fun _ => lossOnly_of_sound) ?_
  refine .outside trivial rfl ?_ fun _ _ => le_rfl
  rintro ⟨now, total, hle, ht⟩
  simp [applied] at ht

end Pool

/-! ## Two clocks -/

/-- Nothing fails, and the clock shows `now`. -/
def showing (now : ℚ) : (c : Cmd) → Reply c
  | .time => now
  | c => calm c

theorem answers_showing (now : ℚ) (L : Ledgers) (c : Cmd) :
    (redis Sound).answers L ⟨c, (answer (showing now) L c).1⟩ (answer (showing now) L c).2 := by
  refine redis_answer (fun L c => sound_answer L c fun c => ?_) L c
  cases c with
  | time => trivial
  | _ => exact healthy_calm _

/-- Two requests of one caller that claim 3 and cost 1, in one period: the first one settles. -/
def together : Pool (redis Sound) (Fin 2) (Except Exc Unit × Unit) :=
  (opening id 10 (fun _ => three) fun _ => 0).schedule (answer (showing 0)) [0, 1, 0, 1, 0]

/-- One of them alone, that claims when the clock shows 0 and settles 30 days later. -/
def straddled : Pool (redis Sound) (Fin 1) (Except Exc Unit × Unit) :=
  ((opening id 10 (fun _ => three) fun _ => 0).schedule (answer (showing 0)) [0]).schedule
    (answer (showing SECONDS_PER_MONTH)) [0, 0]

/-- The times a request has read. -/
def readings : List Ev → List ℚ
  | [] => []
  | ⟨.time, now⟩ :: t => now :: readings t
  | _ :: t => readings t

end LlmGateway.PeriodBoundary
