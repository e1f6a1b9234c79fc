import LlmGateway.Budget.LifetimeCeiling
import LlmGateway.Budget.Tracker
import LlmGateway.Gateway.Expiry

/-!
# The monthly cap under concurrency, with expiry

Any number of requests of any callers claim their caller's share and, once admitted, settle at no
more than they claimed, in any order and at any times, as long as each request reads the clock in
one period only. A ledger expires a month after its last increment, which is after the end of the
period it is named after, so within that period it holds exactly what its requests have moved.
-/

namespace LlmGateway.MonthlyCap

open Coroutine BudgetTracker
open LifetimeCeiling (LossOnly Outcome admitted settled live chargeOf chargeOf_of_not_admitted
  chargeOf_of_settled chargeOf_nonneg chargeOf_le_worst chargeOf_slice_le)
open TimedLedgers (Touches)

/-- A request: its caller, the worst case it claims, and what it turns out to cost. -/
structure Request where
  apiKey : String
  worst : ℚ
  actual : ℚ
  actual_nonneg : 0 ≤ actual
  actual_le : actual ≤ worst

/-- Reserve and, unless refused, settle. -/
def Request.run (hashKey : String → String) (capUsd : ℚ) (q : Request) : Py Unit Unit := do
  reserve hashKey capUsd q.apiKey q.worst
  settle hashKey q.apiKey q.worst q.actual

/-- What the cap counts a request as. -/
def Request.charge (q : Request) (t : List Ev) (o : Outcome) : ℚ := chargeOf q.worst q.actual t o

variable {hashKey : String → String} {capUsd : ℚ} {q : Request} {t t' : List Ev} {o : Outcome}
  {P : ℤ}

theorem Request.worst_nonneg (q : Request) : 0 ≤ q.worst := q.actual_nonneg.trans q.actual_le

theorem Request.charge_le_worst : q.charge t o ≤ q.worst :=
  chargeOf_le_worst q.actual_nonneg q.actual_le

theorem Request.charge_nonneg : 0 ≤ q.charge t o := chargeOf_nonneg q.actual_nonneg q.worst_nonneg

/-! ## The ledger an increment is made on -/

/-- The last time that was read, after `seen`. -/
def lastReading : Option ℚ → List Ev → Option ℚ
  | seen, [] => seen
  | _, ⟨.time, now⟩ :: t => lastReading (some now) t
  | seen, _ :: t => lastReading seen t

/-- Every increment of a ledger is made on the one the last reading of the clock names, and sets its
expiry. -/
def Keyed (hashKey : String → String) (apiKey : String) : Option ℚ → List Ev → Prop
  | _, [] => True
  | seen, e :: t => (∀ k, Touches k e → ∃ now d r, seen = some now ∧ k = keyAt hashKey apiKey now ∧
      e = ⟨.incrbyfloatExpire k d SECONDS_PER_MONTH, r⟩) ∧
    Keyed hashKey apiKey (lastReading seen [e]) t

theorem keyed_append {apiKey : String} {seen : Option ℚ} :
    Keyed hashKey apiKey seen (t ++ t') ↔
      Keyed hashKey apiKey seen t ∧ Keyed hashKey apiKey (lastReading seen t) t' := by
  induction t generalizing seen with
  | nil => simp [Keyed, lastReading]
  | cons e t ih =>
    have hlast : lastReading seen (e :: t) = lastReading (lastReading seen [e]) t := by
      obtain ⟨c, r⟩ := e
      cases c <;> rfl
    simp only [List.cons_append, Keyed, ih, hlast, and_assoc]

/-- What was read last was read. -/
theorem mem_of_lastReading {now : ℚ} (h : lastReading none t = some now) :
    (⟨.time, now⟩ : Ev) ∈ t := by
  have hgen : ∀ (t : List Ev) seen, lastReading seen t = some now →
      seen = some now ∨ (⟨.time, now⟩ : Ev) ∈ t := by
    intro t
    induction t with
    | nil => exact fun seen h => .inl h
    | cons e t ih =>
      intro seen h
      obtain ⟨c, r⟩ := e
      cases c with
      | time =>
        rcases ih _ h with heq | hmem
        · obtain rfl := Option.some.inj heq
          exact .inr (.head _)
        · exact .inr (.tail _ hmem)
      | _ => exact (ih _ h).imp_right (.tail _)
  exact (hgen t none h).resolve_left nofun

theorem keyed_applied {apiKey : String} {d now : ℚ} {r : Sent ℚ} {seen : Option ℚ} :
    Keyed hashKey apiKey seen (applied hashKey apiKey d now r) := by
  simp [applied, Keyed, Touches, lastReading]

theorem moved_applied {apiKey : String} {d now : ℚ} {r : Sent ℚ}
    (hP : ∀ e ∈ applied hashKey apiKey d now r, InPeriod P e) :
    tally (moved (.key (hashKey apiKey) P)) (applied hashKey apiKey d now r)
      = if r.applied then d else 0 := by
  rw [applied, keyAt_of_inPeriod hP]
  simp [moved, asked, landed]

/-! ## One request -/

/-- The claim of an admitted request: answered with a total within the cap. -/
def Claimed (hashKey : String → String) (capUsd : ℚ) (q : Request) (t : List Ev) : Prop :=
  ∃ now total, total ≤ capUsd ∧ applied hashKey q.apiKey q.worst now (.ok total) <+: t

/-- Where a request can be found between turns: it is admitted exactly when its claim was answered
within the cap, and the ledger holds at least what it counts as. -/
structure Stage (hashKey : String → String) (capUsd : ℚ) (q : Request) (t : List Ev) (o : Outcome) :
    Prop where
  keyed : Keyed hashKey q.apiKey none t
  admitted_iff : 0 < q.worst → (admitted t = true ↔ Claimed hashKey capUsd q t)
  charge_le : ∀ P, (∀ e ∈ t, InPeriod P e) →
    q.charge t o ≤ tally (moved (.key (hashKey q.apiKey) P)) t

theorem Stage.outside (hk : Keyed hashKey q.apiKey none t) (ha : admitted t = false)
    (hc : ¬ Claimed hashKey capUsd q t) (hm : ∀ P, (∀ e ∈ t, InPeriod P e) →
      0 ≤ tally (moved (.key (hashKey q.apiKey) P)) t) : Stage hashKey capUsd q t o where
  keyed := hk
  admitted_iff _ := by simp [ha, hc]
  charge_le P hP := (chargeOf_of_not_admitted ha).trans_le (hm P hP)

/-- What the trace looks like when `reserve` returns. -/
structure Held (hashKey : String → String) (capUsd : ℚ) (q : Request) (t : List Ev) : Prop where
  keyed : Keyed hashKey q.apiKey none t
  claimed : 0 < q.worst → Claimed hashKey capUsd q t
  calls_eq : calls t = []
  moved_eq : ∀ P, (∀ e ∈ t, InPeriod P e) →
    tally (moved (.key (hashKey q.apiKey) P)) t = q.worst

theorem Claimed.append (h : Claimed hashKey capUsd q t) (t' : List Ev) :
    Claimed hashKey capUsd q (t ++ t') :=
  let ⟨now, total, hle, ht⟩ := h
  ⟨now, total, hle, ht.trans (List.prefix_append _ _)⟩

theorem not_claimed_of_total {now total : ℚ} (h : ¬ total ≤ capUsd) :
    ¬ Claimed hashKey capUsd q (applied hashKey q.apiKey q.worst now (.ok total) ++ t) := by
  rintro ⟨now', total', hle, ht⟩
  simp only [applied, List.cons_append, List.cons_prefix_cons] at ht
  obtain ⟨-, heq, -⟩ := ht
  obtain rfl : total' = total := by simp_all
  exact h hle

theorem not_claimed_of_failed {now : ℚ} {e : Exc} {a : Bool} :
    ¬ Claimed hashKey capUsd q (applied hashKey q.apiKey q.worst now (.failed e a)) := by
  rintro ⟨now', total', hle, ht⟩
  simp only [applied, List.cons_prefix_cons] at ht
  obtain ⟨-, heq, -⟩ := ht
  simp_all

theorem not_claimed_of_reading {now : ℚ} : ¬ Claimed hashKey capUsd q [⟨.time, now⟩] := by
  rintro ⟨now', total', hle, ht⟩
  simp [applied] at ht

/-- `reserve` either returns holding the claim or leaves the request outside. -/
theorem stages_reserve :
    (reserve hashKey capUsd q.apiKey q.worst).stages LossOnly () fun t o =>
      match o with
      | some (.ok (), _) => Held hashKey capUsd q t
      | o => Stage hashKey capUsd q t o := by
  rw [reserve, Coro.stages_ite]
  refine ⟨fun hw => ⟨trivial, fun h => absurd hw h.not_ge, rfl, fun P _ => ?_⟩, fun _ => ?_⟩
  · exact (le_antisymm hw q.worst_nonneg).symm
  rw [Coro.stages_bind, stages_apply_iff]
  refine fun now _ => ⟨.outside (by simp [Keyed, Touches]) rfl not_claimed_of_reading ?_,
    fun r hr => ?_⟩
  · exact fun P _ => by simp
  cases r with
  | failed e a =>
    obtain rfl : a = false := hr.2 rfl
    refine .outside keyed_applied rfl not_claimed_of_failed fun P hP => ?_
    rw [moved_applied hP]
    exact le_rfl
  | ok total =>
    have hmoved : ∀ t' P, (∀ e ∈ applied hashKey q.apiKey q.worst now (.ok total) ++ t',
        InPeriod P e) → tally (moved (.key (hashKey q.apiKey) P))
          (applied hashKey q.apiKey q.worst now (.ok total) ++ t')
            = q.worst + tally (moved (.key (hashKey q.apiKey) P)) t' := by
      intro t' P hP
      rw [tally_append, moved_applied fun e he => hP e (List.mem_append_left _ he)]
      rfl
    dsimp only [Sent.toExcept]
    rw [Coro.stages_ite]
    refine ⟨fun hle => ⟨keyed_applied, fun _ => ⟨now, total, hle, List.prefix_rfl⟩, rfl,
      fun P hP => ?_⟩, fun hle => ?_⟩
    · simpa using hmoved [] P (by simpa using hP)
    -- refused: every stage from here on has the claim on the ledger, or has handed it back
    · rw [Coro.stages_bind, tryExceptElse, Coro.stages_attemptElse, stages_apply_iff]
      refine fun now' _ => ⟨.outside ?_ rfl (not_claimed_of_total hle) fun P hP => ?_,
        fun r hr => ?_⟩
      · exact keyed_append.mpr ⟨keyed_applied, by simp [Keyed, Touches]⟩
      · rw [hmoved _ P hP]
        simpa using q.worst_nonneg
      have hkeyed : Keyed hashKey q.apiKey none (applied hashKey q.apiKey q.worst now (.ok total) ++
          applied hashKey q.apiKey (-q.worst) now' r) :=
        keyed_append.mpr ⟨keyed_applied, keyed_applied⟩
      have hback : ∀ P, (∀ e ∈ applied hashKey q.apiKey q.worst now (.ok total) ++
          applied hashKey q.apiKey (-q.worst) now' r, InPeriod P e) →
          0 ≤ tally (moved (.key (hashKey q.apiKey) P)) (applied hashKey q.apiKey q.worst now
            (.ok total) ++ applied hashKey q.apiKey (-q.worst) now' r) := by
        intro P hP
        rw [hmoved _ P hP, moved_applied fun e he => hP e (List.mem_append_right _ he)]
        split
        · simp
        · simpa using q.worst_nonneg
      cases r with
      | ok total' => exact .outside hkeyed rfl (not_claimed_of_total hle) hback
      | failed e a =>
        cases e with
        | exception e =>
          dsimp only [Sent.toExcept]
          rw [stages_metric_iff]
          intro r hmetric
          obtain rfl : r = .ok () := hmetric.1
          refine .outside ?_ rfl (not_claimed_of_total hle) fun P hP => ?_
          · rw [List.append_nil, ← List.append_assoc]
            exact keyed_append.mpr ⟨hkeyed, by simp [Keyed, Touches]⟩
          · rw [List.append_nil, ← List.append_assoc] at hP ⊢
            rw [tally_append]
            simpa using hback P fun e he => hP e (List.mem_append_left _ he)
        | cancelled => exact .outside hkeyed rfl (not_claimed_of_total hle) hback
        | generatorExit => exact .outside hkeyed rfl (not_claimed_of_total hle) hback
        | interrupt => exact .outside hkeyed rfl (not_claimed_of_total hle) hback

theorem Held.stage (h : Held hashKey capUsd q t) (hk : ∀ seen, Keyed hashKey q.apiKey seen t')
    (ha : admitted (t ++ t') = true)
    (hm : ∀ P, (∀ e ∈ t', InPeriod P e) →
      q.charge (t ++ t') o ≤ q.worst + tally (moved (.key (hashKey q.apiKey) P)) t') :
    Stage hashKey capUsd q (t ++ t') o where
  keyed := keyed_append.mpr ⟨h.keyed, hk _⟩
  admitted_iff hw := by simp [ha, (h.claimed hw).append]
  charge_le P hP := by
    rw [tally_append, h.moved_eq P fun e he => hP e (List.mem_append_left _ he)]
    exact hm P fun e he => hP e (List.mem_append_right _ he)

/-- `settle` keeps a held claim on the ledger until it has replaced it by the actual cost. -/
theorem stages_settle (h : Held hashKey capUsd q t) :
    (settle hashKey q.apiKey q.worst q.actual).stages LossOnly () fun t' o =>
      Stage hashKey capUsd q (t ++ t') o := by
  have hadmitted : ∀ t', admitted (t ++ ⟨.log (.trackerSettle q.apiKey q.worst q.actual), ()⟩ :: t')
      = true := fun t' => by simp [admitted, calls_cons, call?]
  rw [settle, Coro.stages_bind, stages_log_iff]
  intro _
  dsimp only
  rw [Coro.stages_ite]
  refine ⟨fun hd => h.stage (by simp [Keyed, Touches]) (hadmitted _) fun P _ => ?_, fun _ => ?_⟩
  · simpa [moved, asked] using q.charge_le_worst
  rw [applyBestEffort, tryExceptElse, Coro.stages_attemptElse, stages_apply_iff]
  refine fun now _ => ⟨h.stage (by simp [Keyed, Touches]) (hadmitted _) fun P _ => ?_,
    fun r hr => ?_⟩
  · simpa [moved, asked] using q.charge_le_worst
  have hkeyed : ∀ seen, Keyed hashKey q.apiKey seen
      (⟨.log (.trackerSettle q.apiKey q.worst q.actual), ()⟩ ::
        applied hashKey q.apiKey (q.actual - q.worst) now r) := fun seen => by
    simp [applied, Keyed, Touches, lastReading]
  have hmoved : ∀ P, (∀ e ∈ (⟨.log (.trackerSettle q.apiKey q.worst q.actual), ()⟩ : Ev) ::
      applied hashKey q.apiKey (q.actual - q.worst) now r, InPeriod P e) →
      tally (moved (.key (hashKey q.apiKey) P))
        ((⟨.log (.trackerSettle q.apiKey q.worst q.actual), ()⟩ : Ev) ::
          applied hashKey q.apiKey (q.actual - q.worst) now r)
        = if r.applied then q.actual - q.worst else 0 := by
    intro P hP
    rw [tally_cons, moved_applied fun e he => hP e (.tail _ he)]
    simp [moved, asked]
  cases r with
  | ok total =>
    have hdone : Stage hashKey capUsd q (t ++ (⟨.log (.trackerSettle q.apiKey q.worst q.actual),
        ()⟩ :: applied hashKey q.apiKey (q.actual - q.worst) now (.ok total)))
        (some (.ok (), ())) := by
      refine h.stage hkeyed (hadmitted _) fun P hP => ?_
      rw [hmoved P hP, Request.charge, chargeOf_of_settled (by exact hadmitted _)]
      simp [Sent.applied]
    exact hdone
  | failed e a =>
    obtain rfl : a = false := hr.2 rfl
    have hkept : ∀ o, Stage hashKey capUsd q (t ++ (⟨.log (.trackerSettle q.apiKey q.worst
        q.actual), ()⟩ :: applied hashKey q.apiKey (q.actual - q.worst) now (.failed e false)))
        o := by
      intro o
      refine h.stage hkeyed (hadmitted _) fun P hP => ?_
      rw [hmoved P hP]
      simpa [Sent.applied] using q.charge_le_worst
    cases e with
    | exception e => exact hkept _
    | cancelled => exact hkept _
    | generatorExit => exact hkept _
    | interrupt => exact hkept _

/-- A request is always at one of the stages. -/
theorem stages_run :
    (q.run hashKey capUsd).stages LossOnly () (Stage hashKey capUsd q) := by
  rw [Request.run, Coro.stages_bind]
  refine Coro.stages_mono stages_reserve fun t o _ h => ?_
  match o with
  | none => exact h
  | some (.error _, _) => exact h
  | some (.ok (), _) => exact stages_settle h

/-- The ledgers a request moves are its caller's for the period it runs in. -/
theorem touches_of_keyed {apiKey : String} {k : LedgerKey} {seen : Option ℚ}
    (h : Keyed hashKey apiKey seen t) (hseen : ∀ now, seen = some now → period now = P)
    (hP : ∀ e ∈ t, InPeriod P e) : ∀ e ∈ t, Touches k e → k = .key (hashKey apiKey) P := by
  induction t generalizing seen with
  | nil => simp
  | cons e t ih =>
    rw [List.forall_mem_cons] at hP ⊢
    refine ⟨fun he => ?_, ih h.2 ?_ hP.2⟩
    · obtain ⟨now, d, r, hnow, rfl, -⟩ := h.1 k he
      rw [keyAt, hseen now hnow]
    · obtain ⟨c, r⟩ := e
      cases c with
      | time =>
        rintro now ⟨⟩
        exact hP.1
      | _ => exact hseen

theorem Stage.moved_of_ne (h : Stage hashKey capUsd q t o) {k : LedgerKey}
    (hP : ∀ e ∈ t, InPeriod P e) (hk : k ≠ .key (hashKey q.apiKey) P) : tally (moved k) t = 0 :=
  tally_eq_zero fun e he => TimedLedgers.moved_of_not_touches fun htouch =>
    hk (touches_of_keyed h.keyed nofun hP e he htouch)

/-! ## One period of a ledger -/

theorem period_mono {now now' : ℚ} (h : now ≤ now') : period now ≤ period now' :=
  Rat.floor_monotone (div_le_div_of_nonneg_right h (by simp))

/-- A ledger lives on until the end of the period its last increment was made for. -/
theorem lt_add_of_period {now now' : ℚ} (h : period now' = period now) :
    now' < now + SECONDS_PER_MONTH := by
  have hpos : (0 : ℚ) < SECONDS_PER_MONTH := by norm_num [SECONDS_PER_MONTH]
  have hlow : (period now : ℚ) * SECONDS_PER_MONTH ≤ now :=
    (le_div_iff₀ hpos).mp (Rat.floor_le _)
  have hhigh : now' < ((period now' : ℚ) + 1) * SECONDS_PER_MONTH := by
    rw [← div_lt_iff₀ hpos]
    exact_mod_cast Rat.lt_floor_add_one (now' / SECONDS_PER_MONTH)
  rw [h] at hhigh
  linarith

/-- At every instant of the period `P` that is still to come, the ledger `k` reads `v`. -/
def Steady (P : ℤ) (k : LedgerKey) (v : ℚ) (L : TimedLedgers) : Prop :=
  ∀ now, L.clock ≤ now → period now = P → L.read now k = v

/-- An increment whose clock reading lies in the period moves what the ledger reads in that period,
and nothing else does. -/
theorem Steady.answers {k : LedgerKey} {v : ℚ} {e : Ev} {L L' : TimedLedgers}
    (h : Steady P k v L) (he : (expiringRedis LossOnly).answers L e L')
    (hkeyed : Touches k e → ∃ now d r, now ≤ L.clock ∧ period now = P ∧
      e = ⟨.incrbyfloatExpire k d SECONDS_PER_MONTH, r⟩) : Steady P k (v + moved k e) L' := by
  obtain ⟨-, clock, hclock, rfl, -⟩ := he
  intro now hnow hP
  rw [TimedLedgers.clock_after] at hnow
  by_cases htouch : Touches k e
  · obtain ⟨now₀, d, r, hle, hP₀, rfl⟩ := hkeyed htouch
    -- the increment was made within the period too, so it found the ledger at `v`
    have hfound : L.read clock k = v := by
      refine h clock hclock (le_antisymm ?_ ?_)
      · exact (period_mono hnow).trans hP.le
      · exact hP₀.symm.le.trans (period_mono (hle.trans hclock))
    have hlive : now < clock + SECONDS_PER_MONTH :=
      (lt_add_of_period (hP.trans hP₀.symm)).trans_le
        ((add_le_add_iff_right _).mpr (hle.trans hclock))
    cases hr : r.applied with
    | true =>
      rw [TimedLedgers.read_after_increment hr hlive, hfound]
      simp [moved, asked, landed, hr]
    | false =>
      rw [TimedLedgers.read_after_lost hr, h now (hclock.trans hnow) hP]
      simp [moved, landed, hr]
  · rw [TimedLedgers.read_after_of_not_touches htouch, h now (hclock.trans hnow) hP,
      TimedLedgers.moved_of_not_touches htouch, add_zero]

theorem Steady.of_not_touches {k : LedgerKey} {v : ℚ} {L L' : TimedLedgers} (h : Steady P k v L)
    (hL : (expiringRedis LossOnly).Evolves L t L') (ht : ∀ e ∈ t, ¬ Touches k e) :
    Steady P k v L' := fun now hnow hP => by
  rw [TimedLedgers.read_of_not_touches hL ht]
  exact h now ((TimedLedgers.clock_le_of_evolves hL).trans hnow) hP

/-! ## Any number of requests -/

section Pool

variable {ι : Type} [DecidableEq ι] {clock : ℚ} {requests : ι → Request} {month : ι → ℤ}
  {Q : Pool (expiringRedis LossOnly) ι (Except Exc Unit × Unit)}

/-- The requests, not started, before any ledger exists. -/
def opening (hashKey : String → String) (capUsd clock : ℚ) (requests : ι → Request) :
    Pool (expiringRedis LossOnly) ι (Except Exc Unit × Unit) :=
  Pool.start ⟨clock, fun _ => 0, fun _ => none⟩ fun i => (requests i).run hashKey capUsd ()

/-- Each request reads the clock in its own period only. -/
def Monthly (month : ι → ℤ) (Q : Pool (expiringRedis LossOnly) ι (Except Exc Unit × Unit)) : Prop :=
  ∀ i, ∀ e ∈ Q.hist i, InPeriod (month i) e

theorem reaches_stage (h : (opening hashKey capUsd clock requests).Reaches Q) (i : ι) :
    Stage hashKey capUsd (requests i) (Q.hist i) (Q.prog i).value? := by
  refine h.stages expiringRedis_admits stages_run ?_
  refine .outside trivial rfl ?_ fun _ _ => le_rfl
  rintro ⟨now, total, hle, ht⟩
  simp [applied] at ht

/-- No request has read a time that is still to come. -/
theorem reading_le_clock (h : (opening hashKey capUsd clock requests).Reaches Q) {now : ℚ} (i : ι)
    (hmem : (⟨.time, now⟩ : Ev) ∈ Q.hist i) : now ≤ Q.world.clock := by
  revert i now
  refine h.invariant (J := fun Q => ∀ {now : ℚ} (i), (⟨.time, now⟩ : Ev) ∈ Q.hist i →
    now ≤ TimedLedgers.clock Q.world) (by simp [Pool.start]) ?_
  intro Q j t q L ih _ hL now i hmem
  have hclock : TimedLedgers.clock Q.world ≤ L.clock := TimedLedgers.clock_le_of_evolves hL
  by_cases hij : i = j
  · subst hij
    rcases List.mem_append.mp (by simpa [Pool.turn] using hmem) with hmem | hmem
    · exact (ih i hmem).trans hclock
    · exact TimedLedgers.reading_le_of_evolves hL hmem
  · exact (ih i (by simpa [Pool.turn, hij] using hmem)).trans hclock

theorem Monthly.of_turn {i : ι} {q : Prog gateway (Except Exc Unit × Unit)} {L : TimedLedgers}
    (h : Monthly month (Q.turn i t q L)) :
    Monthly month Q ∧ ∀ e ∈ Q.hist i ++ t, InPeriod (month i) e := by
  have hself : ∀ e ∈ Q.hist i ++ t, InPeriod (month i) e := by simpa [Pool.turn] using h i
  refine ⟨fun j => ?_, hself⟩
  by_cases hij : j = i
  · subst hij
    exact fun e he => hself e (List.mem_append_left _ he)
  · simpa [Pool.turn, hij] using h j

/-- The first event of a turn, when it is an increment, is one for the period of its request. -/
theorem keyed_turn {i : ι} {e : Ev} {k : LedgerKey} {q : Prog gateway (Except Exc Unit × Unit)}
    {L : TimedLedgers} (h : (opening hashKey capUsd clock requests).Reaches Q)
    (hturn : (opening hashKey capUsd clock requests).Reaches (Q.turn i (e :: t) q L))
    (hmonth : Monthly month Q) (htouch : Touches k e) :
    ∃ now d r, now ≤ Q.world.clock ∧ period now = month i ∧
      k = .key (hashKey (requests i).apiKey) (month i) ∧
      e = ⟨.incrbyfloatExpire k d SECONDS_PER_MONTH, r⟩ := by
  have hkeyed : Keyed hashKey (requests i).apiKey none (Q.hist i ++ e :: t) := by
    simpa [Pool.turn] using (reaches_stage hturn i).keyed
  obtain ⟨now, d, r, hlast, hk, he⟩ := (keyed_append.mp hkeyed).2.1 k htouch
  have hmem := mem_of_lastReading hlast
  have hperiod : period now = month i := hmonth i _ hmem
  exact ⟨now, d, r, reading_le_clock h i hmem, hperiod, by rw [hk, keyAt, hperiod], he⟩

/-- Within a period, a caller's ledger reads what all the requests have moved it by. -/
theorem steady [Fintype ι] (h : (opening hashKey capUsd clock requests).Reaches Q)
    (hmonth : Monthly month Q) (keyHash : String) (P : ℤ) :
    Steady P (.key keyHash P) (∑ i, tally (moved (.key keyHash P)) (Q.hist i)) Q.world := by
  suffices hinv : (opening hashKey capUsd clock requests).Reaches Q ∧ (Monthly month Q →
      Steady P (.key keyHash P) (∑ i, tally (moved (.key keyHash P)) (Q.hist i)) Q.world) from
    hinv.2 hmonth
  refine h.invariant (J := fun Q => (opening hashKey capUsd clock requests).Reaches Q ∧
    (Monthly month Q → Steady P (.key keyHash P)
      (∑ i, tally (moved (.key keyHash P)) (Q.hist i)) Q.world)) ⟨.refl, fun _ => ?_⟩ ?_
  · intro now _ _
    simp [Pool.start, TimedLedgers.read, TimedLedgers.expired]
  · rintro Q i t q L ⟨hreach, ih⟩ hs hL
    have hreach' := hreach.tail (.turn hs hL)
    refine ⟨hreach', fun hmonth => ?_⟩
    rw [Pool.sum_tally_turn]
    obtain ⟨e, t', rfl, hsync⟩ := hs.sync_tail
    obtain ⟨L₁, he, hrest⟩ := World.Evolves.cons_iff.mp hL
    have hnot : ∀ e ∈ t', ¬ Touches (.key keyHash P) e :=
      fun e he => TimedLedgers.not_touches_of_sync (hsync e he)
    rw [tally_cons, tally_eq_zero fun e he => TimedLedgers.moved_of_not_touches (hnot e he),
      add_zero]
    refine Steady.of_not_touches ((ih hmonth.of_turn.1).answers he fun htouch => ?_) hrest hnot
    obtain ⟨now, d, r, hle, hperiod, hk, heq⟩ := keyed_turn hreach hreach' hmonth.of_turn.1 htouch
    cases hk
    exact ⟨now, d, r, hle, hperiod, heq⟩

/-- Nothing is lost to expiry within a period, and nothing is carried in from another: the ledger
reads what the caller's own requests of the period have moved it by. -/
theorem read_eq [Fintype ι] (h : (opening hashKey capUsd clock requests).Reaches Q)
    (hmonth : Monthly month Q) (keyHash : String) {now : ℚ} (hnow : Q.world.clock ≤ now) :
    Q.world.read now (.key keyHash (period now))
      = ∑ i with hashKey (requests i).apiKey = keyHash ∧ month i = period now,
          tally (moved (.key keyHash (period now))) (Q.hist i) := by
  rw [steady h hmonth keyHash _ now hnow rfl]
  refine (Finset.sum_filter_of_ne fun i _ hne => ?_).symm
  by_contra hother
  refine hne ((reaches_stage h i).moved_of_ne (hmonth i) fun heq => hother ?_)
  obtain ⟨hhash, hperiod⟩ := LedgerKey.key.inj heq
  exact ⟨hhash.symm, hperiod.symm⟩

/-- What the caller's requests of a period count as. -/
def charges [Fintype ι] (hashKey : String → String) (requests : ι → Request) (month : ι → ℤ)
    (Q : Pool (expiringRedis LossOnly) ι (Except Exc Unit × Unit)) (keyHash : String) (P : ℤ) : ℚ :=
  ∑ i with hashKey (requests i).apiKey = keyHash ∧ month i = P,
    (requests i).charge (Q.hist i) (Q.prog i).value?

theorem charges_le_read [Fintype ι] (h : (opening hashKey capUsd clock requests).Reaches Q)
    (hmonth : Monthly month Q) (keyHash : String) {now : ℚ} (hnow : Q.world.clock ≤ now) :
    charges hashKey requests month Q keyHash (period now)
      ≤ Q.world.read now (.key keyHash (period now)) := by
  rw [read_eq h hmonth keyHash hnow]
  refine Finset.sum_le_sum fun i hi => ?_
  obtain ⟨-, rfl, hP⟩ := Finset.mem_filter.mp hi
  rw [← hP]
  exact (reaches_stage h i).charge_le _ (hmonth i)

/-- A turn that answers a claim within the cap leaves the ledger within the cap. -/
theorem read_le_of_admission {i : ι} {q : Prog gateway (Except Exc Unit × Unit)} {L : TimedLedgers}
    (h : (opening hashKey capUsd clock requests).Reaches Q)
    (hs : Slice (Q.prog i) t q) (hL : (expiringRedis LossOnly).Evolves Q.world t L)
    (hmonth : ∀ e ∈ Q.hist i ++ t, InPeriod (month i) e) (hworst : 0 < (requests i).worst)
    (hbefore : admitted (Q.hist i) = false) (hafter : admitted (Q.hist i ++ t) = true) (now : ℚ) :
    L.read now (.key (hashKey (requests i).apiKey) (month i)) ≤ max capUsd 0 := by
  have hstage : Stage hashKey capUsd (requests i) (Q.hist i ++ t) q.value? := by
    simpa [Pool.turn] using reaches_stage (h.tail (.turn hs hL)) i
  have hfresh : ¬ Claimed hashKey capUsd (requests i) (Q.hist i) := fun hclaim => by
    simpa [hbefore] using ((reaches_stage h i).admitted_iff hworst).mpr hclaim
  obtain ⟨now₀, total, hle, hclaim⟩ := (hstage.admitted_iff hworst).mp hafter
  obtain ⟨e, t', rfl, hsync⟩ := hs.sync_tail
  -- the increment of the claim is waited for, so it is the first event of the turn
  obtain ⟨hhist, rfl⟩ : Q.hist i = [⟨.time, now₀⟩] ∧
      e = ⟨.incrbyfloatExpire (keyAt hashKey (requests i).apiKey now₀) (requests i).worst
        SECONDS_PER_MONTH, .ok total⟩ := by
    unfold applied at hclaim
    have hnot : ¬ applied hashKey (requests i).apiKey (requests i).worst now₀ (.ok total)
        <+: Q.hist i := fun hprefix => hfresh ⟨now₀, total, hle, hprefix⟩
    rcases hhist : Q.hist i with _ | ⟨x, _ | ⟨y, l⟩⟩
    · rw [hhist, List.nil_append, List.cons_prefix_cons] at hclaim
      have hmem := hclaim.2.subset (List.mem_singleton_self _)
      cases hsync _ hmem
    · simp only [hhist, List.cons_append, List.nil_append, List.cons_prefix_cons] at hclaim
      exact ⟨by rw [hclaim.1], hclaim.2.1.symm⟩
    · simp only [hhist, List.cons_append, List.cons_prefix_cons] at hclaim
      refine absurd ?_ hnot
      rw [applied, hhist, hclaim.1, hclaim.2.1]
      exact List.prefix_append [x, y] l
  have hperiod : period now₀ = month i := hmonth ⟨.time, now₀⟩ (by simp [hhist])
  rw [keyAt, hperiod] at hL
  have hvalue := TimedLedgers.value_of_claim hL fun e he =>
    TimedLedgers.not_touches_of_sync (hsync e he)
  rcases L.read_eq_or now (.key (hashKey (requests i).apiKey) (month i)) with heq | heq
  · rw [heq, hvalue]
    exact hle.trans (le_max_left _ _)
  · rw [heq]
    exact le_max_right _ _

/-- A turn that answers no claim within the cap lets no request count for more. -/
theorem charge_turn_le {i : ι} {q : Prog gateway (Except Exc Unit × Unit)} {L : TimedLedgers}
    (hs : Slice (Q.prog i) t q) (hother : (requests i).worst = 0 ∨ admitted (Q.hist i) = true ∨
      admitted (Q.hist i ++ t) = false) (j : ι) :
    (requests j).charge ((Q.turn i t q L).hist j) ((Q.turn i t q L).prog j).value?
      ≤ (requests j).charge (Q.hist j) (Q.prog j).value? := by
  by_cases hj : j = i
  · subst hj
    have hle : (requests j).charge (Q.hist j ++ t) q.value?
        ≤ (requests j).charge (Q.hist j) (Q.prog j).value? := by
      rcases hother with hzero | hother
      · exact (Request.charge_le_worst.trans hzero.le).trans Request.charge_nonneg
      · exact chargeOf_slice_le (requests j).actual_nonneg (requests j).actual_le hs hother
    simpa [Pool.turn] using hle
  · simp [Pool.turn, hj]

/-- At every instant, what the caller's requests of the current period count as is within the cap.
-/
theorem charges_le_cap [Fintype ι] (h : (opening hashKey capUsd clock requests).Reaches Q)
    (hmonth : Monthly month Q) (keyHash : String) {now : ℚ} (hnow : Q.world.clock ≤ now) :
    charges hashKey requests month Q keyHash (period now) ≤ max capUsd 0 := by
  suffices hinv : (opening hashKey capUsd clock requests).Reaches Q ∧ (Monthly month Q →
      ∀ now, TimedLedgers.clock Q.world ≤ now →
        charges hashKey requests month Q keyHash (period now) ≤ max capUsd 0) from
    hinv.2 hmonth now hnow
  refine h.invariant (J := fun Q => (opening hashKey capUsd clock requests).Reaches Q ∧
    (Monthly month Q → ∀ now, TimedLedgers.clock Q.world ≤ now →
      charges hashKey requests month Q keyHash (period now) ≤ max capUsd 0)) ⟨.refl, ?_⟩ ?_
  · intro _ now _
    have hzero : ∀ i, (requests i).charge [] ((requests i).run hashKey capUsd ()).value? = 0 :=
      fun i => chargeOf_of_not_admitted rfl
    simp [charges, Pool.start, hzero]
  · rintro Q i t q L ⟨hreach, ih⟩ hs hL
    have hreach' := hreach.tail (.turn hs hL)
    refine ⟨hreach', fun hmonth now hnow => ?_⟩
    have hclock : TimedLedgers.clock Q.world ≤ now :=
      (TimedLedgers.clock_le_of_evolves hL).trans hnow
    have hbefore := ih hmonth.of_turn.1 now hclock
    by_cases hadm : hashKey (requests i).apiKey = keyHash ∧ month i = period now ∧
        0 < (requests i).worst ∧ admitted (Q.hist i) = false ∧ admitted (Q.hist i ++ t) = true
    -- the claim has just been told the total
    · obtain ⟨rfl, hP, hworst, hfresh, hnew⟩ := hadm
      refine (charges_le_read hreach' hmonth _ hnow).trans ?_
      rw [← hP]
      exact read_le_of_admission hreach hs hL hmonth.of_turn.2 hworst hfresh hnew now
    -- no request of this caller and this period counts for more than before
    · refine le_trans (Finset.sum_le_sum fun j hj => ?_) hbefore
      obtain ⟨-, hhash, hP⟩ := Finset.mem_filter.mp hj
      by_cases hij : j = i
      · subst hij
        refine charge_turn_le hs ?_ j
        by_contra hother
        simp only [not_or, Bool.not_eq_true, Bool.not_eq_false] at hother
        exact hadm ⟨hhash, hP, (requests j).worst_nonneg.lt_of_ne' hother.1, hother.2.1,
          hother.2.2⟩
      · simp [Pool.turn, hij]

/-- `spent_usd` tells what the ledger of the current period reads. -/
theorem spentUsd_eq {L L' : TimedLedgers} {apiKey : String} {total : ℚ} {t : List Ev}
    (hruns : Coro.Runs (spentUsd (σ := Unit) hashKey apiKey) () t (.ok total) ())
    (hL : (expiringRedis LossOnly).Evolves L t L') (hP : ∀ e ∈ t, InPeriod P e) :
    total = L.read L'.clock (.key (hashKey apiKey) P) := by
  obtain ⟨-, now, x, rfl, hx⟩ := wp_spentUsd.apply hruns fun e he =>
    (hL.forall_mem expiringRedis_admits e he).1
  obtain rfl : x = .ok total := by cases x <;> cases hx; rfl
  have hperiod : period now = P := hP ⟨.time, now⟩ (.head _)
  obtain ⟨L₁, hL₁, hrest⟩ := World.Evolves.cons_iff.mp hL
  obtain ⟨L₂, ⟨-, _, -, -, htells⟩, hend⟩ := World.Evolves.cons_iff.mp hrest
  obtain rfl : L' = L₂ := World.Evolves.nil_iff.mp hend
  have hnot : ∀ e ∈ [⟨.time, now⟩, (⟨.get (keyAt hashKey apiKey now), .ok total⟩ : Ev)],
      ¬ Touches (.key (hashKey apiKey) P) e := by simp [Touches]
  rw [← TimedLedgers.read_of_not_touches hL hnot]
  simpa [keyAt, hperiod, TimedLedgers.Tells] using htells

omit [DecidableEq ι] in
theorem charges_eq [Fintype ι] (keyHash : String) (P : ℤ) :
    charges hashKey requests month Q keyHash P
      = ∑ i with (hashKey (requests i).apiKey = keyHash ∧ month i = P) ∧
            settled (Q.hist i) (Q.prog i).value? = true, (requests i).actual
        + ∑ i with (hashKey (requests i).apiKey = keyHash ∧ month i = P) ∧
            live (Q.hist i) (Q.prog i).value? = true, (requests i).worst := by
  simp only [charges, Request.charge, chargeOf, Finset.sum_add_distrib]
  rw [← Finset.sum_filter, ← Finset.sum_filter, Finset.filter_filter, Finset.filter_filter]

end Pool

/-! ## Two requests of one caller -/

/-- A request that claims 3 and costs 1. -/
def three : Request :=
  ⟨"k", 3, 1, LifetimeCeiling.three.actual_nonneg, LifetimeCeiling.three.actual_le⟩

/-- Two of them under a cap of 10: both are admitted, then the first one settles. -/
def twoRequests : Pool (expiringRedis LossOnly) (Fin 2) (Except Exc Unit × Unit) :=
  (opening id 10 0 fun _ => three).schedule (TimedLedgers.answer calm) [0, 1, 0, 1, 0]

theorem answers_calm (L : (expiringRedis LossOnly).State) (c : Cmd) :
    (expiringRedis LossOnly).answers L ⟨c, (TimedLedgers.answer calm L c).1⟩
      (TimedLedgers.answer calm L c).2 := by
  refine TimedLedgers.expiringRedis_answer (fun L c => ?_) L c
  cases c <;> exact ⟨by first | rfl | trivial,
    by simp [failed, raised, TimedLedgers.answer, calm, Sent.raised]⟩

theorem monthly_twoRequests : Monthly (fun _ => 0) twoRequests := by
  unfold Monthly
  decide +kernel

/-- What `spent_usd` does then. -/
def spent : List Ev × (Except Exc ℚ × Unit) × TimedLedgers :=
  (spentUsd id "k" ()).drive (TimedLedgers.answer calm) twoRequests.world

theorem runs_spent : Coro.Runs (spentUsd (σ := Unit) id "k") () spent.1 (.ok 4) () := by
  have hread : ∀ L : TimedLedgers,
      ((spentUsd id "k" ()).drive (TimedLedgers.answer calm) L).2.1
        = (.ok (L.read (L.clock + 1 + 1) (keyAt id "k" (L.clock + 1))), ()) := fun _ => rfl
  have hfour : TimedLedgers.read twoRequests.world (TimedLedgers.clock twoRequests.world + 1 + 1)
      (keyAt id "k" (TimedLedgers.clock twoRequests.world + 1)) = 4 := by decide +kernel
  have hvalue : spent.2.1 = (.ok 4, ()) :=
    (hread twoRequests.world).trans (congrArg (fun total => (Except.ok total, ())) hfour)
  show Prog.Returns (spentUsd id "k" ()) spent.1 (.ok 4, ())
  rw [← hvalue]
  exact Prog.returns_drive _ _ _

end LlmGateway.MonthlyCap
