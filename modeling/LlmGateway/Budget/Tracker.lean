import LlmGateway.Gateway.Observe

/-!
# The monthly share per client key

Mirrors `app/budget/tracker.py`: one ledger for each hashed client key and 30-day period. The clock
is read anew for every increment, so the period is part of every run.
-/

namespace LlmGateway.BudgetTracker

open Coroutine
open Rounding (fl)

variable {σ : Type} {s : σ}

/-- `_SECONDS_PER_MONTH`. -/
def SECONDS_PER_MONTH : ℕ := 30 * 24 * 60 * 60

/-- The period a point in time falls in. -/
def period (now : ℚ) : ℤ := (now / SECONDS_PER_MONTH).floor

/-- The ledger `_key` names when the clock shows `now`. -/
def keyAt (hashKey : String → String) (apiKey : String) (now : ℚ) : LedgerKey :=
  .key (hashKey apiKey) (period now)

/-! ## The functions -/

/-- `budget:{hash_key(api_key)}:{period}`. -/
def key (hashKey : String → String) (apiKey : String) : Py σ LedgerKey := do
  let now ← time
  pure (keyAt hashKey apiKey now)

/-- The caller's total for the period, reservations included. -/
def spentUsd (hashKey : String → String) (apiKey : String) : Py σ ℚ := do
  let k ← key hashKey apiKey
  get k

/-- Move the ledger and return the new total. Raises. -/
def apply (hashKey : String → String) (apiKey : String) (deltaUsd : ℚ) : Py σ ℚ := do
  let k ← key hashKey apiKey
  incrbyfloatExpire k deltaUsd SECONDS_PER_MONTH

/-- `apply`, with its failure swallowed. -/
def applyBestEffort (hashKey : String → String) (apiKey : String) (deltaUsd : ℚ) : Py σ Unit :=
  tryExceptElse (apply hashKey apiKey deltaUsd) (fun _ => pure ()) fun _ => pure ()

/-- Claim this caller's share, and hand it straight back when that crosses the cap. -/
def reserve (hashKey : String → String) (monthlyCapUsd : ℚ) (apiKey : String)
    (worstCaseUsd : ℚ) : Py σ Unit :=
  if worstCaseUsd ≤ 0 then pure ()
  else do
    let total ← apply hashKey apiKey worstCaseUsd
    if total ≤ monthlyCapUsd then pure ()
    else do
      tryExceptElse (apply hashKey apiKey (-worstCaseUsd))
        -- the hand-back did not land: the claim stays, and the refusal stands
        (fun _ => metric (.budgetReservationLeaked .key worstCaseUsd))
        fun _ => pure ()
      throw (.keyBudgetExhausted (total - worstCaseUsd) monthlyCapUsd)

/-- Replace a reservation with the real cost. -/
def settle [Rounding] (hashKey : String → String) (apiKey : String) (reservedUsd actualUsd : ℚ) :
    Py σ Unit := do
  log (.trackerSettle apiKey reservedUsd actualUsd)
  if fl (actualUsd - reservedUsd) = 0 then pure ()
  else applyBestEffort hashKey apiKey (fl (actualUsd - reservedUsd))

/-! ## Their runs -/

variable {hashKey : String → String} {monthlyCapUsd : ℚ} {apiKey : String}

/-- The events of `apply`. -/
def applied (hashKey : String → String) (apiKey : String) (deltaUsd now : ℚ) (r : Sent ℚ) :
    List Ev :=
  [⟨.time, now⟩, ⟨.incrbyfloatExpire (keyAt hashKey apiKey now) deltaUsd SECONDS_PER_MONTH, r⟩]

/-- The runs of `reserve`. -/
inductive ReserveRun (hashKey : String → String) (monthlyCapUsd : ℚ) (apiKey : String) (w : ℚ) :
    List Ev → Except Exc Unit → Prop
  | exempt (hw : w ≤ 0) : ReserveRun hashKey monthlyCapUsd apiKey w [] (.ok ())
  | admitted (hw : 0 < w) (now total : ℚ) (h : total ≤ monthlyCapUsd) :
      ReserveRun hashKey monthlyCapUsd apiKey w (applied hashKey apiKey w now (.ok total)) (.ok ())
  | unanswered (hw : 0 < w) (now : ℚ) (e : Exc) (a : Bool) :
      ReserveRun hashKey monthlyCapUsd apiKey w (applied hashKey apiKey w now (.failed e a))
        (.error e)
  | refused (hw : 0 < w) (now total now' total' : ℚ) (h : ¬ total ≤ monthlyCapUsd) :
      ReserveRun hashKey monthlyCapUsd apiKey w
        (applied hashKey apiKey w now (.ok total) ++ applied hashKey apiKey (-w) now' (.ok total'))
        (.error (.exception (.keyBudgetExhausted (total - w) monthlyCapUsd)))
  | leaked (hw : 0 < w) (now total now' : ℚ) (h : ¬ total ≤ monthlyCapUsd) (e : PyError)
      (a : Bool) :
      ReserveRun hashKey monthlyCapUsd apiKey w
        (applied hashKey apiKey w now (.ok total) ++
          (applied hashKey apiKey (-w) now' (.failed (.exception e) a) ++
            [⟨.metric (.budgetReservationLeaked .key w), .ok ()⟩]))
        (.error (.exception (.keyBudgetExhausted (total - w) monthlyCapUsd)))
  | interrupted (hw : 0 < w) (now total now' : ℚ) (h : ¬ total ≤ monthlyCapUsd) (e : Exc)
      (he : e.isException = false) (a : Bool) :
      ReserveRun hashKey monthlyCapUsd apiKey w
        (applied hashKey apiKey w now (.ok total) ++
          applied hashKey apiKey (-w) now' (.failed e a)) (.error e)

/-- The runs of `settle`. It never raises an `Exception`. -/
inductive SettleRun [Rounding] (hashKey : String → String) (apiKey : String)
    (reservedUsd actualUsd : ℚ) : List Ev → Except Exc Unit → Prop
  | unchanged (h : fl (actualUsd - reservedUsd) = 0) :
      SettleRun hashKey apiKey reservedUsd actualUsd
        [⟨.log (.trackerSettle apiKey reservedUsd actualUsd), ()⟩] (.ok ())
  | charged (now total : ℚ) :
      SettleRun hashKey apiKey reservedUsd actualUsd
        (⟨.log (.trackerSettle apiKey reservedUsd actualUsd), ()⟩ ::
          applied hashKey apiKey (fl (actualUsd - reservedUsd)) now (.ok total)) (.ok ())
  | swallowed (now : ℚ) (e : PyError) (a : Bool) :
      SettleRun hashKey apiKey reservedUsd actualUsd
        (⟨.log (.trackerSettle apiKey reservedUsd actualUsd), ()⟩ ::
          applied hashKey apiKey (fl (actualUsd - reservedUsd)) now (.failed (.exception e) a)) (.ok ())
  | interrupted (now : ℚ) (e : Exc) (he : e.isException = false) (a : Bool) :
      SettleRun hashKey apiKey reservedUsd actualUsd
        (⟨.log (.trackerSettle apiKey reservedUsd actualUsd), ()⟩ ::
          applied hashKey apiKey (fl (actualUsd - reservedUsd)) now (.failed e a)) (.error e)

theorem wp_apply {delta : ℚ} {Q : List Ev → Except Exc ℚ → σ → Prop} :
    (apply hashKey apiKey delta).wp Healthy s Q ↔
      ∀ (now : ℚ) (r : Sent ℚ), Q (applied hashKey apiKey delta now r) r.toExcept s := by
  simp [apply, key, applied]

theorem stages_apply_iff {A : Ev → Prop} {delta : ℚ}
    {Q : List Ev → Option (Except Exc ℚ × σ) → Prop} :
    (apply hashKey apiKey delta).stages A s Q ↔ ∀ now : ℚ, A ⟨.time, now⟩ → Q [⟨.time, now⟩] none ∧
      ∀ r : Sent ℚ, A ⟨.incrbyfloatExpire (keyAt hashKey apiKey now) delta SECONDS_PER_MONTH, r⟩ →
        Q (applied hashKey apiKey delta now r) (some (r.toExcept, s)) := by
  simp [apply, key, applied, stages_time_iff, stages_incrbyfloatExpire_iff]

theorem wp_spentUsd : (spentUsd hashKey apiKey).wp Healthy s fun t r s' =>
    s' = s ∧ ∃ (now : ℚ) (x : Sent ℚ),
      t = [⟨.time, now⟩, ⟨.get (keyAt hashKey apiKey now), x⟩] ∧ r = x.toExcept := by
  simp only [spentUsd, key, Coro.wp_bind, wp_time, Coro.wp_pure, wp_get, List.append_nil]
  exact fun now x => ⟨trivial, now, x, rfl, rfl⟩

theorem wp_reserve {w : ℚ} :
    (reserve hashKey monthlyCapUsd apiKey w).wp Healthy s fun t r s' =>
      s' = s ∧ ReserveRun hashKey monthlyCapUsd apiKey w t r := by
  rw [reserve, Coro.wp_ite]
  refine ⟨fun hw => ⟨rfl, .exempt hw⟩, fun hw => ?_⟩
  rw [not_le] at hw
  rw [Coro.wp_bind, wp_apply]
  intro now r
  cases r with
  | failed e a => exact ⟨rfl, .unanswered hw now e a⟩
  | ok total =>
    dsimp only [Sent.toExcept]
    rw [Coro.wp_ite]
    refine ⟨fun h => ⟨rfl, .admitted hw now total h⟩, fun h => ?_⟩
    rw [Coro.wp_bind, tryExceptElse, Coro.wp_attemptElse, wp_apply]
    intro now' r
    cases r with
    | ok total' =>
      simpa [Sent.toExcept] using
        (.refused hw now total now' total' h : ReserveRun hashKey monthlyCapUsd apiKey w _ _)
    | failed e a =>
      cases e with
      | exception e => simpa [Sent.toExcept] using ReserveRun.leaked hw now total now' h e a
      | cancelled => exact ⟨rfl, .interrupted hw now total now' h _ rfl a⟩
      | generatorExit => exact ⟨rfl, .interrupted hw now total now' h _ rfl a⟩
      | interrupt => exact ⟨rfl, .interrupted hw now total now' h _ rfl a⟩

theorem wp_settle [Rounding] {reservedUsd actualUsd : ℚ} :
    (settle hashKey apiKey reservedUsd actualUsd).wp Healthy s fun t r s' =>
      s' = s ∧ SettleRun hashKey apiKey reservedUsd actualUsd t r := by
  rw [settle, Coro.wp_bind, wp_log]
  dsimp only
  rw [Coro.wp_ite]
  refine ⟨fun h => ⟨rfl, .unchanged h⟩, fun _ => ?_⟩
  rw [applyBestEffort, tryExceptElse, Coro.wp_attemptElse, wp_apply]
  intro now r
  cases r with
  | ok total => exact ⟨rfl, .charged now total⟩
  | failed e a =>
    cases e with
    | exception e => exact ⟨rfl, .swallowed now e a⟩
    | cancelled => exact ⟨rfl, .interrupted now _ rfl a⟩
    | generatorExit => exact ⟨rfl, .interrupted now _ rfl a⟩
    | interrupt => exact ⟨rfl, .interrupted now _ rfl a⟩

/-! ## The calls it records -/

/-- `settle` records its own call and never raises an `Exception`. -/
theorem calls_settle [Rounding] {A : Ev → Prop} {reservedUsd actualUsd : ℚ} :
    (settle hashKey apiKey reservedUsd actualUsd).wp A s fun t r s' =>
      s' = s ∧ calls t = [.trackerSettle apiKey reservedUsd actualUsd] ∧
        ∀ e, r ≠ .error (.exception e) := by
  rw [settle, Coro.wp_bind, wp_log_iff]
  intro _
  dsimp only
  rw [Coro.wp_ite]
  refine ⟨fun _ => ⟨rfl, rfl, by simp⟩, fun _ => ?_⟩
  rw [applyBestEffort, tryExceptElse, Coro.wp_attemptElse, apply, Coro.wp_bind, key, Coro.wp_bind,
    wp_time_iff]
  intro now _
  dsimp only
  rw [Coro.wp_pure]
  dsimp only
  rw [wp_incrbyfloatExpire_iff]
  rintro (total | ⟨e | _ | _ | _, a⟩) _ <;>
    exact ⟨rfl, rfl, by simp⟩

/-! ## What it asks of the ledgers -/

/-- The clock shows a time in the period `P`. -/
def InPeriod (P : ℤ) : Ev → Prop
  | ⟨.time, now⟩ => period now = P
  | _ => True

instance (P : ℤ) : DecidablePred (InPeriod P) := fun ⟨c, r⟩ => by
  cases c <;>
    first
      | exact inferInstanceAs (Decidable (period r = P))
      | exact isTrue trivial

section Runs

variable {reservedUsd actualUsd : ℚ} {t : List Ev} {r : Except Exc Unit} {P : ℤ}

theorem asked_applied {delta now : ℚ} {x : Sent ℚ} (k : LedgerKey) :
    tally (asked k) (applied hashKey apiKey delta now x)
      = if k = keyAt hashKey apiKey now then delta else 0 := by
  simp [applied, asked, eq_comm]

theorem keyAt_of_inPeriod {delta now : ℚ} {x : Sent ℚ}
    (h : ∀ e ∈ applied hashKey apiKey delta now x, InPeriod P e) :
    keyAt hashKey apiKey now = .key (hashKey apiKey) P := by
  have hnow : period now = P := h ⟨.time, now⟩ (by simp [applied])
  rw [keyAt, hnow]

/-- `settle` asks for the real cost less what was reserved. -/
theorem SettleRun.asked [Rounding] (h : SettleRun hashKey apiKey reservedUsd actualUsd t r)
    (hP : ∀ e ∈ t, InPeriod P e) (k : LedgerKey) :
    tally (asked k) t = if k = .key (hashKey apiKey) P then fl (actualUsd - reservedUsd) else 0 := by
  cases h with
  | unchanged h => simp [LlmGateway.asked, h]
  | charged | swallowed | interrupted =>
    rw [tally_cons, asked_applied, keyAt_of_inPeriod fun e he => hP e (List.mem_cons_of_mem _ he)]
    simp [LlmGateway.asked]

/-- `settle` leaves the ledgers of the providers alone. -/
theorem SettleRun.asked_provider [Rounding]
    (h : SettleRun hashKey apiKey reservedUsd actualUsd t r) (p : String) : tally (LlmGateway.asked (.provider p)) t = 0 := by
  cases h with
  | unchanged h => simp [LlmGateway.asked]
  | charged | swallowed | interrupted =>
    rw [tally_cons, asked_applied, if_neg (by simp [keyAt])]
    simp [LlmGateway.asked]

theorem SettleRun.raised [Rounding] {e : Exc}
    (h : SettleRun hashKey apiKey reservedUsd actualUsd t (.error e)) :
    ∃ ev ∈ t, raised ev = some e := by
  cases h
  exact ⟨_, .tail _ (.tail _ (.head _)), rfl⟩

/-! ## What a reservation leaves behind -/

variable {w : ℚ}

/-- While the clock stays in one period, `reserve` moves the caller's ledger by what it claims,
which is nothing unless it returns, and by what a failing command stranded. -/
theorem ReserveRun.moved_eq (h : ReserveRun hashKey monthlyCapUsd apiKey w t r) (hw : 0 ≤ w)
    (hP : ∀ e ∈ t, InPeriod P e) (k : LedgerKey) :
    tally (moved k) t = (if r.isOk ∧ k = .key (hashKey apiKey) P then w else 0)
      + tally (stranded k) t := by
  cases h with
  | exempt h => simp [le_antisymm h hw]
  | admitted hw now total h =>
    rw [applied, keyAt_of_inPeriod hP]
    simp [Except.isOk, Except.toBool, eq_comm]
  | unanswered hw now e a =>
    rw [applied, keyAt_of_inPeriod hP]
    simp [strandedBy, hw, Except.isOk, Except.toBool]
  | refused hw now total now' total' h =>
    rw [applied, applied, keyAt_of_inPeriod fun e he => hP e (List.mem_append_left _ he),
      keyAt_of_inPeriod fun e he => hP e (List.mem_append_right _ he)]
    by_cases hk : LedgerKey.key (hashKey apiKey) P = k <;>
      simp [hk, Except.isOk, Except.toBool]
  | leaked hw now total now' h e a =>
    rw [applied, applied, keyAt_of_inPeriod fun e he => hP e (List.mem_append_left _ he),
      keyAt_of_inPeriod fun e he => hP e (List.mem_append_right _ (List.mem_append_left _ he))]
    by_cases hk : LedgerKey.key (hashKey apiKey) P = k <;> cases a <;>
      simp [hk, strandedBy, not_lt.mpr hw.le, Except.isOk, Except.toBool]
  | interrupted hw now total now' h e he a =>
    rw [applied, applied, keyAt_of_inPeriod fun e he => hP e (List.mem_append_left _ he),
      keyAt_of_inPeriod fun e he => hP e (List.mem_append_right _ he)]
    by_cases hk : LedgerKey.key (hashKey apiKey) P = k <;> cases a <;>
      simp [hk, strandedBy, not_lt.mpr hw.le, Except.isOk, Except.toBool]

/-- `reserve` leaves the ledgers of the providers alone. -/
theorem ReserveRun.provider (h : ReserveRun hashKey monthlyCapUsd apiKey w t r) (p : String) :
    tally (moved (.provider p)) t = 0 ∧ tally (stranded (.provider p)) t = 0 := by
  cases h <;> simp [applied, keyAt]

/-- A hand-back that ends in an `Exception` is counted, and nothing else is. -/
theorem ReserveRun.leaked_eq (h : ReserveRun hashKey monthlyCapUsd apiKey w t r) (l : Ledger) :
    tally (LlmGateway.leaked l) t = tally (excused l) t := by
  cases h with
  | exempt hw => rfl
  | admitted hw now total h => simp [applied, LlmGateway.leaked, excused]
  | unanswered hw now e a =>
    cases e <;> simp [applied, LlmGateway.leaked, excused, not_lt.mpr hw.le]
  | refused hw now total now' total' h => simp [applied, LlmGateway.leaked, excused]
  | leaked hw now total now' h e a =>
    simp [applied, LlmGateway.leaked, excused, hw, keyAt, LedgerKey.ledger]
  | interrupted hw now total now' h e he a =>
    cases e with
    | exception e => cases he
    | _ => simp [applied, LlmGateway.leaked, excused]

/-- `reserve` settles nothing. -/
theorem ReserveRun.calls_eq (h : ReserveRun hashKey monthlyCapUsd apiKey w t r) :
    LlmGateway.calls t = [] := by
  cases h <;> simp [applied, calls_cons, call?]

end Runs

end LlmGateway.BudgetTracker
