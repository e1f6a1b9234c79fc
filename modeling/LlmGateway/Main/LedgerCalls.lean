import LlmGateway.Gateway.Redis
import LlmGateway.Main.SettleChain

/-!
# Settling against any ledgers

`_settle_chain` once more, with the three ledger calls it makes as parameters. With those of
`ProviderBudget` and `BudgetTracker` it is `settleChain`. With calls that record themselves and then
end in whatever was assigned to them, it shows what is attempted when any of them fails.
-/

namespace LlmGateway

open Coroutine

variable {σ : Type} {s : σ}

/-- The calls `_settle_chain` makes on the ledgers. -/
structure LedgerCalls (σ : Type) where
  settle (provider : String) (reservedUsd actualUsd : ℚ) : Py (Option Exc) Unit
  recordUnreserved (provider : String) (actualUsd : ℚ) : Py (Option Exc) Unit
  trackerSettle (apiKey : String) (reservedUsd actualUsd : ℚ) : Py σ Unit

namespace LedgerCalls

/-- The `except` clauses of the loop: the first cancellation is held, and no `Exception` is. -/
def holding : Exc → Option (Py (Option Exc) Unit)
  | .exception _ => some (pure ())
  | .interrupt => none
  | e => some (Coro.update fun cancellation => cancellation.or (some e))

/-- The loop of `_settle_providers`. -/
def settleEach (ledgers : LedgerCalls σ) (servedProvider : String) (actualUsd : ℚ) :
    List (String × ℚ) → Py (Option Exc) Unit
  | [] => pure ()
  | (provider, reserved) :: rest => do
    (ledgers.settle provider reserved (if provider = servedProvider then actualUsd else 0)).attempt
      holding
    ledgers.settleEach servedProvider actualUsd rest

/-- Charge real spend with no reservation to swap. -/
def settleUnreserved (ledgers : LedgerCalls σ) (reservations : OrderedDict String ℚ)
    (servedProvider : String) (actualUsd : ℚ) : Py (Option Exc) Unit :=
  if servedProvider ≠ "" ∧ servedProvider ∉ reservations then
    tryExcept (ledgers.recordUnreserved servedProvider actualUsd) fun _ => pure ()
  else pure ()

/-- `_settle_providers`. -/
def settleProviders (ledgers : LedgerCalls σ) (reservations : OrderedDict String ℚ)
    (servedProvider : String) (actualUsd : ℚ) : Py σ Unit :=
  Coro.scope none do
    ledgers.settleEach servedProvider actualUsd reservations.entries
    ledgers.settleUnreserved reservations servedProvider actualUsd
    raiseHeld

/-- `_settle_chain`. -/
def settleChain (ledgers : LedgerCalls σ) (apiKey : String) (reservations : OrderedDict String ℚ)
    (servedProvider : String) (actualUsd : ℚ) : Py σ Unit := do
  log (.settleChain apiKey reservations servedProvider actualUsd)
  (ledgers.settleProviders reservations servedProvider actualUsd).ensure
    (ledgers.trackerSettle apiKey reservations.total actualUsd)

/-- The ledgers of a deployment. -/
def ofSettings (settings : Settings) : LedgerCalls σ where
  settle := ProviderBudget.settle settings.providerLifetimeBudgetUsd
  recordUnreserved := ProviderBudget.recordUnreserved settings.providerLifetimeBudgetUsd
  trackerSettle := BudgetTracker.settle settings.hashKey

theorem settleEach_ofSettings (settings : Settings) (servedProvider : String) (actualUsd : ℚ)
    (es : List (String × ℚ)) :
    (ofSettings (σ := σ) settings).settleEach servedProvider actualUsd es =
      LlmGateway.settleEach settings servedProvider actualUsd es := by
  induction es with
  | nil => rfl
  | cons e es ih =>
    obtain ⟨provider, reserved⟩ := e
    rw [settleEach, ih]
    rfl

/-- With the ledgers of a deployment this is the function as it stands. -/
theorem settleChain_ofSettings (settings : Settings) (apiKey : String)
    (reservations : OrderedDict String ℚ) (servedProvider : String) (actualUsd : ℚ) :
    (ofSettings settings).settleChain apiKey reservations servedProvider actualUsd =
      (LlmGateway.settleChain settings apiKey reservations servedProvider actualUsd : Py σ Unit) := by
  rw [settleChain, settleProviders, settleEach_ofSettings]
  rfl

end LedgerCalls

/-! ## Results assigned to the calls -/

/-- A `CancelledError` or a `GeneratorExit`. -/
def Exc.Interrupts (e : Exc) : Prop := e = .cancelled ∨ e = .generatorExit

/-- What each ledger call ends in. Nothing stops the process, and `BudgetTracker.settle` keeps every
`Exception` to itself. -/
structure CallResults where
  result : Call → Except Exc Unit
  not_interrupt : ∀ c, result c ≠ .error .interrupt
  not_exception : ∀ apiKey r a e, result (.trackerSettle apiKey r a) ≠ .error (.exception e)

namespace CallResults

/-- Record the call and end in its result. -/
def perform (x : CallResults) (c : Call) : Py σ Unit := do
  log c
  Coro.ofExcept (x.result c)

/-- Ledgers whose calls end in the results assigned to them. -/
def ledgers (x : CallResults) : LedgerCalls σ where
  settle provider reservedUsd actualUsd := x.perform (.providerSettle provider reservedUsd actualUsd)
  recordUnreserved provider actualUsd := x.perform (.recordUnreserved provider actualUsd)
  trackerSettle apiKey reservedUsd actualUsd :=
    x.perform (.trackerSettle apiKey reservedUsd actualUsd)

/-- The call is interrupted. -/
def Interrupted (x : CallResults) (c : Call) : Prop := ∃ e, x.result c = .error e ∧ e.Interrupts

variable {x : CallResults} {A : Ev → Prop} {c : Call} {apiKey servedProvider : String}
  {actualUsd : ℚ} {reservations : OrderedDict String ℚ}

/-- A call ends well, in an `Exception`, or interrupted. -/
theorem result_cases (x : CallResults) (c : Call) :
    x.result c = .ok () ∨ (∃ e, x.result c = .error (.exception e)) ∨
      ∃ e, x.result c = .error e ∧ e.Interrupts := by
  cases h : x.result c with
  | ok _ => exact .inl rfl
  | error e =>
    cases e with
    | exception e => exact .inr (.inl ⟨e, rfl⟩)
    | cancelled => exact .inr (.inr ⟨_, rfl, .inl rfl⟩)
    | generatorExit => exact .inr (.inr ⟨_, rfl, .inr rfl⟩)
    | interrupt => exact absurd h (x.not_interrupt c)

theorem wp_perform {Q : List Ev → Except Exc Unit → σ → Prop}
    (h : Q [⟨.log c, ()⟩] (x.result c) s) : (x.perform c).wp A s Q := by
  rw [perform, Coro.wp_bind, wp_log_iff]
  intro _
  exact h

/-- What the loop holds when it is done. -/
structure Held (x : CallResults) (cs : List Call) (before after : Option Exc) : Prop where
  interrupts : ∀ e, after = some e → before = some e ∨ e.Interrupts
  kept : before ≠ none ∨ (∃ c ∈ cs, x.Interrupted c) → after ≠ none

theorem Held.cons {cs : List Call} {before between after : Option Exc}
    (h₁ : Held x [c] before between) (h₂ : Held x cs between after) :
    Held x (c :: cs) before after where
  interrupts e he := by
    rcases h₂.interrupts e he with h | h
    · exact h₁.interrupts e h
    · exact .inr h
  kept := by
    rintro (h | ⟨c', hmem, hc'⟩)
    · exact h₂.kept (.inl (h₁.kept (.inl h)))
    · rcases List.mem_cons.mp hmem with rfl | hmem
      · exact h₂.kept (.inl (h₁.kept (.inr ⟨c', List.mem_singleton_self c', hc'⟩)))
      · exact h₂.kept (.inr ⟨c', hmem, hc'⟩)

theorem wp_hold {before : Option Exc} :
    ((x.perform c).attempt LedgerCalls.holding).wp A before fun t r after =>
      t = [⟨.log c, ()⟩] ∧ r = .ok () ∧ Held x [c] before after := by
  rw [Coro.wp_attempt]
  refine wp_perform ?_
  rcases x.result_cases c with h | ⟨e, h⟩ | ⟨e, h, he⟩
  · rw [h]
    refine ⟨rfl, rfl, fun e he => .inl he, ?_⟩
    simp [Interrupted, h]
  · rw [h]
    refine ⟨rfl, rfl, fun e he => .inl he, ?_⟩
    simp [Interrupted, h, Exc.Interrupts]
  · have hholding : LedgerCalls.holding e =
        some (Coro.update fun cancellation => cancellation.or (some e)) := by
      rcases he with rfl | rfl <;> rfl
    rw [h]
    dsimp only
    rw [hholding]
    refine ⟨rfl, rfl, fun e' he' => ?_, fun _ => by cases before <;> simp⟩
    cases before with
    | none =>
      obtain rfl : e = e' := by simpa using he'
      exact .inr he
    | some e₀ => exact .inl he'

/-- The loop settles every reservation, and what interrupted it is held. -/
theorem wp_settleEach (es : List (String × ℚ)) (before : Option Exc) :
    ((x.ledgers (σ := σ)).settleEach servedProvider actualUsd es).wp A before fun t r after =>
      calls t = es.map (settleCall servedProvider actualUsd) ∧ r = .ok () ∧
        Held x (es.map (settleCall servedProvider actualUsd)) before after := by
  induction es generalizing before with
  | nil => exact ⟨rfl, rfl, fun e he => .inl he, fun h => h.resolve_right (by simp)⟩
  | cons e es ih =>
    obtain ⟨provider, reserved⟩ := e
    rw [LedgerCalls.settleEach, Coro.wp_bind]
    refine Coro.wp_mono wp_hold fun t r between _ h => ?_
    obtain ⟨rfl, rfl, hheld⟩ := h
    refine Coro.wp_mono (ih between) fun t r after _ h => ?_
    obtain ⟨hcalls, hr, hrest⟩ := h
    refine ⟨?_, hr, hheld.cons hrest⟩
    simp [calls_cons, call?, hcalls, settleCall]

/-- The charge without a reservation is made when there is one, and only an interruption leaves. -/
theorem wp_settleUnreserved {held : Option Exc} :
    ((x.ledgers (σ := σ)).settleUnreserved reservations servedProvider actualUsd).wp A held
      fun t r after => after = held ∧
        calls t = (if servedProvider ≠ "" ∧ servedProvider ∉ reservations then
          [.recordUnreserved servedProvider actualUsd] else []) ∧
        (∀ e, r = .error e → e.Interrupts) ∧
        ((∃ c ∈ calls t, x.Interrupted c) → ∃ e, r = .error e) := by
  rw [LedgerCalls.settleUnreserved, Coro.wp_ite]
  refine ⟨fun h => ?_, fun h => ?_⟩
  · rw [tryExcept, Coro.wp_attempt, if_pos h]
    refine wp_perform ?_
    rcases x.result_cases (.recordUnreserved servedProvider actualUsd) with hc | ⟨e, hc⟩ | ⟨e, hc, he⟩
    · rw [hc]
      exact ⟨rfl, rfl, by simp, by simp [calls_cons, call?, Interrupted, hc]⟩
    · rw [hc]
      exact ⟨rfl, rfl, by simp, by simp [calls_cons, call?, Interrupted, hc, Exc.Interrupts]⟩
    · rw [hc]
      rcases he with rfl | rfl
      · exact ⟨rfl, rfl, by simp [Exc.Interrupts], fun _ => ⟨_, rfl⟩⟩
      · exact ⟨rfl, rfl, by simp [Exc.Interrupts], fun _ => ⟨_, rfl⟩⟩
  · rw [if_neg h]
    exact ⟨rfl, rfl, by simp, by simp⟩

/-- The calls `_settle_providers` makes. -/
def providerCalls (reservations : OrderedDict String ℚ) (servedProvider : String) (actualUsd : ℚ) :
    List Call :=
  reservations.entries.map (settleCall servedProvider actualUsd) ++
    if servedProvider ≠ "" ∧ servedProvider ∉ reservations then
      [.recordUnreserved servedProvider actualUsd] else []

/-- Only interruptions leave, and one does if any of the calls was interrupted. -/
def Propagates (x : CallResults) (cs : List Call) (r : Except Exc Unit) : Prop :=
  (∀ e, r = .error e → e.Interrupts) ∧ ((∃ c ∈ cs, x.Interrupted c) → ∃ e, r = .error e)

theorem wp_settleProviders :
    ((x.ledgers (σ := σ)).settleProviders reservations servedProvider actualUsd).wp A s
      fun t r _ => calls t = providerCalls reservations servedProvider actualUsd ∧
        x.Propagates (providerCalls reservations servedProvider actualUsd) r := by
  rw [LedgerCalls.settleProviders, Coro.wp_scope, Coro.wp_bind]
  refine Coro.wp_mono (wp_settleEach _ none) fun t r held _ h => ?_
  obtain ⟨hcalls, rfl, hheld⟩ := h
  dsimp only
  rw [Coro.wp_bind]
  refine Coro.wp_mono wp_settleUnreserved fun t' r held' _ h => ?_
  obtain ⟨rfl, hcalls', hr, hinterrupted⟩ := h
  have hall : calls (t ++ t') = providerCalls reservations servedProvider actualUsd := by
    rw [calls_append, hcalls, hcalls', providerCalls]
  match r with
  | .error e => exact ⟨hall, hr, fun _ => ⟨e, rfl⟩⟩
  | .ok () =>
    dsimp only
    refine wp_raiseHeld (fun hnone => ?_) fun e he => ?_
    · rw [List.append_nil]
      refine ⟨hall, nofun, fun ⟨c, hc, hinterrupt⟩ => ?_⟩
      rw [← hall, calls_append, hcalls] at hc
      rcases List.mem_append.mp hc with hc | hc
      · exact absurd hnone (hheld.kept (.inr ⟨c, hc, hinterrupt⟩))
      · exact hinterrupted ⟨c, hc, hinterrupt⟩
    · rw [List.append_nil]
      refine ⟨hall, ?_, fun _ => ⟨e, rfl⟩⟩
      rintro e' ⟨⟩
      exact (hheld.interrupts e he).resolve_left nofun

/-- The calls `_settle_chain` makes on the ledgers. -/
def ledgerCalls (apiKey : String) (reservations : OrderedDict String ℚ) (servedProvider : String)
    (actualUsd : ℚ) : List Call :=
  providerCalls reservations servedProvider actualUsd ++
    [.trackerSettle apiKey reservations.total actualUsd]

theorem wp_settleChain :
    (x.ledgers.settleChain apiKey reservations servedProvider actualUsd).wp A s fun t r _ =>
      calls t = .settleChain apiKey reservations servedProvider actualUsd ::
          ledgerCalls apiKey reservations servedProvider actualUsd ∧
        x.Propagates (ledgerCalls apiKey reservations servedProvider actualUsd) r := by
  rw [LedgerCalls.settleChain, Coro.wp_bind, wp_log_iff]
  intro _
  dsimp only
  rw [Coro.wp_ensure]
  refine Coro.wp_mono wp_settleProviders fun t r s' _ h => wp_perform ?_
  obtain ⟨hcalls, honly, hany⟩ := h
  have hall : calls ([⟨.log (.settleChain apiKey reservations servedProvider actualUsd), ()⟩] ++
      (t ++ [⟨.log (.trackerSettle apiKey reservations.total actualUsd), ()⟩])) =
      .settleChain apiKey reservations servedProvider actualUsd ::
        ledgerCalls apiKey reservations servedProvider actualUsd := by
    simp [calls_cons, call?, hcalls, ledgerCalls]
  rcases x.result_cases (.trackerSettle apiKey reservations.total actualUsd) with
    hc | ⟨e, hc⟩ | ⟨e, hc, he⟩
  · rw [hc]
    refine ⟨hall, honly, ?_⟩
    rintro ⟨c, hmem, hinterrupt⟩
    rcases List.mem_append.mp hmem with hmem | hmem
    · exact hany ⟨c, hmem, hinterrupt⟩
    · obtain rfl := List.mem_singleton.mp hmem
      obtain ⟨e, hresult, -⟩ := hinterrupt
      cases hc.symm.trans hresult
  · exact absurd hc (x.not_exception _ _ _ e)
  -- what the `finally` clause raises replaces what it was entered with
  · rw [hc]
    exact ⟨hall, by rintro _ ⟨⟩; exact he, fun _ => ⟨e, rfl⟩⟩

/-- `_settle_chain` attempts every ledger entry whatever its calls end in: each reservation once, at
the real cost if it was served and at 0 otherwise, the charge without a reservation if there is one,
and the caller's share once. No `Exception` leaves it, and an interruption does if any of the calls
was interrupted. -/
theorem settles_every_ledger {t : List Ev} {r : Except Exc Unit} {s' : σ}
    (h : Coro.Runs (x.ledgers.settleChain apiKey reservations servedProvider actualUsd) s t r s') :
    calls t = .settleChain apiKey reservations servedProvider actualUsd ::
        ledgerCalls apiKey reservations servedProvider actualUsd ∧
      (∀ e, r ≠ .error (.exception e)) ∧
      ((∃ c ∈ ledgerCalls apiKey reservations servedProvider actualUsd, x.Interrupted c) →
        r = .error .cancelled ∨ r = .error .generatorExit) := by
  obtain ⟨hcalls, honly, hany⟩ := wp_settleChain.apply (A := fun _ => True) h fun _ _ => trivial
  refine ⟨hcalls, ?_, fun hinterrupted => ?_⟩
  · rintro e rfl
    rcases honly _ rfl with he | he <;> cases he
  · obtain ⟨e, rfl⟩ := hany hinterrupted
    exact (honly e rfl).imp (congrArg _) (congrArg _)

/-! ## Two interruptions -/

/-- A settlement is cancelled, the charge without a reservation fails, and so does the settlement of
the caller's share. -/
def troubled : CallResults where
  result
    | .providerSettle _ _ _ => .error .cancelled
    | .recordUnreserved _ _ => .error (.exception .valueError)
    | .trackerSettle _ _ _ => .error .generatorExit
    | _ => .ok ()
  not_interrupt c := by cases c <;> simp
  not_exception := by simp

/-- What a request reserved that was then served by a third provider. -/
def reservedTwo : OrderedDict String ℚ := ⟨[("openai", 1), ("anthropic", 2)], by decide⟩

/-- Its settlement. -/
def troubledRun : List Ev × (Except Exc Unit × Unit) × Unit :=
  Prog.drive (I := gateway) (fun _ c => (calm c, ()))
    (troubled.ledgers.settleChain "k" reservedTwo "ollama" 3 ()) ()

theorem settles_every_ledger_troubled :
    calls troubledRun.1 = [.settleChain "k" reservedTwo "ollama" 3,
        .providerSettle "openai" 1 0, .providerSettle "anthropic" 2 0,
        .recordUnreserved "ollama" 3, .trackerSettle "k" reservedTwo.total 3] ∧
      (troubledRun.2.1.1 = .error .cancelled ∨ troubledRun.2.1.1 = .error .generatorExit) := by
  have hrun : Coro.Runs (troubled.ledgers.settleChain "k" reservedTwo "ollama" 3) () troubledRun.1
    troubledRun.2.1.1 troubledRun.2.1.2 := Prog.returns_drive _ _ _
  obtain ⟨hcalls, -, hinterrupted⟩ := settles_every_ledger hrun
  refine ⟨hcalls.trans ?_, hinterrupted ⟨.providerSettle "openai" 1 0, ?_, _, rfl, .inl rfl⟩⟩
  · rfl
  · exact List.mem_cons_self

end CallResults

end LlmGateway
