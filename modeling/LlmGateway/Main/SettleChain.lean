import LlmGateway.Gateway.Settings
import LlmGateway.Budget.Tracker

/-!
# Settling a request

Mirrors `_settle_providers` and `_settle_chain` of `app/main.py`. No `Exception` leaves either of
them, whatever Redis or the metrics do, and in an environment whose metrics work the amounts asked
of the ledgers are the real cost less what was reserved.
-/

namespace LlmGateway

open Coroutine
open Rounding (fl)

variable [Rounding] {σ : Type} {s : σ} {settings : Settings}

/-! ## The functions -/

/-- The loop of `_settle_providers`. The local is the first cancellation that landed in it, which is
held until every provider has been attempted. -/
def settleEach (settings : Settings) (servedProvider : String) (actualUsd : ℚ) :
    List (String × ℚ) → Py (Option Exc) Unit
  | [] => pure ()
  | (provider, reserved) :: rest => do
    (ProviderBudget.settle settings.providerLifetimeBudgetUsd provider reserved
      (if provider = servedProvider then actualUsd else 0)).attempt fun
        -- a failed refund is only logged: the reservation stays at its worst case
        | .exception _ => some (pure ())
        | .interrupt => none
        -- the first one wins
        | e => some (Coro.update fun cancellation => cancellation.or (some e))
    settleEach settings servedProvider actualUsd rest

/-- Charge real spend with no reservation to swap. -/
def settleUnreserved (settings : Settings) (reservations : OrderedDict String ℚ)
    (servedProvider : String) (actualUsd : ℚ) : Py (Option Exc) Unit :=
  if servedProvider ≠ "" ∧ servedProvider ∉ reservations then
    tryExcept
      (ProviderBudget.recordUnreserved settings.providerLifetimeBudgetUsd servedProvider actualUsd)
      fun _ => pure ()
  else pure ()

/-- `if cancellation is not None: raise cancellation`. -/
def raiseHeld : Py (Option Exc) Unit := do
  match ← Coro.locals with
  | none => pure ()
  | some e => Coro.raise e

/-- Swap provider reservations for the real cost. -/
def settleProviders (settings : Settings) (reservations : OrderedDict String ℚ)
    (servedProvider : String) (actualUsd : ℚ) : Py σ Unit :=
  Coro.scope none do
    settleEach settings servedProvider actualUsd reservations.entries
    settleUnreserved settings reservations servedProvider actualUsd
    raiseHeld

/-- Settle both ledgers for a finished request. -/
def settleChain (settings : Settings) (apiKey : String) (reservations : OrderedDict String ℚ)
    (servedProvider : String) (actualUsd : ℚ) : Py σ Unit := do
  log (.settleChain apiKey reservations servedProvider actualUsd)
  (settleProviders settings reservations servedProvider actualUsd).ensure
    (BudgetTracker.settle settings.hashKey apiKey reservations.total actualUsd)

/-! ## The calls they record -/

section Calls

variable {A : Ev → Prop} {apiKey servedProvider : String} {actualUsd : ℚ}
  {reservations : OrderedDict String ℚ}

/-- The settlement of one reservation. -/
def settleCall (servedProvider : String) (actualUsd : ℚ) (e : String × ℚ) : Call :=
  .providerSettle e.1 e.2 (if e.1 = servedProvider then actualUsd else 0)

/-- A trace that records exactly these calls, beginning with the first, and is silent otherwise. -/
structure Records (t : List Ev) (cs : List Call) : Prop where
  calls : calls t = cs
  leaked : ∀ l, tally (leaked l) t = 0
  keyless : Keyless t
  headed : Headed t

omit [Rounding] in
theorem Records.nil : Records [] [] := ⟨rfl, fun _ => rfl, by simp [Keyless], .inl rfl⟩

omit [Rounding] in
theorem Records.append {t t' : List Ev} {cs cs' : List Call} (h : Records t cs)
    (h' : Records t' cs') : Records (t ++ t') (cs ++ cs') where
  calls := by rw [calls_append, h.calls, h'.calls]
  leaked l := by rw [tally_append, h.leaked, h'.leaked, add_zero]
  keyless := List.forall_mem_append.mpr ⟨h.keyless, h'.keyless⟩
  headed := h.headed.append h'.headed

omit [Rounding] in
theorem Records.of_silent {c : Call} {t : List Ev} (h : Silent t) :
    Records (⟨.log c, ()⟩ :: t) [c] where
  calls := by simp [calls_cons, call?, h.calls]
  leaked l := by simp [LlmGateway.leaked, h.leaked]
  keyless := List.forall_mem_cons.mpr ⟨fun _ _ => rfl, h.keyless⟩
  headed := .inr ⟨c, t, rfl⟩

/-- What the loop does, whatever fails in it: it settles the reservations in order, and only a
`KeyboardInterrupt` keeps it from settling all of them. -/
structure EachRun (servedProvider : String) (actualUsd : ℚ) (es : List (String × ℚ))
    (cancellation : Option Exc) (t : List Ev) (r : Except Exc Unit) (cancellation' : Option Exc) :
    Prop where
  records : ∃ cs, Records t cs ∧ cs <+: es.map (settleCall servedProvider actualUsd) ∧
    (r = .ok () → cs = es.map (settleCall servedProvider actualUsd))
  outcome : r = .ok () ∨ r = .error .interrupt
  held : ∀ e, cancellation' = some (.exception e) → cancellation = some (.exception e)

omit [Rounding] in
theorem EachRun.cons {e : String × ℚ} {es : List (String × ℚ)} {c c₁ c₂ : Option Exc}
    {t t' : List Ev} {r : Except Exc Unit}
    (ht : Records t [settleCall servedProvider actualUsd e])
    (hc : ∀ e, c₁ = some (.exception e) → c = some (.exception e))
    (h : EachRun servedProvider actualUsd es c₁ t' r c₂) :
    EachRun servedProvider actualUsd (e :: es) c (t ++ t') r c₂ where
  records := by
    obtain ⟨cs, hcs, hprefix, hall⟩ := h.records
    exact ⟨_ :: cs, ht.append hcs, List.cons_prefix_cons.mpr ⟨rfl, hprefix⟩,
      fun hr => congrArg _ (hall hr)⟩
  outcome := h.outcome
  held x hx := hc x (h.held x hx)

theorem calls_settleEach (es : List (String × ℚ)) (c : Option Exc) :
    (settleEach settings servedProvider actualUsd es).wp A c fun t r c' =>
      EachRun servedProvider actualUsd es c t r c' := by
  induction es generalizing c with
  | nil => exact ⟨⟨[], .nil, List.nil_prefix, fun _ => rfl⟩, .inl rfl, fun _ h => h⟩
  | cons e es ih =>
    obtain ⟨provider, reserved⟩ := e
    rw [settleEach, Coro.wp_bind, Coro.wp_attempt]
    refine Coro.wp_mono ProviderBudget.calls_settle fun t r c₁ _ h => ?_
    obtain ⟨rfl, t₀, rfl, ht⟩ := h
    have hrec := Records.of_silent (c := settleCall servedProvider actualUsd (provider, reserved)) ht
    match r with
    | .ok () => exact Coro.wp_mono (ih _) fun t' r c₂ _ h => .cons hrec (fun _ h => h) h
    | .error (.exception e) =>
      refine Coro.wp_pure.mpr (Coro.wp_mono (ih _) fun t' r c₂ _ h => ?_)
      rw [List.append_nil]
      exact .cons hrec (fun _ h => h) h
    | .error .interrupt =>
      exact ⟨⟨_, hrec, List.cons_prefix_cons.mpr ⟨rfl, List.nil_prefix⟩, nofun⟩, .inr rfl,
        fun _ h => h⟩
    | .error .cancelled | .error .generatorExit =>
      refine Coro.wp_update.mpr (Coro.wp_mono (ih _) fun t' r c₂ _ h => ?_)
      rw [List.append_nil]
      exact .cons hrec (fun x hx => by cases c₁ <;> simp_all) h

/-- The calls of `_settle_providers`: the reservations in order, then the charge without one. -/
def Settles (reservations : OrderedDict String ℚ) (servedProvider : String) (actualUsd : ℚ)
    (cs : List Call) : Prop :=
  cs <+: reservations.entries.map (settleCall servedProvider actualUsd) ∨
    servedProvider ∉ reservations ∧
      cs = reservations.entries.map (settleCall servedProvider actualUsd)
        ++ [.recordUnreserved servedProvider actualUsd]

omit [Rounding] in
theorem wp_raiseHeld {c : Option Exc} {Q : List Ev → Except Exc Unit → Option Exc → Prop}
    (hnone : c = none → Q [] (.ok ()) c) (hsome : ∀ e, c = some e → Q [] (.error e) c) :
    raiseHeld.wp A c Q := by
  cases c with
  | none => exact hnone rfl
  | some e => exact hsome e rfl

omit [Rounding] in
theorem calls_settleUnreserved {c : Option Exc} :
    (settleUnreserved settings reservations servedProvider actualUsd).wp A c fun t r c' =>
      c' = c ∧ (∀ e, r ≠ .error (.exception e)) ∧
        (t = [] ∨ servedProvider ∉ reservations ∧
          Records t [.recordUnreserved servedProvider actualUsd]) := by
  rw [settleUnreserved, Coro.wp_ite]
  refine ⟨fun h => ?_, fun _ => ⟨rfl, by simp, .inl rfl⟩⟩
  refine wp_tryPass ProviderBudget.calls_recordUnreserved ?_ ?_ ?_
  · rintro _ _ ⟨rfl, t, rfl, ht⟩
    exact ⟨rfl, nofun, .inr ⟨h.2, .of_silent ht⟩⟩
  · rintro _ _ _ ⟨rfl, t, rfl, ht⟩
    exact ⟨rfl, nofun, .inr ⟨h.2, .of_silent ht⟩⟩
  · rintro _ _ _ ⟨rfl, t, rfl, ht⟩ hx
    refine ⟨rfl, ?_, .inr ⟨h.2, .of_silent ht⟩⟩
    rintro e ⟨⟩
    cases hx

theorem calls_settleProviders :
    (settleProviders settings reservations servedProvider actualUsd).wp A s fun t r s' =>
      s' = s ∧ (∀ e, r ≠ .error (.exception e)) ∧
        ∃ cs, Settles reservations servedProvider actualUsd cs ∧ Records t cs := by
  rw [settleProviders, Coro.wp_scope, Coro.wp_bind]
  refine Coro.wp_mono (calls_settleEach _ _) fun t r c _ h => ?_
  obtain ⟨cs, hcs, hprefix, hall⟩ := h.records
  match r with
  | .error e =>
    obtain rfl : e = .interrupt := by simpa using h.outcome
    exact ⟨rfl, by simp, cs, .inl hprefix, hcs⟩
  | .ok () =>
    dsimp only
    rw [Coro.wp_bind]
    refine Coro.wp_mono calls_settleUnreserved fun t' r c' _ h' => ?_
    obtain ⟨rfl, hr, ht'⟩ := h'
    have hrec : ∃ cs, Settles reservations servedProvider actualUsd cs ∧ Records (t ++ t') cs := by
      rcases ht' with rfl | ⟨hmem, ht'⟩
      · exact ⟨cs, .inl hprefix, by rwa [List.append_nil]⟩
      · exact ⟨_, .inr ⟨hmem, rfl⟩, hall rfl ▸ hcs.append ht'⟩
    match r with
    | .error e => exact ⟨rfl, hr, hrec⟩
    | .ok () =>
      refine wp_raiseHeld (fun _ => ⟨rfl, by simp, ?_⟩) fun e he => ⟨rfl, ?_, ?_⟩
      · rwa [List.append_nil]
      · rintro x ⟨⟩
        exact nomatch h.held x he
      · rwa [List.append_nil]

/-- The calls of one settlement at `actualUsd`, the caller's share last and once. -/
def SettledAt (apiKey : String) (reservations : OrderedDict String ℚ) (servedProvider : String)
    (actualUsd : ℚ) (cs : List Call) : Prop :=
  ∃ cs', Settles reservations servedProvider actualUsd cs' ∧
    cs = .settleChain apiKey reservations servedProvider actualUsd :: cs'
      ++ [.trackerSettle apiKey reservations.total actualUsd]

/-- `_settle_chain` settles once and raises no `Exception`. -/
theorem calls_settleChain :
    (settleChain settings apiKey reservations servedProvider actualUsd).wp A s fun t r s' =>
      s' = s ∧ (∀ e, r ≠ .error (.exception e)) ∧
        SettledAt apiKey reservations servedProvider actualUsd (calls t) := by
  rw [settleChain, Coro.wp_bind, wp_log_iff]
  intro _
  dsimp only
  rw [Coro.wp_ensure]
  refine Coro.wp_mono calls_settleProviders fun t r s₁ _ h => ?_
  obtain ⟨rfl, hr, cs, hcs, hrec⟩ := h
  refine Coro.wp_mono BudgetTracker.calls_settle fun t' r' s₂ _ h => ?_
  obtain ⟨rfl, ht', hr'⟩ := h
  have hcalls : calls ([⟨.log (.settleChain apiKey reservations servedProvider actualUsd), ()⟩]
      ++ (t ++ t')) = .settleChain apiKey reservations servedProvider actualUsd :: cs
        ++ [.trackerSettle apiKey reservations.total actualUsd] := by
    simp [calls_cons, call?, hrec.calls, ht']
  cases r' with
  | ok u => exact ⟨rfl, hr, cs, hcs, hcalls⟩
  | error e => exact ⟨rfl, hr', cs, hcs, hcalls⟩

theorem headed_settleChain :
    (settleChain settings apiKey reservations servedProvider actualUsd).wp A s
      fun t _ _ => Headed t := by
  rw [settleChain, Coro.wp_bind, wp_log_iff]
  intro _
  exact Coro.wp_mono Coro.wp_true fun t r s' _ _ => .inr ⟨_, t, rfl⟩

end Calls

/-! ## What they ask of the ledgers -/

section Asked

variable {apiKey servedProvider : String} {actualUsd : ℚ} {reservations : OrderedDict String ℚ}

/-- The loop was cut short by a `KeyboardInterrupt`. -/
def Interrupted (t : List Ev) : Prop := ∃ e ∈ t, raised e = some .interrupt

/-- An exception came out of a Redis command. -/
def FromRedis {α : Type} (t : List Ev) (r : Except Exc α) : Prop :=
  ∀ e, r = .error e → ∃ ev ∈ t, raised ev = some e

omit [Rounding] in
theorem not_interrupted {t : List Ev} (h : ∀ e ∈ t, failed e = false) : ¬ Interrupted t := by
  rintro ⟨e, he, hr⟩
  have hf := h e he
  simp [failed, hr] at hf

omit [Rounding] in
/-- Where no Redis command fails, none raises anything. -/
theorem FromRedis.ok {t : List Ev} {r : Except Exc Unit} (h : FromRedis t r)
    (ht : ∀ e ∈ t, failed e = false) : r = .ok () := by
  match r with
  | .ok () => rfl
  | .error x =>
    obtain ⟨e, he, hx⟩ := h x rfl
    have hnone := ht e he
    rw [failed, hx] at hnone
    cases hnone

/-- What settling one reservation asks of the ledger `k`. -/
def settlementOf (servedProvider : String) (actualUsd : ℚ) (k : LedgerKey) (e : String × ℚ) : ℚ :=
  ProviderBudget.onLedger e.1 k (fl ((if e.1 = servedProvider then actualUsd else 0) - e.2))

/-- What charging a provider without a reservation asks of the ledger `k`. -/
def surcharge (reservations : OrderedDict String ℚ) (servedProvider : String) (actualUsd : ℚ)
    (k : LedgerKey) : ℚ :=
  if servedProvider ≠ "" ∧ servedProvider ∉ reservations then
    ProviderBudget.onLedger servedProvider k (max 0 actualUsd)
  else 0

/-- What settling all of them asks of the ledger `k`. -/
def settlement (reservations : OrderedDict String ℚ) (servedProvider : String) (actualUsd : ℚ)
    (k : LedgerKey) : ℚ :=
  (reservations.entries.map (settlementOf servedProvider actualUsd k)).sum
    + surcharge reservations servedProvider actualUsd k

theorem settlement_eq_zero {k : LedgerKey} (h : ∀ q x, ProviderBudget.onLedger q k x = 0) :
    settlement reservations servedProvider actualUsd k = 0 := by
  have hzero : settlementOf servedProvider actualUsd k = fun _ => 0 := funext fun e => h _ _
  simp [settlement, surcharge, hzero, h]

/-- Only the amounts of the provider itself are on its ledger. -/
theorem settlement_provider {p : String} :
    settlement reservations servedProvider actualUsd (.provider p)
      = if p ∈ FREE_PROVIDERS then 0
        else if p ∈ reservations then
          fl ((if p = servedProvider then actualUsd else 0) - reservations.getD p 0)
        else if p = servedProvider ∧ p ≠ "" then max 0 actualUsd else 0 := by
  by_cases hfree : p ∈ FREE_PROVIDERS
  · rw [if_pos hfree]
    refine settlement_eq_zero fun q x => if_neg ?_
    rintro ⟨h, hq⟩
    rw [ProviderBudget.key, LedgerKey.provider.injEq] at h
    exact hq (h ▸ hfree)
  · have hsingle : ∀ e : String × ℚ, settlementOf servedProvider actualUsd (.provider p) e
        = if e.1 = p then fl ((if p = servedProvider then actualUsd else 0) - e.2) else 0 := by
      intro e
      by_cases he : e.1 = p
      · simp [settlementOf, ProviderBudget.onLedger, ProviderBudget.key, he, hfree]
      · simp [settlementOf, ProviderBudget.onLedger, ProviderBudget.key, he, Ne.symm he]
    rw [settlement, funext hsingle, OrderedDict.sum_entries_single (x := 0)
      (f := fun v => fl ((if p = servedProvider then actualUsd else 0) - v)), surcharge]
    by_cases hs : p = servedProvider
    · subst hs
      by_cases hmem : p ∈ reservations <;>
        simp [hmem, hfree, ProviderBudget.onLedger, ProviderBudget.key]
    · simp [hs, hfree, ProviderBudget.onLedger, ProviderBudget.key]

theorem settlement_key {h : String} {P : ℤ} :
    settlement reservations servedProvider actualUsd (.key h P) = 0 :=
  settlement_eq_zero fun q x => if_neg (by simp [ProviderBudget.key])

/-- What the loop asks of every ledger, unless it was cut short. -/
structure EachAsked (servedProvider : String) (actualUsd : ℚ) (es : List (String × ℚ))
    (c : Option Exc) (t : List Ev) (r : Except Exc Unit) (c' : Option Exc) : Prop where
  fromRedis : FromRedis t r
  held : ∀ e, c' = some e → c = some e ∨ ∃ ev ∈ t, raised ev = some e
  asked : Interrupted t ∨ r = .ok () ∧ ∀ k, tally (asked k) t
    = (es.map (settlementOf servedProvider actualUsd k)).sum

theorem EachAsked.cons {e : String × ℚ} {es : List (String × ℚ)} {c c₁ c₂ : Option Exc}
    {t t' : List Ev} {r : Except Exc Unit}
    (ht : ∀ k, tally (LlmGateway.asked k) t = settlementOf servedProvider actualUsd k e)
    (hc : ∀ x, c₁ = some x → c = some x ∨ ∃ ev ∈ t, raised ev = some x)
    (h : EachAsked servedProvider actualUsd es c₁ t' r c₂) :
    EachAsked servedProvider actualUsd (e :: es) c (t ++ t') r c₂ where
  fromRedis x hx := by
    obtain ⟨ev, hmem, hev⟩ := h.fromRedis x hx
    exact ⟨ev, List.mem_append_right _ hmem, hev⟩
  held x hx := by
    rcases h.held x hx with hx | ⟨ev, hmem, hev⟩
    · exact (hc x hx).imp_right fun ⟨ev, hmem, hev⟩ => ⟨ev, List.mem_append_left _ hmem, hev⟩
    · exact .inr ⟨ev, List.mem_append_right _ hmem, hev⟩
  asked := by
    rcases h.asked with ⟨ev, hmem, hev⟩ | ⟨hr, hasked⟩
    · exact .inl ⟨ev, List.mem_append_right _ hmem, hev⟩
    · exact .inr ⟨hr, fun k => by rw [tally_append, ht, hasked, List.map_cons, List.sum_cons]⟩

theorem wp_settleEach (es : List (String × ℚ)) (c : Option Exc) :
    (settleEach settings servedProvider actualUsd es).wp Healthy c fun t r c' =>
      EachAsked servedProvider actualUsd es c t r c' := by
  induction es generalizing c with
  | nil => exact ⟨nofun, fun _ h => .inl h, .inr ⟨rfl, fun _ => rfl⟩⟩
  | cons e es ih =>
    obtain ⟨provider, reserved⟩ := e
    rw [settleEach, Coro.wp_bind, Coro.wp_attempt]
    refine Coro.wp_mono ProviderBudget.wp_settle fun t r c₁ _ h => ?_
    obtain ⟨rfl, ht⟩ := h
    match r with
    | .ok () => exact Coro.wp_mono (ih _) fun t' r c₂ _ h => .cons ht.asked (fun _ => .inl) h
    | .error (.exception e) =>
      refine Coro.wp_pure.mpr (Coro.wp_mono (ih _) fun t' r c₂ _ h => ?_)
      rw [List.append_nil]
      exact .cons ht.asked (fun _ => .inl) h
    | .error .interrupt =>
      refine ⟨fun e he => ?_, fun _ h => .inl h, .inl ht.raised⟩
      obtain rfl := Except.error.inj he
      exact ht.raised
    | .error .cancelled | .error .generatorExit =>
      refine Coro.wp_update.mpr (Coro.wp_mono (ih _) fun t' r c₂ _ h => ?_)
      rw [List.append_nil]
      refine .cons ht.asked (fun x hx => ?_) h
      cases c₁ with
      | none =>
        obtain rfl := Option.some.inj hx
        exact .inr ht.raised
      | some y => exact .inl hx

omit [Rounding] in
theorem wp_settleUnreserved {c : Option Exc} :
    (settleUnreserved settings reservations servedProvider actualUsd).wp Healthy c fun t r c' =>
      c' = c ∧ FromRedis t r ∧
        ∀ k, tally (asked k) t = surcharge reservations servedProvider actualUsd k := by
  rw [settleUnreserved, Coro.wp_ite]
  refine ⟨fun h => ?_, fun h => ⟨rfl, nofun, fun k => (if_neg h).symm⟩⟩
  have hsur : ∀ k, surcharge reservations servedProvider actualUsd k
      = ProviderBudget.onLedger servedProvider k (max 0 actualUsd) := fun k => if_pos h
  refine wp_tryPass ProviderBudget.wp_recordUnreserved ?_ ?_ ?_
  · rintro t _ ⟨rfl, ht⟩
    exact ⟨rfl, nofun, fun k => by rw [ht.asked, hsur]⟩
  · rintro t e _ ⟨rfl, ht⟩
    exact ⟨rfl, nofun, fun k => by rw [ht.asked, hsur]⟩
  · rintro t x _ ⟨rfl, ht⟩ -
    refine ⟨rfl, fun e he => ?_, fun k => by rw [ht.asked, hsur]⟩
    obtain rfl := Except.error.inj he
    exact ht.raised

omit [Rounding] in
theorem FromRedis.append_left {α : Type} {t : List Ev} {r : Except Exc α} (h : FromRedis t r)
    (t' : List Ev) : FromRedis (t ++ t') r := fun e he => by
  obtain ⟨ev, hmem, hev⟩ := h e he
  exact ⟨ev, List.mem_append_left _ hmem, hev⟩

omit [Rounding] in
theorem FromRedis.append_right {α : Type} {t' : List Ev} {r : Except Exc α} (h : FromRedis t' r)
    (t : List Ev) : FromRedis (t ++ t') r := fun e he => by
  obtain ⟨ev, hmem, hev⟩ := h e he
  exact ⟨ev, List.mem_append_right _ hmem, hev⟩

/-- What `_settle_providers` asks of every ledger. -/
theorem wp_settleProviders :
    (settleProviders settings reservations servedProvider actualUsd).wp Healthy s fun t r s' =>
      s' = s ∧ FromRedis t r ∧ (Interrupted t ∨ ∀ k, tally (asked k) t
        = settlement reservations servedProvider actualUsd k) := by
  rw [settleProviders, Coro.wp_scope, Coro.wp_bind]
  refine Coro.wp_mono (wp_settleEach _ _) fun t r c _ h => ?_
  match r with
  | .error e => exact ⟨rfl, h.fromRedis, h.asked.imp_right fun h => nomatch h.1⟩
  | .ok () =>
    dsimp only
    rw [Coro.wp_bind]
    refine Coro.wp_mono wp_settleUnreserved fun t' r c' _ h' => ?_
    obtain ⟨rfl, hr, ht'⟩ := h'
    have hasked : Interrupted (t ++ t') ∨ ∀ k, tally (asked k) (t ++ t')
        = settlement reservations servedProvider actualUsd k := by
      rcases h.asked with ⟨ev, hmem, hev⟩ | ⟨-, ht⟩
      · exact .inl ⟨ev, List.mem_append_left _ hmem, hev⟩
      · exact .inr fun k => by rw [tally_append, ht, ht', settlement]
    match r with
    | .error e => exact ⟨rfl, hr.append_right t, hasked⟩
    | .ok () =>
      refine wp_raiseHeld (fun _ => ⟨rfl, nofun, ?_⟩) fun e he => ⟨rfl, ?_, ?_⟩
      · rwa [List.append_nil]
      · rintro x ⟨⟩
        rcases h.held e he with h | ⟨ev, hmem, hev⟩
        · cases h
        · exact ⟨ev, by simp [hmem], hev⟩
      · rwa [List.append_nil]

/-- What a settlement that was not cut short asks of the ledgers: of the caller's in the period the
clock stays in, if it stays in one. -/
structure ChainAsked (settings : Settings) (apiKey : String) (reservations : OrderedDict String ℚ)
    (servedProvider : String) (actualUsd : ℚ) (t : List Ev) : Prop where
  provider : ∀ p, tally (asked (.provider p)) t
    = settlement reservations servedProvider actualUsd (.provider p)
  key : ∀ P, (∀ e ∈ t, BudgetTracker.InPeriod P e) → ∀ h P', tally (asked (.key h P')) t
    = if h = settings.hashKey apiKey ∧ P' = P then fl (actualUsd - reservations.total) else 0

/-- What `_settle_chain` asks is what its two halves do. -/
theorem ChainAsked.of_parts {t t' : List Ev} {r : Except Exc Unit}
    (ht : ∀ k, tally (asked k) t = settlement reservations servedProvider actualUsd k)
    (ht' : BudgetTracker.SettleRun settings.hashKey apiKey reservations.total actualUsd t' r) :
    ChainAsked settings apiKey reservations servedProvider actualUsd
      ([⟨.log (.settleChain apiKey reservations servedProvider actualUsd), ()⟩] ++ (t ++ t')) where
  provider p := by
    rw [tally_append, tally_append, ht, ht'.asked_provider]
    simp [asked]
  key P hP h P' := by
    have hP' : ∀ e ∈ t', BudgetTracker.InPeriod P e := fun e he => hP e (by simp [he])
    rw [tally_append, tally_append, ht, settlement_key, ht'.asked hP']
    simp [asked]

theorem wp_settleChain :
    (settleChain settings apiKey reservations servedProvider actualUsd).wp Healthy s fun t r s' =>
      s' = s ∧ FromRedis t r ∧ (Interrupted t ∨
        ChainAsked settings apiKey reservations servedProvider actualUsd t) := by
  rw [settleChain, Coro.wp_bind, wp_log]
  dsimp only
  rw [Coro.wp_ensure]
  refine Coro.wp_mono wp_settleProviders fun t r s₁ _ h => ?_
  obtain ⟨rfl, hr, ht⟩ := h
  refine Coro.wp_mono BudgetTracker.wp_settle fun t' r' s₂ _ h => ?_
  obtain ⟨rfl, ht'⟩ := h
  have hasked : Interrupted
      ([⟨.log (.settleChain apiKey reservations servedProvider actualUsd), ()⟩] ++ (t ++ t')) ∨
      ChainAsked settings apiKey reservations servedProvider actualUsd
        ([⟨.log (.settleChain apiKey reservations servedProvider actualUsd), ()⟩] ++ (t ++ t')) := by
    rcases ht with ⟨ev, hmem, hev⟩ | ht
    · exact .inl ⟨ev, by simp [hmem], hev⟩
    · exact .inr (.of_parts ht ht')
  match r' with
  | .ok () => exact ⟨rfl, (hr.append_left t').append_right _, hasked⟩
  | .error e =>
    refine ⟨rfl, ?_, hasked⟩
    rintro x ⟨⟩
    obtain ⟨ev, hmem, hev⟩ := ht'.raised
    exact ⟨ev, by simp [hmem], hev⟩

end Asked

end LlmGateway
