import LlmGateway.Main.StreamAbandonment

/-!
# The phases of a stream

A generator runs its loop, then either the clause for what left the loop or the bookkeeping. The rule
below reduces a statement about a generator to one about each of these, so that the results about the
stream endpoints look at one phase at a time.
-/

namespace LlmGateway

open Coroutine

variable {σ : Type} {settings : Settings} {q : RequestArgs} {A : Ev → Prop}
  {deliver : StreamChunk → Py StreamLocals Unit} {onAllFailed closing : Py StreamLocals Unit}
  {stream : RouterStream}

section

variable [Rounding]

/-! ## The rule -/

/-- The clause that handles what left the loop. -/
def loopClause (settings : Settings) (q : RequestArgs) (onAllFailed : Py StreamLocals Unit) :
    Exc → Py StreamLocals Unit
  | .generatorExit => onDisconnect settings q .generatorExit
  | .cancelled => onDisconnect settings q .cancelled
  | .exception (.allProvidersFailed _) => onAllFailed
  | .exception _ => onUnexpected settings q
  | .interrupt => Coro.raise .interrupt

/-- The time is taken in a `finally`, whose exception replaces what came before. -/
def timed (l : Except PyError Unit) (r : Except Exc Unit) : Except Exc Unit :=
  match l with
  | .ok () => r
  | .error e => .error (.exception e)

theorem wp_onDisconnect_of {α β : Type} {x : Exc} {s : StreamLocals} {b : β}
    {R : List Ev → Except Exc β → StreamLocals → Prop}
    (h : (onDisconnect settings q x : Py StreamLocals α).wp A s fun t r s' =>
      R t (r.map fun _ => b) s') :
    (onDisconnect settings q x : Py StreamLocals β).wp A s R := by
  rw [onDisconnect, Coro.wp_bind] at h ⊢
  refine Coro.wp_mono h fun t r s₁ _ h => ?_
  match r with
  | .error e => exact h
  | .ok () =>
    dsimp only at h ⊢
    rw [Coro.wp_bind] at h ⊢
    refine Coro.wp_mono h fun t' r s₂ _ h => ?_
    match r with
    | .error e => exact h
    | .ok () => exact h

omit [Rounding] in
theorem wp_handled {m : Py StreamLocals Unit} {s : StreamLocals}
    {R : List Ev → Except Exc Bool → StreamLocals → Prop}
    (h : m.wp A s fun t r s' => R t (r.map fun _ => false) s') :
    (do
      m
      pure false : Py StreamLocals Bool).wp A s R := by
  rw [Coro.wp_bind]
  refine Coro.wp_mono h fun t r s₁ _ h => ?_
  match r with
  | .error e => exact h
  | .ok () =>
    refine Coro.wp_pure.mpr ?_
    rw [List.append_nil]
    exact h

/-- The handlers do what the clauses do. -/
theorem wp_loopHandlers {x : Exc} {s : StreamLocals}
    {R : List Ev → Except Exc Bool → StreamLocals → Prop}
    (h : (loopClause settings q onAllFailed x).wp A s fun t r s' =>
      R t (r.map fun _ => false) s') :
    match loopHandlers settings q onAllFailed x with
    | some c => c.wp A s R
    | none => R [] (.error x) s := by
  cases x with
  | generatorExit | cancelled => exact wp_onDisconnect_of h
  | interrupt => exact h
  | exception e => cases e <;> exact wp_handled h

/-- A statement about a generator follows from one about its loop, one about each clause, and one
about the bookkeeping. -/
theorem wp_generator_of_phases {L Q : List Ev → Except Exc Unit → StreamLocals → Prop}
    (hloop : (forChunks deliver stream.ending stream.chunks).wp A {} L)
    (hclause : ∀ t x s, L t (.error x) s →
      (loopClause settings q onAllFailed x).wp A s fun t' r s' => ∀ l : Except PyError Unit,
        A ⟨.metric .requestLatency, l⟩ →
          Q (t ++ (t' ++ [⟨.metric .requestLatency, l⟩])) (timed l r) s')
    (hraise : ∀ t s (e : PyError), L t (.ok ()) s → A ⟨.metric .requestLatency, .error e⟩ →
      Q (t ++ [⟨.metric .requestLatency, .error e⟩]) (.error (.exception e)) s)
    (hbook : ∀ t s, L t (.ok ()) s → A ⟨.metric .requestLatency, .ok ()⟩ →
      (bookkeeping settings q closing >>= finish).wp A s fun t' r s' =>
        Q (t ++ ⟨.metric .requestLatency, .ok ()⟩ :: t') r s') :
    (generator settings q deliver onAllFailed closing stream).wp A {} Q := by
  rw [generator, Coro.wp_bind, guardedLoop_eq, Coro.wp_ensure, Coro.wp_attempt, Coro.wp_bind]
  refine Coro.wp_mono hloop fun t r s _ hL => ?_
  cases r with
  | ok u =>
    refine Coro.wp_pure.mpr ?_
    dsimp only
    rw [wp_metric_iff]
    rintro (e | ⟨⟩) hA
    · simpa [Except.mapError] using hraise t s e hL hA
    · simpa [Except.mapError] using hbook t s hL hA
  | error x =>
    have hrun := wp_loopHandlers (R := fun t' r s' => ∀ l : Except PyError Unit,
      A ⟨.metric .requestLatency, l⟩ →
        Q (t ++ (t' ++ [⟨.metric .requestLatency, l⟩])) (timed l (r.map fun _ => ())) s' ∧
          r ≠ .ok true) (Coro.wp_mono (hclause t x s hL) fun t' r s' _ h l hA => ?_)
    · dsimp only
      cases hx : loopHandlers settings q onAllFailed x with
      | none =>
        rw [hx] at hrun
        rw [wp_metric_iff]
        rintro (e | ⟨⟩) hA <;> simpa [timed, Except.mapError, Except.map] using (hrun _ hA).1
      | some c =>
        rw [hx] at hrun
        refine Coro.wp_mono hrun fun t' r s' _ h => ?_
        rw [wp_metric_iff]
        rintro (e | ⟨⟩) hA
        · simpa [timed, Except.mapError] using (h _ hA).1
        · obtain ⟨h, hne⟩ := h _ hA
          rcases r with y | _ | _
          · simpa [timed, Except.mapError, Except.map] using h
          · simpa [timed, Except.mapError, Except.map] using h
          · exact absurd rfl hne
    · cases r with
      | error y => exact ⟨h l hA, by rintro ⟨⟩⟩
      | ok u => exact ⟨h l hA, by simp [Except.map]⟩

/-! ## Bookkeeping that fails by an `Exception` only -/

/-- Redis and the database raise nothing but an `Exception`. -/
def Tolerable (e : Ev) : Prop :=
  ∀ x, raised e = some x ∨ auditRaised e = some x → x.isException = true

/-- The stream is read to its end: it is started, the router's chunks arrive, and every frame is
taken. -/
def Read : Ev → Prop
  | ⟨.start, started⟩ => started = true
  | ⟨.anext _, r⟩ => r = .ok ()
  | ⟨.yield _, r⟩ => r = .ok ()
  | _ => True

/-- A client that reads to the end, while any part of the bookkeeping may fail. -/
def Attended (e : Ev) : Prop := Tolerable e ∧ Read e

variable {s : σ}

omit [Rounding] in
theorem wp_emit_read {f : Frame} (hA : ∀ e, A e → Read e) :
    (emit f).wp A s fun t r s' => t = [⟨.yield f, .ok ()⟩] ∧ r = .ok () ∧ s' = s := by
  rw [wp_emit_iff]
  intro r hr
  obtain rfl : r = .ok () := hA _ hr
  exact ⟨rfl, rfl, rfl⟩

section Tolerable

variable (hA : ∀ e, A e → Tolerable e)
include hA

omit [Rounding] in
theorem isException_of_sent {β : Type} {r : Sent β} {e : Ev} (he : A e) (h : raised e = r.raised)
    (x : Exc) (hx : r.toExcept = .error x) : x.isException = true := by
  refine hA e he x (.inl ?_)
  cases r with
  | ok v => cases hx
  | failed y a => rw [h, ← Except.error.inj hx]; rfl

omit [Rounding] in
theorem catchable_incrbyfloat {k : LedgerKey} {d : ℚ} : Catchable A (incrbyfloat k d : Py σ ℚ) := by
  intro s
  rw [wp_incrbyfloat_iff]
  exact fun r hr => ⟨rfl, isException_of_sent hA hr rfl⟩

omit [Rounding] in
theorem BudgetTracker.catchable_apply {hashKey : String → String} {apiKey : String} {d : ℚ} :
    Catchable A (BudgetTracker.apply hashKey apiKey d : Py σ ℚ) := by
  refine .bind (.bind (fun s now _ => ⟨rfl, nofun⟩) fun _ => .pure) fun k s => ?_
  rw [wp_incrbyfloatExpire_iff]
  exact fun r hr => ⟨rfl, isException_of_sent hA hr rfl⟩

omit [Rounding] in
theorem ProviderBudget.catchable_charge {capUsd d : ℚ} {provider : String} :
    Catchable A (do
      let total ← incrbyfloat (ProviderBudget.key provider) d
      ProviderBudget.publish capUsd provider total : Py σ Unit) :=
  .bind (catchable_incrbyfloat hA) fun _ => .ite .pure <| .bind catchable_metric fun _ =>
    catchable_metric

theorem ProviderBudget.catchable_settle {capUsd reservedUsd actualUsd : ℚ} {provider : String} :
    Catchable A (ProviderBudget.settle capUsd provider reservedUsd actualUsd : Py σ Unit) :=
  .bind (fun _ _ _ => ⟨rfl, nofun⟩) fun _ => .ite .pure <| .ite .pure <|
    ProviderBudget.catchable_charge hA

omit [Rounding] in
theorem ProviderBudget.catchable_recordUnreserved {capUsd actualUsd : ℚ} {provider : String} :
    Catchable A (ProviderBudget.recordUnreserved capUsd provider actualUsd : Py σ Unit) :=
  .bind (fun _ _ _ => ⟨rfl, nofun⟩) fun _ => .ite .pure <| ProviderBudget.catchable_charge hA

theorem BudgetTracker.catchable_settle {hashKey : String → String} {apiKey : String}
    {reservedUsd actualUsd : ℚ} :
    Catchable A (BudgetTracker.settle hashKey apiKey reservedUsd actualUsd : Py σ Unit) := by
  refine .bind (fun _ _ _ => ⟨rfl, nofun⟩) fun _ => .ite .pure <|
    .attemptElse (BudgetTracker.catchable_apply hA) (fun e c hc => ?_) fun _ => .pure
  obtain rfl := Option.some.inj hc
  exact .pure

/-- No cancellation reaches the loop, so it holds none. -/
theorem catchable_settleEach {servedProvider : String} {actualUsd : ℚ} (es : List (String × ℚ)) :
    Catchable A (settleEach settings servedProvider actualUsd es) := by
  induction es with
  | nil => exact .pure
  | cons e es ih =>
    refine .bind (.attempt (ProviderBudget.catchable_settle hA) fun e c hc => ?_) fun _ => ih
    obtain rfl := Option.some.inj hc
    exact .pure

omit [Rounding] in
theorem catchable_settleUnreserved {reservations : OrderedDict String ℚ} {servedProvider : String}
    {actualUsd : ℚ} :
    Catchable A (settleUnreserved settings reservations servedProvider actualUsd) := by
  refine .ite (.attempt (ProviderBudget.catchable_recordUnreserved hA) fun e c hc => ?_) .pure
  obtain rfl := Option.some.inj hc
  exact .pure

theorem catchable_settleProviders {reservations : OrderedDict String ℚ} {servedProvider : String}
    {actualUsd : ℚ} :
    Catchable A (settleProviders settings reservations servedProvider actualUsd : Py σ Unit) := by
  intro s
  rw [settleProviders, Coro.wp_scope, Coro.wp_bind]
  refine Coro.wp_mono (catchable_settleEach hA _ _) fun t r c _ h => ?_
  obtain ⟨rfl, hr⟩ := h
  cases r with
  | error x => exact ⟨rfl, hr⟩
  | ok u =>
    dsimp only
    rw [Coro.wp_bind]
    refine Coro.wp_mono (catchable_settleUnreserved hA _) fun t' r' c _ h => ?_
    obtain ⟨rfl, hr'⟩ := h
    cases r' with
    | error x => exact ⟨rfl, hr'⟩
    | ok u => exact ⟨rfl, by rintro _ ⟨⟩⟩

/-- A settlement raises nothing, whatever the metrics do. -/
theorem wp_settleChain_tolerable {apiKey servedProvider : String} {actualUsd : ℚ}
    {reservations : OrderedDict String ℚ} :
    (settleChain settings apiKey reservations servedProvider actualUsd).wp A s fun _ r s' =>
      r = .ok () ∧ s' = s := by
  have hcatch : (settleChain settings apiKey reservations servedProvider actualUsd).wp A s
      fun _ r _ => ∀ x, r = .error x → x.isException = true := by
    rw [settleChain, Coro.wp_bind, wp_log_iff]
    intro _
    dsimp only
    rw [Coro.wp_ensure]
    refine Coro.wp_mono (catchable_settleProviders hA s) fun t r s₁ _ h => ?_
    refine Coro.wp_mono (BudgetTracker.catchable_settle hA s₁) fun t' r' s₂ _ h' => ?_
    cases r' with
    | ok u => exact h.2
    | error x => exact h'.2
  refine Coro.wp_mono (Coro.wp_and calls_settleChain hcatch) fun t r s' _ h => ?_
  obtain ⟨⟨rfl, hr, -⟩, hexc⟩ := h
  cases r with
  | ok u => exact ⟨rfl, rfl⟩
  | error x =>
    cases x with
    | exception e => exact absurd rfl (hr e)
    | _ => cases hexc _ rfl

end Tolerable

omit [Rounding] in
/-- An audit log that fails by an `Exception` only does not raise. -/
theorem wp_recordAuditLog_tolerable {apiKey : String} {row : AuditFields}
    (hA : ∀ e, A e → Tolerable e) :
    (recordAuditLog settings apiKey row).wp A s fun _ r s' => r = .ok () ∧ s' = s := by
  refine Coro.wp_mono wp_recordAuditLog fun t r s' ht h => ?_
  obtain ⟨rfl, hr⟩ := h
  match r with
  | .ok () => exact ⟨rfl, rfl⟩
  | .error x =>
    obtain ⟨hx, hfalse⟩ := (hr x).mp rfl
    obtain ⟨e, he, hx⟩ := List.exists_of_findSome?_eq_some hx
    rw [hA e (ht e (List.mem_reverse.mp he)) x (.inr hx)] at hfalse
    cases hfalse

end

/-! ## An outage of the stores -/

/-- Redis and the database are down, and everything else works. -/
def outage : (c : Cmd) → Reply c
  | .get _ | .incrbyfloat _ _ | .incrbyfloatExpire _ _ _ =>
    .failed (.exception (.other "ConnectionError")) false
  | .openSession => .failed (.exception (.other "OperationalError")) false
  | c => calm c

theorem attended_outage (c : Cmd) : Attended ⟨c, outage c⟩ := by
  cases c <;> exact ⟨by simp [Tolerable, raised, auditRaised, Sent.raised, outage, calm,
    Exc.isException], by first | rfl | trivial⟩

end LlmGateway
