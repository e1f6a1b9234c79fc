import LlmGateway.Main.StreamPhases
import LlmGateway.Coroutine.Simulation

/-!
# The stream endpoints keep the same books

The loops of the two generators are written out twice. For a client that reads to the end they
differ only in the frames they send and in a write to the audit log, so that under every pattern of
failures they settle, charge and count the same.
-/

namespace LlmGateway

open Coroutine

variable {settings : Settings} {q : RequestArgs} {stream : RouterStream} {completionId : String}
  {created : ℤ}

/-! ## What the endpoints may differ in -/

/-- Any command but handing on a frame and those of the audit log. -/
def booked : Cmd → Bool
  | .yield _ | .openSession | .selectTeam _ | .commitAudit _ | .closeSession => false
  | _ => true

/-- The locals agree on the spend. The role frame has been sent or not. -/
def SameSpend (s s' : StreamLocals) : Prop :=
  s.toUsage = s'.toUsage ∧ s.settled = s'.settled

/-- Two bodies that book the same for a client that reads to the end. -/
abbrev SameBooks {σ τ α : Type} (S : σ → τ → Prop) (m : Py σ α) (m' : Py τ α) : Prop :=
  Coro.Similar Attended (booked ·) S m m'

theorem Cmd.Auditing.not_booked {c : Cmd} (h : c.Auditing) : ¬ booked c = true := by
  cases c <;> first | exact Bool.false_ne_true | exact h.elim

theorem Cmd.Yielding.not_booked {c : Cmd} (h : c.Yielding) : ¬ booked c = true := by
  cases c <;> first | exact Bool.false_ne_true | exact h.elim

section Statements

variable {σ τ : Type} {S : σ → τ → Prop} {provider model apiKey : String}
  {inputTokens outputTokens : PyVal} {streamedChars : ℕ} {cost : ℚ} {row : AuditFields}
  {reservations : OrderedDict String ℚ}

theorem sameBooks_metric {m : Metric} : SameBooks S (metric m) (metric m) :=
  .bind .perform fun _ => .ofExcept

theorem sameBooks_pricing : SameBooks S pricing pricing := .bind .perform fun _ => .ofExcept

theorem sameBooks_throw {α : Type} {e : PyError} : SameBooks (α := α) S (throw e) (throw e) :=
  .raise

theorem sameBooks_anext {next : Upcoming} : SameBooks S (anext next) (anext next) :=
  .bind .perform fun _ => .ofExcept

theorem sameBooks_tryExcept {α : Type} {m : Py σ α} {m' : Py τ α} {h : PyError → Py σ α}
    {h' : PyError → Py τ α} (hm : SameBooks S m m') (hh : ∀ e, SameBooks S (h e) (h' e)) :
    SameBooks S (tryExcept m h) (tryExcept m' h') := by
  refine .attempt hm fun x => ?_
  cases x with
  | exception e => exact .some (hh e)
  | _ => exact .none

/-- Frames and the audit log are not among the books. -/
theorem sameBooks_emit {f f' : Frame} : SameBooks S (emit f) (emit f') := by
  refine .silent (only_emit (Cmd.Yielding.not_booked trivial))
    (only_emit (Cmd.Yielding.not_booked trivial)) fun s s' hs => ?_
  refine Coro.wp_mono (wp_emit_read fun _ h => h.2) fun _ r u _ h => ?_
  refine Coro.wp_mono (wp_emit_read fun _ h => h.2) fun _ r' u' _ h' => ?_
  obtain ⟨-, rfl, rfl⟩ := h
  obtain ⟨-, rfl, rfl⟩ := h'
  exact ⟨rfl, hs⟩

theorem sameBooks_recordAuditLog :
    SameBooks S (recordAuditLog settings apiKey row) (pure () : Py τ Unit) := by
  refine .silent (only_recordAuditLog fun _ h => h.not_booked) .pure fun s s' hs => ?_
  refine Coro.wp_mono (wp_recordAuditLog_tolerable fun _ h => h.1) fun _ r u _ h => ?_
  obtain ⟨rfl, rfl⟩ := h
  exact ⟨rfl, hs⟩

theorem sameBooks_recordAuditLog_both : SameBooks S (recordAuditLog settings apiKey row)
    (recordAuditLog settings apiKey row) := by
  refine .silent (only_recordAuditLog fun _ h => h.not_booked)
    (only_recordAuditLog fun _ h => h.not_booked) fun s s' hs => ?_
  refine Coro.wp_mono (wp_recordAuditLog_tolerable fun _ h => h.1) fun _ r u _ h => ?_
  refine Coro.wp_mono (wp_recordAuditLog_tolerable fun _ h => h.1) fun _ r' u' _ h' => ?_
  obtain ⟨rfl, rfl⟩ := h
  obtain ⟨rfl, rfl⟩ := h'
  exact ⟨rfl, hs⟩

theorem sameBooks_trackerSettle {reservedUsd : ℚ} :
    SameBooks S (BudgetTracker.settle settings.hashKey apiKey reservedUsd cost)
      (BudgetTracker.settle settings.hashKey apiKey reservedUsd cost) := by
  refine .bind .perform fun _ => .ite (fun _ => .pure) fun _ => .attemptElse ?_ (fun x => ?_)
    fun _ => .pure
  · exact .bind (.bind .perform fun _ => .pure) fun _ => .bind .perform fun _ => .ofExcept
  · cases x with
    | exception e => exact .some .pure
    | _ => exact .none

theorem sameBooks_settleChain : SameBooks S (settleChain settings apiKey reservations provider cost)
    (settleChain settings apiKey reservations provider cost) :=
  .bind .perform fun _ => .ensure .scope sameBooks_trackerSettle

theorem sameBooks_estimateCost :
    SameBooks S (estimateCost settings provider model inputTokens outputTokens)
      (estimateCost settings provider model inputTokens outputTokens) :=
  .bind sameBooks_pricing fun _ => .ofExcept

theorem sameBooks_incTokens {direction : String} {amount : PyVal} :
    SameBooks S (incTokens provider model direction amount)
      (incTokens provider model direction amount) := by
  unfold incTokens
  split
  · exact sameBooks_throw
  · exact .ite (fun _ => sameBooks_throw) fun _ => sameBooks_metric

theorem sameBooks_recordUsage :
    SameBooks S (recordUsage provider model inputTokens outputTokens cost)
      (recordUsage provider model inputTokens outputTokens cost) :=
  .ite (fun _ => .pure) fun _ =>
    .bind (.ite (fun _ => sameBooks_throw) fun _ => sameBooks_metric) fun _ =>
      .bind sameBooks_incTokens fun _ => sameBooks_incTokens

theorem sameBooks_settleStreamOnAbort :
    SameBooks S (settleStreamOnAbort settings q provider model inputTokens streamedChars)
      (settleStreamOnAbort settings q provider model inputTokens streamedChars) :=
  .ite (fun _ => sameBooks_settleChain) fun _ => .bind sameBooks_estimateCost fun _ =>
    .bind sameBooks_settleChain fun _ => .bind sameBooks_recordUsage fun _ =>
      sameBooks_recordAuditLog_both

theorem sameBooks_settleStreamSpend :
    SameBooks S (settleStreamSpend settings q provider model inputTokens outputTokens)
      (settleStreamSpend settings q provider model inputTokens outputTokens) := by
  refine .bind (.ite (fun _ => .pure) fun _ => ?_) fun _ =>
    .bind sameBooks_settleChain fun _ => .pure
  exact .bind sameBooks_estimateCost fun _ => .bind sameBooks_recordUsage fun _ => .pure

end Statements

/-! ## The phases -/

theorem sameBooks_abortStream : SameBooks SameSpend (abortStream settings q) (abortStream settings q) :=
  .locals_bind fun s s' hs => by
    rw [hs.1]
    exact sameBooks_settleStreamOnAbort

theorem sameBooks_tryAbortStream :
    SameBooks SameSpend (tryAbortStream settings q) (tryAbortStream settings q) :=
  .locals_bind fun s s' hs => by
    rw [hs.1]
    exact sameBooks_tryExcept sameBooks_settleStreamOnAbort fun _ => .pure

theorem sameBooks_onDisconnect {α : Type} {x : Exc} :
    SameBooks (α := α) SameSpend (onDisconnect settings q x) (onDisconnect settings q x) :=
  .bind sameBooks_metric fun _ => .bind sameBooks_abortStream fun _ => .raise

theorem sameBooks_onUnexpected :
    SameBooks SameSpend (onUnexpected settings q) (onUnexpected settings q) :=
  .bind sameBooks_metric fun _ => .bind sameBooks_metric fun _ =>
    .bind sameBooks_tryAbortStream fun _ => sameBooks_emit

theorem sameBooks_onUnbooked :
    SameBooks SameSpend (onUnbooked settings q) (onUnbooked settings q) := by
  have hrest : SameBooks SameSpend
      (do
        metric (.requestCount "error")
        emit (streamErrorFrame q.requestId)
        pure false)
      (do
        metric (.requestCount "error")
        emit (streamErrorFrame q.requestId)
        pure false) :=
    .bind sameBooks_metric fun _ => .bind sameBooks_emit fun _ => .pure
  refine .bind sameBooks_metric fun _ => .locals_bind fun s s' hs => ?_
  rw [hs.2]
  exact .ite (fun _ => hrest) fun _ => .bind sameBooks_tryAbortStream fun _ => hrest

/-- The clauses for `AllProvidersFailedError` differ in the audit log and the frame. -/
theorem sameBooks_onAllFailed :
    SameBooks SameSpend (onAllFailed settings q) (onAllFailedOpenai settings q) := by
  refine .bind sameBooks_metric fun _ => ?_
  have hrest : SameBooks SameSpend
      (do
        abortStream settings q
        emit (.errorEvent "all providers failed" q.requestId))
      (do
        abortStream settings q
        emit (.errorObject "all providers failed" q.requestId)) :=
    .bind sameBooks_abortStream fun _ => sameBooks_emit
  -- only one of the two writes to the audit log: the other begins with nothing at all
  show SameBooks SameSpend _ ((pure () : Py StreamLocals Unit) >>= fun _ => do
    abortStream settings q
    emit (.errorObject "all providers failed" q.requestId))
  exact .bind sameBooks_recordAuditLog fun _ => hrest

/-- The role and the content of a chunk, against the chunk as it is. -/
theorem sameBooks_relay (c : StreamChunk) :
    SameBooks SameSpend (relayChunk c) (relayDelta q completionId created c) := by
  have habsorb : SameBooks SameSpend (absorb c) (absorb c) := by
    refine .ite (fun _ => .update ?_) fun _ => .bind .ofExcept fun _ => .update ?_ <;>
      exact fun s s' hs => ⟨by rw [hs.1], hs.2⟩
  refine .bind habsorb fun _ => .silent (only_emit (Cmd.Yielding.not_booked trivial)) ?_ ?_
  · refine .ite (fun _ => .pure) fun _ => .bind .locals fun s => ?_
    have hcontent : ∀ {f : Frame}, (emit f : Py StreamLocals Unit).Only
        fun c => ¬ booked c = true := only_emit (Cmd.Yielding.not_booked trivial)
    exact .ite (fun _ => .bind hcontent fun _ => .bind .update fun _ => hcontent) fun _ => hcontent
  · intro s s' hs
    refine Coro.wp_mono (wp_emit_read fun _ h => h.2) fun _ r u _ h => ?_
    obtain ⟨-, rfl, rfl⟩ := h
    have hread : ∀ (f : Frame) (s : StreamLocals), (emit f).wp Attended s
        fun t r s' => t = [⟨.yield f, .ok ()⟩] ∧ r = .ok () ∧ s' = s :=
      fun _ _ => wp_emit_read fun _ h => h.2
    rw [Coro.wp_ite]
    refine ⟨fun _ => ⟨rfl, hs⟩, fun _ => ?_⟩
    rw [Coro.wp_bind, Coro.wp_locals]
    dsimp only
    rw [Coro.wp_ite]
    refine ⟨fun _ => ?_, fun _ => ?_⟩
    · rw [Coro.wp_bind]
      refine Coro.wp_mono (hread _ _) fun _ r' u' _ h' => ?_
      obtain ⟨-, rfl, rfl⟩ := h'
      dsimp only
      rw [Coro.wp_bind, Coro.wp_update]
      refine Coro.wp_mono (hread _ _) fun _ r' u' _ h' => ?_
      obtain ⟨-, rfl, rfl⟩ := h'
      exact ⟨rfl, hs⟩
    · refine Coro.wp_mono (hread _ _) fun _ r' u' _ h' => ?_
      obtain ⟨-, rfl, rfl⟩ := h'
      exact ⟨rfl, hs⟩

theorem sameBooks_forChunks {deliver deliver' : StreamChunk → Py StreamLocals Unit}
    (h : ∀ c, SameBooks SameSpend (deliver c) (deliver' c)) (ending : Option PyError)
    (chunks : List StreamChunk) :
    SameBooks SameSpend (forChunks deliver ending chunks)
      (forChunks deliver' ending chunks) := by
  induction chunks with
  | nil =>
    unfold forChunks
    cases ending with
    | none => exact sameBooks_anext
    | some e => exact .bind sameBooks_anext fun _ => sameBooks_throw
  | cons c rest ih => exact .bind sameBooks_anext fun _ => .bind (h c) fun _ => ih

theorem sameBooks_guardedLoop {deliver deliver' : StreamChunk → Py StreamLocals Unit}
    {allFailed allFailed' : Py StreamLocals Unit}
    (h : ∀ c, SameBooks SameSpend (deliver c) (deliver' c))
    (hfailed : SameBooks SameSpend allFailed allFailed') :
    SameBooks SameSpend (guardedLoop settings q deliver allFailed stream)
      (guardedLoop settings q deliver' allFailed' stream) := by
  rw [guardedLoop_eq, guardedLoop_eq]
  refine .ensure (.attempt (.bind (sameBooks_forChunks h _ _) fun _ => .pure) fun x => ?_)
    sameBooks_metric
  cases x with
  | generatorExit | cancelled => exact .some sameBooks_onDisconnect
  | interrupt => exact .none
  | exception e =>
    cases e with
    | allProvidersFailed m => exact .some (.bind hfailed fun _ => .pure)
    | _ => exact .some (.bind sameBooks_onUnexpected fun _ => .pure)

theorem sameBooks_bookkeeping {closing closing' : Py StreamLocals Unit}
    (h : SameBooks SameSpend closing closing') :
    SameBooks SameSpend (bookkeeping settings q closing)
      (bookkeeping settings q closing') := by
  refine .attempt (.locals_bind fun s s' hs => ?_) fun x => ?_
  · rw [hs.1]
    refine .bind sameBooks_settleStreamSpend fun _ =>
      .bind (.update fun _ _ h => ⟨h.1, rfl⟩) fun _ => ?_
    exact .bind sameBooks_recordAuditLog_both fun _ => .bind h fun _ => .pure
  · cases x with
    | exception e => exact .some sameBooks_onUnbooked
    | _ => exact .none

/-- The generators keep the same books. -/
theorem sameBooks_endpoints :
    SameBooks SameSpend (eventStream settings q stream)
      (openaiEventStream settings q completionId created stream) := by
  have hclosing : SameBooks SameSpend (pure ()) (relayFinish completionId created) := by
    refine .silent .pure (.bind .locals fun _ => only_emit (Cmd.Yielding.not_booked trivial)) ?_
    intro s s' hs
    refine Coro.wp_pure.mpr ?_
    rw [relayFinish, Coro.wp_bind, Coro.wp_locals]
    refine Coro.wp_mono (wp_emit_read fun _ h => h.2) fun _ r u _ h => ?_
    obtain ⟨-, rfl, rfl⟩ := h
    exact ⟨rfl, hs⟩
  refine .bind .perform fun started => .ite (fun _ => ?_) fun _ => .pure
  refine .bind (sameBooks_guardedLoop sameBooks_relay sameBooks_onAllFailed) fun completed =>
    .ite (fun _ => ?_) fun _ => .pure
  refine .bind (sameBooks_bookkeeping hclosing) fun b => .ite (fun _ => ?_) fun _ => .pure
  exact .bind sameBooks_metric fun _ => sameBooks_emit

/-- Whatever the pattern of failures, an observer that answers both endpoints from what it has seen
of their bookkeeping has seen the same of both: the same settlements and charges with the same
arguments, the same increments of every metric, and the same commands to Redis, in the same order.
-/
theorem endpoints_agree {reply : List Ev → (c : Cmd) → Reply c}
    (hA : ∀ seen c, Attended ⟨c, reply seen c⟩) :
    Prog.observe (booked ·) reply (eventStream settings q stream {})
      = Prog.observe (booked ·) reply (openaiEventStream settings q completionId created stream {}) :=
  (sameBooks_endpoints {} {} ⟨rfl, rfl⟩).observe hA

theorem endpoints_agree_outage :
    Prog.observe (booked ·) (fun _ => outage) (eventStream { hashKey := id } heldStream brokenStream {})
      = Prog.observe (booked ·) (fun _ => outage)
        (openaiEventStream { hashKey := id } heldStream "id" 0 brokenStream {}) :=
  endpoints_agree fun _ => attended_outage

end LlmGateway
