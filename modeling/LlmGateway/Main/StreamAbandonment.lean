import LlmGateway.Main.StreamRun
import LlmGateway.Gateway.Redis

/-!
# Reservations a stream abandons

A stream reaches `_settle_chain` however it ends, with three exceptions: it is closed before it has
started, the input tokens of the last chunk marked done are not a number, and, on the native
endpoint only, the write to the audit log that comes before the settlement in the clause for
`AllProvidersFailedError` is cancelled.
-/

namespace LlmGateway

open Coroutine

variable {σ : Type} {settings : Settings} {q : RequestArgs} {A : Ev → Prop} {stream : RouterStream}

/-! ## What the endpoints differ in -/

theorem wp_absorb {chunk : StreamChunk} {s : StreamLocals} :
    (absorb chunk).wp A s fun t r s' => t = [] ∧
      s' = { s with toUsage := s.toUsage.absorb chunk } ∧ r ≠ .error .interrupt := by
  rw [absorb, Coro.wp_ite]
  refine ⟨fun _ => ⟨rfl, rfl, nofun⟩, fun hdone => ?_⟩
  rw [Coro.wp_bind, Coro.wp_ofExcept]
  cases hlen : chunk.content.len with
  | error x =>
    refine ⟨rfl, ?_, ?_⟩
    · simp [Usage.absorb, hdone, hlen]
    · rw [PyVal.len_error hlen]
      nofun
  | ok n => exact Coro.wp_update.mpr ⟨rfl, rfl, nofun⟩

theorem halted_emit {f : Frame} {r : Except Exc Unit} (h : r = .error .interrupt) :
    Halted [⟨.yield f, r⟩] :=
  ⟨_, .head _, by rw [h]; rfl⟩

theorem only_absorb {B : Cmd → Prop} {chunk : StreamChunk} : (absorb chunk).Only B :=
  .ite (fun _ => .update) fun _ => .bind .ofExcept fun _ => .update

theorem only_relayChunk {B : Cmd → Prop} {chunk : StreamChunk} (h : B (.yield (.chunk chunk))) :
    (relayChunk chunk).Only B :=
  .bind only_absorb fun _ => only_emit h

theorem only_relayDelta {B : Cmd → Prop} {completionId : String} {created : ℤ} {chunk : StreamChunk}
    (hrole : ∀ model, B (.yield (.role completionId created model)))
    (hcontent : ∀ model, B (.yield (.content completionId created model chunk.content))) :
    (relayDelta q completionId created chunk).Only B := by
  refine .bind only_absorb fun _ => .ite (fun _ => .pure) fun _ => .bind .locals fun s => ?_
  exact .ite (fun _ => .bind (only_emit (hrole _)) fun _ => .bind .update fun _ =>
    only_emit (hcontent _)) fun _ => only_emit (hcontent _)

/-- What hands on a chunk after taking it in has only to leave the usage alone. -/
theorem wp_absorb_then {chunk : StreamChunk} {s : StreamLocals} {f : Unit → Py StreamLocals Unit}
    (hf : ∀ s, (f ()).wp A s fun t r s' =>
      s'.toUsage = s.toUsage ∧ s'.settled = s.settled ∧ (r = .error .interrupt → Halted t)) :
    (absorb chunk >>= f).wp A s fun t r s' => s'.toUsage = s.toUsage.absorb chunk ∧
      s'.settled = s.settled ∧ (r = .error .interrupt → Halted t) := by
  rw [Coro.wp_bind]
  refine Coro.wp_mono wp_absorb fun t r s₁ _ h => ?_
  obtain ⟨rfl, rfl, hr⟩ := h
  cases r with
  | error x => exact ⟨rfl, rfl, fun h => absurd (congrArg _ (Except.error.inj h)) hr⟩
  | ok u => exact hf _

theorem delivers_relayChunk : Delivers A relayChunk where
  usage c s := by
    refine wp_absorb_then fun s₁ => ?_
    rw [wp_emit_iff]
    exact fun r _ => ⟨rfl, rfl, halted_emit⟩
  only c := only_relayChunk trivial

/-- Handing on the content of a chunk, after the role if it is the first. -/
theorem delivers_relayDelta {completionId : String} {created : ℤ} :
    Delivers A (relayDelta q completionId created) where
  usage c s := by
    refine wp_absorb_then fun s₁ => ?_
    rw [Coro.wp_ite]
    refine ⟨fun _ => ⟨rfl, rfl, by rintro ⟨⟩⟩, fun _ => ?_⟩
    rw [Coro.wp_bind, Coro.wp_locals]
    dsimp only
    rw [Coro.wp_ite]
    refine ⟨fun _ => ?_, fun _ => ?_⟩
    · rw [Coro.wp_bind, wp_emit_iff]
      rintro (x | ⟨⟩) _
      · exact ⟨rfl, rfl, halted_emit⟩
      · dsimp only
        rw [Coro.wp_bind, Coro.wp_update]
        dsimp only
        rw [wp_emit_iff]
        exact fun r _ => ⟨rfl, rfl, fun h => Halted.mono (halted_emit h) (List.subset_cons_self _ _)⟩
    · rw [wp_emit_iff]
      exact fun r _ => ⟨rfl, rfl, halted_emit⟩
  only c := only_relayDelta (fun _ => trivial) fun _ => trivial

section

variable [Rounding]

theorem clauses_native :
    Clauses True settings q A relayChunk (onAllFailed settings q) (pure ()) where
  delivers := delivers_relayChunk
  failed s := by
    refine wp_metric_bind_outcome ?_
    rw [Coro.wp_bind]
    refine Coro.wp_mono (Coro.wp_and wp_recordAuditLog
      (only_recordAuditLog fun _ h => h.unrecorded).wp) fun t r s₁ _ h => ?_
    obtain ⟨⟨rfl, hr⟩, honly⟩ := h
    have hcalls : calls t = [] := calls_of_unrecorded honly
    match r with
    -- only what is not an `Exception` leaves the audit log, and no sibling clause catches it
    | .error x =>
      obtain ⟨hx, hfalse⟩ := (hr x).mp rfl
      exact .cut trivial hcalls ⟨x, by rwa [beforeSettlement_of_nil hcalls], hfalse⟩
    | .ok () =>
      have hharmless : ∀ x, auditRaise t = some x → x.isException = true := by
        intro x hx
        by_contra hfalse
        have herr := (hr x).mpr ⟨hx, by simpa using hfalse⟩
        cases herr
      refine Coro.wp_mono (wp_bind_plain_outcome (C := True) wp_abortStream fun _ =>
        only_emit ⟨trivial, id⟩) fun t' r' s' _ h => ?_
      exact h.prepend_audit hcalls hharmless
  failed_only := .bind (only_metric trivial) fun _ =>
    .bind (only_recordAuditLog fun _ h => h.unfed) fun _ =>
      .bind (only_abortStream.mono fun _ h => h.unfed) fun _ => only_emit trivial
  frame _ := rfl
  closing_only := .pure

theorem clauses_openai {completionId : String} {created : ℤ} :
    Clauses False settings q A (relayDelta q completionId created) (onAllFailedOpenai settings q)
      (relayFinish completionId created) where
  delivers := delivers_relayDelta
  failed _ := wp_metric_bind_outcome <| wp_bind_plain_outcome wp_abortStream fun _ =>
    only_emit ⟨trivial, id⟩
  failed_only := .bind (only_metric trivial) fun _ =>
    .bind (only_abortStream.mono fun _ h => h.unfed) fun _ => only_emit trivial
  frame _ := fun _ _ => rfl
  closing_only := .bind .locals fun _ => only_emit trivial

/-! ## The endpoints -/

/-- The first `__anext__` came before the generator was closed. -/
def Started : List Ev → Prop
  | ⟨.start, b⟩ :: _ => b = true
  | _ => False

omit [Rounding] in
theorem wp_start_iff {s : σ} {Q : List Ev → Except Exc Bool → σ → Prop} :
    (ask .start : Py σ Bool).wp A s Q ↔
      ∀ b : Bool, A ⟨.start, b⟩ → Q [⟨.start, b⟩] (.ok b) s := Iff.rfl

omit [Rounding] in
theorem wp_whenStarted {C : Prop} {body : Py StreamLocals Unit} {s : StreamLocals}
    (h : body.wp A s fun t _ _ => Ended C q t) :
    (whenStarted body).wp A s fun t _ _ =>
      (¬ Started t ∧ calls t = []) ∨ (Started t ∧ Ended C q t) := by
  rw [whenStarted, Coro.wp_bind, wp_start_iff]
  rintro (_ | _) _
  · exact .inl ⟨Bool.false_ne_true, rfl⟩
  · dsimp only
    rw [if_pos rfl]
    refine Coro.wp_mono h fun t r s' _ ht => .inr ⟨rfl, ?_⟩
    rcases ht with ⟨hhalt, hnil⟩ | hout
    · exact .inl ⟨hhalt.mono (List.subset_cons_self _ _), by simpa [calls_cons, call?] using hnil⟩
    · exact .inr (Outcome.prepend (t := [⟨.start, true⟩]) hout rfl
        (by simp [Unaudited, Cmd.Auditing]))

/-- The endpoint writes to the audit log before it settles a stream all providers failed. -/
def Endpoint.AuditsFirst : Endpoint → Prop
  | .native => True
  | .openai _ _ => False

/-- A stream is not started and settles nothing, or ends in an outcome for the usage of its chunks.
-/
theorem wp_endpoint (endpoint : Endpoint) :
    (endpoint.run settings q stream).wp A {} fun t _ _ =>
      (¬ Started t ∧ calls t = []) ∨ (Started t ∧ Ended endpoint.AuditsFirst q t) := by
  cases endpoint with
  | native => exact wp_whenStarted (wp_generator clauses_native)
  | openai completionId created => exact wp_whenStarted (wp_generator clauses_openai)

/-- A run of a stream endpoint reaches `_settle_chain` for its reservations exactly when it started,
the chunks it received can be priced, and the endpoint does not first write to the audit log and is
interrupted there. -/
theorem stream_settled_iff {endpoint : Endpoint} {t : List Ev} {r : Except Exc Unit}
    {s' : StreamLocals} (hrun : Coro.Runs (endpoint.run settings q stream) {} t r s')
    (hA : ∀ e ∈ t, Healthy e) (hhalt : ¬ Halted t) :
    Settled q.apiKey q.reservations t ↔
      Started t ∧ (usageOf t).Priceable ∧ ¬ (endpoint.AuditsFirst ∧ AuditCut t) := by
  rcases (wp_endpoint endpoint).apply hrun hA with ⟨hstart, hnil⟩ | ⟨hstart, hended⟩
  · exact iff_of_false (not_settled_of_nil hnil) fun h => hstart h.1
  · have hout := hended.resolve_left fun h => hhalt h.1
    rw [hout.settled_iff hA, and_iff_right hstart]

end

/-! ## Streams that are not settled -/

/-- A stream holding one reservation. -/
def heldStream : RequestArgs where
  apiKey := "k"
  requestedModel := "default"
  requestId := "r"
  reservations := OrderedDict.empty.addTo "openai" (1 / 100)

/-- Its run when the ledgers work and everything else is answered by `other`. -/
def streamed (other : (c : Cmd) → Reply c) (endpoint : Endpoint) (stream : RouterStream) :
    List Ev × (Except Exc Unit × StreamLocals) × Ledgers :=
  Prog.drive (answer other) (endpoint.run { hashKey := id } heldStream stream {}) fun _ => 0

/-- The client is gone before the first frame is asked for. -/
def closedEarly : (c : Cmd) → Reply c
  | .start => false
  | c => calm c

/-- The write to the audit log is cancelled. -/
def auditCancelled : (c : Cmd) → Reply c
  | .openSession => .failed .cancelled false
  | c => calm c

/-- Ollama reports `null` for the tokens of the prompt. -/
def uncountedStream : RouterStream where
  chunks := [⟨.str "hi", false, .int 0, .int 0, "ollama", "llama3"⟩,
    ⟨.str "", true, .none, .int 1, "ollama", "llama3"⟩]

/-- OpenAI reports more tokens for the prompt than a `float` can hold. -/
def endlessStream : RouterStream where
  chunks := [⟨.str "hi", false, .int 0, .int 0, "openai", "gpt-4o-mini"⟩,
    ⟨.str "", true, .int (10 ^ 200 * 10 ^ 200), .int 1, "openai", "gpt-4o-mini"⟩]

/-- A provider dies after its first chunk. -/
def brokenStream : RouterStream where
  chunks := [⟨.str "hi", false, .int 0, .int 0, "openai", "gpt-4o-mini"⟩]
  ending := some (.allProvidersFailed "openai failed mid-stream")

section Streamed

variable {other : (c : Cmd) → Reply c} {endpoint : Endpoint}

theorem runs_streamed : Coro.Runs (endpoint.run { hashKey := id } heldStream stream) {}
    (streamed other endpoint stream).1 (streamed other endpoint stream).2.1.1
    (streamed other endpoint stream).2.1.2 :=
  Prog.returns_drive _ _ _

theorem forall_streamed (h : ∀ L c, A ⟨c, (answer other L c).1⟩) :
    ∀ e ∈ (streamed other endpoint stream).1, A e :=
  (Pool.evolves_drive (redis_answer h) _ _).forall_mem redis_admits

end Streamed

theorem stream_settled_iff_calm :
    Settled "k" heldStream.reservations (streamed calm .native brokenStream).1 ↔
      Started (streamed calm .native brokenStream).1 ∧
        (usageOf (streamed calm .native brokenStream).1).Priceable ∧
        ¬ (Endpoint.native.AuditsFirst ∧ AuditCut (streamed calm .native brokenStream).1) :=
  stream_settled_iff (q := heldStream) runs_streamed
    (forall_streamed fun L c => by cases c <;> trivial) (by decide +kernel)

/-- When everything but the ledgers is answered by `other`, the stream leaves without a settlement.
-/
structure Unsettled (other : (c : Cmd) → Reply c) (endpoint : Endpoint) (stream : RouterStream) :
    Prop where
  run : Coro.Runs (endpoint.run { hashKey := id } heldStream stream) {}
    (streamed other endpoint stream).1 (streamed other endpoint stream).2.1.1
    (streamed other endpoint stream).2.1.2
  healthy : ∀ e ∈ (streamed other endpoint stream).1, Healthy e
  running : ¬ Halted (streamed other endpoint stream).1
  unsettled : ¬ Settled "k" heldStream.reservations (streamed other endpoint stream).1

theorem unsettled_of_isEmpty {other : (c : Cmd) → Reply c} {endpoint : Endpoint}
    (hother : ∀ L c, Healthy ⟨c, (answer other L c).1⟩)
    (hrunning : ¬ Halted (streamed other endpoint stream).1)
    (hcalls : (calls (streamed other endpoint stream).1).isEmpty) :
    Unsettled other endpoint stream where
  run := runs_streamed
  healthy := forall_streamed hother
  running := hrunning
  unsettled := not_settled_of_nil (List.isEmpty_iff.mp hcalls)

/-- A stream that is closed before it starts, two whose done chunk cannot be priced, and one whose
failure is cancelled while it is written to the audit log. -/
theorem stream_abandoned :
    Unsettled closedEarly (.openai "id" 0) brokenStream ∧
      Unsettled calm (.openai "id" 0) uncountedStream ∧ Unsettled calm .native endlessStream ∧
      Unsettled auditCancelled .native brokenStream := by
  refine ⟨unsettled_of_isEmpty (fun L c => ?_) ?_ ?_, unsettled_of_isEmpty (fun L c => ?_) ?_ ?_,
    unsettled_of_isEmpty (fun L c => ?_) ?_ ?_, unsettled_of_isEmpty (fun L c => ?_) ?_ ?_⟩
  · cases c <;> trivial
  · decide +kernel
  · decide +kernel
  · cases c <;> trivial
  · decide +kernel
  · decide +kernel
  · cases c <;> trivial
  · decide +kernel
  · decide +kernel
  · cases c <;> trivial
  · decide +kernel
  · decide +kernel

end LlmGateway
