import LlmGateway.Main.EventStream
import LlmGateway.Main.Outcome

/-!
# The runs of the stream endpoints

The loop settles nothing and leaves the usage at what its chunks add up to. Every way out of it ends
in one `Outcome` for that usage, and so does the bookkeeping after it.
-/

namespace LlmGateway

open Coroutine

variable [Rounding] {σ : Type} {settings : Settings} {q : RequestArgs} {A : Ev → Prop} {C : Prop}

/-- What the chunks of a trace add up to. -/
def usageOf (t : List Ev) : Usage := (received t).foldl Usage.absorb {}

/-- Settling an unfinished stream can price it. -/
def Usage.Priceable (u : Usage) : Prop := u.finalProvider = "" ∨ u.inputTokens.IsNumber

/-! ## Settling -/

section Settle

variable {s : σ} {provider model : String} {inputTokens outputTokens : PyVal} {streamedChars : ℕ}
  {P : Prop}

/-- Pricing comes before a settlement, and its failure keeps it from happening. -/
theorem wp_estimateCost_bind {α : Type} {f : ℚ → Py σ α}
    (hok : ∀ cost, estimateCostUsd settings.pricing provider model inputTokens outputTokens
      = .ok cost → (f cost).wp A s fun t _ _ => Outcome C q.apiKey q.reservations P t)
    (herr : ∀ x, estimateCostUsd settings.pricing provider model inputTokens outputTokens
      = .error x → ¬ P) :
    (estimateCost settings provider model inputTokens outputTokens >>= f).wp A s
      fun t _ _ => Outcome C q.apiKey q.reservations P t := by
  rw [Coro.wp_bind, estimateCost, Coro.wp_bind, wp_pricing_iff]
  rintro (e | ⟨⟩) _
  · exact .of_unhealthy rfl (by simp [Unaudited, Cmd.Auditing]) fun h => by cases h _ (.head _)
  dsimp only [Except.mapError]
  rw [Coro.wp_ofExcept]
  have hu : Unaudited [⟨.pricing, .ok ()⟩] := by simp [Unaudited, Cmd.Auditing]
  split
  · next cost hcost =>
    exact Coro.wp_mono (hok cost hcost) fun t r s' _ ht => by simpa using ht.prepend rfl hu
  · next x hx => exact .unpriced rfl (fun _ => herr x hx) hu.not_cut

/-- A stream that ends early is settled, if what it has used can be priced. -/
theorem wp_settleStreamOnAbort :
    (settleStreamOnAbort settings q provider model inputTokens streamedChars).wp A s
      fun t _ _ => Outcome C q.apiKey q.reservations (provider = "" ∨ inputTokens.IsNumber) t := by
  rw [settleStreamOnAbort, Coro.wp_ite]
  refine ⟨fun h => ?_, fun h => ?_⟩
  · exact Coro.wp_mono wp_settleChain_once fun t r s' _ ht => .settled (.inl h) ht.2.2.1 ht.2.2.2
  · refine wp_estimateCost_bind (fun cost hcost => ?_) fun x hx hP => ?_
    · have hnum : inputTokens.IsNumber := (isNumber_of_estimateCostUsd hcost).1
      refine Coro.wp_mono (wp_settleChain_bind ?_) fun t r s' _ ht => .settled (.inr hnum) ht.1 ht.2
      exact .bind (only_recordUsage fun _ => trivial) fun _ =>
        only_recordAuditLog fun _ h => h.unrecorded
    · exact estimateCostUsd_error_iff.mp ⟨x, hx⟩ ⟨hP.resolve_left h, rfl⟩

theorem wp_trySettleStreamOnAbort :
    (trySettleStreamOnAbort settings q provider model inputTokens streamedChars).wp A s
      fun t _ _ => Outcome C q.apiKey q.reservations (provider = "" ∨ inputTokens.IsNumber) t :=
  wp_tryPass wp_settleStreamOnAbort (fun _ _ h => h) (fun _ _ _ h => h) fun _ _ _ h _ => h

theorem only_priceStream {B : Cmd → Prop} (hp : B .pricing) (hm : ∀ m, B (.metric m)) :
    (priceStream settings provider model inputTokens outputTokens : Py σ ℚ).Only B :=
  .ite (fun _ => .pure) fun _ => .bind (.bind (only_pricing hp) fun _ => .ofExcept) fun _ =>
    .bind (only_recordUsage hm) fun _ => .pure

theorem quiet_priceStream :
    (priceStream settings provider model inputTokens outputTokens : Py σ ℚ).Only Cmd.Quiet :=
  .ite (fun _ => .pure) fun _ => .bind (.bind (only_pricing trivial) fun _ => .ofExcept) fun _ =>
    .bind (only_recordUsage_publishing.mono fun _ h => h.quiet) fun _ => .pure

/-- Pricing a finished stream writes nothing to the audit log and raises nothing but an
`Exception`. -/
theorem wp_priceStream :
    (priceStream settings provider model inputTokens outputTokens).wp A s fun t r s' =>
      s' = s ∧ (∀ e ∈ t, e.cmd.Plain) ∧ (∀ x, r = .error x → x.isException = true) ∧
        ∀ cost, r = .ok cost → provider = "" ∨ inputTokens.IsNumber := by
  have honly : (priceStream settings provider model inputTokens outputTokens : Py σ ℚ).Only
      Cmd.Plain := only_priceStream ⟨trivial, id⟩ fun _ => ⟨trivial, id⟩
  have hraise : Catchable A (priceStream settings provider model inputTokens outputTokens : Py σ ℚ) :=
    .ite .pure <| .bind catchable_estimateCost fun _ => .bind catchable_recordUsage fun _ => .pure
  have hnum : (priceStream settings provider model inputTokens outputTokens : Py σ ℚ).wp A s
      fun _ r _ => ∀ cost, r = .ok cost → provider = "" ∨ inputTokens.IsNumber := by
    rw [priceStream, Coro.wp_ite]
    refine ⟨fun h => fun _ _ => .inl h, fun _ => ?_⟩
    rw [Coro.wp_bind, estimateCost, Coro.wp_bind, wp_pricing_iff]
    rintro (e | ⟨⟩) _
    · rintro _ ⟨⟩
    dsimp only [Except.mapError]
    rw [Coro.wp_ofExcept]
    split
    · next cost hcost =>
      exact Coro.wp_mono Coro.wp_true fun _ _ _ _ _ _ _ =>
        .inr (isNumber_of_estimateCostUsd hcost).1
    · rintro _ ⟨⟩
  exact Coro.wp_mono (Coro.wp_and honly.wp (Coro.wp_and (hraise s) hnum))
    fun t r s' _ h => ⟨h.2.1.1, h.1, h.2.1.2, h.2.2⟩

/-- The cost of a usage whose counts are not negative. -/
theorem wp_priceStream_countable (hin : inputTokens.Countable) (hout : outputTokens.Countable) :
    (priceStream settings provider model inputTokens outputTokens).wp Healthy s fun _ r s' =>
      s' = s ∧ ∃ cost, r = .ok cost ∧ 0 ≤ cost ∧ (provider = "" ∧ cost = 0 ∨ provider ≠ "" ∧
        estimateCostUsd settings.pricing provider model inputTokens outputTokens = .ok cost) := by
  rw [priceStream, Coro.wp_ite]
  refine ⟨fun h => ⟨rfl, 0, rfl, le_rfl, .inl ⟨h, rfl⟩⟩, fun hp => ?_⟩
  obtain ⟨cost, hcost, hcost0⟩ := estimateCostUsd_of_countable settings.pricing provider model hin
    hout
  rw [Coro.wp_bind, wp_estimateCost, hcost]
  dsimp only
  rw [Coro.wp_bind]
  refine Coro.wp_mono (wp_recordUsage_countable hcost0 hin hout) fun t r s' _ h => ?_
  obtain ⟨rfl, rfl⟩ := h
  exact ⟨rfl, cost, rfl, hcost0, .inr ⟨hp, rfl⟩⟩

/-- A finished stream is settled, or an `Exception` comes first. -/
theorem wp_settleStreamSpend :
    (settleStreamSpend settings q provider model inputTokens outputTokens).wp A s fun t r s' =>
      s' = s ∧
      ((provider = "" ∨ inputTokens.IsNumber) ∧ (∀ e, r ≠ .error (.exception e)) ∧ ¬ AuditCut t ∧
          (∃ cost, SettledAt q.apiKey q.reservations provider cost (calls t)) ∨
        calls t = [] ∧ Unaudited t ∧ ∃ e, r = .error (.exception e)) := by
  rw [settleStreamSpend, Coro.wp_bind]
  refine Coro.wp_mono wp_priceStream fun t r s' _ h => ?_
  obtain ⟨rfl, hplain, hraise, hnum⟩ := h
  have hcalls : calls t = [] := calls_of_unrecorded fun e he => (hplain e he).1
  have hu : Unaudited t := fun e he => (hplain e he).2
  match r with
  | .error x =>
    cases x with
    | exception e => exact ⟨rfl, .inr ⟨hcalls, hu, e, rfl⟩⟩
    | _ => cases hraise _ rfl
  | .ok cost =>
    dsimp only
    rw [Coro.wp_bind]
    refine Coro.wp_mono wp_settleChain_once fun t' r' s'' _ h' => ?_
    obtain ⟨rfl, hr', hsettled, hcut⟩ := h'
    have hdone : SettledAt q.apiKey q.reservations provider cost (calls (t ++ t')) := by
      rwa [calls_append, hcalls, List.nil_append]
    have hcut' : ¬ AuditCut (t ++ t') := by rwa [auditCut_append_left hcalls hu.harmless]
    match r' with
    | .error x =>
      exact ⟨rfl, .inl ⟨hnum cost rfl, fun e h => hr' e (by cases h; rfl), hcut', cost, hdone⟩⟩
    | .ok () =>
      refine Coro.wp_pure.mpr ⟨rfl, .inl ⟨hnum cost rfl, nofun, ?_, cost, ?_⟩⟩
      · rwa [List.append_nil]
      · rwa [List.append_nil]

end Settle

/-! ## The loop -/

/-- The exception a stream was interrupted by while it waited for a chunk or handed on a frame. -/
def streamRaised : Ev → Option Exc
  | ⟨.anext _, .error x⟩ => some x
  | ⟨.yield _, .error x⟩ => some x
  | _ => none

/-- A `KeyboardInterrupt` reached the stream. -/
def Halted (t : List Ev) : Prop := ∃ e ∈ t, streamRaised e = some .interrupt

instance (t : List Ev) : Decidable (Halted t) :=
  decidable_of_iff (t.any fun e => match streamRaised e with
    | some .interrupt => true
    | _ => false) <| by
    rw [List.any_eq_true, Halted]
    refine exists_congr fun e => and_congr_right fun _ => ?_
    split <;> simp_all

omit [Rounding] in
theorem Halted.mono {t t' : List Ev} (h : Halted t) (hsub : t ⊆ t') : Halted t' := by
  obtain ⟨e, he, hr⟩ := h
  exact ⟨e, hsub he, hr⟩

/-- What the loop does with one chunk: it adds it to the usage, and hands on frames. -/
structure Delivers (A : Ev → Prop) (deliver : StreamChunk → Py StreamLocals Unit) : Prop where
  usage : ∀ c s, (deliver c).wp A s fun t r s' =>
    s'.toUsage = s.toUsage.absorb c ∧ s'.settled = s.settled ∧ (r = .error .interrupt → Halted t)
  only : ∀ c, (deliver c).Only Cmd.Yielding

variable {deliver : StreamChunk → Py StreamLocals Unit} {onAllFailed closing : Py StreamLocals Unit}

omit [Rounding] in
theorem wp_anext_iff {s : σ} {next : Upcoming} {Q : List Ev → Except Exc Unit → σ → Prop} :
    (anext next).wp A s Q ↔ ∀ r : Except Exc Unit, A ⟨.anext next, r⟩ →
      Q [⟨.anext next, r⟩] r s := Iff.rfl

omit [Rounding] in
theorem wp_emit_iff {s : σ} {f : Frame} {Q : List Ev → Except Exc Unit → σ → Prop} :
    (emit f).wp A s Q ↔ ∀ r : Except Exc Unit, A ⟨.yield f, r⟩ → Q [⟨.yield f, r⟩] r s := Iff.rfl

omit [Rounding] in
theorem only_emit {f : Frame} {B : Cmd → Prop} (h : B (.yield f)) : (emit f : Py σ Unit).Only B :=
  .bind (.perform h) fun _ => .ofExcept

/-- What one chunk, or the end of the stream, does to the loop. -/
structure Looped (s : StreamLocals) (t : List Ev) (r : Except Exc Unit) (s' : StreamLocals) :
    Prop where
  usage : s'.toUsage = (received t).foldl Usage.absorb s.toUsage
  settled : s'.settled = s.settled
  streaming : ∀ e ∈ t, e.cmd.Streaming
  halted : r = .error .interrupt → Halted t

omit [Rounding] in
theorem looped_anext {s : StreamLocals} {next : Upcoming} {x : Exc} :
    Looped s [⟨.anext next, .error x⟩] (.error x) s where
  usage := by cases next <;> rfl
  settled := rfl
  streaming := by simp [Cmd.Streaming]
  halted h := ⟨_, .head _, by rw [Except.error.inj h]; rfl⟩

omit [Rounding] in
/-- The loop leaves the usage at what its chunks add up to. -/
theorem wp_forChunks (h : Delivers A deliver) (ending : Option PyError) (chunks : List StreamChunk)
    (s : StreamLocals) : (forChunks deliver ending chunks).wp A s fun t r s' => Looped s t r s' := by
  -- the locals change with every chunk, so the induction is over all of them
  induction chunks generalizing s with
  | nil =>
    unfold forChunks
    cases ending with
    | none =>
      rw [wp_anext_iff]
      rintro (x | ⟨⟩) _
      · exact looped_anext
      · exact ⟨rfl, rfl, by simp [Cmd.Streaming], nofun⟩
    | some e =>
      dsimp only
      rw [Coro.wp_bind, wp_anext_iff]
      rintro (x | ⟨⟩) _
      · exact looped_anext
      · exact ⟨rfl, rfl, by simp [Cmd.Streaming], nofun⟩
  | cons c rest ih =>
    rw [forChunks, Coro.wp_bind, wp_anext_iff]
    rintro (x | ⟨⟩) _
    · exact looped_anext
    dsimp only
    rw [Coro.wp_bind]
    refine Coro.wp_mono (Coro.wp_and (h.usage c s) (h.only c).wp) fun t r s₁ _ h₁ => ?_
    obtain ⟨⟨husage, hsettled, hhalted⟩, honly⟩ := h₁
    have hfed : received t = [] := received_of_unfed fun e he => (honly e he).unfed
    match r with
    | .error x =>
      refine ⟨?_, hsettled, List.forall_mem_cons.mpr ⟨trivial, fun e he => (honly e he).streaming⟩,
        fun hx => (hhalted hx).mono (List.subset_cons_self _ _)⟩
      simp [received, received?, husage, show t.filterMap received? = [] from hfed]
    | .ok () =>
      refine Coro.wp_mono (ih s₁) fun t' r' s' _ h' => ?_
      refine ⟨?_, h'.settled.trans hsettled, ?_, fun hx => ?_⟩
      · rw [h'.usage, husage, List.cons_append]
        simp [received, received?, show t.filterMap received? = [] from hfed]
      · exact List.forall_mem_append.mpr ⟨by simp [Cmd.Streaming],
          List.forall_mem_append.mpr ⟨fun e he => (honly e he).streaming, h'.streaming⟩⟩
      · exact (h'.halted hx).mono fun e he => by simp [he]

/-! ## The handlers and the bookkeeping -/

section Handlers

variable {s : StreamLocals}

theorem wp_abortStream : (abortStream settings q).wp A s fun t _ _ =>
    Outcome C q.apiKey q.reservations s.toUsage.Priceable t := by
  rw [abortStream, Coro.wp_bind, Coro.wp_locals]
  exact wp_settleStreamOnAbort

theorem wp_tryAbortStream : (tryAbortStream settings q).wp A s fun t _ _ =>
    Outcome C q.apiKey q.reservations s.toUsage.Priceable t := by
  rw [tryAbortStream, Coro.wp_bind, Coro.wp_locals]
  exact wp_trySettleStreamOnAbort

theorem wp_onDisconnect {α : Type} {x : Exc} :
    (onDisconnect settings q x : Py StreamLocals α).wp A s fun t _ _ =>
      Outcome C q.apiKey q.reservations s.toUsage.Priceable t :=
  wp_metric_bind_outcome (wp_bind_plain_outcome wp_abortStream fun _ => .raise)

theorem wp_onUnexpected : (onUnexpected settings q).wp A s fun t _ _ =>
    Outcome C q.apiKey q.reservations s.toUsage.Priceable t :=
  wp_metric_bind_outcome <| wp_metric_bind_outcome <|
    wp_bind_plain_outcome wp_tryAbortStream fun _ => only_emit ⟨trivial, id⟩

theorem wp_onUnbooked (hs : s.settled = false) : (onUnbooked settings q).wp A s fun t _ _ =>
    Outcome C q.apiKey q.reservations s.toUsage.Priceable t := by
  refine wp_metric_bind_outcome ?_
  rw [Coro.wp_bind, Coro.wp_locals]
  simp only [hs, Bool.false_eq_true, if_false, List.nil_append]
  exact wp_bind_plain_outcome wp_tryAbortStream fun _ => .bind (only_metric ⟨trivial, id⟩) fun _ =>
    .bind (only_emit ⟨trivial, id⟩) fun _ => .pure

/-- After the settlement, the clause does nothing but report. -/
theorem wp_onUnbooked_plain (hs : s.settled = true) :
    (onUnbooked settings q).wp A s fun t _ _ => ∀ e ∈ t, e.cmd.Plain := by
  rw [onUnbooked, Coro.wp_bind, wp_metric_iff]
  rintro (e | ⟨⟩) _
  · exact List.forall_mem_singleton.mpr ⟨trivial, id⟩
  dsimp only [Except.mapError]
  rw [Coro.wp_bind, Coro.wp_locals]
  simp only [hs, if_true]
  have hrest : (do
      metric (.requestCount "error")
      emit (streamErrorFrame q.requestId)
      pure false : Py StreamLocals Bool).Only Cmd.Plain :=
    .bind (only_metric ⟨trivial, id⟩) fun _ => .bind (only_emit ⟨trivial, id⟩) fun _ => .pure
  exact Coro.wp_mono hrest.wp fun t r s' _ ht => List.forall_mem_cons.mpr ⟨⟨trivial, id⟩, ht⟩

theorem wp_onUnbooked_settled (hs : s.settled = true) :
    (onUnbooked settings q).wp A s fun t _ _ => calls t = [] :=
  Coro.wp_mono (wp_onUnbooked_plain hs) fun _ _ _ _ h => calls_of_unrecorded fun e he => (h e he).1

omit [Rounding] in
/-- What follows the settlement records no call and leaves the locals alone. -/
theorem wp_afterSettlement {row : AuditFields} (hclosing : ∀ s, closing.wp A s fun _ _ s' => s' = s)
    (honly : closing.Only Cmd.Unrecorded) :
    (do
      recordAuditLog settings q.apiKey row
      closing
      pure true : Py StreamLocals Bool).wp A s fun t _ s' => calls t = [] ∧ s' = s := by
  refine Coro.wp_and (wp_unrecorded (.bind (only_recordAuditLog fun _ h => h.unrecorded) fun _ =>
    .bind honly fun _ => .pure)) ?_
  rw [Coro.wp_bind]
  refine Coro.wp_mono wp_recordAuditLog fun t r s₁ _ h => ?_
  obtain ⟨rfl, -⟩ := h
  match r with
  | .error x => rfl
  | .ok () =>
    dsimp only
    rw [Coro.wp_bind]
    refine Coro.wp_mono (hclosing s₁) fun t' r' s₂ _ h => ?_
    subst h
    match r' with
    | .error x => rfl
    | .ok () => rfl

/-- The rule for the bookkeeping, where only the calls matter: what fails after the settlement finds
`settled` set and records none, and what fails before it is left to the clause. -/
theorem wp_bookkeeping_of {P : List Ev → Prop}
    (hclosing : ∀ s, closing.wp A s fun _ _ s' => s' = s) (honly : closing.Only Cmd.Unrecorded)
    (hspend : (settleStreamSpend settings q s.finalProvider s.finalModel s.inputTokens
      s.outputTokens).wp A s fun t r s' => s' = s ∧
        ((∀ e, r ≠ .error (.exception e)) ∧ (∀ t', calls t' = [] → P (t ++ t')) ∨
        (∃ e, r = .error (.exception e)) ∧
          (onUnbooked settings q).wp A s fun t' _ _ => P (t ++ t'))) :
    (bookkeeping settings q closing).wp A s fun t _ _ => P t := by
  rw [bookkeeping, Coro.wp_attempt, Coro.wp_bind, Coro.wp_locals]
  dsimp only
  rw [Coro.wp_bind]
  refine Coro.wp_mono hspend fun t r s₁ _ h => ?_
  obtain ⟨rfl, ⟨hr, hdone⟩ | ⟨⟨e, rfl⟩, hclause⟩⟩ := h
  · match r with
    | .error (.exception e) => exact absurd rfl (hr e)
    | .error .cancelled | .error .generatorExit | .error .interrupt => simpa using hdone [] rfl
    | .ok cost =>
      dsimp only
      rw [Coro.wp_bind, Coro.wp_update]
      dsimp only
      refine Coro.wp_mono (wp_afterSettlement hclosing honly) fun t' r' s₂ _ h' => ?_
      obtain ⟨hcalls, rfl⟩ := h'
      match r' with
      -- the audit row or the last frame failed after the settlement: the clause finds the flag set
      | .error (.exception e) =>
        refine Coro.wp_mono (wp_onUnbooked_settled rfl) fun t'' r'' s'' _ hcalls'' => ?_
        simpa using hdone (t' ++ t'') (by rw [calls_append, hcalls, hcalls'']; rfl)
      | .ok b => simpa using hdone t' hcalls
      | .error .cancelled | .error .generatorExit | .error .interrupt =>
        simpa using hdone t' hcalls
  · exact hclause

/-- The bookkeeping settles once: what fails before the settlement is settled as an abort, and what
fails after it finds `settled` set. -/
theorem wp_bookkeeping (hclosing : ∀ s, closing.wp A s fun _ _ s' => s' = s)
    (honly : closing.Only Cmd.Unrecorded) (hs : s.settled = false) :
    (bookkeeping settings q closing).wp A s fun t _ _ =>
      Outcome C q.apiKey q.reservations s.toUsage.Priceable t := by
  refine wp_bookkeeping_of hclosing honly (Coro.wp_mono wp_settleStreamSpend fun t r s₁ _ h => ?_)
  -- either the settlement was reached, or pricing raised and the clause settles as an abort
  obtain ⟨rfl, ⟨hprice, hr, hcut, cost, hsettled⟩ | ⟨hcalls, hu, e, rfl⟩⟩ := h
  · exact ⟨rfl, .inl ⟨hr, fun t' => .append_of_settled hprice hsettled hcut⟩⟩
  · refine ⟨rfl, .inr ⟨⟨e, rfl⟩, ?_⟩⟩
    exact Coro.wp_mono (wp_onUnbooked (C := C) hs) fun t' _ _ _ h' => h'.prepend hcalls hu

end Handlers

/-! ## What the handlers issue -/

section Footprint

theorem only_settleStreamOnAbort {provider model : String} {inputTokens : PyVal}
    {streamedChars : ℕ} :
    (settleStreamOnAbort settings q provider model inputTokens streamedChars : Py σ Unit).Only
      Cmd.Quiet :=
  .ite (fun _ => only_settleChain fun _ h => h.quiet) fun _ =>
    .bind (.bind (only_pricing trivial) fun _ => .ofExcept) fun _ =>
      .bind (only_settleChain fun _ h => h.quiet) fun _ =>
        .bind (only_recordUsage_publishing.mono fun _ h => h.quiet) fun _ =>
          only_recordAuditLog fun _ h => h.quiet

theorem only_abortStream : (abortStream settings q).Only Cmd.Quiet :=
  .bind .locals fun _ => only_settleStreamOnAbort

theorem only_tryAbortStream : (tryAbortStream settings q).Only Cmd.Quiet :=
  .bind .locals fun _ => only_tryExcept only_settleStreamOnAbort fun _ => .pure

theorem only_onDisconnect {α : Type} {x : Exc} :
    (onDisconnect settings q x : Py StreamLocals α).Only Cmd.Unfed :=
  .bind (only_metric trivial) fun _ =>
    .bind (only_abortStream.mono fun _ h => h.unfed) fun _ => .raise

theorem only_onUnexpected : (onUnexpected settings q).Only Cmd.Unfed :=
  .bind (only_metric trivial) fun _ => .bind (only_metric trivial) fun _ =>
    .bind (only_tryAbortStream.mono fun _ h => h.unfed) fun _ => only_emit trivial

theorem only_onUnbooked : (onUnbooked settings q).Only Cmd.Trailing := by
  have hrest : (do
      metric (.requestCount "error")
      emit (streamErrorFrame q.requestId)
      pure false : Py StreamLocals Bool).Only Cmd.Trailing :=
    .bind (only_metric trivial) fun _ => .bind (only_emit trivial) fun _ => .pure
  exact .bind (only_metric trivial) fun _ => .bind .locals fun _ =>
    .ite (fun _ => hrest) fun _ =>
      .bind (only_tryAbortStream.mono fun _ h => h.trailing) fun _ => hrest

theorem only_bookkeeping (h : closing.Only Cmd.Yielding) :
    (bookkeeping settings q closing).Only Cmd.Trailing := by
  refine .attempt (.bind .locals fun s => .bind ?_ fun _ => .bind .update fun _ =>
    .bind (only_recordAuditLog fun _ h => h.quiet.trailing) fun _ =>
      .bind (h.mono fun _ h => h.trailing) fun _ => .pure) fun x c hc => ?_
  · exact .bind (quiet_priceStream.mono fun _ h => h.trailing) fun _ =>
      .bind (only_settleChain fun _ h => h.quiet.trailing) fun _ => .pure
  · cases x with
    | exception e =>
      obtain rfl := Option.some.inj hc
      exact only_onUnbooked
    | _ => cases hc

omit [Rounding] in
theorem only_finish (booked : Bool) : (finish booked).Only fun c : Cmd => c.Plain ∧ c.Trailing :=
  .ite (fun _ => .bind (only_metric ⟨⟨trivial, id⟩, trivial⟩) fun _ =>
    only_emit ⟨⟨trivial, id⟩, trivial⟩) fun _ => .pure

/-- What is left of a stream that ran out. -/
theorem only_bookkeeping_finish (h : closing.Only Cmd.Yielding) :
    (bookkeeping settings q closing >>= finish).Only Cmd.Trailing :=
  .bind (only_bookkeeping h) fun b => (only_finish b).mono fun _ h => h.2

end Footprint

/-! ## The generators -/

/-- What the parts in which the endpoints differ have in common. -/
structure Clauses (C : Prop) (settings : Settings) (q : RequestArgs) (A : Ev → Prop)
    (deliver : StreamChunk → Py StreamLocals Unit) (onAllFailed closing : Py StreamLocals Unit) :
    Prop where
  delivers : Delivers A deliver
  failed : ∀ s : StreamLocals, onAllFailed.wp A s fun t _ _ =>
    Outcome C q.apiKey q.reservations s.toUsage.Priceable t
  failed_only : onAllFailed.Only Cmd.Unfed
  frame : ∀ s, closing.wp A s fun _ _ s' => s' = s
  closing_only : closing.Only Cmd.Yielding

/-- A run that has started ends in an outcome for the usage of its chunks, unless a
`KeyboardInterrupt` halts it. -/
def Ended (C : Prop) (q : RequestArgs) (t : List Ev) : Prop :=
  (Halted t ∧ calls t = []) ∨ Outcome C q.apiKey q.reservations (usageOf t).Priceable t

omit [Rounding] in
theorem usageOf_append_of_unfed {t t' : List Ev} (h : ∀ e ∈ t', e.cmd.Unfed) :
    usageOf (t ++ t') = usageOf t := by
  rw [usageOf, received_append, received_of_unfed h, List.append_nil, usageOf]

omit [Rounding] in
theorem Ended.append {t t' : List Ev} (h : Ended C q t) (hfed : ∀ e ∈ t', e.cmd.Unfed)
    (hplain : ∀ e ∈ t', e.cmd.Plain) : Ended C q (t ++ t') := by
  have hcalls : calls t' = [] := calls_of_unrecorded fun e he => (hplain e he).1
  rcases h with ⟨hhalt, hnil⟩ | h
  · refine .inl ⟨hhalt.mono (List.subset_append_left _ _), ?_⟩
    rw [calls_append, hnil, hcalls, List.append_nil]
  · refine .inr ?_
    rw [usageOf_append_of_unfed hfed]
    exact h.append hcalls fun e he => (hplain e he).2

omit [Rounding] in
/-- An outcome for the locals the loop left is one for the whole run. -/
theorem Looped.ended {t t' : List Ev} {r : Except Exc Unit} {s' : StreamLocals}
    (h : Looped {} t r s') (h' : Outcome C q.apiKey q.reservations s'.toUsage.Priceable t')
    (hfed : ∀ e ∈ t', e.cmd.Unfed) : Ended C q (t ++ t') := by
  have husage : s'.toUsage = usageOf (t ++ t') := by
    rw [usageOf_append_of_unfed hfed, h.usage, usageOf]
  rw [husage] at h'
  exact .inr (h'.prepend (calls_of_unrecorded fun e he => (h.streaming e he).unrecorded)
    fun e he => (h.streaming e he).plain.2)

/-- Either the loop went through and has settled nothing, or the run has ended. -/
def LoopEnd (C : Prop) (q : RequestArgs) (t : List Ev) (r : Except Exc Bool) (s' : StreamLocals) : Prop :=
  (r = .ok true ∧ s'.settled = false ∧ s'.toUsage = usageOf t ∧ ∀ e ∈ t, e.cmd.Plain) ∨
    r ≠ .ok true ∧ Ended C q t

variable {stream : RouterStream}

/-- The handlers of the loop, which end in `false`. -/
def loopHandlers (settings : Settings) (q : RequestArgs) (onAllFailed : Py StreamLocals Unit) :
    Exc → Option (Py StreamLocals Bool)
  | .generatorExit => some (onDisconnect settings q .generatorExit)
  | .cancelled => some (onDisconnect settings q .cancelled)
  | .exception (.allProvidersFailed _) => some (do
      onAllFailed
      pure false)
  | .exception _ => some (do
      onUnexpected settings q
      pure false)
  | .interrupt => none

theorem guardedLoop_eq : guardedLoop settings q deliver onAllFailed stream
    = ((do
        forChunks deliver stream.ending stream.chunks
        pure true : Py StreamLocals Bool).attempt
          (loopHandlers settings q onAllFailed)).ensure (metric .requestLatency) := by
  rw [guardedLoop]
  refine congrArg (Coro.ensure · _) (congrArg _ (funext fun x => ?_))
  cases x with
  | exception e => cases e <;> rfl
  | _ => rfl

/-- Each clause ends the run, and without a clause it was a `KeyboardInterrupt`. -/
theorem wp_loopClauses (h : Clauses C settings q A deliver onAllFailed closing) :
    ((do
      forChunks deliver stream.ending stream.chunks
      pure true : Py StreamLocals Bool).attempt
        (loopHandlers settings q onAllFailed)).wp A {} fun t r s' => LoopEnd C q t r s' := by
  rw [Coro.wp_attempt, Coro.wp_bind]
  refine Coro.wp_mono (wp_forChunks h.delivers _ _ _) fun t r s₁ _ hloop => ?_
  have hdisconnect : ∀ x, (onDisconnect settings q x : Py StreamLocals Bool).wp A s₁
      fun t' r' s' => LoopEnd C q (t ++ t') r' s' := fun x => by
    have hraises : (onDisconnect settings q x : Py StreamLocals Bool).Raises :=
      .bind fun _ => .bind fun _ => .raise
    refine Coro.wp_mono (Coro.wp_and (hraises A s₁) (Coro.wp_and (wp_onDisconnect (C := C))
      only_onDisconnect.wp)) fun t' r' s' _ h' => ?_
    obtain ⟨⟨y, rfl⟩, hout, hfed⟩ := h'
    exact .inr ⟨by simp, hloop.ended hout hfed⟩
  have hclause : ∀ m : Py StreamLocals Unit,
      (m.wp A s₁ fun t' _ _ => Outcome C q.apiKey q.reservations s₁.toUsage.Priceable t') →
      m.Only Cmd.Unfed → (do
        m
        pure false : Py StreamLocals Bool).wp A s₁ fun t' r' s' => LoopEnd C q (t ++ t') r' s' := by
    intro m hm honly
    rw [Coro.wp_bind]
    refine Coro.wp_mono (Coro.wp_and hm honly.wp) fun t' r' s' _ h' => ?_
    have hended := hloop.ended h'.1 h'.2
    match r' with
    | .error y => exact .inr ⟨by simp, hended⟩
    | .ok () =>
      refine Coro.wp_pure.mpr (.inr ⟨by simp, ?_⟩)
      rwa [List.append_nil]
  match r with
  | .ok () =>
    refine Coro.wp_pure.mpr (.inl ⟨rfl, hloop.settled, ?_, ?_⟩)
    · rw [List.append_nil, hloop.usage, usageOf]
    · simpa using fun e he => (hloop.streaming e he).plain
  | .error .generatorExit => exact hdisconnect _
  | .error .cancelled => exact hdisconnect _
  -- no clause catches it, so the run ends here
  | .error .interrupt =>
    exact .inr ⟨by simp, .inl ⟨hloop.halted rfl,
      calls_of_unrecorded fun e he => (hloop.streaming e he).unrecorded⟩⟩
  | .error (.exception e) =>
    cases e with
    | allProvidersFailed m => exact hclause _ (h.failed s₁) h.failed_only
    | _ => exact hclause _ wp_onUnexpected only_onUnexpected

theorem wp_guardedLoop (h : Clauses C settings q A deliver onAllFailed closing) :
    (guardedLoop settings q deliver onAllFailed stream).wp A {} fun t r s' => LoopEnd C q t r s' := by
  rw [guardedLoop_eq, Coro.wp_ensure]
  refine Coro.wp_mono (wp_loopClauses h) fun t r s₁ _ hloop => ?_
  have hplain : Cmd.Plain (.metric .requestLatency) := ⟨trivial, id⟩
  rw [wp_metric_iff]
  rcases hloop with ⟨rfl, hsettled, husage, hall⟩ | ⟨hr, hended⟩
  · have hall' : ∀ r', ∀ e ∈ t ++ [⟨.metric .requestLatency, r'⟩], e.cmd.Plain := fun r' =>
      List.forall_mem_append.mpr ⟨hall, by simpa using hplain⟩
    rintro (e | ⟨⟩) _
    · refine .inr ⟨by simp, .inr (.of_unhealthy ?_ (fun e he => (hall' _ e he).2) ?_)⟩
      · exact calls_of_unrecorded fun e he => (hall' _ e he).1
      · exact fun hA => nomatch hA _ (List.mem_append_right _ (.head _))
    · refine .inl ⟨rfl, hsettled, ?_, hall' _⟩
      rw [husage, usageOf_append_of_unfed (by simp [Cmd.Unfed])]
  · have hended' : ∀ r', Ended C q (t ++ [⟨.metric .requestLatency, r'⟩]) := fun r' =>
      hended.append (by simp [Cmd.Unfed]) (by simpa using hplain)
    rintro (e | ⟨⟩) _
    · exact .inr ⟨by simp, hended' _⟩
    · exact .inr ⟨hr, hended' _⟩

theorem wp_generator (h : Clauses C settings q A deliver onAllFailed closing) :
    (generator settings q deliver onAllFailed closing stream).wp A {} fun t _ _ => Ended C q t := by
  rw [generator, Coro.wp_bind]
  refine Coro.wp_mono (wp_guardedLoop h) fun t r s₁ _ hloop => ?_
  match r with
  | .error x => exact (hloop.resolve_left (by simp)).2
  | .ok false => exact Coro.wp_pure.mpr (by simpa using (hloop.resolve_left (by simp)).2)
  | .ok true =>
    obtain ⟨-, hsettled, husage, hplain⟩ := hloop.resolve_right (by simp)
    have hbook : (bookkeeping settings q closing >>= finish).wp A s₁ fun t _ _ =>
        Outcome C q.apiKey q.reservations s₁.toUsage.Priceable t :=
      wp_bind_plain_outcome (wp_bookkeeping h.frame
        (h.closing_only.mono fun _ h => h.unrecorded) hsettled) fun b =>
          (only_finish b).mono fun _ h => h.1
    refine Coro.wp_mono (Coro.wp_and hbook (only_bookkeeping_finish h.closing_only).wp)
      fun t' r' s' _ h' => ?_
    rw [husage, ← usageOf_append_of_unfed (t := t) fun e he => (h'.2 e he).unfed] at h'
    exact .inr (h'.1.prepend (calls_of_unrecorded fun e he => (hplain e he).1)
      fun e he => (hplain e he).2)

end LlmGateway
