import LlmGateway.Main.Abandonment
import LlmGateway.Main.TerminalFrame

/-!
# A paid answer reaches its caller

Whatever Redis and the database do once the provider has answered, `_serve_chat` returns the answer
and the stream endpoints send all of it. The failures are swallowed in four places, so the results
below go through each of them and not through the ways they can fail together.

Pricing is not one of the four. A count that no `float` can hold is a number of tokens like any
other, and the exception it raises there is the end of the answer.
-/

namespace LlmGateway

open Coroutine

variable {σ : Type} {s : σ} {settings : Settings} {q : RequestArgs} {A : Ev → Prop}

/-- Redis and the database may raise an `Exception` each time. Metrics and pricing do not. -/
def Forgiving (e : Ev) : Prop := Healthy e ∧ Tolerable e

/-! ## The statements that swallow -/

/-- No `Exception` leaves a settlement, and nothing else is raised in it. -/
theorem wp_settleChain_forgiving [Rounding] {apiKey provider : String}
    {reservations : OrderedDict String ℚ} {cost : ℚ} (hA : ∀ e, A e → Forgiving e) :
    (settleChain settings apiKey reservations provider cost).wp A s fun t r s' =>
      r = .ok () ∧ s' = s ∧ frames t = [] := by
  have honly : (settleChain settings apiKey reservations provider cost : Py σ Unit).Only
      Cmd.Unframed := only_settleChain fun _ h => h.settling.unframed
  refine Coro.wp_mono (Coro.wp_and (wp_settleChain_tolerable fun e he => (hA e he).2) honly.wp)
    fun t r s' _ h => ?_
  exact ⟨h.1.1, h.1.2, frames_of_unframed h.2⟩

theorem wp_recordAuditLog_forgiving {apiKey : String} {row : AuditFields}
    (hA : ∀ e, A e → Forgiving e) :
    (recordAuditLog settings apiKey row).wp A s fun t r s' =>
      r = .ok () ∧ s' = s ∧ frames t = [] := by
  have honly : (recordAuditLog settings apiKey row : Py σ Unit).Only Cmd.Unframed :=
    only_recordAuditLog fun _ h => h.unframed
  refine Coro.wp_mono (Coro.wp_and (wp_recordAuditLog_tolerable fun e he => (hA e he).2) honly.wp)
    fun t r s' _ h => ?_
  exact ⟨h.1.1, h.1.2, frames_of_unframed h.2⟩

/-! ## Counts -/

/-- No number below zero. -/
def PyVal.NonNeg (v : PyVal) : Prop := ∀ x, v.number = some x → 0 ≤ x

theorem PyVal.NonNeg.countable_iff {v : PyVal} (h : v.NonNeg) : v.Countable ↔ v.IsNumber := by
  refine ⟨PyVal.Countable.isNumber, fun hnum => ?_⟩
  obtain ⟨x, hx⟩ := Option.isSome_iff_exists.mp hnum
  exact ⟨x, hx, h x hx⟩

theorem PyVal.nonNeg_int {n : ℤ} (h : 0 ≤ n) : (PyVal.int n).NonNeg := by
  intro x hx
  by_cases hfits : PyVal.fitsDouble n = true
  · rw [PyVal.number_int hfits] at hx
    exact Option.some.inj hx ▸ Int.cast_nonneg h
  · rw [PyVal.number, if_neg hfits] at hx
    cases hx

/-! ## A response -/

/-- The bookkeeping of a response raises nothing if its counts can be priced. -/
theorem wp_serveResponse_countable [Rounding] {result : ChatResponse}
    (hin : result.inputTokens.Countable) (hout : result.outputTokens.Countable) :
    (serveResponse settings q result).wp Forgiving s fun _ r _ => r = .ok result := by
  obtain ⟨cost, hcost, hcost0⟩ := estimateCostUsd_of_countable settings.pricing result.provider
    result.model hin hout
  have hhealthy : ∀ e, Forgiving e → Healthy e := fun _ h => h.1
  rw [serveResponse, Coro.wp_bind]
  refine Coro.wp_mono (Coro.wp_anti (wp_metric.mpr ⟨rfl, rfl⟩ : (metric (.requestCount "success")).wp
    Healthy s fun _ r s' => r = .ok () ∧ s' = s) hhealthy) fun _ r s' _ h => ?_
  obtain ⟨rfl, rfl⟩ := h
  dsimp only
  rw [Coro.wp_bind]
  refine Coro.wp_mono (Coro.wp_anti (wp_estimateCost.mpr ⟨hcost, rfl⟩ : (estimateCost settings
    result.provider result.model result.inputTokens result.outputTokens).wp Healthy s'
      fun _ r s₁ => r = .ok cost ∧ s₁ = s') hhealthy) fun _ r s₁ _ h => ?_
  obtain ⟨rfl, rfl⟩ := h
  dsimp only
  rw [Coro.wp_bind]
  refine Coro.wp_mono (wp_settleChain_forgiving fun _ h => h) fun _ r s₂ _ h => ?_
  obtain ⟨rfl, rfl, -⟩ := h
  dsimp only
  rw [Coro.wp_bind]
  refine Coro.wp_mono (Coro.wp_anti (wp_recordUsage_countable hcost0 hin hout) hhealthy)
    fun _ r s₃ _ h => ?_
  obtain ⟨rfl, rfl⟩ := h
  dsimp only
  rw [Coro.wp_bind]
  refine Coro.wp_mono (wp_recordAuditLog_forgiving fun _ h => h) fun _ r s₄ _ h => ?_
  obtain ⟨rfl, rfl, -⟩ := h
  rfl

/-- A response is lost exactly if its price cannot be told. -/
theorem wp_serveResponse_forgiving [Rounding] {result : ChatResponse}
    (hin : result.inputTokens.NonNeg) (hout : result.outputTokens.NonNeg) :
    (serveResponse settings q result).wp Forgiving s fun _ r _ =>
      r = .ok result ↔ result.inputTokens.IsNumber ∧ result.outputTokens.IsNumber := by
  by_cases hnum : result.inputTokens.IsNumber ∧ result.outputTokens.IsNumber
  · refine Coro.wp_mono (wp_serveResponse_countable (hin.countable_iff.mpr hnum.1)
      (hout.countable_iff.mpr hnum.2)) fun _ r _ _ h => iff_of_true h hnum
  rw [serveResponse, Coro.wp_bind, wp_metric_iff]
  intro r hr
  obtain rfl : r = .ok () := hr.1
  dsimp only [Except.mapError]
  rw [Coro.wp_bind]
  refine Coro.wp_mono wp_estimateCost_iff fun t r s' _ h => ?_
  obtain ⟨-, hr⟩ := h
  cases r with
  | error e => exact iff_of_false (fun h => by cases h) hnum
  | ok cost => exact absurd (isNumber_of_estimateCostUsd ((hr cost).mp rfl).2) hnum

/-- Once the router has answered, serving goes on as if its answer had been there from the start. -/
theorem serveChat_resume [Rounding] {router : Py σ ChatResponse} {result : ChatResponse}
    {t₁ t₂ : List Ev} {r : Except Exc ChatResponse} {s₁ s' : σ}
    (h : Coro.Runs router s t₁ (.ok result) s₁)
    (hr : Coro.Runs (serveChat settings router q) s (t₁ ++ t₂) r s') :
    Coro.Runs (serveChat settings (pure result) q) s₁ t₂ r s' := by
  have hsplit : serveChat settings router q s
      = (router s).bind fun x => serveChat settings (fun _ => .ret x) q s := by
    change ((((router s).bind _).bind _).bind _) = _
    rw [Prog.bind_assoc, Prog.bind_assoc]
    exact congrArg _ (funext fun x => (Prog.bind_assoc _ _ _).symm)
  rw [Coro.Runs, hsplit] at hr
  exact Prog.Returns.resume (p := router s) (a := (.ok result, s₁)) h hr

/-! ## A stream -/

section Stream

variable {deliver : StreamChunk → Py StreamLocals Unit} {onAllFailed closing : Py StreamLocals Unit}
  {completionId : String} {created : ℤ}

/-- The frames of the chunks of `_openai_event_stream`: the role before the first content, and
nothing for a chunk that carries the totals. -/
def deltas (q : RequestArgs) (completionId : String) (created : ℤ) : Bool → List StreamChunk →
    List Frame
  | _, [] => []
  | first, c :: rest =>
    if c.done then deltas q completionId created first rest
    else
      let model := if c.model = "" then q.requestedModel else c.model
      (if first then [.role completionId created model] else [])
        ++ .content completionId created model c.content
          :: deltas q completionId created false rest

/-- What the loop does with a chunk it can count: it adds it to the usage and hands on its frames. -/
structure RelaysAs (A : Ev → Prop) (deliver : StreamChunk → Py StreamLocals Unit)
    (relayed : Bool → List StreamChunk → List Frame) : Prop where
  nil : ∀ first, relayed first [] = []
  cons : ∀ (c : StreamChunk) (s : StreamLocals), c.Measured → (deliver c).wp A s fun t r s' =>
    r = .ok () ∧ s'.toUsage = s.toUsage.absorb c ∧ s'.settled = s.settled ∧
      ∀ rest, relayed s.first (c :: rest) = frames t ++ relayed s'.first rest

variable {relayed : Bool → List StreamChunk → List Frame}

/-- A loop whose chunks all arrive and whose frames are all taken hands on every chunk. -/
theorem wp_forChunks_read (hA : ∀ e, A e → Read e) (h : RelaysAs A deliver relayed)
    {chunks : List StreamChunk} (hmeasured : ∀ c ∈ chunks, c.Measured) (s : StreamLocals) :
    (forChunks deliver none chunks).wp A s fun t r s' =>
      r = .ok () ∧ s'.toUsage = chunks.foldl Usage.absorb s.toUsage ∧ s'.settled = s.settled ∧
        frames t = relayed s.first chunks := by
  induction chunks generalizing s with
  | nil =>
    rw [forChunks, wp_anext_iff]
    intro r hr
    exact ⟨hA _ hr, rfl, rfl, (h.nil _).symm⟩
  | cons c rest ih =>
    rw [forChunks, Coro.wp_bind, wp_anext_iff]
    intro r hr
    obtain rfl : r = .ok () := hA _ hr
    dsimp only
    rw [Coro.wp_bind]
    refine Coro.wp_mono (h.cons c s (hmeasured c (.head _))) fun t r s₁ _ hc => ?_
    obtain ⟨rfl, husage, hsettled, hframes⟩ := hc
    refine Coro.wp_mono (ih (fun d hd => hmeasured d (.tail _ hd)) s₁) fun t' r' s' _ h' => ?_
    obtain ⟨hr', husage', hsettled', hframes'⟩ := h'
    refine ⟨hr', ?_, hsettled'.trans hsettled, ?_⟩
    · rw [husage', husage, List.foldl_cons]
    · rw [hframes, ← hframes', ← frames_append]
      rfl

/-- The counts of a stream can be priced, if there is a provider to price them for. -/
def Usage.Bookable (u : Usage) : Prop :=
  u.finalProvider = "" ∨ u.inputTokens.IsNumber ∧ u.outputTokens.IsNumber

theorem unframed_priceStream [Rounding] {provider model : String}
    {inputTokens outputTokens : PyVal} :
    (priceStream settings provider model inputTokens outputTokens : Py StreamLocals ℚ).Only
      Cmd.Unframed :=
  only_priceStream trivial fun _ => trivial

theorem wp_priceStream_bookable [Rounding] {s : StreamLocals} (hin : s.inputTokens.NonNeg)
    (hout : s.outputTokens.NonNeg) (hbook : s.toUsage.Bookable) :
    (priceStream settings s.finalProvider s.finalModel s.inputTokens s.outputTokens).wp Healthy s
      fun _ r s' => s' = s ∧ ∃ cost, r = .ok cost := by
  by_cases hp : s.finalProvider = ""
  · rw [priceStream, if_pos hp]
    exact ⟨rfl, 0, rfl⟩
  · have hnum := hbook.resolve_left hp
    refine Coro.wp_mono (wp_priceStream_countable (hin.countable_iff.mpr hnum.1)
      (hout.countable_iff.mpr hnum.2)) fun t r s' _ h => ?_
    obtain ⟨hs, cost, hr, -⟩ := h
    exact ⟨hs, cost, hr⟩

theorem wp_priceStream_unbookable [Rounding] {s : StreamLocals} (hbook : ¬ s.toUsage.Bookable) :
    (priceStream settings s.finalProvider s.finalModel s.inputTokens s.outputTokens).wp A s
      fun _ r s' => s' = s ∧ ∃ e, r = .error (.exception e) := by
  obtain ⟨hp, hnum⟩ := not_or.mp hbook
  have hraise : (priceStream settings s.finalProvider s.finalModel s.inputTokens s.outputTokens :
      Py StreamLocals ℚ).wp A s fun _ r _ => ∀ cost, r ≠ .ok cost := by
    rw [priceStream, if_neg hp, Coro.wp_bind]
    refine Coro.wp_mono wp_estimateCost_iff fun t r s' _ h => ?_
    cases r with
    | error e =>
      intro cost hcost
      cases hcost
    | ok cost => exact absurd (isNumber_of_estimateCostUsd ((h.2 cost).mp rfl).2) hnum
  refine Coro.wp_mono (Coro.wp_and wp_priceStream hraise) fun t r s' _ h => ?_
  obtain ⟨⟨hs, -, hexc, -⟩, hne⟩ := h
  cases r with
  | ok cost => exact absurd rfl (hne cost)
  | error e =>
    cases e with
    | exception e => exact ⟨hs, e, rfl⟩
    | _ => cases hexc _ rfl

/-- The bookkeeping of a stream that can be priced goes through. -/
theorem wp_bookkeeping_bookable [Rounding] {s : StreamLocals} {last : String → List Frame}
    (hA : ∀ e, A e → Forgiving e) (hin : s.inputTokens.NonNeg) (hout : s.outputTokens.NonNeg)
    (hbook : s.toUsage.Bookable)
    (hclosing : ∀ s, closing.wp A s fun t r _ => r = .ok () ∧ frames t = last s.finalModel) :
    (bookkeeping settings q closing).wp A s fun t r _ =>
      r = .ok true ∧ frames t = last s.finalModel := by
  rw [bookkeeping, Coro.wp_attempt, Coro.wp_bind, Coro.wp_locals]
  dsimp only
  rw [Coro.wp_bind, settleStreamSpend, Coro.wp_bind]
  refine Coro.wp_mono (Coro.wp_and (Coro.wp_anti (wp_priceStream_bookable hin hout hbook)
    fun e he => (hA e he).1) unframed_priceStream.wp) fun t₁ r s₁ _ h => ?_
  obtain ⟨⟨rfl, cost, rfl⟩, hprice⟩ := h
  dsimp only
  rw [Coro.wp_bind]
  refine Coro.wp_mono (wp_settleChain_forgiving hA) fun t₂ r s₂ _ h => ?_
  obtain ⟨rfl, rfl, hchain⟩ := h
  dsimp only
  rw [Coro.wp_pure]
  dsimp only
  rw [Coro.wp_bind, Coro.wp_update]
  dsimp only
  rw [Coro.wp_bind]
  refine Coro.wp_mono (wp_recordAuditLog_forgiving hA) fun t₃ r s₃ _ h => ?_
  obtain ⟨rfl, rfl, haudit⟩ := h
  dsimp only
  rw [Coro.wp_bind]
  refine Coro.wp_mono (hclosing _) fun t₄ r s₄ _ h => ?_
  obtain ⟨rfl, hlast⟩ := h
  refine Coro.wp_pure.mpr ⟨rfl, ?_⟩
  simp [frames_of_unframed hprice, hchain, haudit, hlast]

/-- A client that reads to the end of a stream whose bookkeeping may fail at Redis and the
database. -/
def Patient (e : Ev) : Prop := Forgiving e ∧ Read e

theorem wp_emit_patient {f : Frame} {s : StreamLocals} :
    (emit f).wp Patient s fun t r s' => t = [⟨.yield f, .ok ()⟩] ∧ r = .ok () ∧ s' = s :=
  wp_emit_read fun _ h => h.2

theorem wp_reportError_patient {s : StreamLocals} {requestId : String} :
    (do
      metric (.requestCount "error")
      emit (streamErrorFrame requestId)
      pure false : Py StreamLocals Bool).wp Patient s fun t r _ =>
        r = .ok false ∧ frames t = [streamErrorFrame requestId] := by
  rw [Coro.wp_bind, wp_metric_iff]
  intro r hr
  obtain rfl : r = .ok () := hr.1.1
  dsimp only [Except.mapError]
  rw [Coro.wp_bind]
  refine Coro.wp_mono wp_emit_patient fun t r s' _ h => ?_
  obtain ⟨rfl, rfl, -⟩ := h
  exact Coro.wp_pure.mpr ⟨rfl, rfl⟩

/-- The clause for an exception of the bookkeeping reports it. -/
theorem wp_onUnbooked_patient [Rounding] {s : StreamLocals} (hs : s.settled = false) :
    (onUnbooked settings q).wp Patient s fun t r _ =>
      r = .ok false ∧ frames t = [streamErrorFrame q.requestId] := by
  have htolerable : ∀ e, Patient e → Tolerable e := fun _ h => h.1.2
  rw [onUnbooked, Coro.wp_bind, wp_metric_iff]
  intro r hr
  obtain rfl : r = .ok () := hr.1.1
  dsimp only [Except.mapError]
  rw [Coro.wp_bind, Coro.wp_locals]
  simp only [hs, Bool.false_eq_true, if_false, List.nil_append]
  rw [Coro.wp_bind]
  refine Coro.wp_mono (mute_tryAbortStream htolerable) fun t r s₁ _ h => ?_
  obtain ⟨rfl, rfl, hmute⟩ := h
  have hnone : frames t = [] := by rw [← filterMap_frame_signals, hmute.signals, List.filterMap_nil]
  refine Coro.wp_mono wp_reportError_patient fun t' r s₂ _ h => ?_
  obtain ⟨rfl, hframes⟩ := h
  refine ⟨rfl, ?_⟩
  rw [← hframes]
  simp [frames_cons, frame?, hnone]

/-- The bookkeeping of a stream that cannot be priced ends in the report of an error. -/
theorem wp_bookkeeping_unbookable [Rounding] {s : StreamLocals} (hs : s.settled = false)
    (hbook : ¬ s.toUsage.Bookable) :
    (bookkeeping settings q closing).wp Patient s fun t r _ =>
      r = .ok false ∧ frames t = [streamErrorFrame q.requestId] := by
  rw [bookkeeping, Coro.wp_attempt, Coro.wp_bind, Coro.wp_locals]
  dsimp only
  rw [Coro.wp_bind, settleStreamSpend, Coro.wp_bind]
  refine Coro.wp_mono (Coro.wp_and (wp_priceStream_unbookable hbook) unframed_priceStream.wp)
    fun t₁ r s₁ _ h => ?_
  obtain ⟨⟨rfl, e, rfl⟩, hprice⟩ := h
  refine Coro.wp_mono (wp_onUnbooked_patient hs) fun t₂ r s₂ _ h => ?_
  obtain ⟨rfl, hframes⟩ := h
  exact ⟨rfl, by simp [frames_of_unframed hprice, hframes]⟩

variable {chunks : List StreamChunk}

/-- The final chunk, if there is one, has no count below zero. -/
def NonNegTotals (chunks : List StreamChunk) : Prop :=
  ∀ c, lastDone chunks = some c → c.inputTokens.NonNeg ∧ c.outputTokens.NonNeg

theorem NonNegTotals.usage (h : NonNegTotals chunks) :
    (totalUsage chunks).inputTokens.NonNeg ∧ (totalUsage chunks).outputTokens.NonNeg := by
  obtain ⟨hin, hout⟩ := absorbed_tokens chunks {}
  rw [totalUsage, hin, hout]
  cases hlast : lastDone chunks with
  | none => exact ⟨PyVal.nonNeg_int le_rfl, PyVal.nonNeg_int le_rfl⟩
  | some c => exact h c hlast

/-- The frames after those of the chunks. -/
def Epilogue (q : RequestArgs) (last : String → List Frame) (u : Usage) (fs : List Frame) : Prop :=
  (u.Bookable → fs = last u.finalModel ++ [.done]) ∧
    (¬ u.Bookable → fs = [streamErrorFrame q.requestId])

theorem wp_generator_patient [Rounding] (last : String → List Frame)
    (h : RelaysAs Patient deliver relayed)
    (hclosing : ∀ s, closing.wp Patient s fun t r _ => r = .ok () ∧ frames t = last s.finalModel)
    (hmeasured : ∀ c ∈ chunks, c.Measured) (hnonneg : NonNegTotals chunks) :
    (generator settings q deliver onAllFailed closing ⟨chunks, none⟩).wp Patient {} fun t r _ =>
      r = .ok () ∧ ∃ fs, frames t = relayed true chunks ++ fs ∧
        Epilogue q last (totalUsage chunks) fs := by
  refine wp_generator_of_phases (wp_forChunks_read (fun _ h => h.2) h hmeasured {}) ?_ ?_ ?_
  · rintro t x s ⟨hx, -⟩
    cases hx
  · rintro t s e - he
    cases he.1.1
  · rintro t s ⟨-, husage, hsettled, hframes⟩ -
    have husage : s.toUsage = totalUsage chunks := husage
    obtain ⟨hin, hout⟩ := hnonneg.usage
    rw [← husage] at hin hout
    rw [Coro.wp_bind]
    by_cases hbook : (totalUsage chunks).Bookable
    · refine Coro.wp_mono (wp_bookkeeping_bookable (fun _ h => h.1) hin hout
        (husage.symm ▸ hbook) hclosing) fun t' r s' _ h => ?_
      obtain ⟨rfl, hlast⟩ := h
      dsimp only
      rw [finish, if_pos rfl, Coro.wp_bind, wp_metric_iff]
      intro r hr
      obtain rfl : r = .ok () := hr.1.1
      refine Coro.wp_mono (wp_emit_read fun _ h => h.2) fun t'' r s'' _ hdone => ?_
      obtain ⟨rfl, rfl, rfl⟩ := hdone
      rw [husage] at hlast
      refine ⟨rfl, _, ?_, fun _ => rfl, fun h => absurd hbook h⟩
      simp [frames_cons, frame?, hframes, hlast]
    · refine Coro.wp_mono (wp_bookkeeping_unbookable hsettled (husage.symm ▸ hbook))
        fun t' r s' _ h => ?_
      obtain ⟨rfl, herror⟩ := h
      refine Coro.wp_pure.mpr ⟨rfl, _, ?_, fun h => absurd h hbook, fun _ => rfl⟩
      simp [frames_cons, frame?, hframes, herror]

/-! ## The endpoints -/

theorem relaysAs_relayChunk : RelaysAs Patient relayChunk fun _ chunks => chunks.map .chunk where
  nil _ := rfl
  cons c s hc := by
    rw [relayChunk, Coro.wp_bind]
    refine Coro.wp_mono (wp_absorb_measured hc) fun t r s₁ _ h => ?_
    obtain ⟨rfl, rfl, rfl⟩ := h
    refine Coro.wp_mono wp_emit_patient fun t r s₂ _ h => ?_
    obtain ⟨rfl, rfl, rfl⟩ := h
    exact ⟨rfl, rfl, rfl, fun _ => rfl⟩

theorem relaysAs_relayDelta : RelaysAs Patient (relayDelta q completionId created)
    (deltas q completionId created) where
  nil _ := rfl
  cons c s hc := by
    rw [relayDelta, Coro.wp_bind]
    refine Coro.wp_mono (wp_absorb_measured hc) fun t r s₁ _ h => ?_
    obtain ⟨rfl, rfl, rfl⟩ := h
    dsimp only
    rw [Coro.wp_ite]
    refine ⟨fun hdone => ⟨rfl, rfl, rfl, fun rest => ?_⟩, fun hdone => ?_⟩
    · rw [deltas, if_pos hdone]
      rfl
    rw [Coro.wp_bind, Coro.wp_locals]
    dsimp only
    rw [Coro.wp_ite]
    refine ⟨fun hfirst => ?_, fun hfirst => ?_⟩
    -- the role goes out before the first content
    · rw [Coro.wp_bind]
      refine Coro.wp_mono wp_emit_patient fun t r s₂ _ h => ?_
      obtain ⟨rfl, rfl, rfl⟩ := h
      dsimp only
      rw [Coro.wp_bind, Coro.wp_update]
      refine Coro.wp_mono wp_emit_patient fun t r s₃ _ h => ?_
      obtain ⟨rfl, rfl, rfl⟩ := h
      refine ⟨rfl, rfl, rfl, fun rest => ?_⟩
      rw [deltas, if_neg hdone]
      dsimp only
      rw [if_pos hfirst]
      rfl
    · refine Coro.wp_mono wp_emit_patient fun t r s₃ _ h => ?_
      obtain ⟨rfl, rfl, rfl⟩ := h
      refine ⟨rfl, rfl, rfl, fun rest => ?_⟩
      rw [deltas, if_neg hdone]
      dsimp only
      rw [if_neg hfirst]
      rw [show s.first = false by simpa using hfirst]
      rfl

/-- What an endpoint sends a client for a stream that runs to its end. -/
def Endpoint.answer (q : RequestArgs) (chunks : List StreamChunk) : Endpoint → List Frame
  | .native => chunks.map .chunk ++ [.done]
  | .openai completionId created =>
    deltas q completionId created true chunks
      ++ [.finish completionId created (totalUsage chunks).finalModel, .done]

theorem wp_whenStarted_patient {body : Py StreamLocals Unit}
    {Q : List Ev → Except Exc Unit → StreamLocals → Prop}
    (h : body.wp Patient {} Q) (hQ : ∀ t r s, Q t r s → Q (⟨.start, true⟩ :: t) r s) :
    (whenStarted body).wp Patient {} Q := by
  rw [whenStarted, Coro.wp_bind, wp_start_iff]
  intro started hstarted
  obtain rfl : started = true := hstarted.2
  exact Coro.wp_mono h fun t r s' _ h => hQ t r s' h

/-- A stream that ends in the report of an error has not sent its answer. -/
theorem answered_iff {u : Usage} {last : String → List Frame} {xs fs gs : List Frame}
    (hfs : Epilogue q last u fs) (hgs : gs = xs ++ (last u.finalModel ++ [.done])) :
    xs ++ fs = gs ↔ u.Bookable := by
  by_cases hbook : u.Bookable
  · rw [hfs.1 hbook, hgs]
    exact iff_of_true rfl hbook
  · rw [hfs.2 hbook, hgs, ← List.append_assoc]
    refine iff_of_false (fun h => ?_) hbook
    have hlast := congrArg List.getLast? h
    simp [streamErrorFrame] at hlast

/-- An endpoint sends what was streamed, and all of the answer exactly if it can be priced. -/
theorem wp_endpoint_patient [Rounding] (endpoint : Endpoint)
    (hmeasured : ∀ c ∈ chunks, c.Measured) (hnonneg : NonNegTotals chunks) :
    (endpoint.run settings q ⟨chunks, none⟩).wp Patient {} fun t r _ =>
      (r = .ok () ∧ frames t = endpoint.answer q chunks) ↔ (totalUsage chunks).Bookable := by
  cases endpoint with
  | native =>
    refine wp_whenStarted_patient (Coro.wp_mono (wp_generator_patient (fun _ => [])
      relaysAs_relayChunk (fun _ => ⟨rfl, rfl⟩) hmeasured hnonneg) fun t r s' _ h => ?_)
        fun _ _ _ => id
    obtain ⟨rfl, fs, hframes, hfs⟩ := h
    rw [and_iff_right rfl, hframes]
    exact answered_iff hfs rfl
  | openai completionId created =>
    refine wp_whenStarted_patient (Coro.wp_mono (wp_generator_patient
      (fun model => [.finish completionId created model]) relaysAs_relayDelta
      (fun s => ?_) hmeasured hnonneg) fun t r s' _ h => ?_) fun _ _ _ => id
    · rw [relayFinish, Coro.wp_bind, Coro.wp_locals]
      refine Coro.wp_mono wp_emit_patient fun t r s' _ h => ?_
      obtain ⟨rfl, rfl, rfl⟩ := h
      exact ⟨rfl, rfl⟩
    · obtain ⟨rfl, fs, hframes, hfs⟩ := h
      rw [and_iff_right rfl, hframes]
      exact answered_iff hfs rfl

end Stream

/-- Once the provider has answered with counts that are not negative, the answer reaches its caller
whatever Redis and the database do exactly if its price can be told, which takes counts that a
`float` can hold: then `_serve_chat` returns the response as it is, and each stream endpoint sends
everything that was streamed, then `[DONE]`, and no error. -/
theorem paid_answer_delivered_iff [Rounding] :
    (∀ (router : Py σ ChatResponse) (s s₁ s' : σ) (result : ChatResponse) (t₁ t₂ : List Ev)
      (r : Except Exc ChatResponse), Coro.Runs router s t₁ (.ok result) s₁ →
      result.inputTokens.NonNeg → result.outputTokens.NonNeg →
      Coro.Runs (serveChat settings router q) s (t₁ ++ t₂) r s' → (∀ e ∈ t₂, Forgiving e) →
        (r = .ok result ↔ result.inputTokens.IsNumber ∧ result.outputTokens.IsNumber)) ∧
    ∀ (endpoint : Endpoint) (chunks : List StreamChunk) (t : List Ev) (r : Except Exc Unit)
      (s' : StreamLocals), (∀ c ∈ chunks, c.Measured) → NonNegTotals chunks →
      Coro.Runs (endpoint.run settings q ⟨chunks, none⟩) {} t r s' → (∀ e ∈ t, Patient e) →
        ((r = .ok () ∧ frames t = endpoint.answer q chunks) ↔ (totalUsage chunks).Bookable) := by
  refine ⟨fun router s s₁ s' result t₁ t₂ r hrouter hin hout hrun hA => ?_,
    fun endpoint chunks t r s' hmeasured hnonneg hrun hA =>
      (wp_endpoint_patient endpoint hmeasured hnonneg).apply hrun hA⟩
  have hwp : (serveChat settings (pure result : Py σ ChatResponse) q).wp Forgiving s₁
      fun _ r _ => r = .ok result ↔ result.inputTokens.IsNumber ∧ result.outputTokens.IsNumber := by
    refine wp_serveChat_of (R := fun _ r _ => r = .ok result) (Coro.wp_pure.mpr rfl) ?_ ?_ nofun
      nofun
    · rintro _ _ _ ⟨⟩ -
      exact wp_serveResponse_forgiving hin hout
    · intro _ _ _ _ e he
      cases he.1
  exact hwp.apply (serveChat_resume hrouter hrun) hA

/-- A run during an outage of Redis and the database. -/
def duringOutage {α : Type} (p : Prog gateway α) : List Ev × α × Unit :=
  Prog.drive (fun _ c => (outage c, ())) p ()

theorem patient_duringOutage {α : Type} (p : Prog gateway α) :
    ∀ e ∈ (duringOutage p).1, Patient e :=
  Prog.forall_drive (fun _ c => by
    refine ⟨⟨?_, (attended_outage c).1⟩, (attended_outage c).2⟩
    cases c <;> trivial) p ()

section Outage

variable (result : ChatResponse) (chunks : List StreamChunk)

/-- The bookkeeping of an answer, with Redis and the database down. -/
def answeredInOutage : List Ev × (Except Exc ChatResponse × Unit) × Unit :=
  duringOutage ((serveChat { hashKey := id } (pure result) heldStream : Py Unit _) ())

/-- A stream on the OpenAI-compatible endpoint, with Redis and the database down. -/
def streamedInOutage : List Ev × (Except Exc Unit × StreamLocals) × Unit :=
  duringOutage (Endpoint.run { hashKey := id } heldStream (.openai "id" 0) ⟨chunks, none⟩ {})

theorem runs_answeredInOutage :
    Coro.Runs (serveChat { hashKey := id } (pure result) heldStream : Py Unit _) ()
      (answeredInOutage result).1 (answeredInOutage result).2.1.1 (answeredInOutage result).2.1.2 :=
  Prog.returns_drive _ _ _

theorem runs_streamedInOutage :
    Coro.Runs (Endpoint.run { hashKey := id } heldStream (.openai "id" 0) ⟨chunks, none⟩) {}
      (streamedInOutage chunks).1 (streamedInOutage chunks).2.1.1
      (streamedInOutage chunks).2.1.2 :=
  Prog.returns_drive _ _ _

end Outage

theorem isNumber_answered : answered.inputTokens.IsNumber ∧ answered.outputTokens.IsNumber := by
  decide +kernel

theorem bookable_wholeText : (totalUsage wholeText).Bookable := by
  refine .inr ?_
  decide +kernel

theorem nonNegTotals_wholeText : NonNegTotals wholeText := by
  intro c hc
  obtain rfl : _ = c := Option.some.inj hc
  exact ⟨PyVal.nonNeg_int (by decide), PyVal.nonNeg_int (by decide)⟩

theorem paid_answer_delivered_iff_outage :
    (answeredInOutage answered).2.1.1 = .ok answered ∧
      (streamedInOutage wholeText).2.1.1 = .ok () ∧
      frames (streamedInOutage wholeText).1
        = Endpoint.answer heldStream wholeText (.openai "id" 0) :=
  ⟨(paid_answer_delivered_iff.1 (pure answered) () () _ answered [] _ _ (.nil _)
      (PyVal.nonNeg_int (by decide)) (PyVal.nonNeg_int (by decide))
      (runs_answeredInOutage answered) fun e he =>
        (patient_duringOutage (serveChat { hashKey := id } (pure answered) heldStream ()) e he).1).mpr
        isNumber_answered,
    ((paid_answer_delivered_iff (σ := Unit)).2 _ wholeText _ _ _ billed_wholeText.measured
      nonNegTotals_wholeText (runs_streamedInOutage wholeText) (patient_duringOutage _)).mpr
        bookable_wholeText⟩

/-- With Redis and the database down, the answer is paid for and does not reach its caller. -/
structure LostAnswer (result : ChatResponse) : Prop where
  nonNeg : result.inputTokens.NonNeg ∧ result.outputTokens.NonNeg
  run : Coro.Runs (serveChat { hashKey := id } (pure result) heldStream : Py Unit _) ()
    (answeredInOutage result).1 (answeredInOutage result).2.1.1 (answeredInOutage result).2.1.2
  forgiving : ∀ e ∈ (answeredInOutage result).1, Forgiving e
  lost : ¬ (answeredInOutage result).2.1.1 = .ok result

/-- With Redis and the database down, the stream is paid for and not sent as it should be. -/
structure LostStream (chunks : List StreamChunk) : Prop where
  measured : ∀ c ∈ chunks, c.Measured
  nonNeg : NonNegTotals chunks
  run : Coro.Runs (Endpoint.run { hashKey := id } heldStream (.openai "id" 0) ⟨chunks, none⟩) {}
    (streamedInOutage chunks).1 (streamedInOutage chunks).2.1.1 (streamedInOutage chunks).2.1.2
  patient : ∀ e ∈ (streamedInOutage chunks).1, Patient e
  lost : ¬ ((streamedInOutage chunks).2.1.1 = .ok () ∧
    frames (streamedInOutage chunks).1 = Endpoint.answer heldStream chunks (.openai "id" 0))

theorem lostAnswer_endless : LostAnswer endless where
  nonNeg := ⟨PyVal.nonNeg_int (by decide +kernel), PyVal.nonNeg_int (by decide)⟩
  run := runs_answeredInOutage endless
  forgiving e he := (patient_duringOutage _ e he).1
  lost h := by
    have hlost : (answeredInOutage endless).2.1.1.isOk = false := by decide +kernel
    rw [h] at hlost
    cases hlost

theorem lostStream_endlessStream : LostStream endlessStream.chunks where
  measured := by simp [endlessStream, StreamChunk.Measured, PyVal.len]
  nonNeg c hc := by
    obtain rfl : _ = c := Option.some.inj hc
    exact ⟨PyVal.nonNeg_int (by decide +kernel), PyVal.nonNeg_int (by decide)⟩
  run := runs_streamedInOutage endlessStream.chunks
  patient := patient_duringOutage _
  lost := by
    rintro ⟨-, h⟩
    have herror : (frames (streamedInOutage endlessStream.chunks).1).any Frame.isError = true := by
      decide +kernel
    rw [h] at herror
    revert herror
    decide +kernel

/-- A count that no `float` can hold loses the answer: the request that is not streamed ends in an
exception, and the stream in the report of an error. -/
theorem overflowing_count_lost : LostAnswer endless ∧ LostStream endlessStream.chunks :=
  ⟨lostAnswer_endless, lostStream_endlessStream⟩

end LlmGateway
