import LlmGateway.Main.RoutedRequest

/-!
# What the books of a request rest on

Metrics, pricing, Redis, the database, the providers and the client may all fail, at any step. Still
nothing is put on the books of a request that it did not earn: `vouched` says that each settlement is
for nothing or for tokens at the price of a model this request has called, and that each row it sends
to the audit log is its own and either is for nothing or repeats a settlement made before, with the
tokens the price was taken for.
-/

namespace LlmGateway

open Coroutine
open Conservation (settledAt settlements settledAt_of_settles)

variable {σ α β : Type} {s : σ} {settings : Settings} {q : RequestArgs} {A : Ev → Prop}
  {t t' : List Ev}

/-! ## Bills and rows -/

/-- The models that a request may be billed for. -/
abbrev Models : Type := String → String → Prop

/-- What a request may be settled at: nothing, or the price of tokens of one of the models. -/
def Billable (settings : Settings) (H : Models) (x : String × ℚ) : Prop :=
  x = ("", 0) ∨ ∃ model inputTokens outputTokens, H x.1 model ∧
    estimateCostUsd settings.pricing x.1 model inputTokens outputTokens = .ok x.2

/-- A row of the request: it is for nothing, or it repeats what has been paid, with the tokens that
were priced. -/
structure Attests (settings : Settings) (H : Models) (apiKey requestedModel requestId : String)
    (paid : List (String × ℚ)) (row : AuditLogEntry) : Prop where
  requestId : row.requestId = requestId
  apiKeyHash : row.apiKeyHash = settings.hashKey apiKey
  requestedModel : row.requestedModel = requestedModel
  charge : row.provider = "" ∧ row.costUsd = 0 ∨ (row.provider, row.costUsd) ∈ paid ∧
    ∃ model, H row.provider model ∧
      estimateCostUsd settings.pricing row.provider model row.inputTokens row.outputTokens
        = .ok row.costUsd

/-- Each row that is sent to the audit log repeats what was paid before it, in the trace or among
`paid`, and each settlement of the trace is one that may be made. -/
structure Vouched (settings : Settings) (H : Models) (q : RequestArgs) (paid : List (String × ℚ))
    (t : List Ev) : Prop where
  rows : Backed (fun e => settlements [e]) (fun paid e => ∀ row, e.cmd = .commitAudit row →
    Attests settings H q.apiKey q.requestedModel q.requestId paid row) paid t
  billed : ∀ x ∈ settlements t, Billable settings H x

/-- The trace is vouched for wherever `xs` has been paid. -/
def VouchedAfter (settings : Settings) (H : Models) (q : RequestArgs) (xs : List (String × ℚ))
    (t : List Ev) : Prop :=
  ∀ paid, xs ⊆ paid → Vouched settings H q paid t

variable {H H' : Models} {xs paid : List (String × ℚ)}

theorem Billable.mono {x : String × ℚ} (h : Billable settings H x)
    (hH : ∀ p m, H p m → H' p m) : Billable settings H' x := by
  obtain h | ⟨model, i, o, hm, hcost⟩ := h
  · exact .inl h
  · exact .inr ⟨model, i, o, hH _ _ hm, hcost⟩

theorem Attests.mono {apiKey requestedModel requestId : String} {paid' : List (String × ℚ)}
    {row : AuditLogEntry} (h : Attests settings H apiKey requestedModel requestId paid row)
    (hH : ∀ p m, H p m → H' p m) (hpaid : paid ⊆ paid') :
    Attests settings H' apiKey requestedModel requestId paid' row := by
  refine ⟨h.requestId, h.apiKeyHash, h.requestedModel, h.charge.imp_right ?_⟩
  rintro ⟨hmem, model, hm, hcost⟩
  exact ⟨hpaid hmem, model, hH _ _ hm, hcost⟩

theorem settlements_append (t t' : List Ev) :
    settlements (t ++ t') = settlements t ++ settlements t' := by
  rw [settlements, calls_append, List.filterMap_append]
  rfl

theorem flatMap_settlements (t : List Ev) :
    t.flatMap (fun e => settlements [e]) = settlements t := by
  induction t with
  | nil => rfl
  | cons e t ih =>
    rw [List.flatMap_cons, ih, ← settlements_append]
    rfl

theorem vouchedAfter_append (h : VouchedAfter settings H q xs t)
    (h' : VouchedAfter settings H q (xs ++ settlements t) t') :
    VouchedAfter settings H q xs (t ++ t') := by
  intro paid hpaid
  obtain ⟨hrows, hbilled⟩ := h paid hpaid
  obtain ⟨hrows', hbilled'⟩ := h' (paid ++ settlements t) (List.append_subset.mpr
    ⟨List.subset_append_of_subset_left _ hpaid, List.subset_append_right _ _⟩)
  refine ⟨backed_append.mpr ⟨hrows, ?_⟩, ?_⟩
  · rwa [flatMap_settlements]
  · rw [settlements_append]
    exact List.forall_mem_append.mpr ⟨hbilled, hbilled'⟩

theorem VouchedAfter.mono {ys : List (String × ℚ)} (h : VouchedAfter settings H q xs t)
    (hxs : xs ⊆ ys) : VouchedAfter settings H q ys t := fun paid hpaid =>
  h paid (List.Subset.trans hxs hpaid)

theorem composes_vouchedAfter : Coro.Composes (VouchedAfter settings H q xs) where
  nil _ _ := ⟨trivial, by simp [settlements]⟩
  append _ _ h h' := vouchedAfter_append h (h'.mono (List.subset_append_left _ _))

theorem vouchedAfter_of_plain (h : ∀ e ∈ t, e.cmd.Plain) : VouchedAfter settings H q xs t := by
  refine fun paid _ => ⟨backed_of_forall fun e he _ _ row hrow => ?_, ?_⟩
  · have hplain := (h e he).2
    rw [hrow] at hplain
    exact (hplain trivial).elim
  · simp [settlements, calls_of_unrecorded fun e he => (h e he).1]

/-! ## Parts of the bookkeeping -/

/-- Started with locals `s`, `m` leaves them alone, and its runs are vouched for. -/
def Vouching (settings : Settings) (H : Models) (q : RequestArgs) (xs : List (String × ℚ)) (s : σ)
    (m : Py σ α) : Prop :=
  ∀ A, m.wp A s fun t _ s' => s' = s ∧ VouchedAfter settings H q xs t

namespace Vouching

theorem of_plain {m : Py σ α} (hkeeps : m.Keeps) (hplain : m.Only Cmd.Plain) :
    Vouching settings H q xs s m := fun A =>
  Coro.wp_mono (Coro.wp_and (hkeeps A s) hplain.wp) fun _ _ _ _ h =>
    ⟨h.1, vouchedAfter_of_plain h.2⟩

theorem bind {m : Py σ α} {f : α → Py σ β} (hm : Vouching settings H q xs s m)
    (hf : ∀ a, Vouching settings H q xs s (f a)) : Vouching settings H q xs s (m >>= f) := by
  intro A
  rw [Coro.wp_bind]
  refine Coro.wp_mono (hm A) fun t r s' _ h => ?_
  obtain ⟨rfl, ht⟩ := h
  cases r with
  | error x => exact ⟨rfl, ht⟩
  | ok a =>
    refine Coro.wp_mono (hf a A) fun t' _ _ _ h' => ?_
    exact ⟨h'.1, composes_vouchedAfter.append _ _ ht h'.2⟩

theorem ite {c : Prop} [Decidable c] {m m' : Py σ α} (h : c → Vouching settings H q xs s m)
    (h' : ¬ c → Vouching settings H q xs s m') : Vouching settings H q xs s (if c then m else m') := by
  split
  · exact h ‹_›
  · exact h' ‹_›

theorem attempt {m : Py σ α} {g : Exc → Option (Py σ α)} (hm : Vouching settings H q xs s m)
    (hg : ∀ x c, g x = some c → Vouching settings H q xs s c) :
    Vouching settings H q xs s (m.attempt g) := by
  intro A
  rw [Coro.wp_attempt]
  refine Coro.wp_mono (hm A) fun t r s' _ h => ?_
  obtain ⟨rfl, ht⟩ := h
  cases r with
  | ok a => exact ⟨rfl, ht⟩
  | error x =>
    dsimp only
    split
    · next c hc =>
      refine Coro.wp_mono (hg x c hc A) fun t' _ _ _ h' => ?_
      exact ⟨h'.1, composes_vouchedAfter.append _ _ ht h'.2⟩
    · exact ⟨rfl, ht⟩

theorem tryExcept {m : Py σ α} {g : PyError → Py σ α} (hm : Vouching settings H q xs s m)
    (hg : ∀ e, Vouching settings H q xs s (g e)) :
    Vouching settings H q xs s (LlmGateway.tryExcept m g) := by
  refine .attempt hm fun x c hc => ?_
  cases x with
  | exception e =>
    obtain rfl := Option.some.inj hc
    exact hg e
  | _ => cases hc

theorem locals_bind {f : σ → Py σ α} (hf : Vouching settings H q xs s (f s)) :
    Vouching settings H q xs s (Coro.locals >>= f) := by
  intro A
  rw [Coro.wp_bind, Coro.wp_locals]
  exact hf A

end Vouching

/-- A settlement that may be made is vouched for, and the rows after it may repeat it. -/
theorem wp_settleChain_vouched (xs : List (String × ℚ)) {provider : String} {cost : ℚ}
    (hx : Billable settings H (provider, cost)) :
    (settleChain settings q.apiKey q.reservations provider cost).wp A s fun t _ s' =>
      s' = s ∧ VouchedAfter settings H q xs t ∧ settlements t = [(provider, cost)] := by
  refine Coro.wp_mono (Coro.wp_and calls_settleChain
    (only_settleChain fun _ h => h.settling.not_auditing).wp) fun t r s' _ h => ?_
  obtain ⟨⟨rfl, -, hsettled⟩, hquiet⟩ := h
  refine ⟨rfl, fun paid _ => ⟨backed_of_forall fun e he _ _ row hrow => ?_, ?_⟩,
    hsettled.settlements_eq⟩
  · have hnot := hquiet e he
    rw [hrow] at hnot
    exact (hnot trivial).elim
  · rw [hsettled.settlements_eq]
    exact List.forall_mem_singleton.mpr hx

theorem vouching_settleChain {provider : String} {cost : ℚ}
    (hx : Billable settings H (provider, cost)) :
    Vouching settings H q xs s
      (settleChain settings q.apiKey q.reservations provider cost) := fun _ =>
  Coro.wp_mono (wp_settleChain_vouched xs hx) fun _ _ _ _ h => ⟨h.1, h.2.1⟩

theorem Vouching.settleChain_bind {provider : String} {cost : ℚ} {f : Unit → Py σ α}
    (hx : Billable settings H (provider, cost))
    (hf : Vouching settings H q ((provider, cost) :: xs) s (f ())) :
    Vouching settings H q xs s
      (settleChain settings q.apiKey q.reservations provider cost >>= f) := by
  intro A
  rw [Coro.wp_bind]
  refine Coro.wp_mono (wp_settleChain_vouched xs hx) fun t r s' _ h => ?_
  obtain ⟨rfl, ht, hpaid⟩ := h
  cases r with
  | error x => exact ⟨rfl, ht⟩
  | ok u =>
    refine Coro.wp_mono (hf A) fun t' _ _ _ h' => ⟨h'.1, vouchedAfter_append ht ?_⟩
    rw [hpaid]
    exact h'.2.mono (List.cons_subset.mpr ⟨List.mem_append_right _ (List.mem_singleton_self _),
      List.subset_append_left _ _⟩)

/-- A row for nothing, or one that repeats what has been paid, is vouched for. -/
theorem vouching_recordAuditLog {row : AuditFields} (hid : row.requestId = q.requestId)
    (hmodel : row.requestedModel = q.requestedModel)
    (hcharge : row.provider = "" ∧ row.costUsd = 0 ∨ (row.provider, row.costUsd) ∈ xs ∧
      ∃ model, H row.provider model ∧ estimateCostUsd settings.pricing row.provider model
        row.inputTokens row.outputTokens = .ok row.costUsd) :
    Vouching settings H q xs s (recordAuditLog settings q.apiKey row) := by
  intro A
  have honly : (recordAuditLog settings q.apiKey row : Py σ Unit).Only fun c : Cmd => c.Auditing ∧
      ∀ row, c = .commitAudit row →
        Attests settings H q.apiKey q.requestedModel q.requestId xs row := by
    refine only_tryExcept (.bind ?_ fun _ => .ensure (.bind ?_ fun team => ?_) ?_) fun _ => .pure
    · exact .bind (.perform ⟨trivial, by rintro row ⟨⟩⟩) fun _ => .ofExcept
    · exact .bind (.perform ⟨trivial, by rintro row ⟨⟩⟩) fun _ => .ofExcept
    · refine .bind (.perform ⟨trivial, ?_⟩) fun _ => .ofExcept
      rintro _ ⟨⟩
      exact ⟨hid, rfl, hmodel, hcharge⟩
    · exact .bind (.perform ⟨trivial, by rintro row ⟨⟩⟩) fun _ => .ofExcept
  refine Coro.wp_mono (Coro.wp_and wp_recordAuditLog honly.wp) fun t r s' _ h => ?_
  obtain ⟨⟨rfl, -⟩, ht⟩ := h
  refine ⟨rfl, fun paid hpaid => ⟨backed_of_forall fun e he bs hbs row hrow => ?_, ?_⟩⟩
  · exact ((ht e he).2 row hrow).mono (fun _ _ h => h) (List.Subset.trans hpaid hbs)
  · simp [settlements, calls_of_unrecorded fun e he => (ht e he).1.unrecorded]

/-- What is done with a price rests on the tokens it was taken for. -/
theorem Vouching.estimateCost_bind {provider model : String} {inputTokens outputTokens : PyVal}
    {f : ℚ → Py σ α} (hf : ∀ cost, estimateCostUsd settings.pricing provider model inputTokens
      outputTokens = .ok cost → Vouching settings H q xs s (f cost)) :
    Vouching settings H q xs s
      (estimateCost settings provider model inputTokens outputTokens >>= f) := by
  intro A
  rw [Coro.wp_bind]
  have hplain : (estimateCost settings provider model inputTokens outputTokens : Py σ ℚ).Only
      Cmd.Plain := .bind (only_pricing ⟨trivial, id⟩) fun _ => .ofExcept
  refine Coro.wp_mono (Coro.wp_and wp_estimateCost_iff hplain.wp) fun t r s' _ h => ?_
  obtain ⟨⟨rfl, hr⟩, ht⟩ := h
  cases r with
  | error x => exact ⟨rfl, vouchedAfter_of_plain ht⟩
  | ok cost =>
    refine Coro.wp_mono (hf cost ((hr cost).mp rfl).2 A) fun t' _ _ _ h' => ?_
    exact ⟨h'.1, composes_vouchedAfter.append _ _ (vouchedAfter_of_plain ht) h'.2⟩

theorem vouching_metric {m : Metric} : Vouching settings H q xs s (metric m) :=
  .of_plain keeps_metric (only_metric ⟨trivial, id⟩)

theorem vouching_recordUsage {provider model : String} {inputTokens outputTokens : PyVal}
    {costUsd : ℚ} : Vouching settings H q xs s
      (recordUsage provider model inputTokens outputTokens costUsd) :=
  .of_plain (fun _ _ => Coro.wp_mono wp_recordUsage_iff fun _ _ _ _ h => h.1)
    (only_recordUsage fun _ => ⟨trivial, id⟩)

/-! ## Requests that are not streamed -/

theorem vouching_serveNothing :
    Vouching settings H q xs s (serveNothing settings q : Py σ α) :=
  .settleChain_bind (.inl rfl) <| .bind vouching_metric fun _ =>
    .bind (vouching_recordAuditLog rfl rfl (.inl ⟨rfl, rfl⟩)) fun _ =>
      .of_plain .raise only_throw

theorem vouching_serveResponse {result : ChatResponse} (hr : H result.provider result.model) :
    Vouching settings H q xs s (serveResponse settings q result) := by
  refine .bind vouching_metric fun _ => .estimateCost_bind fun cost hcost =>
    .settleChain_bind (.inr ⟨_, _, _, hr, hcost⟩) <| .bind vouching_recordUsage fun _ =>
      .bind (vouching_recordAuditLog rfl rfl (.inr ⟨?_, _, hr, hcost⟩)) fun _ => .of_plain .pure .pure
  exact List.mem_cons_self ..

/-! ## Streams -/

section Stream

variable {s : StreamLocals} {deliver : StreamChunk → Py StreamLocals Unit}
  {allFailed closing : Py StreamLocals Unit} {stream : RouterStream}

/-- The usage is of one of the models, or of none. -/
def Usage.Of (H : Models) (u : Usage) : Prop :=
  u.finalProvider = "" ∨ H u.finalProvider u.finalModel

theorem vouching_settleStreamOnAbort {τ : Type} {s : τ} {u : Usage} (hu : u.Of H) :
    Vouching settings H q xs s (settleStreamOnAbort settings q u.finalProvider u.finalModel
      u.inputTokens u.streamedChars) := by
  refine .ite (fun _ => vouching_settleChain (.inl rfl)) fun hp => ?_
  have hm := hu.resolve_left hp
  refine .estimateCost_bind fun cost hcost => .settleChain_bind (.inr ⟨_, _, _, hm, hcost⟩) <|
    .bind vouching_recordUsage fun _ => vouching_recordAuditLog rfl rfl (.inr ⟨?_, _, hm, hcost⟩)
  exact List.mem_cons_self ..

theorem vouching_abortStream (hs : s.Of H) :
    Vouching settings H q xs s (abortStream settings q) :=
  .locals_bind (vouching_settleStreamOnAbort hs)

theorem vouching_tryAbortStream (hs : s.Of H) :
    Vouching settings H q xs s (tryAbortStream settings q) :=
  .locals_bind (.tryExcept (vouching_settleStreamOnAbort hs) fun _ => .of_plain .pure .pure)

theorem vouching_emit {τ : Type} {s : τ} {f : Frame} : Vouching settings H q xs s (emit f) :=
  .of_plain (.bind .perform fun _ => .ofExcept) (only_emit ⟨trivial, id⟩)

theorem vouching_onDisconnect {x : Exc} (hs : s.Of H) :
    Vouching settings H q xs s (onDisconnect settings q x : Py StreamLocals α) :=
  .bind vouching_metric fun _ => .bind (vouching_abortStream hs) fun _ => .of_plain .raise .raise

theorem vouching_onUnexpected (hs : s.Of H) :
    Vouching settings H q xs s (onUnexpected settings q) :=
  .bind vouching_metric fun _ => .bind vouching_metric fun _ =>
    .bind (vouching_tryAbortStream hs) fun _ => vouching_emit

theorem vouching_onUnbooked (hs : s.Of H) :
    Vouching settings H q xs s (onUnbooked settings q) := by
  have hreport : Vouching settings H q xs s (do
      metric (.requestCount "error")
      emit (streamErrorFrame q.requestId)
      pure false : Py StreamLocals Bool) :=
    .bind vouching_metric fun _ => .bind vouching_emit fun _ => .of_plain .pure .pure
  exact .bind vouching_metric fun _ => .locals_bind <| .ite (fun _ => hreport) fun _ =>
    .bind (vouching_tryAbortStream hs) fun _ => hreport

theorem vouching_onAllFailed (hs : s.Of H) : Vouching settings H q xs s (onAllFailed settings q) :=
  .bind vouching_metric fun _ => .bind (vouching_recordAuditLog rfl rfl (.inl ⟨rfl, rfl⟩)) fun _ =>
    .bind (vouching_abortStream hs) fun _ => vouching_emit

theorem vouching_onAllFailedOpenai (hs : s.Of H) :
    Vouching settings H q xs s (onAllFailedOpenai settings q) :=
  .bind vouching_metric fun _ => .bind (vouching_abortStream hs) fun _ => vouching_emit

theorem vouching_loopClause {x : Exc} (hs : s.Of H)
    (hfailed : Vouching settings H q xs s allFailed) :
    Vouching settings H q xs s (loopClause settings q allFailed x) := by
  unfold loopClause
  split
  · exact vouching_onDisconnect hs
  · exact vouching_onDisconnect hs
  · exact hfailed
  · exact vouching_onUnexpected hs
  · exact .of_plain .raise .raise

/-- What a finished stream is priced at: nothing where nobody has served. -/
theorem wp_priceStream_vouched {u : Usage} :
    (priceStream settings u.finalProvider u.finalModel u.inputTokens u.outputTokens).wp A s
      fun t r s' => s' = s ∧ (∀ e ∈ t, e.cmd.Plain) ∧ ∀ cost, r = .ok cost →
        u.finalProvider = "" ∧ cost = 0 ∨ u.finalProvider ≠ "" ∧ estimateCostUsd settings.pricing
          u.finalProvider u.finalModel u.inputTokens u.outputTokens = .ok cost := by
  rw [priceStream, Coro.wp_ite]
  refine ⟨fun hp => ⟨rfl, by simp, ?_⟩, fun hp => ?_⟩
  · rintro _ ⟨⟩
    exact .inl ⟨hp, rfl⟩
  have hplain : (estimateCost settings u.finalProvider u.finalModel u.inputTokens u.outputTokens :
      Py StreamLocals ℚ).Only Cmd.Plain := .bind (only_pricing ⟨trivial, id⟩) fun _ => .ofExcept
  rw [Coro.wp_bind]
  refine Coro.wp_mono (Coro.wp_and wp_estimateCost_iff hplain.wp) fun t r s' _ h => ?_
  obtain ⟨⟨rfl, hr⟩, ht⟩ := h
  cases r with
  | error x => exact ⟨rfl, ht, by rintro _ ⟨⟩⟩
  | ok cost =>
    dsimp only
    rw [Coro.wp_bind]
    have hpublish : (recordUsage u.finalProvider u.finalModel u.inputTokens u.outputTokens cost :
        Py StreamLocals Unit).Only Cmd.Plain := only_recordUsage fun _ => ⟨trivial, id⟩
    refine Coro.wp_mono (Coro.wp_and wp_recordUsage_iff hpublish.wp) fun t' r' s₂ _ h' => ?_
    obtain ⟨⟨rfl, -⟩, ht'⟩ := h'
    cases r' with
    | error x => exact ⟨rfl, List.forall_mem_append.mpr ⟨ht, ht'⟩, by rintro _ ⟨⟩⟩
    | ok x =>
      refine Coro.wp_pure.mpr ⟨rfl, ?_, ?_⟩
      · rw [List.append_nil]
        exact List.forall_mem_append.mpr ⟨ht, ht'⟩
      · rintro _ ⟨⟩
        exact .inr ⟨hp, ((hr cost).mp rfl).2⟩

/-- Once a finished stream is settled, its row may repeat the settlement. -/
theorem wp_settleStreamSpend_vouched {u : Usage} (hu : u.Of H) :
    (settleStreamSpend settings q u.finalProvider u.finalModel u.inputTokens u.outputTokens).wp A s
      fun t r s' => s' = s ∧ VouchedAfter settings H q [] t ∧ ∀ cost, r = .ok cost →
        u.finalProvider = "" ∧ cost = 0 ∨ (u.finalProvider, cost) ∈ settlements t ∧
          ∃ model, H u.finalProvider model ∧ estimateCostUsd settings.pricing u.finalProvider model
            u.inputTokens u.outputTokens = .ok cost := by
  rw [settleStreamSpend, Coro.wp_bind]
  refine Coro.wp_mono wp_priceStream_vouched fun t r s' _ h => ?_
  obtain ⟨rfl, ht, hcost⟩ := h
  cases r with
  | error x => exact ⟨rfl, vouchedAfter_of_plain ht, by rintro _ ⟨⟩⟩
  | ok cost =>
    have hprice : u.finalProvider = "" ∧ cost = 0 ∨ ∃ model, H u.finalProvider model ∧
        estimateCostUsd settings.pricing u.finalProvider model u.inputTokens u.outputTokens
          = .ok cost :=
      (hcost cost rfl).imp_right fun h => ⟨_, hu.resolve_left h.1, h.2⟩
    have hx : Billable settings H (u.finalProvider, cost) := by
      obtain ⟨hp, rfl⟩ | ⟨model, hm, hcost⟩ := hprice
      · rw [hp]
        exact .inl rfl
      · exact .inr ⟨_, _, _, hm, hcost⟩
    dsimp only
    rw [Coro.wp_bind]
    refine Coro.wp_mono (wp_settleChain_vouched [] hx) fun t' r' s₂ _ h' => ?_
    obtain ⟨rfl, ht', hpaid⟩ := h'
    have hboth := composes_vouchedAfter.append _ _ (vouchedAfter_of_plain ht) ht'
    cases r' with
    | error x => exact ⟨rfl, hboth, by rintro _ ⟨⟩⟩
    | ok x =>
      refine Coro.wp_pure.mpr ⟨rfl, ?_, ?_⟩
      · rwa [List.append_nil]
      · rintro _ ⟨⟩
        refine hprice.imp_right fun h => ⟨?_, h⟩
        rw [List.append_nil, settlements_append, hpaid]
        exact List.mem_append_right _ (List.mem_singleton_self _)

/-- The body of the bookkeeping sets a flag between the settlement and the row. -/
theorem wp_bookkeeping_vouched (hs : s.Of H)
    (hclosing : ∀ xs s, Vouching settings H q xs s closing) :
    (bookkeeping settings q closing).wp A s fun t _ _ => VouchedAfter settings H q [] t := by
  rw [bookkeeping, Coro.wp_attempt]
  have hbody : (do
      let s : StreamLocals ← Coro.locals
      let cost ← settleStreamSpend settings q s.finalProvider s.finalModel s.inputTokens
        s.outputTokens
      Coro.update fun s : StreamLocals => { s with settled := true }
      recordAuditLog settings q.apiKey {
        requestedModel := q.requestedModel, outcome := "success", provider := s.finalProvider,
        inputTokens := s.inputTokens, outputTokens := s.outputTokens, costUsd := cost,
        requestId := q.requestId }
      closing
      pure true : Py StreamLocals Bool).wp A s fun t _ s' =>
        s'.toUsage = s.toUsage ∧ VouchedAfter settings H q [] t := by
    rw [Coro.wp_bind, Coro.wp_locals]
    dsimp only
    rw [Coro.wp_bind]
    refine Coro.wp_mono (wp_settleStreamSpend_vouched hs) fun t r s₁ _ h => ?_
    obtain ⟨rfl, ht, hcost⟩ := h
    cases r with
    | error x => exact ⟨rfl, ht⟩
    | ok cost =>
      dsimp only
      rw [Coro.wp_bind, Coro.wp_update]
      have hrest : Vouching settings H q (settlements t) { s₁ with settled := true } (do
          recordAuditLog settings q.apiKey {
            requestedModel := q.requestedModel, outcome := "success", provider := s₁.finalProvider,
            inputTokens := s₁.inputTokens, outputTokens := s₁.outputTokens, costUsd := cost,
            requestId := q.requestId }
          closing
          pure true : Py StreamLocals Bool) :=
        .bind (vouching_recordAuditLog rfl rfl (hcost cost rfl)) fun _ =>
          .bind (hclosing _ _) fun _ => .of_plain .pure .pure
      refine Coro.wp_mono (hrest A) fun t' _ _ _ h' => ⟨h'.1 ▸ rfl, ?_⟩
      rw [List.nil_append]
      exact vouchedAfter_append ht h'.2
  refine Coro.wp_mono hbody fun t r s' _ h => ?_
  obtain ⟨husage, ht⟩ := h
  cases r with
  | ok b => exact ht
  | error x =>
    cases x with
    | exception e =>
      have hs' : s'.Of H := husage ▸ hs
      exact Coro.wp_mono (vouching_onUnbooked hs' A) fun t' _ _ _ h' =>
        composes_vouchedAfter.append _ _ ht h'.2
    | _ => exact ht

/-- The chunks are those of one of the models. -/
def Fed (H : Models) (chunks : List StreamChunk) : Prop :=
  chunks = [] ∨ ∃ provider model, H provider model ∧
    ∀ c ∈ chunks, c.provider = provider ∧ c.model = model

theorem Fed.usage {chunks : List StreamChunk} (h : Fed H chunks) (hsub : received t ⊆ chunks) :
    (usageOf t).Of H := by
  rcases h with rfl | ⟨provider, model, hm, hnames⟩
  · rw [usageOf, List.subset_nil.mp hsub]
    exact .inl rfl
  · rcases names_foldl (u := {}) (fun c hc => hnames c (hsub hc)) (.inr ⟨rfl, rfl⟩) with
      ⟨hp, hmodel⟩ | ⟨hp, -⟩
    · right
      rw [usageOf, hp, hmodel]
      exact hm
    · exact .inl hp

theorem wp_generator_vouched {C : Prop} (h : Clauses C settings q A deliver allFailed closing)
    (hfed : Fed H stream.chunks)
    (hfailed : ∀ s : StreamLocals, s.Of H → Vouching settings H q [] s allFailed)
    (hclosing : ∀ xs s, Vouching settings H q xs s closing) :
    (generator settings q deliver allFailed closing stream).wp A {} fun t _ _ =>
      VouchedAfter settings H q [] t := by
  have hlatency : ∀ l, VouchedAfter settings H q [] [⟨.metric .requestLatency, l⟩] := fun l =>
    vouchedAfter_of_plain (List.forall_mem_singleton.mpr ⟨trivial, id⟩)
  have hloop : ∀ {t r s}, Looped {} t r s ∧ received t ⊆ stream.chunks →
      VouchedAfter settings H q [] t ∧ s.Of H := by
    rintro t r s ⟨hloop, hsub⟩
    refine ⟨vouchedAfter_of_plain fun e he => (hloop.streaming e he).plain, ?_⟩
    rw [hloop.usage]
    exact hfed.usage hsub
  refine wp_generator_of_phases (Coro.wp_and (wp_forChunks h.delivers _ _ _)
    (wp_forChunks_received h.delivers.only _ _ _)) ?_ ?_ ?_
  · intro t x s hL
    obtain ⟨ht, hs⟩ := hloop hL
    refine Coro.wp_mono (vouching_loopClause hs (hfailed s hs) A) fun t' r s' _ ht' l _ => ?_
    exact composes_vouchedAfter.append _ _ ht (composes_vouchedAfter.append _ _ ht'.2 (hlatency l))
  · intro t s e hL _
    exact composes_vouchedAfter.append _ _ (hloop hL).1 (hlatency _)
  · intro t s hL _
    obtain ⟨ht, hs⟩ := hloop hL
    rw [Coro.wp_bind]
    refine Coro.wp_mono (wp_bookkeeping_vouched hs hclosing) fun t' r s' _ ht' => ?_
    have hbooked : ∀ u : List Ev, (∀ e ∈ u, e.cmd.Plain) →
        VouchedAfter settings H q [] (t ++ ⟨.metric .requestLatency, .ok ()⟩ :: (t' ++ u)) :=
      fun u hu => composes_vouchedAfter.append _ _ ht (composes_vouchedAfter.append _ _ (hlatency _)
        (composes_vouchedAfter.append _ _ ht' (vouchedAfter_of_plain hu)))
    cases r with
    | error x => simpa using hbooked [] (by simp)
    | ok booked =>
      exact Coro.wp_mono (only_finish booked).wp fun u _ _ _ hu => hbooked u fun e he => (hu e he).1

/-- A stream fed with the chunks of one of the models is vouched for. -/
theorem wp_endpoint_vouched (endpoint : Endpoint) (hfed : Fed H stream.chunks) :
    (endpoint.run settings q stream).wp A {} fun t _ _ => VouchedAfter settings H q [] t := by
  have hstart : ∀ body : Py StreamLocals Unit,
      (body.wp A {} fun t _ _ => VouchedAfter settings H q [] t) →
      (whenStarted body).wp A {} fun t _ _ => VouchedAfter settings H q [] t := by
    intro body hbody
    have hplain : ∀ started : Bool,
        VouchedAfter settings H q [] ([⟨.start, started⟩] : List Ev) := fun _ =>
      vouchedAfter_of_plain (List.forall_mem_singleton.mpr ⟨trivial, id⟩)
    rw [whenStarted, Coro.wp_bind, wp_start_iff]
    rintro (_ | _) _
    · exact hplain false
    · exact Coro.wp_mono hbody fun t _ _ _ ht => composes_vouchedAfter.append _ _ (hplain true) ht
  cases endpoint with
  | native =>
    exact hstart _ (wp_generator_vouched clauses_native hfed
      (fun _ hs => vouching_onAllFailed hs) fun _ _ => .of_plain .pure .pure)
  | openai completionId created =>
    exact hstart _ (wp_generator_vouched clauses_openai hfed
      (fun _ hs => vouching_onAllFailedOpenai hs) fun _ _ => .locals_bind vouching_emit)

end Stream

/-! ## Over the running router -/

/-- The models a trace has called. -/
def calledIn (t : List Ev) : Models := fun provider model => (provider, model) ∈ upstream t

theorem calledIn_append_left {p m : String} (h : calledIn t p m) : calledIn (t ++ t') p m := by
  rw [calledIn, upstream_append]
  exact List.mem_append_left _ h

theorem VouchedAfter.imp (h : VouchedAfter settings H q xs t) (hH : ∀ p m, H p m → H' p m) :
    VouchedAfter settings H' q xs t := by
  intro paid hpaid
  obtain ⟨hrows, hbilled⟩ := h paid hpaid
  exact ⟨hrows.imp fun _ _ h row hrow => (h row hrow).mono hH (List.Subset.refl _),
    fun x hx => (hbilled x hx).mono hH⟩

/-- The router asks for nothing that goes on the books. -/
theorem Cmd.Calling.plain {c : Cmd} (h : c.Calling) : c.Plain := by
  cases c <;> first | exact ⟨trivial, id⟩ | exact h.elim

/-- A response is settled, and its row written, for the model that gave it. -/
theorem wp_serveChat_vouched {router : Py σ ChatResponse} (hrouter : router.Only Cmd.Calling)
    (hcalled : Returning ChatResponse.Called router) :
    (serveChat settings router q).wp A s fun t _ _ =>
      VouchedAfter settings (calledIn t) q [] t := by
  have hplain : ∀ {u : List Ev} {xs : List (String × ℚ)} {H : Models},
      (∀ e ∈ u, e.cmd.Calling) → VouchedAfter settings H q xs u := fun hu =>
    vouchedAfter_of_plain fun e he => (hu e he).plain
  have hlatency : ∀ {xs : List (String × ℚ)} {H : Models} (l : Reply (.metric .requestLatency)),
      VouchedAfter settings H q xs [⟨.metric .requestLatency, l⟩] := fun l =>
    vouchedAfter_of_plain (List.forall_mem_singleton.mpr ⟨trivial, id⟩)
  refine wp_serveChat_of (R := fun t r _ => (∀ e ∈ t, e.cmd.Calling) ∧
    ∀ result, r = .ok result → ChatResponse.Called t result)
    (Coro.wp_and hrouter.wp (hcalled A s)) ?_ ?_ ?_ ?_
  · rintro t result s₁ ⟨ht, hr⟩ -
    have hbooked : Vouching settings (calledIn t) q [] s₁ (serveResponse settings q result) :=
      vouching_serveResponse (hr result rfl)
    refine Coro.wp_mono (hbooked A) fun t' r s₂ _ ht' => ?_
    exact composes_vouchedAfter.append _ _ (hplain ht) (composes_vouchedAfter.append _ _ (hlatency _)
      (ht'.2.imp fun _ _ => calledIn_append_left))
  · rintro t result s₁ ⟨ht, -⟩ e -
    exact composes_vouchedAfter.append _ _ (hplain ht) (hlatency _)
  · rintro t message s₁ ⟨ht, -⟩
    have hbooked : Vouching settings (calledIn t) q [] s₁
        (serveNothing settings q : Py σ ChatResponse) := vouching_serveNothing
    refine Coro.wp_mono (hbooked A) fun t' r s₂ _ ht' l _ x => ?_
    refine composes_vouchedAfter.append _ _ (composes_vouchedAfter.append _ _ (hplain ht)
      (ht'.2.imp fun _ _ h => ?_)) (hlatency l)
    rw [List.append_assoc]
    exact calledIn_append_left h
  · rintro t x s₁ ⟨ht, -⟩ - l - x'
    exact composes_vouchedAfter.append _ _ (hplain ht) (hlatency l)

/-- Events that go on no books can be merged in or left out. -/
theorem vouchedAfter_merge_iff {u l r : List Ev} (h : Merge u l r) (hr : ∀ e ∈ r, e.cmd.Plain) :
    VouchedAfter settings H q xs u ↔ VouchedAfter settings H q xs l := by
  have hcalls : calls u = calls l := h.filterMap_left fun e he =>
    Option.isNone_iff_eq_none.mp
      (call?_of_calls_nil (calls_of_unrecorded fun e he => (hr e he).1) e he)
  have hpaid : settlements u = settlements l := by rw [settlements, hcalls, settlements]
  have hquiet : ∀ e ∈ r, settlements [e] = [] ∧ ∀ paid row, e.cmd = .commitAudit row →
      Attests settings H q.apiKey q.requestedModel q.requestId paid row := by
    intro e he
    refine ⟨?_, fun paid row hrow => ?_⟩
    · rw [settlements, calls_of_unrecorded (List.forall_mem_singleton.mpr (hr e he).1)]
      rfl
    · have hplain := (hr e he).2
      rw [hrow] at hplain
      exact (hplain trivial).elim
  constructor
  · intro h' paid hxs
    obtain ⟨hrows, hbilled⟩ := h' paid hxs
    exact ⟨(h.backed_iff hquiet).mp hrows, hpaid ▸ hbilled⟩
  · intro h' paid hxs
    obtain ⟨hrows, hbilled⟩ := h' paid hxs
    exact ⟨(h.backed_iff hquiet).mpr hrows, hpaid ▸ hbilled⟩

/-- A stream is settled, and its row written, for the model that the router has called for it. -/
theorem wp_stream_vouched {endpoint : Endpoint} {messages : List ChatMessage}
    {params : Option SamplingParams} {retryAttempts : ℕ} {skip : Finset String} {hops : List Hop} :
    (endpoint.stream settings q (chatStream messages params retryAttempts skip hops)).wp A {}
      fun t _ _ => VouchedAfter settings (calledIn t) q [] t := by
  refine Coro.wp_iff.mpr fun t r s' hrun _ => ?_
  obtain ⟨source, t', hrun', hexplains⟩ := covers_stream.exists_run hrun
  have hfed : Fed (calledIn t) source.chunks := by
    refine (exists_called_hop hexplains).imp_right ?_
    rintro ⟨hop, -, -, hcalled, hnames⟩
    exact ⟨hop.provider, hop.model, hcalled, hnames⟩
  have hvouched : VouchedAfter settings (calledIn t) q [] t' :=
    (wp_endpoint_vouched endpoint hfed).apply hrun' (A := fun _ => True) fun _ _ => trivial
  obtain ⟨tb, tg, ta, hmerge, hmerge', p, hgen, -, hawaited⟩ := hexplains
  obtain ⟨u, hgenerated, -, v, hv, -⟩ := hgen.run
  have hrouter : ∀ e ∈ tg, e.cmd.Plain := fun e he =>
    ((only_chatStream ()).forall_mem hgenerated e (hv.mem_iff.mpr (.inl he))).plain
  have hloop : ∀ e ∈ ta, e.cmd.Plain := fun e he => by
    cases hawaited e he <;> exact ⟨trivial, id⟩
  exact (vouchedAfter_merge_iff hmerge hrouter).mpr ((vouchedAfter_merge_iff hmerge' hloop).mp hvouched)

/-! ## A whole request -/

variable {p : RoutedRequest}

/-- Reserving settles nothing, and writes no row. -/
theorem wp_reserveChain_vouched {chainName requestId apiKey : String} {messages : List ChatMessage}
    {params : Option SamplingParams} :
    (reserveChain settings chainName messages params requestId apiKey).wp A s fun t _ _ =>
      ∀ H q, VouchedAfter settings H q [] t := by
  have hpaid : (reserveChain settings chainName messages params requestId apiKey).wp A s
      fun t _ _ => settlements t = [] := by
    refine wp_reserveChain_of (wp_unrecorded (only_reserveBody fun _ h => h.unrecorded))
      (fun t s' hnil => ?_) fun t e s' hnil => wp_unwind_of ?_
    · rw [settlements, hnil]
      rfl
    · refine Coro.wp_mono calls_settleProviders fun t' _ _ _ h e' e'' _ => ?_
      obtain ⟨-, -, cs, hcs, hrec⟩ := h
      rw [settlements, calls_append, hnil, List.nil_append, hrec.calls]
      exact settledAt_of_settles hcs
  refine Coro.wp_mono (Coro.wp_and hpaid (only_reserveChain fun _ h => h.not_auditing).wp)
    fun t _ _ _ h => ?_
  obtain ⟨hnil, hquiet⟩ := h
  refine fun H q paid _ => ⟨backed_of_forall fun e he _ _ row hrow => ?_, by simp [hnil]⟩
  have hnot := hquiet e he
  rw [hrow] at hnot
  exact (hnot trivial).elim

theorem wp_serve_vouched {x : OrderedDict String ℚ × Finset String} :
    (p.serve settings x).wp A s fun t _ _ =>
      VouchedAfter settings (calledIn t) (p.args x.1) [] t := by
  rw [RoutedRequest.serve]
  split
  · rw [Coro.wp_bind]
    refine Coro.wp_mono (wp_serveChat_vouched only_chat returning_chat) fun t r s' _ h => ?_
    cases r with
    | error e => exact h
    | ok result =>
      refine Coro.wp_pure.mpr ?_
      rwa [List.append_nil]
  · rw [Coro.wp_scope]
    exact wp_stream_vouched

theorem wp_handle_vouched :
    (p.handle settings).wp A s fun t _ _ =>
      ∃ reservations, VouchedAfter settings (calledIn t) (p.args reservations) [] t := by
  rw [RoutedRequest.handle, Coro.wp_bind]
  refine Coro.wp_mono wp_reserveChain_vouched fun t r s₁ _ h => ?_
  cases r with
  | error x => exact ⟨.empty, h _ _⟩
  | ok x =>
    refine Coro.wp_mono wp_serve_vouched fun t' _ _ _ h' => ⟨x.1, ?_⟩
    refine composes_vouchedAfter.append _ _ (h _ _) (h'.imp fun _ _ h => ?_)
    rw [calledIn, upstream_append]
    exact List.mem_append_right _ h

/-- Whatever fails while a request is served: it is settled at nothing, or at the price of tokens of a
model that it has called; and a row that it sends to the audit log is its own and is for nothing, or
repeats a settlement made before, with the tokens whose price that was. -/
theorem vouched {t : List Ev} {r : Except Exc Unit} {s' : σ}
    (hrun : Coro.Runs (p.handle settings) s t r s') :
    (∀ x ∈ settlements t, Billable settings (calledIn t) x) ∧
      ∀ t₁ row reply t₂, t = t₁ ++ ⟨.commitAudit row, reply⟩ :: t₂ →
        Attests settings (calledIn t) p.apiKey p.requestedModel p.requestId (settlements t₁) row := by
  obtain ⟨reservations, h⟩ := wp_handle_vouched.apply hrun (A := fun _ => True) fun _ _ => trivial
  obtain ⟨hrows, hbilled⟩ := h [] (List.Subset.refl _)
  refine ⟨hbilled, ?_⟩
  rintro t₁ row reply t₂ rfl
  have hrow := hrows.of_split row rfl
  rwa [List.nil_append, flatMap_settlements] at hrow

/-! ## A client that goes away -/

/-- A stream request whose client goes away at the first chunk. -/
def departing : RoutedRequest where
  chainName := "default"
  messages := [⟨"user", "hi!"⟩]
  params := none
  requestId := "r"
  apiKey := "k"
  requestedModel := "default"
  delivery := .stream .native

/-- OpenAI streams, and the client does not take a chunk. -/
def departingReply : (c : Cmd) → Reply c
  | .providerStream _ _ _ _ => .opened ⟨.str "hi", false, .int 0, .int 0, "", ""⟩ [] none
  | .yield (.chunk _) => .error .generatorExit
  | c => calm c

/-- Its run, on empty ledgers. -/
def departedRun : List Ev × (Except Exc Unit × Unit) × Ledgers :=
  Prog.drive (answer departingReply)
    ((departing.handle { hashKey := id } : Py Unit Unit) ()) fun _ => 0

theorem runs_departed :
    Coro.Runs (departing.handle { hashKey := id } : Py Unit Unit) () departedRun.1
      departedRun.2.1.1 departedRun.2.1.2 := by
  unfold departedRun
  exact Prog.returns_drive _ _ _

theorem vouched_departed :
    (∀ x ∈ settlements departedRun.1, Billable { hashKey := id } (calledIn departedRun.1) x) ∧
      ∀ t₁ row reply t₂, departedRun.1 = t₁ ++ ⟨.commitAudit row, reply⟩ :: t₂ →
        Attests { hashKey := id } (calledIn departedRun.1) "k" "default" "r" (settlements t₁) row :=
  vouched (p := departing) runs_departed

/-- It is settled for the token it got, at the price of the model that was called. -/
example : settlements departedRun.1 = [("openai", 3 / 5000000)] := by decide +kernel

end LlmGateway
