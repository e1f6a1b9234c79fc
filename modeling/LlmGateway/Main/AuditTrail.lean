import LlmGateway.Main.StreamEnd
import LlmGateway.Main.SettledOnce

/-!
# The audit row of a request

A request should leave one row in the audit log, for the provider and the amount that were settled.
With everything but the router and the client working, whether it does depends on how it ended, on
what the last chunk reported, and on what the columns of the table take: a database that works
refuses a row whose counts are too large for them, and the audit log swallows that. The clause for
`AllProvidersFailedError` of the native endpoint writes a row before the settlement, which writes
another if a provider had answered. The one of the other endpoint writes none of its own, and neither
does any exit of a stream that got no chunk.
-/

namespace LlmGateway

open Coroutine
open Conservation (settledAt settlements settledAt_of_settles)

variable {σ α β : Type} {s : σ} {settings : Settings} {q : RequestArgs} {A : Ev → Prop}
  {t t' : List Ev}

/-! ## Rows and settlements -/

/-- The row of a request that an event committed. -/
def written? (requestId : String) : Ev → Option AuditLogEntry
  | ⟨.commitAudit row, .ok ()⟩ => if row.requestId = requestId then some row else none
  | _ => none

/-- The rows a trace wrote for a request. -/
def auditRows (requestId : String) (t : List Ev) : List AuditLogEntry :=
  t.filterMap (written? requestId)

/-- There is one row, and it agrees with the one settlement. -/
def Agree (rows : List AuditLogEntry) (paid : List (String × ℚ)) : Prop :=
  ∃ row, rows = [row] ∧ paid = [(row.provider, row.costUsd)]

/-- The request has one row, which agrees with its one settlement. -/
def Audited (q : RequestArgs) (t : List Ev) : Prop :=
  Agree (auditRows q.requestId t) (settlements t)

/-- The rows of a trace and what it settled. -/
structure Books (requestId : String) (t : List Ev) (rows : List AuditLogEntry)
    (paid : List (String × ℚ)) : Prop where
  rows : auditRows requestId t = rows
  paid : settlements t = paid

variable {requestId : String} {rows rows' : List AuditLogEntry} {paid paid' : List (String × ℚ)}

theorem Books.append (h : Books requestId t rows paid) (h' : Books requestId t' rows' paid') :
    Books requestId (t ++ t') (rows ++ rows') (paid ++ paid') where
  rows := by rw [auditRows, List.filterMap_append, ← auditRows, ← auditRows, h.rows, h'.rows]
  paid := by rw [settlements, calls_append, List.filterMap_append, ← settlements, ← settlements,
    h.paid, h'.paid]

theorem books_of_plain (h : ∀ e ∈ t, e.cmd.Plain) : Books requestId t [] [] where
  rows := List.filterMap_eq_nil_iff.mpr fun e he => by
    have hc := h e he
    obtain ⟨c, r⟩ := e
    cases c <;> first | rfl | exact (hc.2 trivial).elim
  paid := by rw [settlements, calls_of_unrecorded fun e he => (h e he).1, List.filterMap_nil]

theorem Books.append_plain (h : Books requestId t rows paid) (ht' : ∀ e ∈ t', e.cmd.Plain) :
    Books requestId (t ++ t') rows paid := by
  simpa using h.append (books_of_plain ht')

theorem Books.prepend_plain (h : Books requestId t' rows paid) (ht : ∀ e ∈ t, e.cmd.Plain) :
    Books requestId (t ++ t') rows paid := by
  simpa using (books_of_plain ht).append h

/-! ## The statements of the bookkeeping -/

/-- What the columns of the audit log take, which is the database's to say. -/
structure Columns where
  model : String → Bool
  count : PyVal → Bool
  zero : count (.int 0) = true

/-- The columns take a row with this model and these counts. -/
def Columns.takes (columns : Columns) (requestedModel : String) (inputTokens outputTokens : PyVal) :
    Bool :=
  columns.model requestedModel && columns.count inputTokens && columns.count outputTokens

theorem Columns.takes_zero (columns : Columns) (requestedModel : String) :
    columns.takes requestedModel (.int 0) (.int 0) = columns.model requestedModel := by
  simp [takes, columns.zero]

theorem Columns.model_of_takes {columns : Columns} {requestedModel : String}
    {inputTokens outputTokens : PyVal}
    (h : columns.takes requestedModel inputTokens outputTokens = true) :
    columns.model requestedModel = true := by
  simp only [takes, Bool.and_eq_true] at h
  exact h.1.1

/-- A database that works stores a row that its columns take, and refuses any other. -/
def Stored (columns : Columns) : Ev → Prop
  | ⟨.commitAudit row, r⟩ =>
    if columns.takes row.requestedModel row.inputTokens row.outputTokens then r = .ok ()
    else ∃ e, r = .failed (.exception e) false
  | e => auditRaised e = none

theorem stored_commit {columns : Columns} {row : AuditLogEntry} {r : Sent Unit}
    (h : Stored columns ⟨.commitAudit row, r⟩) :
    r = .ok () ∨ ∃ e, r = .failed (.exception e) false := by
  unfold Stored at h
  dsimp only at h
  split at h
  · exact .inl h
  · exact .inr h

/-- Metrics, pricing, Redis and the database work, and nobody but its client interrupts a stream. -/
structure Working (columns : Columns) (e : Ev) : Prop where
  sound : Sound e
  stored : Stored columns e
  disconnecting : Disconnecting e

variable {columns : Columns}

theorem wp_metric_working {m : Metric} {Q : List Ev → Except Exc Unit → σ → Prop}
    (h : Q [⟨.metric m, .ok ()⟩] (.ok ()) s) : (metric m).wp (Working columns) s Q := by
  rw [wp_metric_iff]
  intro r hr
  obtain rfl : r = .ok () := hr.sound.1
  exact h

/-- A settlement goes through and is the only thing to note. -/
theorem books_settleChain (requestId : String) {apiKey provider : String}
    {reservations : OrderedDict String ℚ} {cost : ℚ} :
    (settleChain settings apiKey reservations provider cost).wp (Working columns) s fun t r s' =>
      r = .ok () ∧ s' = s ∧ Books requestId t [] [(provider, cost)] := by
  refine Coro.wp_mono (Coro.wp_and calls_settleChain (Coro.wp_and
    (Coro.wp_anti wp_settleChain fun e (he : Working columns e) => he.sound.1)
    (only_settleChain fun _ h => h.settling.not_auditing).wp)) fun t r s' ht h => ?_
  obtain ⟨⟨rfl, -, cs, hcs, hcalls⟩, ⟨-, hr, -⟩, hquiet⟩ := h
  refine ⟨hr.ok fun e he => (ht e he).sound.2, rfl, ?_, ?_⟩
  · refine List.filterMap_eq_nil_iff.mpr fun e he => ?_
    have hc := hquiet e he
    obtain ⟨c, r⟩ := e
    cases c <;> first | rfl | exact (hc trivial).elim
  · simp [settlements, hcalls, List.filterMap_cons, settledAt, settledAt_of_settles hcs]

/-- The row of a request, if the columns take it. -/
def rowIf (taken : Bool) (row : AuditLogEntry) : List AuditLogEntry := if taken then [row] else []

theorem agree_rowIf {taken : Bool} {row : AuditLogEntry} :
    Agree (rowIf taken row) [(row.provider, row.costUsd)] ↔ taken = true := by
  cases taken <;> simp [Agree, rowIf]

theorem books_commit {row : AuditLogEntry} {keyHash : String} {team : Option String}
    {r : Sent Unit} {taken : Bool} (h : row.requestId = requestId)
    (hr : if taken then r = .ok () else ∃ e, r = .failed (.exception e) false) :
    Books requestId [⟨.openSession, .ok ()⟩, ⟨.selectTeam keyHash, .ok team⟩,
      ⟨.commitAudit row, r⟩, ⟨.closeSession, .ok ()⟩] (rowIf taken row) [] := by
  refine ⟨?_, rfl⟩
  rw [auditRows, List.filterMap_cons_none rfl, List.filterMap_cons_none rfl]
  cases taken with
  | true =>
    obtain rfl := hr
    have hrow : written? requestId ⟨.commitAudit row, .ok ()⟩ = some row := if_pos h
    rw [List.filterMap_cons_some hrow]
    rfl
  | false =>
    obtain ⟨e, rfl⟩ := hr
    rfl

/-- An audit log that works writes its row if the columns take it. -/
theorem books_recordAuditLog {apiKey : String} {fields : AuditFields} :
    (recordAuditLog settings apiKey fields).wp (Working columns) s fun t r s' => r = .ok () ∧
      s' = s ∧ ∃ row, row.provider = fields.provider ∧ row.costUsd = fields.costUsd ∧
        Books fields.requestId t (rowIf (columns.takes fields.requestedModel fields.inputTokens
          fields.outputTokens) row) [] := by
  rw [recordAuditLog, tryExcept, Coro.wp_attempt, Coro.wp_bind, wp_openSession_iff]
  rintro (⟨⟩ | ⟨x, a⟩) h₀
  · dsimp only [Sent.toExcept]
    rw [Coro.wp_ensure, Coro.wp_bind, wp_selectTeam_iff]
    rintro (team | ⟨x, a⟩) h₁
    · dsimp only [Sent.toExcept]
      rw [wp_commitAudit_iff]
      intro r h₂
      rw [wp_closeSession_iff]
      rintro (⟨⟩ | ⟨x, a⟩) h₃
      · rcases stored_commit h₂.stored with rfl | ⟨e, rfl⟩ <;>
          exact ⟨rfl, rfl, _, rfl, rfl, books_commit rfl h₂.stored⟩
      · cases h₃.stored
    · cases h₁.stored
  · cases h₀.stored

/-- Usage that has been priced is published exactly if its counts do not bring a counter down. -/
theorem books_recordUsage (requestId : String) {provider model : String}
    {inputTokens outputTokens : PyVal} {costUsd : ℚ} (hcost : estimateCostUsd settings.pricing
      provider model inputTokens outputTokens = .ok costUsd) :
    (recordUsage provider model inputTokens outputTokens costUsd).wp (Working columns) s fun t r s' =>
      s' = s ∧ Books requestId t [] [] ∧
        (r = .ok () ↔ provider = "" ∨ inputTokens.Countable ∧ outputTokens.Countable) := by
  have hplain : (recordUsage provider model inputTokens outputTokens costUsd : Py σ Unit).Only
      Cmd.Plain := only_recordUsage fun _ => ⟨trivial, id⟩
  refine Coro.wp_mono (Coro.wp_and wp_recordUsage_iff hplain.wp) fun t r s' hA h => ?_
  obtain ⟨⟨rfl, hr⟩, ht⟩ := h
  have hpub : Published t := published_of_healthy fun e he => (hA e he).sound.1
  refine ⟨rfl, books_of_plain ht, hr.trans (or_congr_right ⟨fun h => h.2.2, fun h => ⟨hpub, ?_, h⟩⟩)⟩
  obtain ⟨c, hc, hc0⟩ := estimateCostUsd_of_countable settings.pricing provider model h.1 h.2
  rw [hcost] at hc
  exact Except.ok.inj hc ▸ hc0

theorem books_estimateCost (requestId : String) {provider model : String}
    {inputTokens outputTokens : PyVal} :
    (estimateCost settings provider model inputTokens outputTokens).wp (Working columns) s fun t r s' =>
      s' = s ∧ Books requestId t [] [] ∧
        r = estimateCostUsd settings.pricing provider model inputTokens outputTokens := by
  refine Coro.wp_anti (wp_estimateCost.mpr ⟨rfl, ?_, rfl⟩) fun e (he : Working columns e) => he.sound.1
  exact books_of_plain (List.forall_mem_singleton.mpr ⟨trivial, id⟩)

/-! ## A stream that ends early -/

/-- The tokens of the prompt can be published, and a row with them and the estimate for what was
streamed is taken. -/
def Usage.Chargeable (u : Usage) (columns : Columns) (requestedModel : String) : Prop :=
  u.inputTokens.Countable ∧
    columns.takes requestedModel u.inputTokens (.count (max 1 (u.streamedChars / 3))) = true

/-- The row and the settlement of a stream that is settled as aborted: no row if no provider had
answered, and none if the tokens cannot be published or stored. -/
inductive AbortBooks (columns : Columns) (requestedModel : String) (u : Usage) :
    List AuditLogEntry → List (String × ℚ) → Prop
  | unserved (h : u.finalProvider = "") : AbortBooks columns requestedModel u [] [("", 0)]
  | charged (row : AuditLogEntry) (h : row.provider = u.finalProvider) (hp : u.finalProvider ≠ "")
    (hin : u.Chargeable columns requestedModel) :
    AbortBooks columns requestedModel u [row] [(row.provider, row.costUsd)]
  | unbooked (paid : List (String × ℚ)) (h : ∀ x ∈ paid, x.1 = u.finalProvider)
    (hp : u.finalProvider ≠ "") (hin : ¬ u.Chargeable columns requestedModel) :
    AbortBooks columns requestedModel u [] paid

/-- The rows and the settlements of a trace are among `K`. -/
def Kept (q : RequestArgs) (K : List AuditLogEntry → List (String × ℚ) → Prop) (t : List Ev) :
    Prop :=
  K (auditRows q.requestId t) (settlements t)

variable {K : List AuditLogEntry → List (String × ℚ) → Prop}

theorem Books.kept (h : Books q.requestId t rows paid) (hK : K rows paid) : Kept q K t := by
  rwa [Kept, h.rows, h.paid]

theorem Kept.books (h : Kept q K t) : ∃ rows paid, K rows paid ∧ Books q.requestId t rows paid :=
  ⟨_, _, h, rfl, rfl⟩

theorem Kept.append_plain (h : Kept q K t) (ht' : ∀ e ∈ t', e.cmd.Plain) : Kept q K (t ++ t') := by
  obtain ⟨rows, paid, hK, hb⟩ := h.books
  exact (hb.append_plain ht').kept hK

theorem Kept.prepend_plain (h : Kept q K t') (ht : ∀ e ∈ t, e.cmd.Plain) : Kept q K (t ++ t') := by
  obtain ⟨rows, paid, hK, hb⟩ := h.books
  exact (hb.prepend_plain ht).kept hK

theorem wp_metric_kept {m : Metric} {f : Unit → Py σ α}
    (hf : (f ()).wp (Working columns) s fun t _ _ => Kept q K t) :
    (metric m >>= f).wp (Working columns) s fun t _ _ => Kept q K t := by
  rw [Coro.wp_bind]
  refine wp_metric_working ?_
  exact Coro.wp_mono hf fun t r s' _ h =>
    h.prepend_plain (List.forall_mem_singleton.mpr ⟨trivial, id⟩)

theorem wp_kept_plain {m : Py σ α} {f : α → Py σ β}
    (hm : m.wp (Working columns) s fun t _ _ => Kept q K t) (hf : ∀ a, (f a).Only Cmd.Plain) :
    (m >>= f).wp (Working columns) s fun t _ _ => Kept q K t := by
  rw [Coro.wp_bind]
  refine Coro.wp_mono hm fun t r s' _ h => ?_
  match r with
  | .error x => exact h
  | .ok a => exact Coro.wp_mono (hf a).wp fun t' _ _ _ ht' => h.append_plain ht'

/-- A bill is priced, settled and published, and its row written; the first step that raises is the
last one. -/
theorem wp_bill_kept {provider model apiKey : String} {inputTokens outputTokens : PyVal}
    {reservations : OrderedDict String ℚ} {write : ℚ → Py σ α} (taken : Bool)
    (hwrite : ∀ cost s, (write cost).wp (Working columns) s fun t _ _ => ∃ row : AuditLogEntry,
      row.provider = provider ∧ row.costUsd = cost ∧ Books q.requestId t (rowIf taken row) [])
    (hunpriced : ¬ (inputTokens.IsNumber ∧ outputTokens.IsNumber) → K [] [])
    (hunbooked : ∀ cost, ¬ ((provider = "" ∨ inputTokens.Countable ∧ outputTokens.Countable) ∧
      taken = true) → K [] [(provider, cost)])
    (hwritten : ∀ row : AuditLogEntry, row.provider = provider →
      inputTokens.IsNumber ∧ outputTokens.IsNumber →
      (provider = "" ∨ inputTokens.Countable ∧ outputTokens.Countable) → taken = true →
      K [row] [(row.provider, row.costUsd)]) :
    (do
      let cost ← estimateCost settings provider model inputTokens outputTokens
      settleChain settings apiKey reservations provider cost
      recordUsage provider model inputTokens outputTokens cost
      write cost : Py σ α).wp (Working columns) s fun t _ _ => Kept q K t := by
  rw [Coro.wp_bind]
  refine Coro.wp_mono (books_estimateCost q.requestId) fun t₁ r s₁ _ h => ?_
  obtain ⟨rfl, h₁, hr⟩ := h
  cases r with
  | error x => exact h₁.kept (hunpriced (estimateCostUsd_error_iff.mp ⟨x, hr.symm⟩))
  | ok cost =>
    have hnum := isNumber_of_estimateCostUsd hr.symm
    dsimp only
    rw [Coro.wp_bind]
    refine Coro.wp_mono (books_settleChain q.requestId) fun t₂ r s₂ _ h => ?_
    obtain ⟨rfl, rfl, h₂⟩ := h
    dsimp only
    rw [Coro.wp_bind]
    refine Coro.wp_mono (books_recordUsage q.requestId hr.symm) fun t₃ r s₃ _ h => ?_
    obtain ⟨rfl, h₃, hr₃⟩ := h
    cases r with
    | error x =>
      refine (h₁.append (h₂.append h₃)).kept (hunbooked cost fun hcount => ?_)
      cases hr₃.mpr hcount.1
    | ok u =>
      refine Coro.wp_mono (hwrite cost s₃) fun t₄ r s₄ _ h => ?_
      obtain ⟨row, hprovider, rfl, h₄⟩ := h
      refine (h₁.append (h₂.append (h₃.append h₄))).kept ?_
      cases taken with
      | false => exact hunbooked row.costUsd fun h => Bool.false_ne_true h.2
      | true =>
        have hK := hwritten row hprovider hnum (hr₃.mp rfl) rfl
        rw [hprovider] at hK
        exact hK

/-- What a stream that ends early leaves in the books. -/
theorem kept_settleStreamOnAbort {u : Usage} :
    (settleStreamOnAbort settings q u.finalProvider u.finalModel u.inputTokens u.streamedChars).wp
      (Working columns) s fun t _ _ => Kept q (AbortBooks columns q.requestedModel u) t := by
  rw [settleStreamOnAbort, Coro.wp_ite]
  refine ⟨fun hp => ?_, fun hp => ?_⟩
  · exact Coro.wp_mono (books_settleChain q.requestId) fun t r s' _ h => h.2.2.kept (.unserved hp)
  refine wp_bill_kept (columns.takes q.requestedModel u.inputTokens
    (.count (max 1 (u.streamedChars / 3)))) (fun cost s => ?_) (fun hno => ?_)
    (fun cost hno => ?_) fun row hrow _ hin htaken => ?_
  · exact Coro.wp_mono books_recordAuditLog fun t r s' _ h => h.2.2
  · exact .unbooked [] (by simp) hp fun hin => hno ⟨hin.1.isNumber, rfl⟩
  · exact .unbooked _ (by simp) hp fun hin => hno ⟨.inr ⟨hin.1, PyVal.countable_count _⟩, hin.2⟩
  · exact .charged row hrow hp ⟨(hin.resolve_left hp).1, htaken⟩

variable {requestedModel : String}

theorem AbortBooks.agree_iff {u : Usage} (h : AbortBooks columns requestedModel u rows paid) :
    Agree rows paid ↔ u.finalProvider ≠ "" ∧ u.Chargeable columns requestedModel := by
  cases h with
  | unserved h => exact iff_of_false (by simp [Agree]) fun hc => hc.1 h
  | charged row h hp hin => exact iff_of_true ⟨row, rfl, rfl⟩ ⟨hp, hin⟩
  | unbooked paid h hp hin => exact iff_of_false (by simp [Agree]) fun hc => hin hc.2

/-! ## The phases -/

section Phases

variable {s : StreamLocals} {deliver : StreamChunk → Py StreamLocals Unit}
  {allFailed closing : Py StreamLocals Unit}

theorem kept_abortStream :
    (abortStream settings q).wp (Working columns) s fun t _ _ =>
      Kept q (AbortBooks columns q.requestedModel s.toUsage) t := by
  rw [abortStream, Coro.wp_bind, Coro.wp_locals]
  exact kept_settleStreamOnAbort

theorem kept_tryAbortStream :
    (tryAbortStream settings q).wp (Working columns) s fun t _ _ =>
      Kept q (AbortBooks columns q.requestedModel s.toUsage) t := by
  rw [tryAbortStream, Coro.wp_bind, Coro.wp_locals]
  exact wp_tryPass kept_settleStreamOnAbort (fun _ _ h => h) (fun _ _ _ h => h) fun _ _ _ h _ => h

theorem kept_onDisconnect {x : Exc} :
    (onDisconnect settings q x : Py StreamLocals Unit).wp (Working columns) s fun t _ _ =>
      Kept q (AbortBooks columns q.requestedModel s.toUsage) t :=
  wp_metric_kept (wp_kept_plain kept_abortStream fun _ => .raise)

theorem kept_onUnexpected : (onUnexpected settings q).wp (Working columns) s fun t _ _ =>
    Kept q (AbortBooks columns q.requestedModel s.toUsage) t :=
  wp_metric_kept <| wp_metric_kept <| wp_kept_plain kept_tryAbortStream fun _ =>
    only_emit ⟨trivial, id⟩

theorem kept_onUnbooked (hs : s.settled = false) : (onUnbooked settings q).wp (Working columns) s
    fun t _ _ => Kept q (AbortBooks columns q.requestedModel s.toUsage) t := by
  refine wp_metric_kept ?_
  rw [Coro.wp_bind, Coro.wp_locals]
  simp only [hs, Bool.false_eq_true, if_false, List.nil_append]
  exact wp_kept_plain kept_tryAbortStream fun _ => .bind (only_metric ⟨trivial, id⟩) fun _ =>
    .bind (only_emit ⟨trivial, id⟩) fun _ => .pure

/-- What the clause for `AllProvidersFailedError` leaves in the books: on the native endpoint, a row
without a provider before what an abort leaves. -/
def Endpoint.FailBooks (endpoint : Endpoint) (columns : Columns) (requestedModel : String)
    (u : Usage) (rows : List AuditLogEntry) (paid : List (String × ℚ)) : Prop :=
  match endpoint with
  | .native => ∃ row rows', rows = rowIf (columns.model requestedModel) row ++ rows' ∧
      row.provider = "" ∧ row.costUsd = 0 ∧ AbortBooks columns requestedModel u rows' paid
  | .openai _ _ => AbortBooks columns requestedModel u rows paid

theorem kept_onAllFailed : (onAllFailed settings q).wp (Working columns) s fun t _ _ =>
    Kept q (Endpoint.native.FailBooks columns q.requestedModel s.toUsage) t := by
  refine wp_metric_kept ?_
  rw [Coro.wp_bind]
  refine Coro.wp_mono books_recordAuditLog fun t r s₁ _ h => ?_
  obtain ⟨rfl, rfl, row, hprovider, hcost, hb⟩ := h
  refine Coro.wp_mono (wp_kept_plain kept_abortStream fun _ => only_emit ⟨trivial, id⟩)
    fun t' r' s' _ h' => ?_
  obtain ⟨rows, paid, hK, hb'⟩ := h'.books
  rw [columns.takes_zero] at hb
  exact (hb.append hb').kept ⟨row, rows, rfl, hprovider, hcost, hK⟩

theorem kept_onAllFailedOpenai {completionId : String} {created : ℤ} :
    (onAllFailedOpenai settings q).wp (Working columns) s fun t _ _ =>
      Kept q ((Endpoint.openai completionId created).FailBooks columns q.requestedModel s.toUsage)
        t :=
  wp_metric_kept (wp_kept_plain kept_abortStream fun _ => only_emit ⟨trivial, id⟩)

instance : DecidablePred Endpoint.AuditsFirst
  | .native => .isTrue trivial
  | .openai _ _ => .isFalse id

/-- The row of the native clause agrees with what is settled only if nothing was served. -/
theorem Endpoint.FailBooks.agree_iff {endpoint : Endpoint} {u : Usage}
    (h : endpoint.FailBooks columns requestedModel u rows paid) :
    Agree rows paid ↔
      if endpoint.AuditsFirst then columns.model requestedModel = true ∧ u.finalProvider = ""
      else u.finalProvider ≠ "" ∧ u.Chargeable columns requestedModel := by
  cases endpoint with
  | openai completionId created => exact AbortBooks.agree_iff h
  | native =>
    rw [if_pos (show Endpoint.native.AuditsFirst from trivial)]
    obtain ⟨row, rows', rfl, hprovider, hcost, h⟩ := h
    cases h with
    | unserved h =>
      rw [List.append_nil, and_iff_left h]
      rw [← agree_rowIf, hprovider, hcost]
    | charged row' h hp hin =>
      rw [rowIf, if_pos (Columns.model_of_takes hin.2)]
      exact iff_of_false (by simp [Agree]) fun hc => hp hc.2
    | unbooked paid h hp hin =>
      refine iff_of_false ?_ fun hc => hp hc.2
      rintro ⟨row', hrow, hpaid⟩
      rw [List.append_nil, rowIf] at hrow
      split at hrow
      · obtain rfl : row = row' := by simpa using hrow
        exact hp ((h (row.provider, row.costUsd) (by simp [hpaid])).symm.trans hprovider)
      · cases hrow

/-- Pricing a finished stream goes through exactly if it had no provider or its tokens can be
published. -/
theorem books_priceStream (requestId : String) {provider model : String}
    {inputTokens outputTokens : PyVal} :
    (priceStream settings provider model inputTokens outputTokens).wp (Working columns) s fun t r s' =>
      s' = s ∧ Books requestId t [] [] ∧
        ((∃ cost, r = .ok cost) ∧
            (provider = "" ∨ inputTokens.Countable ∧ outputTokens.Countable) ∨
          (∃ e, r = .error (.exception e)) ∧
            ¬ (provider = "" ∨ inputTokens.Countable ∧ outputTokens.Countable)) := by
  have hiff : (priceStream settings provider model inputTokens outputTokens).wp (Working columns) s
      fun _ r _ => ((∃ cost, r = .ok cost) ∧
          (provider = "" ∨ inputTokens.Countable ∧ outputTokens.Countable)) ∨
        (∃ x, r = .error x) ∧
          ¬ (provider = "" ∨ inputTokens.Countable ∧ outputTokens.Countable) := by
    rw [priceStream, Coro.wp_ite]
    refine ⟨fun hp => .inl ⟨⟨0, rfl⟩, .inl hp⟩, fun hp => ?_⟩
    rw [Coro.wp_bind]
    refine Coro.wp_mono (books_estimateCost requestId) fun t r s₁ _ h => ?_
    obtain ⟨rfl, -, hr⟩ := h
    cases r with
    | error x =>
      have hnum := estimateCostUsd_error_iff.mp ⟨x, hr.symm⟩
      refine .inr ⟨⟨x, rfl⟩, ?_⟩
      rintro (h | h)
      · exact hp h
      · exact hnum ⟨h.1.isNumber, h.2.isNumber⟩
    | ok cost =>
      dsimp only
      rw [Coro.wp_bind]
      refine Coro.wp_mono (books_recordUsage requestId hr.symm) fun t' r' s₂ _ h => ?_
      obtain ⟨rfl, -, hr'⟩ := h
      cases r' with
      | error x =>
        refine .inr ⟨⟨x, rfl⟩, fun hcount => ?_⟩
        cases hr'.mpr hcount
      | ok u => exact .inl ⟨⟨cost, rfl⟩, hr'.mp rfl⟩
  refine Coro.wp_mono (Coro.wp_and wp_priceStream hiff) fun t r s' _ h => ?_
  obtain ⟨⟨rfl, hplain, hraise, -⟩, hok | ⟨⟨x, rfl⟩, hp⟩⟩ := h
  · exact ⟨rfl, books_of_plain hplain, .inl hok⟩
  · cases x with
    | exception e => exact ⟨rfl, books_of_plain hplain, .inr ⟨⟨e, rfl⟩, hp⟩⟩
    | _ => cases hraise _ rfl

/-- A stream that ran out leaves a row that is taken, with its totals or, if these cannot be
published, as an abort. -/
def Usage.Booked (u : Usage) (columns : Columns) (requestedModel : String) : Prop :=
  if u.finalProvider = "" ∨ u.inputTokens.Countable ∧ u.outputTokens.Countable then
    columns.takes requestedModel u.inputTokens u.outputTokens = true
  else u.Chargeable columns requestedModel

/-- The bookkeeping of a stream writes its one row, as a success or as an abort. -/
theorem kept_bookkeeping (hclosing : ∀ s, closing.wp (Working columns) s fun _ _ s' => s' = s)
    (honly : closing.Only Cmd.Yielding) (hs : s.settled = false) :
    (bookkeeping settings q closing >>= finish).wp (Working columns) s fun t _ _ =>
      Kept q (fun rows paid => Agree rows paid ↔ s.toUsage.Booked columns q.requestedModel) t := by
  refine wp_kept_plain ?_ fun b => (only_finish b).mono fun _ h => h.1
  rw [bookkeeping, Coro.wp_attempt, Coro.wp_bind, Coro.wp_locals]
  dsimp only
  rw [Coro.wp_bind, settleStreamSpend, Coro.wp_bind]
  refine Coro.wp_mono (books_priceStream q.requestId) fun t₁ r s₁ _ h => ?_
  obtain ⟨rfl, h₁, ⟨⟨cost, rfl⟩, hcount⟩ | ⟨⟨e, rfl⟩, hcount⟩⟩ := h
  · dsimp only
    rw [Coro.wp_bind]
    refine Coro.wp_mono (books_settleChain q.requestId) fun t₂ r s₂ _ h => ?_
    obtain ⟨rfl, rfl, h₂⟩ := h
    refine Coro.wp_pure.mpr ?_
    dsimp only
    rw [Coro.wp_bind, Coro.wp_update]
    dsimp only
    rw [Coro.wp_bind]
    refine Coro.wp_mono books_recordAuditLog fun t₃ r s₃ _ h => ?_
    obtain ⟨rfl, rfl, row, hprovider, hcost, h₃⟩ := h
    have hdone : ∀ t', (∀ e ∈ t', e.cmd.Plain) → Kept q (fun rows paid => Agree rows paid ↔
        s₂.toUsage.Booked columns q.requestedModel) (t₁ ++ (t₂ ++ (t₃ ++ t'))) := by
      refine fun t' ht' => (h₁.append (h₂.append (h₃.append_plain ht'))).kept ?_
      rw [Usage.Booked, if_pos hcount, ← agree_rowIf, hprovider, hcost]
      rfl
    -- the row is written, and what comes after it only reports
    dsimp only
    rw [Coro.wp_bind]
    refine Coro.wp_mono (Coro.wp_and (hclosing _) honly.wp) fun t₄ r s₄ _ h => ?_
    obtain ⟨rfl, h₄⟩ := h
    have hplain : ∀ e ∈ t₄, e.cmd.Plain := fun e he => (h₄ e he).streaming.plain
    cases r with
    | error x =>
      cases x with
      | exception e =>
        refine Coro.wp_mono (wp_onUnbooked_plain rfl) fun t₅ _ _ _ h₅ => ?_
        simpa using hdone (t₄ ++ t₅) (List.forall_mem_append.mpr ⟨hplain, h₅⟩)
      | _ => simpa using hdone t₄ hplain
    | ok u =>
      refine Coro.wp_pure.mpr ?_
      simpa using hdone t₄ hplain
  · refine Coro.wp_mono (kept_onUnbooked hs) fun t' r' s' _ h' => ?_
    obtain ⟨rows, paid, hK, hb⟩ := h'.books
    refine (h₁.append hb).kept ?_
    rw [List.nil_append, List.nil_append, hK.agree_iff, Usage.Booked, if_neg hcount]
    exact and_iff_right (not_or.mp hcount).1

/-! ## The endpoints -/

/-- The streams that leave one row which agrees with what was settled. One that ran out does, unless
the tokens of its prompt cannot be published or the row is refused. One that ended early does only if
a provider had answered; and on the endpoint that writes a row before the settlement of a stream all
providers failed, only if none had. -/
def Endpoint.AuditsOnce (endpoint : Endpoint) (columns : Columns) (requestedModel : String)
    (t : List Ev) : Prop :=
  if Exhausted t then (usageOf t).Booked columns requestedModel
  else if AllFailed t ∧ endpoint.AuditsFirst then
    columns.model requestedModel = true ∧ (usageOf t).finalProvider = ""
  else (usageOf t).finalProvider ≠ "" ∧ (usageOf t).Chargeable columns requestedModel

variable {endpoint : Endpoint} {stream : RouterStream}

/-- What follows the loop is booked for the usage the loop left. -/
theorem Looped.audited {r : Except Exc Unit} {s : StreamLocals} {C : Prop} (h : Looped {} t r s)
    (hfed : ∀ e ∈ t', e.cmd.Unfed)
    (hk : Kept q (fun rows paid => Agree rows paid ↔ C) t')
    (hC : endpoint.AuditsOnce columns q.requestedModel t ↔ C) :
    Audited q (t ++ t') ↔ endpoint.AuditsOnce columns q.requestedModel (t ++ t') := by
  obtain ⟨rows, paid, hK, hb⟩ := (hk.prepend_plain fun e he => (h.streaming e he).plain).books
  have hwhole : endpoint.AuditsOnce columns q.requestedModel (t ++ t') ↔
      endpoint.AuditsOnce columns q.requestedModel t := by
    simp only [Endpoint.AuditsOnce, exhausted_append_of_unfed hfed, allFailed_append_of_unfed hfed,
      usageOf_append_of_unfed hfed]
  rw [Audited, hb.rows, hb.paid, hwhole, hC]
  exact hK

theorem wp_generator_audited {C : Prop}
    (h : Clauses C settings q (Working columns) deliver allFailed closing)
    (hhanded : ∀ c s, (deliver c).wp (Working columns) s fun t r _ => Handed t r)
    (hfailed : ∀ s : StreamLocals, allFailed.wp (Working columns) s fun t _ _ =>
      Kept q (endpoint.FailBooks columns q.requestedModel s.toUsage) t) :
    (generator settings q deliver allFailed closing stream).wp (Working columns) {} fun t _ _ =>
      Audited q t ↔ endpoint.AuditsOnce columns q.requestedModel t := by
  have hlatency : ∀ l, ∀ e ∈ ([⟨.metric .requestLatency, l⟩] : List Ev), e.cmd.Plain := fun l =>
    List.forall_mem_singleton.mpr ⟨trivial, id⟩
  refine wp_generator_of_phases (Coro.wp_and (wp_forChunks h.delivers _ _ _)
    (wp_forChunks_parted (fun _ he => he.disconnecting) h.delivers hhanded _ _ _)) ?_ ?_ ?_
  · rintro t x s ⟨hloop, hpart⟩
    have husage : usageOf t = s.toUsage := hloop.usage.symm
    have habort : ¬ Exhausted t → ¬ AllFailed t → ∀ t' : List Ev,
        Kept q (AbortBooks columns q.requestedModel s.toUsage) t' → Kept q (fun rows paid =>
          Agree rows paid ↔ endpoint.AuditsOnce columns q.requestedModel t) t' := by
      intro hex hf t' ht'
      rw [Endpoint.AuditsOnce, if_neg hex, if_neg fun hc => hf hc.1, husage]
      exact ht'.agree_iff
    have hclause : (loopClause settings q allFailed x).wp (Working columns) s fun t' _ _ =>
        Kept q (fun rows paid =>
          Agree rows paid ↔ endpoint.AuditsOnce columns q.requestedModel t) t' := by
      cases hpart with
      | failed m hf hex hl =>
        refine Coro.wp_mono (hfailed s) fun t' _ _ _ ht' => ?_
        rw [Endpoint.AuditsOnce, if_neg hex, husage]
        simpa only [Kept, hf, true_and] using Endpoint.FailBooks.agree_iff ht'
      | left x hx hl hex hf =>
        rcases hx with rfl | rfl <;>
          exact Coro.wp_mono kept_onDisconnect fun t' _ _ _ ht' => habort hex hf t' ht'
      | broken e he hon =>
        rw [loopClause_broken he]
        exact Coro.wp_mono kept_onUnexpected fun t' _ _ _ ht' => habort hon.exhausted hon.failed t' ht'
    refine Coro.wp_mono (Coro.wp_and hclause (only_loopClause h.failed_only).wp)
      fun t' r s' _ ht' l _ => hloop.audited ?_ (ht'.1.append_plain (hlatency l)) Iff.rfl
    exact List.forall_mem_append.mpr ⟨ht'.2, by simp [Cmd.Unfed]⟩
  · rintro t s e - he
    cases he.sound.1
  · rintro t s ⟨hloop, hpart⟩ -
    have honly : (bookkeeping settings q closing >>= finish).Only Cmd.Unfed :=
      (only_bookkeeping_finish h.closing_only).mono fun _ h => h.unfed
    have husage : usageOf t = s.toUsage := hloop.usage.symm
    cases hpart with
    | exhausted hex hf hl =>
      refine Coro.wp_mono (Coro.wp_and (kept_bookkeeping h.frame h.closing_only hloop.settled)
        honly.wp) fun t' r s' _ hbook => ?_
      refine hloop.audited (List.forall_mem_cons.mpr ⟨trivial, hbook.2⟩)
        (hbook.1.prepend_plain (hlatency _)) ?_
      rw [Endpoint.AuditsOnce, if_pos hex, husage]

end Phases

theorem wp_whenStarted_audited {endpoint : Endpoint} {body : Py StreamLocals Unit}
    (h : body.wp (Working columns) {} fun t _ _ =>
      Audited q t ↔ endpoint.AuditsOnce columns q.requestedModel t) :
    (whenStarted body).wp (Working columns) {} fun t _ _ =>
      Audited q t ↔ Started t ∧ endpoint.AuditsOnce columns q.requestedModel t := by
  have hstart : ∀ b : Bool, ∀ e ∈ ([⟨.start, b⟩] : List Ev), e.cmd.Plain := fun b =>
    List.forall_mem_singleton.mpr ⟨trivial, id⟩
  rw [whenStarted, Coro.wp_bind, wp_start_iff]
  rintro (_ | _) _
  · refine iff_of_false ?_ fun hc => Bool.false_ne_true hc.1
    rintro ⟨row, hrow, -⟩
    cases hrow
  · dsimp only
    rw [if_pos rfl]
    refine Coro.wp_mono h fun t r s' _ ht => ?_
    have hbooks : Books q.requestId ([⟨.start, true⟩] ++ t) _ _ :=
      Books.prepend_plain ⟨rfl, rfl⟩ (hstart true)
    have hiff : Started ([⟨.start, true⟩] ++ t) ∧
        endpoint.AuditsOnce columns q.requestedModel ([⟨.start, true⟩] ++ t) ↔
        endpoint.AuditsOnce columns q.requestedModel t := by
      have husage : usageOf (⟨.start, true⟩ :: t) = usageOf t := rfl
      simp [Started, Endpoint.AuditsOnce, husage, exhausted_cons, ranOut, allFailed_cons, gaveUp]
    rw [hiff, Audited, hbooks.rows, hbooks.paid]
    exact ht

theorem wp_endpoint_audited {endpoint : Endpoint} {stream : RouterStream} :
    (endpoint.run settings q stream).wp (Working columns) {} fun t _ _ =>
      Audited q t ↔ Started t ∧ endpoint.AuditsOnce columns q.requestedModel t := by
  have hleave : ∀ e, Working columns e → Disconnecting e := fun _ he => he.disconnecting
  cases endpoint with
  | native =>
    exact wp_whenStarted_audited <| wp_generator_audited clauses_native
      (wp_relayChunk_handed hleave) fun _ => kept_onAllFailed
  | openai completionId created =>
    exact wp_whenStarted_audited <| wp_generator_audited clauses_openai
      (wp_relayDelta_handed hleave) fun _ => kept_onAllFailedOpenai

/-! ## Requests that are not streamed -/

theorem kept_serveNothing {α : Type} :
    (serveNothing settings q : Py σ α).wp (Working columns) s fun t _ _ =>
      Kept q (fun rows paid => Agree rows paid ↔ columns.model q.requestedModel = true) t := by
  rw [serveNothing, Coro.wp_bind]
  refine Coro.wp_mono (books_settleChain q.requestId) fun t r s₁ _ h => ?_
  obtain ⟨rfl, rfl, h₁⟩ := h
  dsimp only
  rw [Coro.wp_bind]
  refine wp_metric_working ?_
  have h₂ : Books q.requestId [⟨.metric (.requestCount "error"), .ok ()⟩] [] [] :=
    books_of_plain (List.forall_mem_singleton.mpr ⟨trivial, id⟩)
  dsimp only
  rw [Coro.wp_bind]
  refine Coro.wp_mono books_recordAuditLog fun t r s₂ _ h => ?_
  obtain ⟨rfl, rfl, row, hprovider, hcost, h₃⟩ := h
  refine wp_throw.mpr ((h₁.append (h₂.append (h₃.append_plain (by simp)))).kept ?_)
  rw [← columns.takes_zero, ← agree_rowIf, hprovider, hcost]
  rfl

/-- The bookkeeping of a response writes its row if it gets to it. -/
theorem kept_serveResponse {result : ChatResponse} :
    (serveResponse settings q result : Py σ ChatResponse).wp (Working columns) s fun t _ _ =>
      Kept q (fun rows paid => Agree rows paid ↔
        (result.inputTokens.IsNumber ∧ result.outputTokens.IsNumber) ∧ (result.provider = "" ∨
          result.inputTokens.Countable ∧ result.outputTokens.Countable) ∧
        columns.takes q.requestedModel result.inputTokens result.outputTokens = true) t := by
  refine wp_metric_kept (wp_bill_kept
    (columns.takes q.requestedModel result.inputTokens result.outputTokens) (fun cost s => ?_)
    (fun hno => ?_) (fun cost hno => ?_) fun row _ hnum hcount htaken => ?_)
  · rw [Coro.wp_bind]
    refine Coro.wp_mono books_recordAuditLog fun t r s' _ h => ?_
    obtain ⟨rfl, rfl, row, hprovider, hcost, hbooks⟩ := h
    refine Coro.wp_pure.mpr ⟨row, hprovider, hcost, ?_⟩
    rwa [List.append_nil]
  · exact iff_of_false (by simp [Agree]) fun hc => hno hc.1
  · exact iff_of_false (by simp [Agree]) fun hc => hno hc.2
  · exact iff_of_true ⟨row, rfl, rfl⟩ ⟨hnum, hcount, htaken⟩

/-- The outcomes of the router after which `_serve_chat` leaves one row that agrees. -/
def AuditsOnce (columns : Columns) (requestedModel : String) : Except Exc ChatResponse → Prop
  | .ok result => (result.inputTokens.IsNumber ∧ result.outputTokens.IsNumber) ∧
      (result.provider = "" ∨ result.inputTokens.Countable ∧ result.outputTokens.Countable) ∧
      columns.takes requestedModel result.inputTokens result.outputTokens = true
  | .error (.exception (.allProvidersFailed _)) => columns.model requestedModel = true
  | .error _ => False

theorem wp_serveChat_audited {outcome : Except Exc ChatResponse} :
    (serveChat settings (Coro.ofExcept outcome) q).wp (Working columns) s fun t _ _ =>
      Audited q t ↔ AuditsOnce columns q.requestedModel outcome := by
  have hlatency : ∀ l, ∀ e ∈ ([⟨.metric .requestLatency, l⟩] : List Ev), e.cmd.Plain := fun l =>
    List.forall_mem_singleton.mpr ⟨trivial, id⟩
  refine wp_serveChat_of (R := fun t r _ => t = [] ∧ r = outcome)
    (Coro.wp_ofExcept.mpr ⟨rfl, rfl⟩) ?_ ?_ ?_ ?_
  · rintro _ result s₁ ⟨rfl, rfl⟩ -
    exact Coro.wp_mono kept_serveResponse fun t _ _ _ h => h.prepend_plain (hlatency _)
  · intro _ _ _ _ e he
    cases he.sound.1
  · rintro _ m s₁ ⟨rfl, rfl⟩
    exact Coro.wp_mono kept_serveNothing fun t _ _ _ h l _ x => h.append_plain (hlatency l)
  · rintro _ x s₁ ⟨rfl, rfl⟩ hother l hl x'
    refine iff_of_false ?_ ?_
    · rintro ⟨row, hrow, -⟩
      cases hrow
    · unfold AuditsOnce
      split
      · next heq => cases heq
      · next m heq => exact absurd (Except.error.inj heq) (hother m)
      · exact id

/-! ## Every request -/

/-- The requests that leave one row which agrees with what was settled. -/
def Service.AuditsOnce (columns : Columns) (requestedModel : String) (t : List Ev) :
    Service → Prop
  | .chat outcome => LlmGateway.AuditsOnce columns requestedModel outcome
  | .stream endpoint _ => Started t ∧ endpoint.AuditsOnce columns requestedModel t

theorem wp_service_audited {service : Service} :
    (service.run settings q : Py σ Unit).wp (Working columns) s fun t _ _ =>
      Audited q t ↔ service.AuditsOnce columns q.requestedModel t := by
  cases service with
  | chat outcome =>
    rw [Service.run, Coro.wp_bind]
    refine Coro.wp_mono wp_serveChat_audited fun t r s' _ h => ?_
    cases r with
    | error x => exact h
    | ok result =>
      refine Coro.wp_pure.mpr ?_
      rwa [List.append_nil]
  | stream endpoint source =>
    rw [Service.run, Coro.wp_scope]
    exact wp_endpoint_audited

/-- While everything but the router and the client works, a request leaves exactly one row in the
audit log, for the provider and the amount that were settled, exactly if it is one of these. -/
theorem audited_iff {service : Service} {r : Except Exc Unit} {s' : σ}
    (hrun : Coro.Runs (service.run settings q) s t r s') (hA : ∀ e ∈ t, Working columns e) :
    Audited q t ↔ service.AuditsOnce columns q.requestedModel t :=
  wp_service_audited.apply hrun hA

/-! ## Requests without their row -/

/-- SQLite, whose integers have 64 bits. -/
def sqlite : Columns where
  model _ := true
  count
    | .int n => -2 ^ 63 ≤ n && n < 2 ^ 63
    | .count n => n < 2 ^ 63
    | .none | .list _ | .dict _ => false
    | _ => true
  zero := by decide

/-- A database that works. -/
def storing (columns : Columns) : (c : Cmd) → Reply c
  | .commitAudit row =>
    if columns.takes row.requestedModel row.inputTokens row.outputTokens then .ok ()
    else .failed (.exception .overflowError) false
  | c => calm c

/-- The run of a request that holds one reservation, when nothing but the router fails. -/
def logged (service : Service) : List Ev × (Except Exc Unit × Unit) × Ledgers :=
  Prog.drive (answer (storing sqlite)) ((service.run { hashKey := id } heldStream : Py Unit Unit) ())
    fun _ => 0

section Logged

variable (service : Service)

theorem runs_logged : Coro.Runs (service.run { hashKey := id } heldStream : Py Unit Unit) ()
    (logged service).1 (logged service).2.1.1 () :=
  Prog.returns_drive _ _ _

theorem working_storing (L : Ledgers) (c : Cmd) :
    Working sqlite ⟨c, (answer (storing sqlite) L c).1⟩ := by
  cases c with
  | commitAudit row =>
    refine ⟨⟨trivial, rfl⟩, ?_, fun _ hx => nomatch hx⟩
    by_cases htaken : sqlite.takes row.requestedModel row.inputTokens row.outputTokens = true
    · simp [Stored, answer, storing, htaken]
    · simp [Stored, answer, storing, htaken]
  | _ => exact ⟨⟨by trivial, rfl⟩, rfl, fun _ hx => by cases hx⟩

theorem working_logged : ∀ e ∈ (logged service).1, Working sqlite e :=
  (Pool.evolves_drive (redis_answer working_storing) _ _).forall_mem redis_admits

end Logged

theorem audited_iff_answered :
    Audited heldStream (logged (.chat (.ok answered))).1 ↔
      (Service.chat (.ok answered)).AuditsOnce sqlite heldStream.requestedModel
        (logged (.chat (.ok answered))).1 :=
  audited_iff (runs_logged _) (working_logged _)

/-- While everything but the router works, the request does not leave one row that agrees with what
was settled. -/
structure Misaudited (service : Service) : Prop where
  run : Coro.Runs (service.run { hashKey := id } heldStream : Py Unit Unit) () (logged service).1
    (logged service).2.1.1 ()
  working : ∀ e ∈ (logged service).1, Working sqlite e
  misaudited : ¬ Audited heldStream (logged service).1

theorem misaudited_of_not {service : Service}
    (h : ¬ service.AuditsOnce sqlite heldStream.requestedModel (logged service).1) :
    Misaudited service where
  run := runs_logged service
  working := working_logged service
  misaudited := mt (wp_service_audited.apply (runs_logged service) (working_logged service)).mp h

instance (u : Usage) : Decidable (u.Chargeable columns requestedModel) :=
  inferInstanceAs (Decidable (u.inputTokens.Countable ∧
    columns.takes requestedModel u.inputTokens (.count (max 1 (u.streamedChars / 3))) = true))

instance (u : Usage) : Decidable (u.Booked columns requestedModel) :=
  inferInstanceAs (Decidable (if u.finalProvider = "" ∨
      u.inputTokens.Countable ∧ u.outputTokens.Countable then
    columns.takes requestedModel u.inputTokens u.outputTokens = true
    else u.Chargeable columns requestedModel))

instance (t : List Ev) :
    DecidablePred fun endpoint : Endpoint => endpoint.AuditsOnce columns requestedModel t :=
  fun endpoint => inferInstanceAs (Decidable (if Exhausted t then
    (usageOf t).Booked columns requestedModel
    else if AllFailed t ∧ endpoint.AuditsFirst then
      columns.model requestedModel = true ∧ (usageOf t).finalProvider = ""
    else (usageOf t).finalProvider ≠ "" ∧ (usageOf t).Chargeable columns requestedModel))

/-- No provider answers at all. -/
def deadStream : RouterStream where
  chunks := []
  ending := some (.allProvidersFailed "openai failed")

/-- An answer with more input tokens than a column of 64 bits takes. -/
def unstorable : ChatResponse := { answered with inputTokens := .int (2 ^ 63) }

/-- An error of no known class, a stream without a chunk on the endpoint that leaves the row to the
settlement, one that breaks off on the endpoint that does not, and an answer that is priced and
settled but too long for the table. -/
theorem request_misaudited :
    Misaudited (.chat (.error (.exception (.other "RuntimeError")))) ∧
      Misaudited (.stream (.openai "id" 0) deadStream) ∧
      Misaudited (.stream .native brokenStream) ∧
      Misaudited (.chat (.ok unstorable)) := by
  refine ⟨misaudited_of_not id, misaudited_of_not fun h => ?_, misaudited_of_not fun h => ?_,
    misaudited_of_not fun h => ?_⟩
  · exact absurd h.2 (by decide +kernel)
  · exact absurd h.2 (by decide +kernel)
  · exact absurd h.2.2 (by decide +kernel)

end LlmGateway
