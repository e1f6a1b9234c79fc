import LlmGateway.Main.SettledOnce
import LlmGateway.Main.TerminalFrame
import LlmGateway.Main.Vouched

/-!
# What a request leaves on the books

What a request costs is written down twice: its settlement moves the ledgers, and a row of the audit
log repeats the settlement. The two are different stores, and either can fail.

Where Redis does not fail, `left_eq` says by how much a finished request leaves them apart. It holds
what it reserved if it was never settled, and what it was settled at if the row of that is missing.
-/

namespace LlmGateway

open Coroutine
open Conservation (settlements settledAt settledAt_of_settles)

variable {σ α β : Type} {s : σ} {settings : Settings} {q : RequestArgs} {A : Ev → Prop}
  {t t' : List Ev}

/-! ## Rows and settlements -/

/-- The row that an event sends to the audit log, if it names a provider. -/
def namedRow? : Ev → Option AuditLogEntry
  | ⟨.commitAudit row, _⟩ => if row.provider = "" then none else some row
  | _ => none

/-- The rows that a trace sends to the audit log and that name a provider. -/
def namedRows (t : List Ev) : List AuditLogEntry := t.filterMap namedRow?

theorem namedRows_append (t t' : List Ev) : namedRows (t ++ t') = namedRows t ++ namedRows t' :=
  List.filterMap_append

/-- A row that the command sends names no provider. -/
def Cmd.Unnamed : Cmd → Prop
  | .commitAudit row => row.provider = ""
  | _ => True

theorem namedRows_of_unnamed (h : ∀ e ∈ t, e.cmd.Unnamed) : namedRows t = [] := by
  refine List.filterMap_eq_nil_iff.mpr fun e he => ?_
  have hc := h e he
  obtain ⟨c, r⟩ := e
  cases c with
  | commitAudit row => exact if_pos hc
  | _ => rfl

/-- Whatever fails, `m` sends at most `n` rows that name a provider more than it makes settlements. -/
def Owes (n : ℕ) (m : Py σ α) : Prop :=
  ∀ A s, m.wp A s fun t _ _ => (namedRows t).length ≤ (settlements t).length + n

/-- The same, and if `m` returns it has made a settlement that no row has been sent for. -/
def Earns (m : Py σ α) : Prop :=
  ∀ A s, m.wp A s fun t r _ => (namedRows t).length ≤ (settlements t).length ∧
    ((∃ a, r = .ok a) → (namedRows t).length + 1 ≤ (settlements t).length)

/-- What is owed adds up. -/
theorem length_le_of_append {n k : ℕ} (h : (namedRows t).length ≤ (settlements t).length + n)
    (h' : (namedRows t').length + n ≤ (settlements t').length + k) :
    (namedRows (t ++ t')).length ≤ (settlements (t ++ t')).length + k := by
  rw [namedRows_append, settlements_append, List.length_append, List.length_append]
  omega

namespace Owes

variable {n : ℕ} {m : Py σ α} {f : α → Py σ β}

theorem of_only (h : m.Only Cmd.Unnamed) : Owes n m := fun _ _ =>
  Coro.wp_mono h.wp fun t _ _ _ ht => by
    rw [namedRows_of_unnamed ht]
    exact Nat.zero_le _

theorem bind (h : Owes 0 m) (hf : ∀ a, Owes n (f a)) : Owes n (m >>= f) := by
  intro A s
  rw [Coro.wp_bind]
  refine Coro.wp_mono (h A s) fun t r s' _ ht => ?_
  cases r with
  | error x => exact Nat.le_add_right_of_le ht
  | ok a => exact Coro.wp_mono (hf a A s') fun _ _ _ _ ht' => length_le_of_append ht ht'

/-- What comes last owes nothing. -/
theorem bind_last (h : Owes n m) (hf : ∀ a, Owes 0 (f a)) : Owes n (m >>= f) := by
  intro A s
  rw [Coro.wp_bind]
  refine Coro.wp_mono (h A s) fun t r s' _ ht => ?_
  cases r with
  | error x => exact ht
  | ok a =>
    refine Coro.wp_mono (hf a A s') fun _ _ _ _ ht' => length_le_of_append ht ?_
    exact Nat.add_le_add_right ht' n

theorem ite {c : Prop} [Decidable c] {m m' : Py σ α} (h : c → Owes n m) (h' : ¬ c → Owes n m') :
    Owes n (if c then m else m') := by
  split
  · exact h ‹_›
  · exact h' ‹_›

theorem attempt {g : Exc → Option (Py σ α)} (h : Owes n m) (hg : ∀ x c, g x = some c → Owes 0 c) :
    Owes n (m.attempt g) := by
  intro A s
  rw [Coro.wp_attempt]
  refine Coro.wp_mono (h A s) fun t r s' _ ht => ?_
  cases r with
  | ok a => exact ht
  | error x =>
    dsimp only
    split
    · next c hc =>
      refine Coro.wp_mono (hg x c hc A s') fun _ _ _ _ ht' => length_le_of_append ht ?_
      exact Nat.add_le_add_right ht' n
    · exact ht

theorem ensure {fin : Py σ Unit} (h : Owes n m) (hfin : Owes 0 fin) : Owes n (m.ensure fin) := by
  intro A s
  rw [Coro.wp_ensure]
  refine Coro.wp_mono (h A s) fun t r s' _ ht => ?_
  refine Coro.wp_mono (hfin A s') fun t' r' _ _ ht' => ?_
  have hboth := length_le_of_append ht (Nat.add_le_add_right ht' n)
  cases r' <;> exact hboth

theorem tryExcept {g : PyError → Py σ α} (h : Owes n m) (hg : ∀ e, Owes 0 (g e)) :
    Owes n (LlmGateway.tryExcept m g) := by
  refine .attempt h fun x c hc => ?_
  cases x with
  | exception e =>
    obtain rfl := Option.some.inj hc
    exact hg e
  | _ => cases hc

end Owes

namespace Earns

variable {n : ℕ} {m : Py σ α} {f : α → Py σ β}

/-- A row may follow what has earned it. -/
theorem bind (h : Earns m) (hf : ∀ a, Owes 1 (f a)) : Owes 0 (m >>= f) := by
  intro A s
  rw [Coro.wp_bind]
  refine Coro.wp_mono (h A s) fun t r s' _ ht => ?_
  cases r with
  | error x => exact ht.1
  | ok a =>
    refine Coro.wp_mono (hf a A s') fun t' _ _ _ ht' => ?_
    have hearned := ht.2 ⟨a, rfl⟩
    rw [namedRows_append, settlements_append, List.length_append, List.length_append]
    omega

theorem owes_bind (h : Owes 0 m) (hf : ∀ a, Earns (f a)) : Earns (m >>= f) := by
  intro A s
  rw [Coro.wp_bind]
  refine Coro.wp_mono (h A s) fun t r s' _ ht => ?_
  cases r with
  | error x => exact ⟨ht, by rintro ⟨a, ⟨⟩⟩⟩
  | ok a =>
    refine Coro.wp_mono (hf a A s') fun t' r' _ _ ht' => ?_
    rw [namedRows_append, settlements_append, List.length_append, List.length_append]
    refine ⟨by omega, fun hr => ?_⟩
    have hearned := ht'.2 hr
    omega

theorem bind_pure {g : α → β} (h : Earns m) : Earns (m >>= fun a => pure (g a)) := by
  intro A s
  rw [Coro.wp_bind]
  refine Coro.wp_mono (h A s) fun t r s' _ ht => ?_
  cases r with
  | error x => exact ⟨ht.1, by rintro ⟨a, ⟨⟩⟩⟩
  | ok a =>
    refine Coro.wp_pure.mpr ?_
    rw [List.append_nil]
    exact ⟨ht.1, fun _ => ht.2 ⟨a, rfl⟩⟩

end Earns

/-! ## Parts of the bookkeeping -/

theorem Cmd.Accounting.unnamed {c : Cmd} (h : c.Accounting) : c.Unnamed := by
  cases c <;> trivial

theorem Cmd.Calling.unnamed {c : Cmd} (h : c.Calling) : c.Unnamed := by
  cases c <;> trivial

theorem earns_settleChain {apiKey provider : String} {reservations : OrderedDict String ℚ}
    {cost : ℚ} : Earns (settleChain settings apiKey reservations provider cost : Py σ Unit) := by
  intro A s
  have honly : (settleChain settings apiKey reservations provider cost : Py σ Unit).Only
      Cmd.Unnamed := only_settleChain fun _ h => h.unnamed
  refine Coro.wp_mono (Coro.wp_and calls_settleChain honly.wp) fun t r s' _ h => ?_
  obtain ⟨⟨-, -, hsettled⟩, ht⟩ := h
  rw [namedRows_of_unnamed ht, hsettled.settlements_eq]
  exact ⟨Nat.zero_le _, fun _ => Nat.le_refl _⟩

theorem owes_commitAudit {row : AuditLogEntry} : Owes 1 (commitAudit row : Py σ Unit) := by
  intro A s
  rw [wp_commitAudit_iff]
  intro r _
  have hone : (namedRows [(⟨.commitAudit row, r⟩ : Ev)]).length ≤ 1 :=
    List.length_filterMap_le _ _
  exact Nat.le_add_left_of_le hone

theorem owes_recordAuditLog {apiKey : String} {row : AuditFields} :
    Owes 1 (recordAuditLog settings apiKey row : Py σ Unit) :=
  .tryExcept (.bind (.of_only (.bind (.perform trivial) fun _ => .ofExcept)) fun _ =>
    .ensure (.bind (.of_only (.bind (.perform trivial) fun _ => .ofExcept)) fun _ =>
      owes_commitAudit) (.of_only (.bind (.perform trivial) fun _ => .ofExcept)))
    fun _ => .of_only .pure

/-- A row that names nobody. -/
theorem unnamed_recordAuditLog {apiKey : String} {row : AuditFields} (h : row.provider = "") :
    (recordAuditLog settings apiKey row : Py σ Unit).Only Cmd.Unnamed :=
  only_tryExcept (.bind (.bind (.perform trivial) fun _ => .ofExcept) fun _ =>
    .ensure (.bind (.bind (.perform trivial) fun _ => .ofExcept) fun _ =>
      .bind (.perform h) fun _ => .ofExcept) (.bind (.perform trivial) fun _ => .ofExcept))
    fun _ => .pure

theorem owes_metric {n : ℕ} {m : Metric} : Owes n (metric m : Py σ Unit) :=
  .of_only (only_metric trivial)

theorem owes_estimateCost {n : ℕ} {provider model : String} {inputTokens outputTokens : PyVal} :
    Owes n (estimateCost settings provider model inputTokens outputTokens : Py σ ℚ) :=
  .of_only (.bind (only_pricing trivial) fun _ => .ofExcept)

theorem owes_recordUsage {n : ℕ} {provider model : String} {inputTokens outputTokens : PyVal}
    {cost : ℚ} : Owes n (recordUsage provider model inputTokens outputTokens cost : Py σ Unit) :=
  .of_only (only_recordUsage fun _ => trivial)

theorem owes_emit {n : ℕ} {f : Frame} : Owes n (emit f : Py σ Unit) := .of_only (only_emit trivial)

/-! ## Requests -/

/-- A request that is not streamed sends a row only after its settlement. -/
theorem owes_serveChat {router : Py σ ChatResponse} (hrouter : router.Only Cmd.Calling) :
    Owes 0 (serveChat settings router q) := by
  have hnothing : (serveNothing settings q : Py σ ChatResponse).Only Cmd.Unnamed :=
    .bind (only_settleChain fun _ h => h.unnamed) fun _ => .bind (only_metric trivial) fun _ =>
      .bind (unnamed_recordAuditLog rfl) fun _ => only_throw
  refine .bind (.ensure (.attempt (.of_only (hrouter.mono fun _ h => h.unnamed)) fun x c hc => ?_)
    owes_metric) fun result => .bind owes_metric fun _ => .bind owes_estimateCost fun cost =>
      earns_settleChain.bind fun _ => .bind owes_recordUsage fun _ =>
        owes_recordAuditLog.bind_last fun _ => .of_only .pure
  split at hc
  · obtain rfl := Option.some.inj hc
    exact .of_only hnothing
  · cases hc

theorem owes_settleStreamOnAbort {provider model : String} {inputTokens : PyVal}
    {streamedChars : ℕ} :
    Owes 0 (settleStreamOnAbort settings q provider model inputTokens streamedChars : Py σ Unit) :=
  .ite (fun _ => .of_only (only_settleChain fun _ h => h.unnamed)) fun _ =>
    .bind owes_estimateCost fun _ => earns_settleChain.bind fun _ =>
      .bind owes_recordUsage fun _ => owes_recordAuditLog

theorem owes_abortStream : Owes 0 (abortStream settings q) :=
  .bind (.of_only .locals) fun _ => owes_settleStreamOnAbort

theorem owes_tryAbortStream : Owes 0 (tryAbortStream settings q) :=
  .bind (.of_only .locals) fun _ => .tryExcept owes_settleStreamOnAbort fun _ => .of_only .pure

theorem owes_onAllFailed {endpoint : Endpoint} : Owes 0 (endpoint.onAllFailed settings q) := by
  cases endpoint with
  | native =>
    exact .bind owes_metric fun _ => .bind (.of_only (unnamed_recordAuditLog rfl)) fun _ =>
      .bind owes_abortStream fun _ => owes_emit
  | openai completionId created =>
    exact .bind owes_metric fun _ => .bind owes_abortStream fun _ => owes_emit

theorem unnamed_closing {endpoint : Endpoint} : endpoint.closing.Only Cmd.Unnamed := by
  cases endpoint with
  | native => exact .pure
  | openai completionId created => exact .bind .locals fun _ => only_emit trivial

/-- The bookkeeping of a stream, in which settling and the row are not next to each other. -/
theorem owes_bookkeeping {endpoint : Endpoint} :
    Owes 0 (bookkeeping settings q endpoint.closing) := by
  have hreport : Owes 0 (do
      metric (.requestCount "error")
      emit (streamErrorFrame q.requestId)
      pure false : Py StreamLocals Bool) :=
    .bind owes_metric fun _ => .bind owes_emit fun _ => .of_only .pure
  have hprice : ∀ u : StreamLocals, Owes 0 (priceStream settings u.finalProvider u.finalModel
      u.inputTokens u.outputTokens : Py StreamLocals ℚ) := fun _ =>
    .of_only (only_priceStream trivial fun _ => trivial)
  refine .attempt (.bind (.of_only .locals) fun u => ?_) fun x c hc => ?_
  · have hspend : Earns (settleStreamSpend settings q u.finalProvider u.finalModel u.inputTokens
        u.outputTokens : Py StreamLocals ℚ) :=
      .owes_bind (hprice u) fun cost => earns_settleChain.bind_pure
    exact hspend.bind fun cost => .bind (.of_only .update) fun _ =>
      owes_recordAuditLog.bind_last fun _ => .bind (.of_only unnamed_closing) fun _ => .of_only .pure
  · cases x with
    | exception e =>
      obtain rfl := Option.some.inj hc
      exact .bind owes_metric fun _ => .bind (.of_only .locals) fun _ => .ite (fun _ => hreport)
        fun _ => .bind owes_tryAbortStream fun _ => hreport
    | _ => cases hc

theorem owes_endpoint {endpoint : Endpoint} {source : RouterStream} :
    Owes 0 (endpoint.run settings q source) := by
  have hdeliver : ∀ c, (endpoint.deliver q c).Only Cmd.Relaying := by
    intro c
    cases endpoint with
    | native => exact only_relayChunk trivial
    | openai completionId created => exact only_relayDelta (fun _ => trivial) fun _ => trivial
  have hloop : ∀ chunks, Owes 0 (forChunks (endpoint.deliver q) source.ending chunks) := fun _ =>
    .of_only ((only_forChunks hdeliver _ _).mono fun c h => by cases c <;> trivial)
  have hdisconnect : ∀ x, Owes 0 (onDisconnect settings q x : Py StreamLocals Bool) := fun _ =>
    .bind owes_metric fun _ => .bind owes_abortStream fun _ => .of_only .raise
  rw [Endpoint.run_eq]
  refine .bind (.of_only (.perform trivial)) fun _ => .ite (fun _ => .bind (.ensure (.attempt
    (.bind (hloop _) fun _ => .of_only .pure) fun x c hc => ?_) owes_metric) fun _ => .ite
      (fun _ => .bind owes_bookkeeping fun _ => .ite (fun _ => .bind owes_metric fun _ => owes_emit)
        fun _ => .of_only .pure) fun _ => .of_only .pure) fun _ => .of_only .pure
  split at hc
  · obtain rfl := Option.some.inj hc
    exact hdisconnect _
  · obtain rfl := Option.some.inj hc
    exact hdisconnect _
  · obtain rfl := Option.some.inj hc
    exact .bind owes_onAllFailed fun _ => .of_only .pure
  · obtain rfl := Option.some.inj hc
    exact .bind (.bind owes_metric fun _ => .bind owes_metric fun _ => .bind owes_tryAbortStream
      fun _ => owes_emit) fun _ => .of_only .pure
  · cases hc

/-! ## What settlements ask of the providers -/

/-- The ledgers of the providers are asked for what the settlements come to. -/
def AskedFor (q : RequestArgs) (t : List Ev) : Prop :=
  ∀ p, tally (asked (.provider p)) t =
    ((settlements t).map fun x => settlement q.reservations x.1 x.2 (.provider p)).sum

theorem composes_askedFor : Coro.Composes (AskedFor q) where
  nil _ := rfl
  append t t' h h' p := by
    rw [tally_append, h, h', settlements_append, List.map_append, List.sum_append]

theorem settlements_of_unrecorded (h : ∀ e ∈ t, e.cmd.Unrecorded) : settlements t = [] := by
  rw [settlements, calls_of_unrecorded h]
  rfl

theorem askedFor_of_beside (t : List Ev) (h : ∀ e ∈ t, e.cmd.Beside) : AskedFor q t := by
  intro p
  rw [settlements_of_unrecorded fun e he => (h e he).1]
  refine tally_eq_zero fun e he => ?_
  have hc := (h e he).2
  obtain ⟨c, r⟩ := e
  cases c <;> first | rfl | exact hc.elim

theorem askedFor_settleChain {provider : String} {cost : ℚ} :
    Coro.Along Sound (AskedFor q)
      (settleChain settings q.apiKey q.reservations provider cost : Py σ Unit) := by
  intro s
  have hchain : (settleChain settings q.apiKey q.reservations provider cost : Py σ Unit).wp Sound s
      fun t r s' => s' = s ∧ FromRedis t r ∧ (Interrupted t ∨
        ChainAsked settings q.apiKey q.reservations provider cost t) :=
    Coro.wp_anti wp_settleChain fun _ h => h.1
  refine Coro.wp_mono (Coro.wp_and hchain calls_settleChain) fun t r s' hA h => ?_
  obtain ⟨⟨-, -, hasked⟩, -, -, hsettled⟩ := h
  have hcomplete := hasked.resolve_left (not_interrupted fun e he => (hA e he).2)
  intro p
  rw [hsettled.settlements_eq, hcomplete.provider, List.map_singleton, List.sum_singleton]

/-- What serving a request puts on the books. -/
structure Booked (q : RequestArgs) (t : List Ev) : Prop where
  once : Once q t
  ledgers : AskedFor q t
  rows : (namedRows t).length ≤ (settlements t).length

theorem wp_serveChat_booked {router : Py σ ChatResponse} (hrouter : router.Only Cmd.Calling) :
    (serveChat settings router q).wp Sound s fun t _ _ => Booked q t := by
  have honce : (serveChat settings router q).wp Sound s fun t _ _ => Once q t := by
    have hquiet : ∀ {u : List Ev}, (∀ e ∈ u, e.cmd.Calling) → calls u = [] := fun hu =>
      calls_of_unrecorded fun e he => (hu e he).unrecorded
    refine wp_serveChat_of (R := fun t _ _ => ∀ e ∈ t, e.cmd.Calling) hrouter.wp ?_ ?_ ?_ ?_
    · rintro t result s₁ ht -
      refine Coro.wp_mono wp_serveResponse fun t' r s' _ h => ?_
      rw [Once, calls_append, hquiet ht]
      rcases h with ⟨cost, -, h⟩ | ⟨hnil, -⟩
      · exact .inr ⟨_, cost, h⟩
      · exact .inl hnil
    · rintro t result s₁ ht e -
      refine .inl ?_
      rw [calls_append, hquiet ht]
      rfl
    · rintro t m s₁ ht
      refine Coro.wp_mono wp_serveNothing fun t' r s' _ h l _ x => .inr ⟨"", 0, ?_⟩
      have hmetric : calls [(⟨.metric .requestLatency, l⟩ : Ev)] = [] := rfl
      rw [calls_append, calls_append, hquiet ht, hmetric, List.nil_append, List.append_nil]
      exact h.2
    · rintro t x s₁ ht - l - x'
      refine .inl ?_
      rw [calls_append, hquiet ht]
      rfl
  have hasked : (serveChat settings router q).wp Sound s fun t _ _ => AskedFor q t :=
    along_serveChat composes_askedFor askedFor_of_beside (fun _ _ _ => askedFor_settleChain)
      (hrouter.mono fun _ h => h.beside) s
  exact Coro.wp_mono (Coro.wp_and honce (Coro.wp_and hasked (owes_serveChat hrouter Sound s)))
    fun _ _ _ _ h => ⟨h.1, h.2.1, h.2.2⟩

theorem wp_endpoint_booked {endpoint : Endpoint} {source : RouterStream} :
    (endpoint.run settings q source).wp Sound {} fun t _ _ => Booked q t := by
  have hasked : (endpoint.run settings q source).wp Sound {} fun t _ _ => AskedFor q t :=
    along_endpoint composes_askedFor askedFor_of_beside (fun _ _ _ => askedFor_settleChain) endpoint {}
  exact Coro.wp_mono (Coro.wp_and wp_endpoint_once
    (Coro.wp_and hasked (owes_endpoint Sound {}))) fun _ _ _ _ h => ⟨h.1, h.2.1, h.2.2⟩

/-- Events that go on no books, and leave the ledgers alone, can be merged in or left out. -/
theorem Booked.merge_iff {l r : List Ev} (h : Merge t l r)
    (hr : ∀ e ∈ r, e.cmd.Beside ∧ e.cmd.Unnamed) : Booked q t ↔ Booked q l := by
  have hcalls : calls t = calls l := h.filterMap_left fun e he =>
    Option.isNone_iff_eq_none.mp
      (call?_of_calls_nil (calls_of_unrecorded fun e he => (hr e he).1.1) e he)
  have hrows : namedRows t = namedRows l := h.filterMap_left fun e he =>
    List.filterMap_eq_nil_iff.mp (namedRows_of_unnamed fun e he => (hr e he).2) e he
  have hpaid : settlements t = settlements l := by rw [settlements, hcalls, settlements]
  have hasked : ∀ p, tally (asked (.provider p)) t = tally (asked (.provider p)) l := by
    intro p
    have hnone := askedFor_of_beside (q := q) r (fun e he => (hr e he).1) p
    rw [settlements_of_unrecorded fun e he => (hr e he).1.1] at hnone
    rw [h.tally, hnone, List.map_nil, List.sum_nil, add_zero]
  constructor
  · rintro ⟨honce, hcharged, howed⟩
    rw [Once, hcalls] at honce
    rw [hrows, hpaid] at howed
    refine ⟨honce, fun p => ?_, howed⟩
    rw [← hasked, hcharged, hpaid]
  · rintro ⟨honce, hcharged, howed⟩
    rw [← hrows, ← hpaid] at howed
    refine ⟨?_, fun p => ?_, howed⟩
    · rw [Once, hcalls]
      exact honce
    · rw [hasked, hcharged, hpaid]

theorem wp_stream_booked {endpoint : Endpoint} {messages : List ChatMessage}
    {params : Option SamplingParams} {retryAttempts : ℕ} {skip : Finset String} {hops : List Hop} :
    (endpoint.stream settings q (chatStream messages params retryAttempts skip hops)).wp Sound {}
      fun t _ _ => Booked q t := by
  refine Coro.wp_iff.mpr fun t r s' hrun hA => ?_
  obtain ⟨source, t', hrun', tb, tg, ta, hmerge, hmerge', p, hgen, -, hawaited⟩ :=
    covers_stream.exists_run hrun
  obtain ⟨u, hgenerated, -, v, hv, -⟩ := hgen.run
  have hrouter : ∀ e ∈ tg, e.cmd.Beside ∧ e.cmd.Unnamed := fun e he =>
    have hcalling := (only_chatStream ()).forall_mem hgenerated e (hv.mem_iff.mpr (.inl he))
    ⟨hcalling.beside, hcalling.unnamed⟩
  have hloop : ∀ e ∈ ta, Sound e ∧ e.cmd.Beside ∧ e.cmd.Unnamed := fun e he => by
    cases hawaited e he <;> exact ⟨⟨trivial, rfl⟩, ⟨trivial, trivial⟩, trivial⟩
  have hsound : ∀ e ∈ t', Sound e := by
    intro e he
    rcases hmerge'.mem_iff.mp he with he | he
    · exact hA e (hmerge.mem_iff.mpr (.inl he))
    · exact (hloop e he).1
  have hbooked : Booked q t' := wp_endpoint_booked.apply hrun' hsound
  exact (Booked.merge_iff hmerge hrouter).mpr
    ((Booked.merge_iff hmerge' fun e he => (hloop e he).2).mp hbooked)

/-! ## A whole request -/

/-- The row that an event has added to the audit log. -/
def addedRow? : Ev → Option AuditLogEntry
  | ⟨.commitAudit row, r⟩ => if Sent.applied r then some row else none
  | _ => none

/-- The rows that a trace has added to the audit log. -/
def addedRows (t : List Ev) : List AuditLogEntry := t.filterMap addedRow?

/-- What the rows of a provider add up to. -/
def auditTotal (provider : String) (rows : List AuditLogEntry) : ℚ :=
  ((rows.filter fun row => row.provider = provider).map AuditLogEntry.costUsd).sum

theorem auditTotal_append (provider : String) (rows rows' : List AuditLogEntry) :
    auditTotal provider (rows ++ rows') = auditTotal provider rows + auditTotal provider rows' := by
  rw [auditTotal, List.filter_append, List.map_append, List.sum_append]
  rfl

section Totals

variable {provider : String} {rows : List AuditLogEntry}

theorem auditTotal_of_unnamed (h : ∀ row ∈ rows, row.provider = "") (hp : provider ≠ "") :
    auditTotal provider rows = 0 := by
  have hnil : rows.filter (fun row => row.provider = provider) = [] := by
    refine List.filter_eq_nil_iff.mpr fun row hrow => ?_
    rw [h row hrow, decide_eq_true_eq]
    exact hp.symm
  rw [auditTotal, hnil]
  rfl

/-- A log in which one row names a provider. -/
theorem auditTotal_of_single {row : AuditLogEntry}
    (h : rows.filter (fun row => row.provider ≠ "") = [row]) (hp : provider ≠ "") :
    auditTotal provider rows = if row.provider = provider then row.costUsd else 0 := by
  have hsub : rows.filter (fun row => row.provider = provider) =
      (rows.filter fun row => row.provider ≠ "").filter fun row => row.provider = provider := by
    rw [List.filter_filter]
    refine List.filter_congr fun row _ => ?_
    by_cases hrow : row.provider = provider
    · simp [hrow, hp]
    · simp [hrow]
  rw [auditTotal, hsub, h]
  by_cases hrow : row.provider = provider
  · simp [hrow]
  · simp [hrow]

end Totals

theorem addedRows_sublist :
    ((addedRows t).filter fun row => row.provider ≠ "").Sublist (namedRows t) := by
  induction t with
  | nil => exact .slnil
  | cons e t ih =>
    obtain ⟨c, r⟩ := e
    cases c with
    | commitAudit row =>
      have hadded : addedRows (⟨.commitAudit row, r⟩ :: t) =
          (if Sent.applied r then [row] else []) ++ addedRows t := by
        cases happlied : Sent.applied r <;>
          simp [addedRows, addedRow?, happlied]
      have hnamed : namedRows (⟨.commitAudit row, r⟩ :: t) =
          (if row.provider = "" then [] else [row]) ++ namedRows t := by
        by_cases hrow : row.provider = "" <;> simp [namedRows, namedRow?, hrow]
      rw [hadded, hnamed, List.filter_append]
      refine .append ?_ ih
      by_cases hrow : row.provider = ""
      · split <;> simp [hrow]
      · split <;> simp [hrow]
    | _ => exact ih

/-- What a finished request has left on the ledger of a provider that no row tells of: all that it
holds there if it was never settled, and what it was settled at if the row is missing. -/
def adrift (provider : String) (t : List Ev) : ℚ :=
  if settlements t = [] then tally (moved (.provider provider)) t
  else if ∀ row ∈ addedRows t, row.provider = "" then Conservation.costOf provider t
  else 0

section Request

variable {p : RoutedRequest} {provider : String}

/-- Reserving goes on no books. What it returns is what it has claimed, and what it raises has been
handed back. -/
theorem wp_reserveChain_held {chainName requestId apiKey : String} {messages : List ChatMessage}
    {params : Option SamplingParams} :
    (reserveChain settings chainName messages params requestId apiKey).wp Sound s fun t r _ =>
      settlements t = [] ∧ namedRows t = [] ∧ ∀ provider,
        tally (moved (.provider provider)) t = (r.toOption.map fun x => x.1.getD provider 0).getD 0 ∧
          0 ≤ tally (moved (.provider provider)) t := by
  have hrun : (reserveChain settings chainName messages params requestId apiKey).wp Sound s
      fun t r s' => s' = s ∧ ChainRun settings apiKey t r :=
    Coro.wp_anti (wp_reserveChain chainName messages params) fun _ h => h.1
  have honly : (reserveChain settings chainName messages params requestId apiKey : Py σ _).Only
      Cmd.Unnamed := only_reserveChain fun c h => by cases c <;> trivial
  refine Coro.wp_mono (Coro.wp_and hrun (Coro.wp_and claimed_reserveChain honly.wp))
    fun t r s' hA h => ?_
  obtain ⟨⟨-, hchain⟩, hclaimed, hunnamed⟩ := h
  cases hchain with
  | @returned _ s₁ hbody =>
    have hpaid : settlements t = [] := by
      rw [settlements, hbody.calls_eq]
      rfl
    refine ⟨hpaid, namedRows_of_unnamed hunnamed, fun provider => ?_⟩
    have hmoved : tally (moved (.provider provider)) t = s₁.reservations.getD provider 0 := by
      rw [hbody.provider, tally_stranded_of_not_failed fun e he => (hA e he).2, add_zero]
      rfl
    obtain ⟨chain, s₂, -, hclaims, hx⟩ := hclaimed _ rfl
    obtain ⟨hreservations, -⟩ := Prod.mk.inj hx
    refine ⟨hmoved, ?_⟩
    rw [hmoved, hreservations]
    exact hclaims.grows ReserveLocals.rounded_empty provider
  | @unwound t₁ t₂ s₁ x x' hbody hu cs hc hrec =>
    have hpaid : settlements (t₁ ++ t₂) = [] := by
      rw [settlements, calls_append, hbody.calls_eq, List.nil_append, hrec.calls]
      exact settledAt_of_settles hc
    refine ⟨hpaid, namedRows_of_unnamed hunnamed, fun provider => ?_⟩
    have hsound : ∀ e ∈ t₁ ++ t₂, failed e = false := fun e he => (hA e he).2
    obtain ⟨hsound₁, hsound₂⟩ := List.forall_mem_append.mp hsound
    have hmoved : tally (moved (.provider provider)) (t₁ ++ t₂) = 0 := by
      rw [tally_append, hbody.provider, tally_stranded_of_not_failed hsound₁, add_zero,
        tally_moved_of_not_failed hsound₂, hu.resolve_left (not_interrupted hsound₂)]
      exact recorded_add_settlement hbody.recorded.2 (.provider provider)
    exact ⟨hmoved, hmoved.ge⟩

/-- What a served request has left on the ledger of a provider: what it reserved, or what it was
settled at. -/
theorem Booked.moved_eq (h : Booked q t) (hA : ∀ e ∈ t, Sound e)
    (hcosts : ∀ x ∈ settlements t, 0 ≤ x.2) (hfree : provider ∉ FREE_PROVIDERS)
    (hp : provider ≠ "") :
    q.reservations.getD provider 0 + tally (moved (.provider provider)) t =
      if settlements t = [] then q.reservations.getD provider 0
      else Conservation.costOf provider t := by
  rw [tally_moved_of_not_failed fun e he => (hA e he).2, h.ledgers]
  rcases h.once with hnil | ⟨served, cost, hsettled⟩
  · have hpaid : settlements t = [] := by
      rw [settlements, hnil]
      rfl
    rw [if_pos hpaid, hpaid, List.map_nil, List.sum_nil, add_zero]
  · have hpaid : settlements t = [(served, cost)] := hsettled.settlements_eq
    have hcost : 0 ≤ cost := hcosts (served, cost) (hpaid ▸ List.mem_singleton_self _)
    have hcostOf : Conservation.costOf provider t = if provider = served then cost else 0 := by
      by_cases hserved : provider = served
      · simp [Conservation.costOf, hpaid, hserved]
      · simp [Conservation.costOf, hpaid, hserved, Ne.symm hserved]
    rw [if_neg (by rw [hpaid]; exact List.cons_ne_nil _ _), hcostOf, hpaid, List.map_singleton,
      List.sum_singleton, settlement_provider, if_neg hfree]
    by_cases hmem : provider ∈ q.reservations
    · rw [if_pos hmem, Rounding.fl_exact]
      ring
    · rw [if_neg hmem, OrderedDict.getD_of_not_mem hmem, zero_add, max_eq_right hcost]
      by_cases hserved : provider = served
      · rw [if_pos ⟨hserved, hp⟩, if_pos hserved]
      · rw [if_neg fun h => hserved h.1, if_neg hserved]

/-- A settlement that a row tells of is not adrift. -/
theorem auditTotal_eq {paid : List (String × ℚ)} (hrows : (namedRows t).length ≤ paid.length)
    (honce : paid.length ≤ 1) (hattests : ∀ row ∈ addedRows t, row.provider ≠ "" →
      (row.provider, row.costUsd) ∈ paid) (hp : provider ≠ "") :
    auditTotal provider (addedRows t) =
      if ∀ row ∈ addedRows t, row.provider = "" then 0
      else ((paid.filter fun x => x.1 = provider).map Prod.snd).sum := by
  by_cases hnone : ∀ row ∈ addedRows t, row.provider = ""
  · rw [if_pos hnone, auditTotal_of_unnamed hnone hp]
  · rw [if_neg hnone]
    obtain ⟨row, hrow, hnamed⟩ : ∃ row ∈ addedRows t, row.provider ≠ "" := by
      simpa using hnone
    have hmem := hattests row hrow hnamed
    obtain ⟨x, rfl⟩ : ∃ x, paid = [x] :=
      List.length_eq_one_iff.mp (le_antisymm honce (List.length_pos_of_mem hmem))
    obtain rfl : (row.provider, row.costUsd) = x := List.mem_singleton.mp hmem
    have hsingle : (addedRows t).filter (fun row => row.provider ≠ "") = [row] := by
      have hin : row ∈ (addedRows t).filter fun row => row.provider ≠ "" :=
        List.mem_filter.mpr ⟨hrow, decide_eq_true hnamed⟩
      have hlength : ((addedRows t).filter fun row => row.provider ≠ "").length ≤ 1 :=
        addedRows_sublist.length_le.trans hrows
      obtain ⟨row', hrow'⟩ := List.length_eq_one_iff.mp
        (le_antisymm hlength (List.length_pos_of_mem hin))
      rw [hrow'] at hin ⊢
      rw [List.mem_singleton.mp hin]
    rw [auditTotal_of_single hsingle hp]
    by_cases hprovider : row.provider = provider
    · simp [hprovider]
    · simp [hprovider]

theorem wp_serve_booked {x : OrderedDict String ℚ × Finset String} :
    (p.serve settings x).wp Sound s fun t _ _ => Booked (p.args x.1) t := by
  rw [RoutedRequest.serve]
  split
  · rw [Coro.wp_bind]
    refine Coro.wp_mono (wp_serveChat_booked only_chat) fun t r s' _ h => ?_
    cases r with
    | error e => exact h
    | ok result =>
      refine Coro.wp_pure.mpr ?_
      rwa [List.append_nil]
  · rw [Coro.wp_scope]
    exact wp_stream_booked

/-- What a finished request has put on the books. -/
structure OnBooks (t : List Ev) : Prop where
  once : (settlements t).length ≤ 1
  rows : (namedRows t).length ≤ (settlements t).length
  holds : (∀ x ∈ settlements t, 0 ≤ x.2) → ∀ provider, provider ∉ FREE_PROVIDERS → provider ≠ "" →
    0 ≤ tally (moved (.provider provider)) t ∧
      (settlements t ≠ [] → tally (moved (.provider provider)) t = Conservation.costOf provider t)

theorem Once.length_le (h : Once q t) : (settlements t).length ≤ 1 := by
  rcases h with hnil | ⟨served, cost, hsettled⟩
  · rw [settlements, hnil]
    exact Nat.zero_le 1
  · rw [hsettled.settlements_eq]
    exact Nat.le_refl 1

theorem costOf_nonneg (h : ∀ x ∈ settlements t, 0 ≤ x.2) : 0 ≤ Conservation.costOf provider t := by
  refine List.sum_nonneg fun cost hcost => ?_
  obtain ⟨x, hx, rfl⟩ := List.mem_map.mp hcost
  exact h x (List.mem_of_mem_filter hx)

theorem wp_handle_onBooks : (p.handle settings).wp Sound s fun t _ _ => OnBooks t := by
  rw [RoutedRequest.handle, Coro.wp_bind]
  refine Coro.wp_mono wp_reserveChain_held fun t r s₁ hA h => ?_
  obtain ⟨hpaid, hnamed, hheld⟩ := h
  cases r with
  | error x =>
    refine ⟨by simp [hpaid], by simp [hnamed], fun _ provider _ _ => ⟨(hheld provider).2, ?_⟩⟩
    exact fun hne => absurd hpaid hne
  | ok x =>
    refine Coro.wp_mono wp_serve_booked fun t' _ _ hA' h => ?_
    have hpaid' : settlements (t ++ t') = settlements t' := by
      rw [settlements_append, hpaid, List.nil_append]
    have hnamed' : namedRows (t ++ t') = namedRows t' := by
      rw [namedRows_append, hnamed, List.nil_append]
    refine ⟨hpaid' ▸ h.once.length_le, ?_, fun hcosts provider hfree hp => ?_⟩
    · rw [hnamed', hpaid']
      exact h.rows
    · rw [hpaid'] at hcosts ⊢
      obtain ⟨hclaimed, hnonneg⟩ := hheld provider
      have hmoved := h.moved_eq hA' hcosts hfree hp
      have hclaims : tally (moved (.provider provider)) t = x.1.getD provider 0 := hclaimed
      have hcost : Conservation.costOf provider (t ++ t') = Conservation.costOf provider t' := by
        rw [Conservation.costOf, hpaid']
        rfl
      have hsum : tally (moved (.provider provider)) (t ++ t') = if settlements t' = [] then
          x.1.getD provider 0 else Conservation.costOf provider t' := by
        rw [tally_append, hclaims]
        exact hmoved
      rw [hsum, hcost]
      refine ⟨?_, fun hne => if_neg hne⟩
      split
      · rw [← hclaims]
        exact hnonneg
      · exact costOf_nonneg hcosts

/-- What a finished request has left on the ledger of a provider is what its rows tell of, and what is
adrift. -/
theorem wp_handle_adrift (hfree : provider ∉ FREE_PROVIDERS) (hp : provider ≠ "") :
    (p.handle settings).wp Sound s fun t _ _ => (∀ x ∈ settlements t, 0 ≤ x.2) →
      tally (moved (.provider provider)) t = auditTotal provider (addedRows t) + adrift provider t ∧
        0 ≤ adrift provider t := by
  refine Coro.wp_mono (Coro.wp_and wp_handle_onBooks wp_handle_vouched) fun t _ _ _ h hcosts => ?_
  obtain ⟨hbooks, reservations, hvouched⟩ := h
  obtain ⟨hnonneg, hsettled⟩ := hbooks.holds hcosts provider hfree hp
  have hattests : ∀ row ∈ addedRows t, row.provider ≠ "" →
      (row.provider, row.costUsd) ∈ settlements t := by
    intro row hrow hnamed
    obtain ⟨e, he, hadded⟩ := List.mem_filterMap.mp hrow
    obtain ⟨t₁, t₂, rfl⟩ := List.append_of_mem he
    have hcommit : e.cmd = .commitAudit row := by
      obtain ⟨c, r⟩ := e
      cases c with
      | commitAudit row' =>
        rw [addedRow?] at hadded
        split at hadded
        · rw [Option.some.inj hadded]
        · cases hadded
      | _ => cases hadded
    have hattested := (hvouched [] (List.Subset.refl _)).rows.of_split row hcommit
    rw [List.nil_append, flatMap_settlements] at hattested
    have hcharge := (hattested.charge.resolve_left fun h => hnamed h.1).1
    rw [settlements_append]
    exact List.mem_append_left _ hcharge
  have htotal := auditTotal_eq hbooks.rows hbooks.once hattests hp
  rw [htotal, adrift]
  by_cases hpaid : settlements t = []
  · have hnone : ∀ row ∈ addedRows t, row.provider = "" := by
      intro row hrow
      by_contra hnamed
      have hmem := hattests row hrow hnamed
      rw [hpaid] at hmem
      exact absurd hmem List.not_mem_nil
    rw [if_pos hnone, if_pos hpaid, zero_add]
    exact ⟨rfl, hnonneg⟩
  · rw [if_neg hpaid, hsettled hpaid]
    split
    · exact ⟨(zero_add _).symm, costOf_nonneg hcosts⟩
    · exact ⟨(add_zero _).symm, le_refl 0⟩

end Request

end LlmGateway
