import LlmGateway.Main.RealBill
import LlmGateway.Main.StreamCharge

/-!
# Which settlements raise a ledger

The ledger of a provider rises while a request is served only by a call that says so, and a
settlement goes through all of the reservations. Both hold of a settlement and of everything that
goes on beside it, so they hold of whole requests (`along_serveChat`, `along_endpoint`), and whether
a request raises a ledger is a question about the provider and the cost it is settled at.
-/

namespace LlmGateway

open Coroutine
open Conservation (settledAt settlements settledAt_of_settles)

variable {σ α β : Type} {s : σ} {settings : Settings} {A : Ev → Prop}

/-- No provider is settled at more than what was reserved for it, and nothing raises a ledger. -/
structure NeverRaises (t : List Ev) : Prop where
  settled : ∀ p reserved actual, .providerSettle p reserved actual ∈ calls t → actual ≤ reserved
  ledgers : ∀ e ∈ t, ∀ p, asked (.provider p) e ≤ 0

/-! ## Which calls raise a ledger -/

/-- An increment that raises the ledger of a provider comes with a call that says so. -/
def Grounded (t : List Ev) : Prop :=
  ∀ e ∈ t, ∀ p, 0 < asked (.provider p) e →
    (∃ reserved actual, .providerSettle p reserved actual ∈ calls t ∧ reserved < actual) ∨
      ∃ actual, .recordUnreserved p actual ∈ calls t ∧ p ∉ FREE_PROVIDERS ∧ 0 < actual

theorem Grounded.mono {t : List Ev} {cs : List Call} (h : Grounded t) {e : Ev} (he : e ∈ t)
    {p : String} (hpos : 0 < asked (.provider p) e) (hcalls : calls t ⊆ cs) :
    (∃ reserved actual, .providerSettle p reserved actual ∈ cs ∧ reserved < actual) ∨
      ∃ actual, .recordUnreserved p actual ∈ cs ∧ p ∉ FREE_PROVIDERS ∧ 0 < actual :=
  (h e he p hpos).imp (fun ⟨r, a, hc, hlt⟩ => ⟨r, a, hcalls hc, hlt⟩)
    fun ⟨a, hc, hfree, ha⟩ => ⟨a, hcalls hc, hfree, ha⟩

theorem composes_grounded : Coro.Composes Grounded where
  nil := by simp [Grounded]
  append t t' h h' e he p hpos := by
    rw [calls_append]
    rcases List.mem_append.mp he with he | he
    · exact h.mono he hpos (List.subset_append_left _ _)
    · exact h'.mono he hpos (List.subset_append_right _ _)

/-- Events that leave the ledgers of the providers alone. -/
theorem grounded_of_asked {t : List Ev} (h : ∀ e ∈ t, ∀ p, asked (.provider p) e = 0) :
    Grounded t := fun e he p hpos => absurd (h e he p) hpos.ne'

theorem asked_provider_eq {k : LedgerKey} {d : ℚ} {r : Sent ℚ} {p : String} :
    asked (.provider p) ⟨.incrbyfloat k d, r⟩ = if k = .provider p then d else 0 := rfl

/-- The increment of a call that is recorded first. -/
theorem grounded_charge {capUsd delta : ℚ} {provider : String} {c : Call} {t : List Ev}
    {r : Except Exc Unit} (h : ProviderBudget.ChargeRun capUsd provider delta t r)
    (hc : 0 < delta → (∃ reserved actual, c = .providerSettle provider reserved actual ∧
      reserved < actual) ∨ ∃ actual, c = .recordUnreserved provider actual ∧
        provider ∉ FREE_PROVIDERS ∧ 0 < actual) : Grounded (⟨.log c, ()⟩ :: t) := by
  have hcall : c ∈ calls (⟨.log c, ()⟩ :: t) := by simp [calls_cons, call?]
  have hincr : ∀ (r : Sent ℚ) p,
      0 < asked (.provider p) ⟨.incrbyfloat (ProviderBudget.key provider) delta, r⟩ →
      (∃ reserved actual, .providerSettle p reserved actual ∈ calls (⟨.log c, ()⟩ :: t) ∧
        reserved < actual) ∨ ∃ actual, .recordUnreserved p actual ∈ calls (⟨.log c, ()⟩ :: t) ∧
          p ∉ FREE_PROVIDERS ∧ 0 < actual := by
    intro r p hpos
    rw [asked_provider_eq] at hpos
    split at hpos
    · next hkey =>
      obtain rfl : provider = p := LedgerKey.provider.inj hkey
      rcases hc hpos with ⟨reserved, actual, rfl, hlt⟩ | ⟨actual, rfl, hfree, ha⟩
      · exact .inl ⟨reserved, actual, hcall, hlt⟩
      · exact .inr ⟨actual, hcall, hfree, ha⟩
    · exact absurd hpos (lt_irrefl 0)
  intro e he p hpos
  cases h with
  | done total =>
    rcases List.mem_cons.mp he with rfl | he
    · exact absurd hpos (lt_irrefl 0)
    rcases List.mem_cons.mp he with rfl | he
    · exact hincr _ p hpos
    · exact absurd ((ProviderBudget.published_still total e he).asked _) hpos.ne'
  | failed x a =>
    rcases List.mem_cons.mp he with rfl | he
    · exact absurd hpos (lt_irrefl 0)
    obtain rfl := List.mem_singleton.mp he
    exact hincr _ p hpos

/-- The record of a call by itself. -/
theorem grounded_log {c : Call} : Grounded [⟨.log c, ()⟩] :=
  grounded_of_asked fun e he p => by rw [List.mem_singleton.mp he]; rfl

variable [Rounding]

theorem grounded_settle {capUsd reservedUsd actualUsd : ℚ} {provider : String} :
    Coro.Along Healthy Grounded
      (ProviderBudget.settle capUsd provider reservedUsd actualUsd : Py σ Unit) := by
  refine fun s => Coro.wp_mono ProviderBudget.wp_settle fun t r _ _ h => ?_
  cases h.2 with
  | unchanged _ => exact grounded_log
  | charged hp h => exact grounded_charge h fun hpos => .inl ⟨_, _, rfl, sub_pos.mp (Rounding.pos_of_fl_pos hpos)⟩

omit [Rounding] in
theorem grounded_recordUnreserved {capUsd actualUsd : ℚ} {provider : String} :
    Coro.Along Healthy Grounded
      (ProviderBudget.recordUnreserved capUsd provider actualUsd : Py σ Unit) := by
  refine fun s => Coro.wp_mono ProviderBudget.wp_recordUnreserved fun t r _ _ h => ?_
  cases h.2 with
  | exempt _ => exact grounded_log
  | charged hp ha h => exact grounded_charge h fun hpos => .inr ⟨_, rfl, hp, hpos⟩

theorem grounded_trackerSettle {hashKey : String → String} {apiKey : String}
    {reservedUsd actualUsd : ℚ} :
    Coro.Along Healthy Grounded
      (BudgetTracker.settle hashKey apiKey reservedUsd actualUsd : Py σ Unit) := by
  refine fun s => Coro.wp_mono BudgetTracker.wp_settle fun t r _ _ h => grounded_of_asked ?_
  cases h.2 <;> simp [BudgetTracker.applied, BudgetTracker.keyAt, asked]

section Settle

variable {servedProvider : String} {actualUsd : ℚ} {reservations : OrderedDict String ℚ}
  {apiKey : String}

theorem grounded_settleEach (es : List (String × ℚ)) :
    Coro.Along Healthy Grounded (settleEach settings servedProvider actualUsd es) := by
  have hP := composes_grounded
  induction es with
  | nil => exact .pure hP
  | cons e rest ih =>
    refine .bind hP (.attempt hP grounded_settle fun x c hc => ?_) fun _ => ih
    split at hc
    · obtain rfl := Option.some.inj hc
      exact .pure hP
    · cases hc
    · obtain rfl := Option.some.inj hc
      exact .update hP

theorem grounded_settleProviders :
    Coro.Along Healthy Grounded
      (settleProviders settings reservations servedProvider actualUsd : Py σ Unit) := by
  have hP := composes_grounded
  refine .scope (.bind hP (grounded_settleEach _) fun _ => .bind hP ?_ fun _ => ?_)
  · exact .ite (fun _ => along_tryExcept hP grounded_recordUnreserved fun _ => .pure hP)
      fun _ => .pure hP
  · refine .bind hP (.locals hP) fun held => ?_
    cases held with
    | none => exact .pure hP
    | some e => exact .raise hP

theorem grounded_settleChain :
    Coro.Along Healthy Grounded
      (settleChain settings apiKey reservations servedProvider actualUsd : Py σ Unit) := by
  have hP := composes_grounded
  exact .bind hP (.perform fun _ _ => grounded_log) fun _ =>
    .ensure hP grounded_settleProviders grounded_trackerSettle

end Settle

/-! ## Settlements that go through all reservations -/

/-- A settlement settles every reservation, unless a `KeyboardInterrupt` cuts it short. -/
def Complete (t : List Ev) : Prop :=
  Interrupted t ∨ ∀ apiKey reservations provider cost,
    .settleChain apiKey reservations provider cost ∈ calls t →
      ∀ e ∈ reservations.entries, settleCall provider cost e ∈ calls t

omit [Rounding] in
theorem Interrupted.mono {t t' : List Ev} (h : Interrupted t) (hsub : t ⊆ t') : Interrupted t' :=
  let ⟨e, he, hx⟩ := h
  ⟨e, hsub he, hx⟩

omit [Rounding] in
theorem complete_of_nil {t : List Ev} (h : calls t = []) : Complete t :=
  .inr fun _ _ _ _ hmem => absurd hmem (by simp [h])

omit [Rounding] in
theorem composes_complete : Coro.Composes Complete where
  nil := complete_of_nil rfl
  append t t' h h' := by
    rcases h with h | h
    · exact .inl (h.mono (List.subset_append_left _ _))
    rcases h' with h' | h'
    · exact .inl (h'.mono (List.subset_append_right _ _))
    refine .inr fun k res p c hmem e he => ?_
    rw [calls_append] at hmem ⊢
    rcases List.mem_append.mp hmem with hmem | hmem
    · exact List.mem_append_left _ (h k res p c hmem e he)
    · exact List.mem_append_right _ (h' k res p c hmem e he)

omit [Rounding] in
/-- A settlement is recorded once. -/
theorem SettledAt.of_mem {apiKey apiKey' provider provider' : String} {cost cost' : ℚ}
    {reservations reservations' : OrderedDict String ℚ} {cs : List Call}
    (h : SettledAt apiKey reservations provider cost cs)
    (hmem : .settleChain apiKey' reservations' provider' cost' ∈ cs) :
    reservations' = reservations ∧ provider' = provider ∧ cost' = cost := by
  obtain ⟨cs', hs, rfl⟩ := h
  have hnone : ∀ c ∈ cs', settledAt c = none := fun c hc => by
    have hnil := settledAt_of_settles hs
    rw [List.filterMap_eq_nil_iff] at hnil
    exact hnil c hc
  rcases List.mem_append.mp hmem with hmem | hmem
  · rcases List.mem_cons.mp hmem with heq | hmem
    · injection heq with _ h₁ h₂ h₃
      exact ⟨h₁, h₂, h₃⟩
    · cases hnone _ hmem
  · cases List.mem_singleton.mp hmem

section Complete

variable {servedProvider apiKey : String} {actualUsd : ℚ} {reservations : OrderedDict String ℚ}

theorem wp_settleProviders_complete :
    (settleProviders settings reservations servedProvider actualUsd).wp Healthy s fun t _ _ =>
      Interrupted t ∨
        ∀ e ∈ reservations.entries, settleCall servedProvider actualUsd e ∈ calls t := by
  rw [settleProviders, Coro.wp_scope, Coro.wp_bind]
  refine Coro.wp_mono (Coro.wp_and (calls_settleEach reservations.entries none)
    (wp_settleEach reservations.entries none)) fun t r c _ h => ?_
  obtain ⟨⟨⟨cs, hcs, -, hall⟩, hr, -⟩, hasked⟩ := h
  cases r with
  | error x =>
    obtain rfl : x = .interrupt := by
      rcases hr with hr | hr
      · cases hr
      · exact Except.error.inj hr
    exact .inl (hasked.fromRedis _ rfl)
  | ok u =>
    refine Coro.wp_mono Coro.wp_true fun t' _ _ _ _ => .inr fun e he => ?_
    rw [calls_append, hcs.calls, hall rfl]
    exact List.mem_append_left _ (List.mem_map_of_mem he)

theorem complete_settleChain :
    Coro.Along Healthy Complete
      (settleChain settings apiKey reservations servedProvider actualUsd : Py σ Unit) := by
  intro s
  have hall : (settleChain settings apiKey reservations servedProvider actualUsd).wp Healthy s
      fun t _ _ => Interrupted t ∨
        ∀ e ∈ reservations.entries, settleCall servedProvider actualUsd e ∈ calls t := by
    rw [settleChain, Coro.wp_bind, wp_log]
    dsimp only
    rw [Coro.wp_ensure]
    refine Coro.wp_mono wp_settleProviders_complete fun t r s' _ h => ?_
    refine Coro.wp_mono Coro.wp_true fun t' r' s'' _ _ => ?_
    have hmore : Interrupted ([⟨.log (.settleChain apiKey reservations servedProvider actualUsd), ()⟩]
        ++ (t ++ t')) ∨ ∀ e ∈ reservations.entries, settleCall servedProvider actualUsd e ∈
          calls ([⟨.log (.settleChain apiKey reservations servedProvider actualUsd), ()⟩]
            ++ (t ++ t')) :=
      h.imp (fun h => h.mono fun e he => by simp [he]) fun h e he => by
        simp [calls_cons, h e he]
    cases r' <;> exact hmore
  refine Coro.wp_mono (Coro.wp_and hall calls_settleChain) fun t _ _ _ h => ?_
  obtain ⟨hall, -, -, hsettled⟩ := h
  refine hall.imp_right fun hall k res p c hmem => ?_
  obtain ⟨rfl, rfl, rfl⟩ := hsettled.of_mem hmem
  exact hall

end Complete

/-! ## Along a whole request -/

/-- A command that neither records a call nor moves a ledger. -/
def Cmd.Beside (c : Cmd) : Prop := c.Unrecorded ∧ c.Ledgerless

omit [Rounding] in
theorem Cmd.Auditing.beside {c : Cmd} (h : c.Auditing) : c.Beside := ⟨h.closing.1, h.closing.2.2⟩

omit [Rounding] in
theorem Cmd.Calling.beside {c : Cmd} (h : c.Calling) : c.Beside := ⟨h.unrecorded, h.ledgerless⟩

omit [Rounding] in
theorem Cmd.Yielding.beside {c : Cmd} (h : c.Yielding) : c.Beside := by
  cases c <;> first | exact ⟨trivial, trivial⟩ | exact h.elim

section Along

variable {q : RequestArgs} {P : List Ev → Prop} (hP : Coro.Composes P)
  (hbeside : ∀ t : List Ev, (∀ e ∈ t, e.cmd.Beside) → P t)
  (hsettle : ∀ (τ : Type) (provider : String) (cost : ℚ), Coro.Along A P
    (settleChain settings q.apiKey q.reservations provider cost : Py τ Unit))

include hP hbeside hsettle

/-- What holds of settlements, and of what goes on beside them, holds of a run of `_serve_chat`. -/
theorem along_serveChat {router : Py σ ChatResponse} (hrouter : router.Only Cmd.Beside) :
    Coro.Along A P (serveChat settings router q) := by
  have hmetric : ∀ m : Metric, Coro.Along A P (metric m : Py σ Unit) := fun m =>
    .of_only (only_metric ⟨trivial, trivial⟩) hbeside
  have haudit : ∀ row, Coro.Along A P (recordAuditLog settings q.apiKey row : Py σ Unit) := fun row =>
    .of_only (only_recordAuditLog fun _ h => h.beside) hbeside
  refine .bind hP (.ensure hP (.attempt hP (.of_only hrouter hbeside) fun x c hc => ?_) (hmetric _))
    fun result => ?_
  · split at hc
    · obtain rfl := Option.some.inj hc
      exact .bind hP (hsettle _ _ _) fun _ => .bind hP (hmetric _) fun _ =>
        .bind hP (haudit _) fun _ => .raise hP
    · cases hc
  · have husage : ∀ cost, Coro.Along A P (recordUsage result.provider result.model
        result.inputTokens result.outputTokens cost : Py σ Unit) := fun cost =>
      .of_only (only_recordUsage fun _ => ⟨trivial, trivial⟩) hbeside
    exact .bind hP (hmetric _) fun _ => .bind hP (.bind hP
      (.of_only (only_pricing ⟨trivial, trivial⟩) hbeside) fun _ => .ofExcept hP) fun cost =>
        .bind hP (hsettle _ _ _) fun _ => .bind hP (husage _) fun _ => .bind hP (haudit _) fun _ =>
          .pure hP

theorem along_settleStreamOnAbort {provider model : String} {inputTokens : PyVal}
    {streamedChars : ℕ} : Coro.Along A P
      (settleStreamOnAbort settings q provider model inputTokens streamedChars : Py σ Unit) :=
  .ite (fun _ => hsettle _ _ _) fun _ =>
    .bind hP (.bind hP (.of_only (only_pricing ⟨trivial, trivial⟩) hbeside) fun _ => .ofExcept hP)
      fun _ => .bind hP (hsettle _ _ _) fun _ =>
        .bind hP (.of_only (only_recordUsage fun _ => ⟨trivial, trivial⟩) hbeside) fun _ =>
          .of_only (only_recordAuditLog fun _ h => h.beside) hbeside

theorem along_tryAbortStream : Coro.Along A P (tryAbortStream settings q) :=
  .bind hP (.locals hP) fun _ => along_tryExcept hP (along_settleStreamOnAbort hP hbeside hsettle)
    fun _ => .pure hP

theorem along_bookkeeping {closing : Py StreamLocals Unit} (hclosing : closing.Only Cmd.Yielding) :
    Coro.Along A P (bookkeeping settings q closing) := by
  have hbook : ∀ {m : Py StreamLocals Unit}, m.Only Cmd.Beside → Coro.Along A P m :=
    fun h => .of_only h hbeside
  have hreport : Coro.Along A P (do
      metric (.requestCount "error")
      emit (streamErrorFrame q.requestId)
      pure false : Py StreamLocals Bool) :=
    .bind hP (hbook (only_metric ⟨trivial, trivial⟩)) fun _ =>
      .bind hP (hbook (only_emit ⟨trivial, trivial⟩)) fun _ => .pure hP
  refine .attempt hP (.bind hP (.locals hP) fun s => .bind hP ?_ fun _ => .bind hP (.update hP)
    fun _ => .bind hP (hbook (only_recordAuditLog fun _ h => h.beside)) fun _ =>
      .bind hP (hbook (hclosing.mono fun _ h => h.beside)) fun _ => .pure hP) fun x c hc => ?_
  · exact .bind hP (.of_only (only_priceStream ⟨trivial, trivial⟩ fun _ => ⟨trivial, trivial⟩) hbeside)
      fun _ => .bind hP (hsettle _ _ _) fun _ => .pure hP
  · split at hc
    · obtain rfl := Option.some.inj hc
      exact .bind hP (hbook (only_metric ⟨trivial, trivial⟩)) fun _ => .bind hP (.locals hP) fun _ =>
        .ite (fun _ => hreport) fun _ =>
          .bind hP (along_tryAbortStream hP hbeside hsettle) fun _ => hreport
    · cases hc

theorem along_loopHandlers {allFailed : Py StreamLocals Unit} (hfailed : Coro.Along A P allFailed)
    {x : Exc} {c : Py StreamLocals Bool} (hc : loopHandlers settings q allFailed x = some c) :
    Coro.Along A P c := by
  have hmetric : ∀ m : Metric, Coro.Along A P (metric m : Py StreamLocals Unit) := fun m =>
    .of_only (only_metric ⟨trivial, trivial⟩) hbeside
  have hdisconnect : ∀ x, Coro.Along A P (onDisconnect settings q x : Py StreamLocals Bool) :=
    fun _ => .bind hP (hmetric _) fun _ => .bind hP (.bind hP (.locals hP) fun _ =>
      along_settleStreamOnAbort hP hbeside hsettle) fun _ => .raise hP
  unfold loopHandlers at hc
  split at hc
  · obtain rfl := Option.some.inj hc
    exact hdisconnect _
  · obtain rfl := Option.some.inj hc
    exact hdisconnect _
  · obtain rfl := Option.some.inj hc
    exact .bind hP hfailed fun _ => .pure hP
  · obtain rfl := Option.some.inj hc
    exact .bind hP (.bind hP (hmetric _) fun _ => .bind hP (hmetric _) fun _ =>
      .bind hP (along_tryAbortStream hP hbeside hsettle) fun _ =>
        .of_only (only_emit ⟨trivial, trivial⟩) hbeside) fun _ => .pure hP
  · cases hc

/-- What holds of settlements, and of what goes on beside them, holds of a run of a stream. -/
theorem along_generator {C : Prop} {deliver : StreamChunk → Py StreamLocals Unit}
    {allFailed closing : Py StreamLocals Unit} {stream : RouterStream}
    (h : Clauses C settings q A deliver allFailed closing) (hfailed : Coro.Along A P allFailed)
    (s : StreamLocals) :
    (generator settings q deliver allFailed closing stream).wp A s fun t _ _ => P t := by
  have hdeliver : ∀ (ending : Option PyError) (chunks : List StreamChunk),
      Coro.Along A P (forChunks deliver ending chunks) := by
    intro ending chunks
    have hnext : ∀ next, Coro.Along A P (anext next : Py StreamLocals Unit) := fun next =>
      .of_only (B := Cmd.Beside) (.bind (.perform ⟨trivial, trivial⟩) fun _ => .ofExcept) hbeside
    induction chunks with
    | nil =>
      cases ending with
      | none => exact hnext _
      | some e => exact .bind hP (hnext _) fun _ => .raise hP
    | cons c rest ih =>
      exact .bind hP (hnext _) fun _ => .bind hP
        (.of_only ((h.delivers.only c).mono fun _ h => h.beside) hbeside) fun _ => ih
  have hloop : Coro.Along A P (guardedLoop settings q deliver allFailed stream) := by
    rw [guardedLoop_eq]
    refine .ensure hP (.attempt hP (.bind hP (hdeliver _ _) fun _ => .pure hP) fun x c hc =>
      along_loopHandlers hP hbeside hsettle hfailed hc) (.of_only (only_metric ⟨trivial, trivial⟩) hbeside)
  refine Coro.Along.bind hP hloop (fun completed => .ite (fun _ => ?_) fun _ => .pure hP) s
  exact .bind hP (along_bookkeeping hP hbeside hsettle h.closing_only) fun booked =>
    .ite (fun _ => .of_only (.bind (only_metric ⟨trivial, trivial⟩) fun _ =>
      only_emit ⟨trivial, trivial⟩) hbeside) fun _ => .pure hP

theorem along_endpoint (endpoint : Endpoint) {stream : RouterStream} :
    Coro.Along A P (endpoint.run settings q stream) := by
  have habort : Coro.Along A P (abortStream settings q) :=
    .bind hP (.locals hP) fun _ => along_settleStreamOnAbort hP hbeside hsettle
  have hbook : ∀ {m : Py StreamLocals Unit}, m.Only Cmd.Beside → Coro.Along A P m :=
    fun h => .of_only h hbeside
  have hstart : ∀ {body : Py StreamLocals Unit}, Coro.Along A P body →
      Coro.Along A P (whenStarted body) := fun h =>
    .bind hP (.of_only (.perform ⟨trivial, trivial⟩) hbeside) fun _ => .ite (fun _ => h) fun _ =>
      .pure hP
  cases endpoint with
  | native =>
    refine hstart fun s => along_generator hP hbeside hsettle clauses_native ?_ s
    exact .bind hP (hbook (only_metric ⟨trivial, trivial⟩)) fun _ =>
      .bind hP (hbook (only_recordAuditLog fun _ h => h.beside)) fun _ => .bind hP habort fun _ =>
        hbook (only_emit ⟨trivial, trivial⟩)
  | openai completionId created =>
    refine hstart fun s => along_generator hP hbeside hsettle clauses_openai ?_ s
    exact .bind hP (hbook (only_metric ⟨trivial, trivial⟩)) fun _ => .bind hP habort fun _ =>
      hbook (only_emit ⟨trivial, trivial⟩)

end Along

/-- What a run of a request keeps to: its settlements are complete and its increments grounded. -/
def Accounts (t : List Ev) : Prop := Complete t ∧ Grounded t

omit [Rounding] in
theorem composes_accounts : Coro.Composes Accounts where
  nil := ⟨composes_complete.nil, composes_grounded.nil⟩
  append t t' h h' := ⟨composes_complete.append t t' h.1 h'.1, composes_grounded.append t t' h.2 h'.2⟩

omit [Rounding] in
theorem accounts_of_beside (t : List Ev) (h : ∀ e ∈ t, e.cmd.Beside) : Accounts t := by
  refine ⟨complete_of_nil (calls_of_unrecorded fun e he => (h e he).1), grounded_of_asked ?_⟩
  intro e he p
  have hc := (h e he).2
  obtain ⟨c, r⟩ := e
  cases c <;> first | rfl | exact hc.elim

theorem accounts_settleChain {apiKey provider : String} {reservations : OrderedDict String ℚ}
    {cost : ℚ} : Coro.Along Healthy Accounts
      (settleChain settings apiKey reservations provider cost : Py σ Unit) := fun s =>
  Coro.wp_and (complete_settleChain s) (grounded_settleChain s)

/-! ## What a settlement does -/

section Settled

variable {apiKey provider : String} {reservations : OrderedDict String ℚ} {cost : ℚ} {t : List Ev}

omit [Rounding] in
/-- A settled provider is one with a reservation, settled at its cost if it was the one to serve. -/
theorem SettledAt.mem_settle {cs : List Call} (h : SettledAt apiKey reservations provider cost cs)
    {p : String} {reserved actual : ℚ} (hmem : .providerSettle p reserved actual ∈ cs) :
    (p, reserved) ∈ reservations.entries ∧ actual = if p = provider then cost else 0 := by
  obtain ⟨cs', hs, rfl⟩ := h
  have hcall : ∀ c ∈ reservations.entries.map (settleCall provider cost),
      c = .providerSettle p reserved actual →
        (p, reserved) ∈ reservations.entries ∧ actual = if p = provider then cost else 0 := by
    rintro _ hc rfl
    obtain ⟨e, he, heq⟩ := List.mem_map.mp hc
    injection heq with h₁ h₂ h₃
    subst h₁ h₂ h₃
    exact ⟨he, rfl⟩
  rcases List.mem_append.mp hmem with hmem | hmem
  · rcases List.mem_cons.mp hmem with heq | hmem
    · cases heq
    rcases hs with hpre | ⟨-, rfl⟩
    · exact hcall _ (hpre.subset hmem) rfl
    · rcases List.mem_append.mp hmem with hmem | hmem
      · exact hcall _ hmem rfl
      · cases List.mem_singleton.mp hmem
  · cases List.mem_singleton.mp hmem

omit [Rounding] in
/-- Only the provider that served is charged without a reservation. -/
theorem SettledAt.mem_unreserved {cs : List Call}
    (h : SettledAt apiKey reservations provider cost cs) {p : String} {actual : ℚ}
    (hmem : .recordUnreserved p actual ∈ cs) :
    p = provider ∧ actual = cost ∧ provider ∉ reservations := by
  obtain ⟨cs', hs, rfl⟩ := h
  have hnone : ∀ c ∈ reservations.entries.map (settleCall provider cost),
      c ≠ .recordUnreserved p actual := by
    intro c hc
    obtain ⟨e, -, rfl⟩ := List.mem_map.mp hc
    exact nofun
  rcases List.mem_append.mp hmem with hmem | hmem
  · rcases List.mem_cons.mp hmem with heq | hmem
    · cases heq
    rcases hs with hpre | ⟨hp, rfl⟩
    · exact absurd rfl (hnone _ (hpre.subset hmem))
    · rcases List.mem_append.mp hmem with hmem | hmem
      · exact absurd rfl (hnone _ hmem)
      · injection List.mem_singleton.mp hmem with h₁ h₂
        exact ⟨h₁, h₂, hp⟩
  · cases List.mem_singleton.mp hmem

omit [Rounding] in
/-- A run that settles nothing raises no ledger. -/
theorem neverRaises_of_nil (hacc : Accounts t) (h : calls t = []) : NeverRaises t where
  settled p r a hmem := absurd hmem (by simp [h])
  ledgers e he p := by
    refine not_lt.mp fun hpos => ?_
    rcases hacc.2 e he p hpos with ⟨r, a, hmem, -⟩ | ⟨a, hmem, -⟩ <;> simp [h] at hmem

omit [Rounding] in
/-- A settlement raises no ledger exactly when the cost fits the reservation. -/
theorem SettledAt.neverRaises_iff (h : SettledAt apiKey reservations provider cost (calls t))
    (hacc : Accounts t) (hint : ¬ Interrupted t) (hnonneg : ∀ p, 0 ≤ reservations.getD p 0)
    (hfree : provider ∈ reservations ∨ provider ∈ FREE_PROVIDERS ∨ cost = 0) :
    NeverRaises t ↔ (provider ∈ reservations → cost ≤ reservations.getD provider 0) := by
  constructor
  · intro hnever hmem
    have hsettled : .settleChain apiKey reservations provider cost ∈ calls t := by
      obtain ⟨cs, -, heq⟩ := h
      simp [heq]
    have hall := (hacc.1.resolve_left hint) _ _ _ _ hsettled
    have hcall := hall _ (OrderedDict.mem_entries_of_mem (x := (0 : ℚ)) hmem)
    rw [settleCall, if_pos rfl] at hcall
    exact hnever.settled _ _ _ hcall
  · intro hfits
    have hsettled : ∀ p reserved actual, .providerSettle p reserved actual ∈ calls t →
        actual ≤ reserved := by
      intro p reserved actual hmem
      obtain ⟨he, rfl⟩ := h.mem_settle hmem
      have hreserved : reservations.getD p 0 = reserved := OrderedDict.getD_of_mem_entries he
      split
      · next heq =>
        subst heq
        exact hreserved ▸ hfits (OrderedDict.mem_def.mpr (List.mem_map_of_mem he))
      · exact hreserved ▸ hnonneg p
    refine ⟨hsettled, fun e he p => not_lt.mp fun hpos => ?_⟩
    rcases hacc.2 e he p hpos with ⟨r, a, hmem, hlt⟩ | ⟨a, hmem, hbillable, ha⟩
    · exact absurd (hsettled _ _ _ hmem) (not_le.mpr hlt)
    · obtain ⟨rfl, rfl, hno⟩ := h.mem_unreserved hmem
      rcases hfree with hyes | hfree | rfl
      · exact hno hyes
      · exact hbillable hfree
      · exact lt_irrefl _ ha

end Settled

end LlmGateway
