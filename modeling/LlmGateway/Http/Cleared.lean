import LlmGateway.Coroutine.AsyncFor
import LlmGateway.Http.Endpoints

/-!
# What a request has to pass

Before the handler of an endpoint does anything that costs, or says that all is well, the client has
presented a key that is valid, a token has been taken for it, its ledger has been read below the cap
and the model has been found: `cleared_before_serving`, for every request and whatever fails on the way.
-/

namespace LlmGateway

open Coroutine

namespace Web

variable {α : Type} {A : SiteEv → Prop} {s : RequestState} {cfg : SiteSettings} {headers : Headers}
  {x : HttpRequest}

/-! ## Rules -/

theorem wp_ask {c : SiteCmd} {Q : List SiteEv → Except Raised (SiteReply c) → RequestState → Prop} :
    (ask c).wp A s Q ↔ ∀ r : SiteReply c, A ⟨.inl c, r⟩ → Q [⟨.inl c, r⟩] (.ok r) s := Iff.rfl

theorem wp_call {m : Py RequestState α}
    {Q : List SiteEv → Except Raised α → RequestState → Prop} :
    (call m).wp A s Q ↔
      m.wp (fun e => A e.inr) s fun t r s' => Q (t.map Event.inr) (r.mapError .exc) s' :=
  Coro.wp_inr

/-! ## Runs of the gates -/

/-- The select of `_is_valid_db_key`, with its reply. -/
def selected (cfg : SiteSettings) (key : String) (r : Except Exc (List ApiKeyRecord)) : SiteEv :=
  ⟨.inl (.selectKeys (cfg.settings.hashKey key)), r⟩

/-- The check of the limiter, with its reply. -/
def taken (cfg : SiteSettings) (key : String) (now : ℚ) (r : Sent (Bool × ℚ)) : SiteEv :=
  ⟨.inl (.takeTokens (cfg.settings.hashKey key) now 1), r⟩

/-- The reading of the caller's ledger, with its reply. -/
def spentAt (cfg : SiteSettings) (key : String) (now : ℚ) (r : Sent ℚ) : SiteEv :=
  Event.inr (J := gateway) ⟨.get (BudgetTracker.keyAt cfg.settings.hashKey key now), r⟩

/-- A reading of the clock. -/
def clock (now : ℚ) : SiteEv := Event.inr (J := gateway) ⟨.time, now⟩

/-- A refusal is counted. -/
def counted (reason : String) (r : Except PyError Unit) : SiteEv :=
  Event.inr (J := gateway) ⟨.metric (.requestsRefused reason), r⟩

/-- What is raised where a refusal is counted: the refusal, or what the counter raises. -/
def refusal (e : HttpException) : Except PyError Unit → Raised
  | .ok () => .gate (.httpException e)
  | .error x => .exc (.exception x)

/-- The runs of `require_api_key`. -/
inductive KeyRun (cfg : SiteSettings) (headers : Headers) :
    List SiteEv → Except Raised String → Prop
  | missing (h : presentedKey headers.authorization headers.xApiKey = none) :
      KeyRun cfg headers [] (.error (.gate (.httpException ⟨401, "missing API key", []⟩)))
  | configured {key : String} (h : presentedKey headers.authorization headers.xApiKey = some key)
      (hcompare : compareAll key (allowedApiKeys cfg.gatewayApiKeys) = .ok true) :
      KeyRun cfg headers [] (.ok key)
  | uncompared {key : String} {e : GateError}
      (h : presentedKey headers.authorization headers.xApiKey = some key)
      (hcompare : compareAll key (allowedApiKeys cfg.gatewayApiKeys) = .error e) :
      KeyRun cfg headers [] (.error (.gate e))
  | unread {key : String} {e : Exc}
      (h : presentedKey headers.authorization headers.xApiKey = some key) :
      KeyRun cfg headers [selected cfg key (.error e)] (.error (.exc e))
  | ambiguous {key : String} {rows : List ApiKeyRecord}
      (h : presentedKey headers.authorization headers.xApiKey = some key) :
      KeyRun cfg headers [selected cfg key (.ok rows)] (.error (.gate .multipleResultsFound))
  | issued {key : String} (row : ApiKeyRecord)
      (h : presentedKey headers.authorization headers.xApiKey = some key) :
      KeyRun cfg headers [selected cfg key (.ok [row])] (.ok key)
  | unconfigured {key : String} (h : presentedKey headers.authorization headers.xApiKey = some key)
      (hnone : allowedApiKeys cfg.gatewayApiKeys = []) :
      KeyRun cfg headers [selected cfg key (.ok [])]
        (.error (.gate (.httpException ⟨503, "gateway API key auth is not configured", []⟩)))
  | invalid {key : String} (h : presentedKey headers.authorization headers.xApiKey = some key)
      (hsome : allowedApiKeys cfg.gatewayApiKeys ≠ []) :
      KeyRun cfg headers [selected cfg key (.ok [])]
        (.error (.gate (.httpException ⟨401, "invalid API key", []⟩)))

/-- The runs of `enforce_rate_limit`. -/
inductive TokenRun (cfg : SiteSettings) (key : String) : List SiteEv → Except Raised String → Prop
  | failed {now : ℚ} {e : Exc} {a : Bool} :
      TokenRun cfg key [clock now, taken cfg key now (.failed e a)] (.error (.exc e))
  | refused {now remaining : ℚ} {e : HttpException} {r : Except PyError Unit}
      (he : e.statusCode = 429) :
      TokenRun cfg key
        [clock now, taken cfg key now (.ok (false, remaining)), counted "rate_limit" r]
        (.error (refusal e r))
  | granted {now remaining : ℚ} :
      TokenRun cfg key [clock now, taken cfg key now (.ok (true, remaining))] (.ok key)

/-- The runs of `enforce_budget`. -/
inductive CapRun (cfg : SiteSettings) (key : String) : List SiteEv → Except Raised String → Prop
  | failed {now : ℚ} {e : Exc} {a : Bool} :
      CapRun cfg key [clock now, spentAt cfg key now (.failed e a)] (.error (.exc e))
  | refused {now spent : ℚ} {e : HttpException} {r : Except PyError Unit} (he : e.statusCode = 402)
      (h : cfg.settings.monthlyBudgetUsdPerKey ≤ spent) :
      CapRun cfg key
        [clock now, spentAt cfg key now (.ok spent), counted "key_budget_exhausted" r]
        (.error (refusal e r))
  | below {now spent : ℚ} (h : spent < cfg.settings.monthlyBudgetUsdPerKey) :
      CapRun cfg key [clock now, spentAt cfg key now (.ok spent)] (.ok key)

/-- The runs of the dependencies of an endpoint. -/
inductive GatesRun (cfg : SiteSettings) (headers : Headers) :
    List SiteEv → Except Raised String → Prop
  | key {t : List SiteEv} {e : Raised} (h : KeyRun cfg headers t (.error e)) :
      GatesRun cfg headers t (.error e)
  | token {key : String} {t t' : List SiteEv} {e : Raised} (h : KeyRun cfg headers t (.ok key))
      (h' : TokenRun cfg key t' (.error e)) : GatesRun cfg headers (t ++ t') (.error e)
  | cap {key : String} {t t' t'' : List SiteEv} {r : Except Raised String}
      (h : KeyRun cfg headers t (.ok key)) (h' : TokenRun cfg key t' (.ok key))
      (h'' : CapRun cfg key t'' r) : GatesRun cfg headers (t ++ (t' ++ t'')) r

theorem wp_isValidDbKey {key : String} {Q : List SiteEv → Except Raised Bool → RequestState → Prop}
    (herror : ∀ e, Q [selected cfg key (.error e)] (.error (.exc e)) s)
    (hnone : Q [selected cfg key (.ok [])] (.ok false) s)
    (hone : ∀ row, Q [selected cfg key (.ok [row])] (.ok true) s)
    (hmany : ∀ rows, Q [selected cfg key (.ok rows)] (.error (.gate .multipleResultsFound)) s) :
    (isValidDbKey cfg key).wp A s Q := by
  rw [isValidDbKey, Coro.wp_bind, wp_ask]
  rintro (e | _ | ⟨row, _ | ⟨row', rows⟩⟩) _
  · exact herror e
  · exact hnone
  · exact hone row
  · exact hmany _

theorem wp_requireApiKey :
    (requireApiKey cfg headers).wp A s fun t r s' => s' = s ∧ KeyRun cfg headers t r := by
  rw [requireApiKey]
  cases h : (extractKey headers.authorization headers.xApiKey).filter (· ≠ "") with
  | none => exact ⟨rfl, .missing h⟩
  | some key =>
    dsimp only
    rw [Coro.wp_bind, Coro.wp_ofExcept]
    rcases hcompare : compareAll key (allowedApiKeys cfg.gatewayApiKeys) with e | _ | _
    · exact ⟨rfl, .uncompared h hcompare⟩
    · refine Coro.wp_bind.mpr (wp_isValidDbKey (fun e => ⟨rfl, .unread h⟩) ?_
        (fun row => ⟨rfl, .issued row h⟩) fun rows => ⟨rfl, .ambiguous h⟩)
      refine Coro.wp_ite.mpr ⟨Bool.noConfusion, fun _ => Coro.wp_ite.mpr ⟨fun hempty =>
        ⟨rfl, .unconfigured h ?_⟩, fun hempty => ⟨rfl, .invalid h ?_⟩⟩⟩
      · exact List.isEmpty_iff.mp hempty
      · exact fun hnone => hempty (List.isEmpty_iff.mpr hnone)
    · exact ⟨rfl, .configured h hcompare⟩

/-- What a refusal that is counted ends in. -/
theorem wp_counted {reason : String} {e : HttpException} {β : Type}
    {Q : List SiteEv → Except Raised β → RequestState → Prop}
    (h : ∀ r, A (counted reason r) → Q [counted reason r] (.error (refusal e r)) s) :
    (do
      call (metric (.requestsRefused reason))
      refuse e : Web β).wp A s Q := by
  rw [Coro.wp_bind, wp_call, wp_metric_iff]
  rintro (x | ⟨⟩) hr
  · exact h (.error x) hr
  · exact h (.ok ()) hr

/-- The state after a gate: it belongs to the same request, and nothing has been sent. -/
def Forwards (s s' : RequestState) : Prop :=
  s'.requestId = s.requestId ∧ s'.responseStarted = s.responseStarted

theorem wp_enforceRateLimit {key : String} :
    (enforceRateLimit cfg key).wp A s fun t r s' => Forwards s s' ∧ TokenRun cfg key t r := by
  rw [enforceRateLimit, Coro.wp_bind, wp_call, wp_time_iff]
  intro now _
  refine Coro.wp_bind.mpr (wp_ask.mpr ?_)
  rintro (⟨allowed, remaining⟩ | ⟨e, a⟩) _
  · refine Coro.wp_bind.mpr (Coro.wp_ofExcept.mpr ?_)
    dsimp only [Sent.toExcept, Except.mapError]
    cases allowed with
    | false => exact wp_counted fun r _ => ⟨⟨rfl, rfl⟩, .refused rfl⟩
    | true => exact ⟨⟨rfl, rfl⟩, .granted⟩
  · exact ⟨⟨rfl, rfl⟩, .failed⟩

theorem wp_enforceBudget {key : String} :
    (enforceBudget cfg key).wp A s fun t r s' => Forwards s s' ∧ CapRun cfg key t r := by
  rw [enforceBudget, Coro.wp_bind, wp_call, BudgetTracker.spentUsd, BudgetTracker.key, Coro.wp_bind,
    Coro.wp_bind, wp_time_iff]
  intro now _
  refine Coro.wp_pure.mpr (wp_get_iff.mpr ?_)
  rintro (spent | ⟨e, a⟩) _
  · refine Coro.wp_bind.mpr (Coro.wp_update.mpr (Coro.wp_ite.mpr ⟨fun hcap => ?_, fun hcap => ?_⟩))
    · exact wp_counted fun r _ => ⟨⟨rfl, rfl⟩, .refused rfl hcap⟩
    · exact ⟨⟨rfl, rfl⟩, .below (not_le.mp hcap)⟩
  · exact ⟨⟨rfl, rfl⟩, .failed⟩

theorem wp_gates :
    (gates cfg headers).wp A s fun t r s' => Forwards s s' ∧ GatesRun cfg headers t r := by
  rw [gates, Coro.wp_bind]
  refine Coro.wp_mono wp_requireApiKey fun t r s' _ h => ?_
  obtain ⟨rfl, hkey⟩ := h
  cases r with
  | error e => exact ⟨⟨rfl, rfl⟩, .key hkey⟩
  | ok key =>
    refine Coro.wp_bind.mpr (Coro.wp_mono wp_enforceRateLimit fun t' r s₁ _ h => ?_)
    obtain ⟨⟨hid, hstarted⟩, htoken⟩ := h
    cases r with
    | error e => exact ⟨⟨hid, hstarted⟩, .token hkey htoken⟩
    | ok key' =>
      obtain rfl : key' = key := by
        cases htoken
        rfl
      refine Coro.wp_mono wp_enforceBudget fun t'' r s₂ _ h => ?_
      exact ⟨⟨h.1.1.trans hid, h.1.2.trans hstarted⟩, .cap hkey htoken h.2⟩

/-! ## What has been granted -/

/-- The commands that the gates and the handlers for errors issue of those of the request path. -/
def gating : Cmd → Bool
  | .time | .get _ | .metric (.requestsRefused _) | .metric .unhandledExceptions => true
  | _ => false

/-- The response holds an answer, or starts to stream one. -/
def Answering (response : Response) : Prop :=
  match response.content with
  | .answer _ | .completion _ _ _ | .eventStream => True
  | _ => False

/-- The event is part of serving a request. -/
def Serving : SiteEv → Prop
  | ⟨.inl (.respond response), _⟩ => Answering response
  | ⟨.inl _, _⟩ => False
  | ⟨.inr c, _⟩ => gating c = false

instance : DecidablePred Answering := fun response =>
  match response with
  | ⟨_, _, .answer _⟩ | ⟨_, _, .completion _ _ _⟩ | ⟨_, _, .eventStream⟩ => .isTrue trivial
  | ⟨_, _, .detail _⟩ | ⟨_, _, .httpDetail _⟩ | ⟨_, _, .unknownModel _⟩
  | ⟨_, _, .internalServerError _⟩ => .isFalse id

instance : DecidablePred Serving
  | ⟨.inl (.respond response), _⟩ => inferInstanceAs (Decidable (Answering response))
  | ⟨.inl .uuid4, _⟩ | ⟨.inl (.selectKeys _), _⟩ | ⟨.inl (.takeTokens _ _ _), _⟩ => .isFalse id
  | ⟨.inr c, _⟩ => inferInstanceAs (Decidable (gating c = false))

/-- Whether a model that is not routable is refused. -/
def strictly (cfg : SiteSettings) : Posted → Bool
  | .chat _ | .chatStream _ => cfg.strictModelRouting
  | .chatCompletions _ _ => true

/-- What the events so far grant a request whose client presents `key`. -/
structure Cleared (cfg : SiteSettings) (x : HttpRequest) (key : String) (u : List SiteEv) :
    Prop where
  presented : presentedKey x.headers.authorization x.headers.xApiKey = some key
  valid : key ∈ allowedApiKeys cfg.gatewayApiKeys ∨ ∃ row, selected cfg key (.ok [row]) ∈ u
  token : ∃ now remaining, taken cfg key now (.ok (true, remaining)) ∈ u
  budget : ∃ now spent, spentAt cfg key now (.ok spent) ∈ u ∧
    spent < cfg.settings.monthlyBudgetUsdPerKey
  routed : ∃ chainName, chainFor cfg.settings cfg.provider x.body.model = .ok chainName
  routable : strictly cfg x.body = true → cfg.settings.isRoutable x.body.model = true

theorem Cleared.mono {key : String} {u u' : List SiteEv} (h : Cleared cfg x key u) (hu : u ⊆ u') :
    Cleared cfg x key u' where
  presented := h.presented
  valid := h.valid.imp_right fun ⟨row, hrow⟩ => ⟨row, hu hrow⟩
  token := h.token.imp fun _ ⟨remaining, hmem⟩ => ⟨remaining, hu hmem⟩
  budget := h.budget.imp fun _ ⟨spent, hmem, hspent⟩ => ⟨spent, hu hmem, hspent⟩
  routed := h.routed
  routable := h.routable

/-- Nothing of `t` is part of serving the request before it is cleared, where `u` is what has happened
before. -/
def Mediated (cfg : SiteSettings) (x : HttpRequest) (u t : List SiteEv) : Prop :=
  Backed (fun e => [e]) (fun u e => Serving e → ∃ key, Cleared cfg x key u) u t

variable {u t t' : List SiteEv} {key : String}

theorem mediated_of_cleared (h : Cleared cfg x key u) : Mediated cfg x u t :=
  backed_of_forall fun _ _ _ hu _ => ⟨key, h.mono hu⟩

theorem mediated_of_idle (h : ∀ e ∈ t, ¬ Serving e) : Mediated cfg x u t :=
  backed_of_forall fun e he _ _ hserving => absurd hserving (h e he)

theorem Mediated.append (h : Mediated cfg x u t) (h' : Mediated cfg x (u ++ t) t') :
    Mediated cfg x u (t ++ t') := by
  refine backed_append.mpr ⟨h, ?_⟩
  rwa [List.flatMap_singleton']

/-- An entry of a trace that is mediated has been cleared before. -/
theorem Mediated.cleared {e : SiteEv} {v : List SiteEv} (h : Mediated cfg x [] (u ++ e :: v))
    (he : Serving e) : ∃ key, Cleared cfg x key u := by
  have hsplit := Backed.of_split h he
  rwa [List.nil_append, List.flatMap_singleton'] at hsplit

/-! ## The gates grant it -/

/-- The gates are no part of serving a request. -/
theorem GatesRun.idle {r : Except Raised String} (h : GatesRun cfg headers t r) :
    ∀ e ∈ t, ¬ Serving e := by
  have hselected : ∀ {key r}, ¬ Serving (selected cfg key r) := id
  have htaken : ∀ {key now r}, ¬ Serving (taken cfg key now r) := id
  have hclock : ∀ {now}, ¬ Serving (clock now) := Bool.noConfusion
  have hspent : ∀ {key now r}, ¬ Serving (spentAt cfg key now r) := Bool.noConfusion
  have hcounted : ∀ {reason r}, ¬ Serving (counted reason r) := Bool.noConfusion
  have hkey : ∀ {t r}, KeyRun cfg headers t r → ∀ e ∈ t, ¬ Serving e := by
    intro t r h
    cases h <;> simp [hselected]
  have htoken : ∀ {key t r}, TokenRun cfg key t r → ∀ e ∈ t, ¬ Serving e := by
    intro key t r h
    cases h <;> simp [hclock, htaken, hcounted]
  have hcap : ∀ {key t r}, CapRun cfg key t r → ∀ e ∈ t, ¬ Serving e := by
    intro key t r h
    cases h <;> simp [hclock, hspent, hcounted]
  cases h with
  | key h => exact hkey h
  | token h h' => exact List.forall_mem_append.mpr ⟨hkey h, htoken h'⟩
  | cap h h' h'' =>
    exact List.forall_mem_append.mpr ⟨hkey h, List.forall_mem_append.mpr ⟨htoken h', hcap h''⟩⟩

theorem mem_of_compareAll {presented : String} {allowed : List String}
    (h : compareAll presented allowed = .ok true) : presented ∈ allowed := by
  by_cases hcompare : Comparable presented allowed
  · rw [compareAll_of_comparable hcompare] at h
    exact of_decide_eq_true (Except.ok.inj h)
  · rw [compareAll_of_not_comparable hcompare] at h
    cases h

/-- What the gates grant, and what `_route` finds. -/
theorem GatesRun.cleared (h : GatesRun cfg x.headers t (.ok key)) {chainName : String}
    (hchain : chainFor cfg.settings cfg.provider x.body.model = .ok chainName)
    (hroutable : strictly cfg x.body = true → cfg.settings.isRoutable x.body.model = true) :
    Cleared cfg x key t := by
  obtain _ | _ | ⟨hkey, htoken, hcap⟩ := h
  obtain _ | _ | @⟨now', spent, hspent⟩ := hcap
  obtain _ | _ | @⟨now, remaining⟩ := htoken
  refine ⟨?_, ?_, ⟨now, remaining, by simp⟩, ⟨now', spent, by simp, hspent⟩, ⟨_, hchain⟩, hroutable⟩
  · cases hkey with
    | configured h => exact h
    | issued row h => exact h
  · cases hkey with
    | configured h hcompare => exact .inl (mem_of_compareAll hcompare)
    | issued row h => exact .inr ⟨row, by simp⟩

/-! ## The endpoints keep to it -/

/-- What is raised is never turned into an answer. -/
theorem not_answering {e : Raised} {response : Response} (h : e.response? = some response) :
    ¬ Answering response := by
  unfold Raised.response? at h
  split at h <;> cases h <;> exact id

theorem wp_route_bind {model : String} {strict : Option Bool} {f : String → Web α}
    {Q : List SiteEv → Except Raised α → RequestState → Prop} (herror : ∀ e, Q [] (.error e) s)
    (hok : ∀ chainName, chainFor cfg.settings cfg.provider model = .ok chainName →
      (strict.getD cfg.strictModelRouting = true → cfg.settings.isRoutable model = true) →
      (f chainName).wp A s Q) : (route cfg model strict >>= f).wp A s Q := by
  refine Coro.wp_bind.mpr (Coro.wp_bind.mpr (Coro.wp_locals.mpr ?_))
  refine Coro.wp_bind.mpr (Coro.wp_ofExcept.mpr ?_)
  by_cases hstrict : cfg.settings.isRoutable model = false ∧
      strict.getD cfg.strictModelRouting = true
  · rw [Settings.route, if_pos hstrict]
    exact herror _
  · rw [Settings.route, if_neg hstrict]
    refine Coro.wp_ofExcept.mpr ?_
    rcases hchain : chainFor cfg.settings cfg.provider model with e | chainName
    · exact herror _
    · refine hok chainName hchain fun h => ?_
      simpa [h] using hstrict

/-- Whatever the handler of an endpoint does, it does for a request that is cleared. -/
theorem wp_endpoint_mediated (u : List SiteEv) :
    (endpoint cfg x).wp A s fun t _ _ => Mediated cfg x u t := by
  rw [endpoint, Coro.wp_bind]
  refine Coro.wp_mono wp_gates fun t r s₁ _ h => ?_
  obtain ⟨-, hgates⟩ := h
  have hidle : Mediated cfg x u t := mediated_of_idle hgates.idle
  cases r with
  | error e => exact hidle
  | ok key =>
    have herror : Mediated cfg x u (t ++ []) := by rwa [List.append_nil]
    have hserved : ∀ {β : Type} {m : Web β} {s : RequestState} {chainName : String},
        chainFor cfg.settings cfg.provider x.body.model = .ok chainName →
        (strictly cfg x.body = true → cfg.settings.isRoutable x.body.model = true) →
        m.wp A s fun t' _ _ => Mediated cfg x u (t ++ t') := fun hchain hroutable =>
      Coro.wp_mono Coro.wp_true fun t' _ _ _ _ => hidle.append (mediated_of_cleared
        ((hgates.cleared hchain hroutable).mono (List.subset_append_right u t)))
    obtain ⟨headers, request | request | ⟨request, fields⟩⟩ := x
    · exact Coro.wp_bind.mpr (Coro.wp_locals.mpr
        (wp_route_bind (fun _ => herror) fun _ hchain hroutable => hserved hchain hroutable))
    · exact Coro.wp_bind.mpr (Coro.wp_locals.mpr
        (wp_route_bind (fun _ => herror) fun _ hchain hroutable => hserved hchain hroutable))
    · exact Coro.wp_bind.mpr (Coro.wp_locals.mpr
        (wp_route_bind (fun _ => herror) fun _ hchain hroutable => hserved hchain hroutable))

/-- What is done about an exception is no part of serving a request. -/
theorem wp_onHttpException_idle {response : Response} (h : ¬ Answering response) :
    (onHttpException response).wp A s fun t _ _ => ∀ e ∈ t, ¬ Serving e := by
  refine Coro.wp_bind.mpr (Coro.wp_locals.mpr (Coro.wp_ite.mpr ⟨fun _ => by simp, fun _ => ?_⟩))
  refine Coro.wp_bind.mpr (Coro.wp_locals.mpr (Coro.wp_bind.mpr (wp_ask.mpr fun r _ => ?_)))
  exact List.forall_mem_singleton.mpr h

theorem wp_unhandledExceptionHandler_idle {e : Raised} :
    (unhandledExceptionHandler e).wp A s fun t _ _ => ∀ e ∈ t, ¬ Serving e := by
  have hcounted : ∀ r, ¬ Serving (Event.inr (J := gateway) ⟨.metric .unhandledExceptions, r⟩) :=
    fun _ => Bool.noConfusion
  refine Coro.wp_bind.mpr (wp_call.mpr (wp_metric_iff.mpr ?_))
  rintro (x | ⟨⟩) _
  · exact List.forall_mem_singleton.mpr (hcounted _)
  · refine Coro.wp_bind.mpr (Coro.wp_locals.mpr (Coro.wp_ite.mpr ⟨fun _ => ?_, fun _ => ?_⟩))
    · exact List.forall_mem_singleton.mpr (hcounted _)
    · refine Coro.wp_bind.mpr (wp_ask.mpr fun r _ => ?_)
      exact List.forall_mem_cons.mpr ⟨hcounted _, List.forall_mem_singleton.mpr id⟩

theorem wp_requestIdOf_idle :
    (requestIdOf headers).wp A s fun t _ _ => ∀ e ∈ t, ¬ Serving e := by
  unfold requestIdOf
  split
  · exact by simp
  · exact wp_ask.mpr fun _ _ => List.forall_mem_singleton.mpr id

theorem wp_dispatch_mediated : (dispatch cfg x).wp A s fun t _ _ => Mediated cfg x [] t := by
  have hidle : ∀ {t t' : List SiteEv}, Mediated cfg x [] t → (∀ e ∈ t', ¬ Serving e) →
      Mediated cfg x [] (t ++ t') := fun h h' => h.append (mediated_of_idle h')
  refine Coro.wp_attempt.mpr (Coro.wp_mono (Q := fun t _ _ => Mediated cfg x [] t) ?_ ?_)
  · refine Coro.wp_bind.mpr (Coro.wp_mono wp_requestIdOf_idle fun t r s₁ _ ht => ?_)
    cases r with
    | error e => exact mediated_of_idle ht
    | ok requestId =>
      refine Coro.wp_bind.mpr (Coro.wp_update.mpr (Coro.wp_attempt.mpr ?_))
      refine Coro.wp_mono (wp_endpoint_mediated ([] ++ t)) fun t' r s₂ _ ht' => ?_
      have hserved : Mediated cfg x [] (t ++ ([] ++ t')) := (mediated_of_idle ht).append ht'
      cases r with
      | ok _ => exact hserved
      | error e =>
        dsimp only
        cases hresponse : e.response? with
        | none => exact hserved
        | some response =>
          refine Coro.wp_mono (wp_onHttpException_idle (not_answering hresponse))
            fun t'' _ _ _ h => ?_
          rw [← List.append_assoc [], ← List.append_assoc]
          exact hidle (t := t ++ ([] ++ t')) hserved h
  · intro t r s₁ _ ht
    cases r with
    | ok _ => exact ht
    | error e =>
      dsimp only
      split
      · next c hc =>
        split at hc
        · obtain rfl := Option.some.inj hc
          exact Coro.wp_mono wp_unhandledExceptionHandler_idle fun t' _ _ _ h => hidle ht h
        · cases hc
      · exact ht

instance nonempty_reply : ∀ c : site.Cmd, Nonempty (site.Reply c)
  | .inl .uuid4 => ⟨""⟩
  | .inl (.selectKeys _) => ⟨.ok []⟩
  | .inl (.takeTokens _ _ _) => ⟨.ok (false, 0)⟩
  | .inl (.respond _) => ⟨()⟩
  | .inr c => ⟨calm c⟩

theorem mediated_of_run {q : Prog site (Except Raised Unit × RequestState)}
    (hrun : Prog.Run (dispatch cfg x s) t q) : Mediated cfg x [] t := by
  obtain ⟨v, a, hreturns⟩ := hrun.exists_returns
  have hmediated : Mediated cfg x [] (t ++ v) :=
    wp_dispatch_mediated.apply hreturns (A := fun _ => True) fun _ _ => trivial
  exact (backed_append.mp hmediated).1

/-- However far a request has come and whatever has failed: an event that is part of serving it comes
after its client has presented a key that is valid, a token has been taken for the key, the ledger of
the key has been read below the cap, and the model has been found. -/
theorem cleared_before_serving {e : SiteEv} {v : List SiteEv}
    {q : Prog site (Except Raised Unit × RequestState)}
    (hrun : Prog.Run (dispatch cfg x s) (u ++ e :: v) q) (he : Serving e) :
    ∃ key, Cleared cfg x key u :=
  (mediated_of_run hrun).cleared he

/-! ## A request that is served -/

/-- A deployment with one client key. -/
def deployed : SiteSettings where
  settings := { hashKey := id }
  gatewayApiKeys := "secret"
  limiter := ⟨20, 1 / 2, by decide, by norm_num⟩

theorem secret_latin1 : ∀ c ∈ "secret".toList, c.toNat ≤ 0xFF := by simp

theorem user_mem_roles : "user" ∈ ["system", "user", "assistant"] := by decide

/-- What the client has to say. -/
def hello : ChatMessageIn where
  role := "user"
  content := "hello"
  role_mem := user_mem_roles

/-- A request with this key. -/
def sayHi : HttpRequest where
  headers := { xApiKey := some ⟨"secret", secret_latin1⟩ }
  body := .chat { model := "default", messages := [hello] }

/-- Everything works: the bucket has a token left. -/
def serviceable (L : Ledgers) : (c : site.Cmd) → site.Reply c × Ledgers
  | .inl .uuid4 => ("0123456789abcdef0123456789abcdef", L)
  | .inl (.selectKeys _) => (.ok [], L)
  | .inl (.takeTokens _ _ _) => (.ok (true, 19), L)
  | .inl (.respond _) => ((), L)
  | .inr c => answer calm L c

/-- Its run, on empty ledgers. -/
def servedRun : List SiteEv × (Except Raised Unit × RequestState) × Ledgers :=
  Prog.drive serviceable (dispatch deployed sayHi {}) fun _ => 0

theorem runs_served :
    Prog.Run (dispatch deployed sayHi {}) servedRun.1 (.ret servedRun.2.1) :=
  Prog.returns_drive _ _ _

theorem servedRun_ne_nil : servedRun.1 ≠ [] := by decide +kernel

theorem cleared_before_answer : ∃ key, Cleared deployed sayHi key servedRun.1.dropLast := by
  have hrun := runs_served
  rw [← List.dropLast_append_getLast servedRun_ne_nil] at hrun
  exact cleared_before_serving hrun (by decide +kernel)

end Web

end LlmGateway
