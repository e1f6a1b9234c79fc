import LlmGateway.Http.Cleared
import LlmGateway.Main.Quotation
import LlmGateway.Main.Vouched

/-!
# Where a request is served

A model that is not routable is served on the default chain, unless the routing is strict. The client
is told so: `X-Gateway-Chain` names the chain.

`served_as_told` says that this is what happens. Whatever fails, a request calls no provider but at the
entries of the chain that its response names.
-/

namespace LlmGateway

open Coroutine

variable {σ : Type} {A : Ev → Prop} {s : σ} {settings : Settings} {q : RequestArgs} {chain : Chain}
  {t t' : List Ev}

/-! ## Calls of a chain -/

/-- `FALLBACK_CHAINS[chain_name]`. -/
def Settings.chainOf (settings : Settings) (chainName : String) : Chain :=
  (settings.fallbackChains.lookup chainName).getD []

/-- The providers that are called are called for entries of the chain. -/
def OnChain (chain : Chain) (t : List Ev) : Prop := ∀ c ∈ upstream t, c ∈ chain

/-- Any command but a call of a provider. -/
def Cmd.Uncalling : Cmd → Prop
  | .providerChat _ _ _ _ | .providerStream _ _ _ _ => False
  | _ => True

theorem onChain_append (h : OnChain chain t) (h' : OnChain chain t') : OnChain chain (t ++ t') := by
  rw [OnChain, upstream_append]
  exact List.forall_mem_append.mpr ⟨h, h'⟩

theorem onChain_of_uncalled (h : ∀ e ∈ t, called e = none) : OnChain chain t := by
  have hnil : upstream t = [] := List.filterMap_eq_nil_iff.mpr h
  rw [OnChain, hnil]
  exact fun _ hc => absurd hc List.not_mem_nil

theorem onChain_of_uncalling (h : ∀ e ∈ t, e.cmd.Uncalling) : OnChain chain t := by
  refine onChain_of_uncalled fun e he => ?_
  have hc := h e he
  obtain ⟨c, r⟩ := e
  cases c <;> first | rfl | exact hc.elim

theorem Cmd.Settling.uncalling {c : Cmd} (h : c.Settling) : c.Uncalling := by
  cases c <;> trivial

theorem Cmd.Auditing.uncalling {c : Cmd} (h : c.Auditing) : c.Uncalling := by
  cases c <;> trivial

theorem onChain_of_within {n : ℕ} {skip : Finset String} {chainName : String}
    (h : Within n skip (settings.hops chainName) (upstream t)) :
    OnChain (settings.chainOf chainName) t := by
  intro c hc
  obtain ⟨hop, hmem, rfl, -⟩ := h.exists_hop hc
  obtain ⟨entry, hentry, rfl⟩ := List.mem_map.mp hmem
  exact hentry

theorem uncalling_serveResponse {result : ChatResponse} :
    (serveResponse settings q result : Py σ ChatResponse).Only Cmd.Uncalling :=
  .bind (only_metric trivial) fun _ => .bind (.bind (only_pricing trivial) fun _ => .ofExcept)
    fun _ => .bind (only_settleChain fun _ h => h.settling.uncalling) fun _ =>
      only_reportResponse (fun _ => trivial) fun _ h => h.uncalling

theorem uncalling_serveNothing : (serveNothing settings q : Py σ ChatResponse).Only Cmd.Uncalling :=
  .bind (only_settleChain fun _ h => h.settling.uncalling) fun _ => .bind (only_metric trivial)
    fun _ => .bind (only_recordAuditLog fun _ h => h.uncalling) fun _ => only_throw

theorem wp_serveChat_onChain {router : Py σ ChatResponse}
    (hrouter : router.wp A s fun t _ _ => OnChain chain t) :
    (serveChat settings router q).wp A s fun t _ _ => OnChain chain t := by
  have hlatency : ∀ l, OnChain chain [⟨.metric .requestLatency, l⟩] := fun _ =>
    onChain_of_uncalled (List.forall_mem_singleton.mpr rfl)
  refine wp_serveChat_of hrouter ?_ ?_ ?_ ?_
  · intro t result s₁ ht _
    refine Coro.wp_mono uncalling_serveResponse.wp fun t' _ _ _ ht' => ?_
    exact onChain_append ht (onChain_append (hlatency _) (onChain_of_uncalling ht'))
  · intro t result s₁ ht e _
    exact onChain_append ht (hlatency _)
  · intro t message s₁ ht
    refine Coro.wp_mono uncalling_serveNothing.wp fun t' _ _ _ ht' l _ x => ?_
    exact onChain_append (onChain_append ht (onChain_of_uncalling ht')) (hlatency l)
  · intro t x s₁ ht _ l _ x'
    exact onChain_append ht (hlatency l)

theorem wp_stream_onChain {endpoint : Endpoint} {messages : List ChatMessage}
    {params : Option SamplingParams} {retryAttempts : ℕ} {skip : Finset String} {chainName : String} :
    (endpoint.stream settings q (chatStream messages params retryAttempts skip
      (settings.hops chainName))).wp A {} fun t _ _ =>
        OnChain (settings.chainOf chainName) t := by
  refine Coro.wp_iff.mpr fun t r s' hrun _ => ?_
  obtain ⟨source, t', hrun', tb, tg, ta, hmerge, hmerge', p, hgen, -, -⟩ := covers_stream.exists_run hrun
  have hany : ∀ {u : List Ev}, ∀ e ∈ u, (fun _ : Ev => True) e := fun _ _ => trivial
  have hbody : ∀ e ∈ tb, called e = none := fun e he =>
    (wp_endpoint_speaks.apply hrun' hany).uncalled e (hmerge'.mem_iff.mpr (.inl he))
  obtain ⟨u, hgenerated, -, v, hv, -⟩ := hgen.run
  obtain ⟨w, x, hreturns⟩ := exists_returns hgenerated
  have hwithin : OnChain (settings.chainOf chainName) (u ++ w) :=
    onChain_of_within ((wp_walk (fun _ _ => callsAtMost_streamAttempts _) _ 0 [] _).apply hreturns hany)
  intro c hc
  obtain ⟨e, he, hcalled⟩ := List.mem_filterMap.mp hc
  rcases hmerge.mem_iff.mp he with he | he
  · rw [hbody e he] at hcalled
    cases hcalled
  · have hmem : e ∈ u ++ w := List.mem_append_left _ (hv.mem_iff.mpr (.inl he))
    exact hwithin c (List.mem_filterMap.mpr ⟨e, hmem, hcalled⟩)

section Request

variable {p : RoutedRequest}

theorem wp_reserveChain_onChain {chainName requestId apiKey : String} {messages : List ChatMessage}
    {params : Option SamplingParams} :
    (reserveChain settings chainName messages params requestId apiKey).wp A s fun t _ _ =>
      ∀ chain, OnChain chain t :=
  Coro.wp_mono (only_reserveChain fun _ h => h.uncalling).wp fun _ _ _ _ h _ =>
    onChain_of_uncalling h

theorem wp_chat_onChain {messages : List ChatMessage} {params : Option SamplingParams}
    {retryAttempts : ℕ} {skip : Finset String} {chainName : String} :
    (chat messages params retryAttempts skip (settings.hops chainName)).wp A s fun t _ _ =>
      OnChain (settings.chainOf chainName) t :=
  Coro.wp_mono (wp_walk (fun _ _ => callsAtMost_chatAttempts _) _ 0 [] s) fun _ _ _ _ h =>
    onChain_of_within h

theorem wp_answer_onChain : (p.answer settings).wp A s fun t _ _ =>
    OnChain (settings.chainOf p.chainName) t := by
  rw [RoutedRequest.answer, Coro.wp_bind]
  refine Coro.wp_mono wp_reserveChain_onChain fun t r s₁ _ ht => ?_
  cases r with
  | error x => exact ht _
  | ok x =>
    exact Coro.wp_mono (wp_serveChat_onChain wp_chat_onChain) fun t' _ _ _ ht' =>
      onChain_append (ht _) ht'

theorem wp_serve_onChain {x : OrderedDict String ℚ × Finset String} :
    (p.serve settings x).wp A s fun t _ _ =>
      OnChain (settings.chainOf p.chainName) t := by
  rw [RoutedRequest.serve]
  split
  · rw [Coro.wp_bind]
    refine Coro.wp_mono (wp_serveChat_onChain wp_chat_onChain) fun t r s' _ h => ?_
    cases r with
    | error e => exact h
    | ok result =>
      refine Coro.wp_pure.mpr ?_
      rwa [List.append_nil]
  · rw [Coro.wp_scope]
    exact wp_stream_onChain

/-! ## The locals of a caller -/

theorem keeps_publishCircuitState {hop : Hop} : (publishCircuitState hop : Py σ Unit).Keeps :=
  .bind .perform fun _ => keeps_metric

theorem keeps_onCompletion {attempt : ℕ} {hop : Hop} {completion : Completion} :
    (onCompletion attempt hop completion : Py σ (Except String ChatResponse)).Keeps :=
  .bind keeps_metric fun _ => .bind .perform fun _ => .bind keeps_publishCircuitState fun _ =>
    .bind keeps_metric fun _ => .bind (.ite keeps_metric .pure) fun _ => .pure

theorem keeps_walk {α : Type} {skip : Finset String} {serve : ℕ → Hop → Py σ (Except String α)}
    (hserve : ∀ attempt hop, (serve attempt hop).Keeps) (hops : List Hop) (attempt : ℕ)
    (errors : List String) : (walk skip serve attempt errors hops).Keeps := by
  induction hops generalizing attempt errors with
  | nil => exact .raise
  | cons hop rest ih =>
    refine .ite (ih _ _) (.bind .perform fun allowed => .bind keeps_publishCircuitState fun _ =>
      .ite (.bind (hserve _ _) fun outcome => ?_) (ih _ _))
    cases outcome with
    | ok result => exact .pure
    | error lastError =>
      exact .bind .perform fun _ => .bind keeps_publishCircuitState fun _ => ih _ _

theorem keeps_chatAttempts {messages : List ChatMessage} {params : Option SamplingParams}
    {attempt : ℕ} {hop : Hop} (retries : ℕ) :
    (chatAttempts messages params attempt hop retries : Py σ (Except String ChatResponse)).Keeps := by
  have honce : (chatOnce messages params attempt hop : Py σ _).Keeps :=
    .bind .perform fun _ => .bind .ofExcept fun _ => keeps_onCompletion
  have hclause : ∀ (again : String → Py σ (Except String ChatResponse)) (x : Exc)
      (c : Py σ (Except String ChatResponse)), (∀ message, (again message).Keeps) →
      onProviderError hop again x = some c → c.Keeps := by
    intro again x c hagain hc
    obtain ⟨message, retryable, -, rfl⟩ := onProviderError_eq_some hc
    exact .bind keeps_metric fun _ => .bind keeps_metric fun _ => .ite (hagain _) .pure
  have hwait : ∀ m : Py σ (Except String ChatResponse), m.Keeps →
      (do backOff; m : Py σ (Except String ChatResponse)).Keeps := fun _ h =>
    .bind (.bind .perform fun _ => .ofExcept) fun _ => h
  refine attempts_rule (P := fun _ m => m.Keeps) _ ?_ (fun _ => ?_) (fun _ => .pure)
    (fun _ => hwait) (fun _ again hagain => .attempt honce fun x c => hclause again x c hagain) retries
  · rfl
  · rfl

theorem keeps_serveChat {router : Py σ ChatResponse} (hrouter : router.Keeps) :
    (serveChat settings router q).Keeps := by
  intro A s
  refine wp_serveChat_of (hrouter A s) ?_ ?_ ?_ ?_
  · rintro t result _ rfl _
    have hbooked : ∀ s : σ, Vouching settings (fun _ _ => True) q [] s
        (serveResponse settings q result) := fun _ => vouching_serveResponse trivial
    exact Coro.wp_mono (hbooked _ A) fun _ _ _ _ h => h.1
  · rintro t result _ rfl e _
    rfl
  · rintro t message _ rfl
    have hbooked : ∀ s : σ, Vouching settings (fun _ _ => True) q [] s
        (serveNothing settings q : Py σ ChatResponse) := fun _ => vouching_serveNothing
    exact Coro.wp_mono (hbooked _ A) fun _ _ _ _ h _ _ _ => h.1
  · rintro t x _ rfl _ l _ x'
    rfl

theorem keeps_answer : (p.answer settings : Py σ ChatResponse).Keeps := by
  refine .bind (fun A s => ?_) fun x => keeps_serveChat (keeps_walk (fun _ _ => keeps_chatAttempts _) _ _ _)
  rw [reserveChain, Coro.wp_scope]
  exact Coro.wp_mono Coro.wp_true fun _ _ _ _ _ => rfl

end Request

namespace Web

variable {α : Type} {cfg : SiteSettings} {x : HttpRequest} {A : SiteEv → Prop} {s : RequestState}
  {chainName : String} {t t' : List SiteEv}

/-! ## What a response tells -/

/-- The chain of a model. -/
def chainNameOf (settings : Settings) (model : String) : String :=
  if settings.isRoutable model = true then model else DEFAULT_CHAIN_NAME

theorem resolveChain_name {model : String} {chain : Chain}
    (h : settings.resolveChain model = .ok (chainName, chain)) :
    chainName = chainNameOf settings model := by
  rw [Settings.resolveChain] at h
  rw [chainNameOf, Settings.isRoutable]
  split at h
  · next chain' hlookup =>
    cases h
    rw [hlookup]
    rfl
  · next hlookup =>
    rw [hlookup]
    split at h
    · cases h
      rfl
    · cases h

theorem eq_chainNameOf {provider : ProviderSettings} {model : String}
    (h : chainFor settings provider model = .ok chainName) : chainName = chainNameOf settings model := by
  rw [chainFor] at h
  cases hresolve : settings.resolveChain model with
  | error e =>
    rw [hresolve] at h
    cases h
  | ok x =>
    obtain ⟨name, chain⟩ := x
    rw [hresolve] at h
    dsimp only [bind, Except.bind] at h
    split at h
    · cases h
    · obtain rfl := Except.ok.inj h
      exact resolveChain_name hresolve

/-- Each response that holds an answer or starts a stream names the chain, and the providers that are
called are called for its entries. -/
structure AllTold (settings : Settings) (chainName : String) (t : List SiteEv) : Prop where
  named : ∀ response r, (⟨.inl (.respond response), r⟩ : SiteEv) ∈ t → Answering response →
    ("X-Gateway-Chain", chainName) ∈ response.headers
  onChain : OnChain (settings.chainOf chainName) (rights t)

theorem composes_allTold (settings : Settings) (chainName : String) :
    Coro.Composes (AllTold settings chainName) where
  nil := ⟨fun _ _ he => absurd he List.not_mem_nil, onChain_of_uncalled (by simp)⟩
  append t t' h h' := by
    refine ⟨fun response r he => ?_, ?_⟩
    · exact (List.mem_append.mp he).elim (h.named response r) (h'.named response r)
    · rw [rights_append]
      exact onChain_append h.onChain h'.onChain

/-- What is told of a run is told of its beginning. -/
theorem AllTold.left (h : AllTold settings chainName (t ++ t')) : AllTold settings chainName t where
  named response r he := h.named response r (List.mem_append_left _ he)
  onChain c hc := by
    refine h.onChain c ?_
    rw [rights_append, upstream_append]
    exact List.mem_append_left _ hc

theorem allTold_of_idle (h : ∀ e ∈ t, ¬ Serving e) : AllTold settings chainName t where
  named response r he hanswer := absurd hanswer (h _ he)
  onChain := by
    refine onChain_of_uncalled fun e he => ?_
    have hidle := h _ (mem_rights.mp he)
    obtain ⟨c, r⟩ := e
    cases c <;> first | rfl | exact absurd rfl hidle

theorem allTold_map {u : List Ev} (h : OnChain (settings.chainOf chainName) u) :
    AllTold settings chainName (u.map Event.inr) where
  named response r he := by
    obtain ⟨e, -, heq⟩ := List.mem_map.mp he
    cases heq
  onChain := by rwa [rights_map_inr]

theorem along_call {m : Py RequestState α}
    (h : ∀ A s, m.wp A s fun t _ _ => OnChain (settings.chainOf chainName) t) :
    Coro.Along A (AllTold settings chainName) (call m) := fun s =>
  wp_call.mpr (Coro.wp_mono (h _ s) fun _ _ _ _ ht => allTold_map ht)

theorem along_respond {response : Response}
    (h : Answering response → ("X-Gateway-Chain", chainName) ∈ response.headers) :
    Coro.Along A (AllTold settings chainName) (respond response) := by
  refine fun s => Coro.wp_bind.mpr (Coro.wp_locals.mpr (Coro.wp_bind.mpr (wp_ask.mpr fun r _ => ?_)))
  refine ⟨fun response' r' he hanswer => ?_,
    onChain_of_uncalled fun e he => absurd he List.not_mem_nil⟩
  cases List.mem_singleton.mp he
  exact List.mem_append_left _ (h hanswer)

/-! ## The endpoints -/

theorem wp_answer_told {p : RoutedRequest} :
    (call (p.answer cfg.settings)).wp A s fun t _ s' =>
      AllTold cfg.settings p.chainName t ∧ s' = s := by
  refine wp_call.mpr (Coro.wp_mono (Coro.wp_and wp_answer_onChain (keeps_answer _ s)) ?_)
  exact fun t _ _ _ h => ⟨allTold_map h.1, h.2⟩

theorem wp_respond_told (settings : Settings) {response : Response}
    (h : ("X-Gateway-Chain", chainName) ∈ response.headers) :
    (respond response).wp A s fun t _ _ => AllTold settings chainName t :=
  along_respond (fun _ => h) s

/-- The rule for `_route`: whatever it finds is the chain of the model. -/
theorem wp_route_told {model : String} {strict : Option Bool} {f : String → Web α}
    (h : (f (chainNameOf cfg.settings model)).wp A s fun t _ _ =>
      AllTold cfg.settings (chainNameOf cfg.settings model) t) :
    (route cfg model strict >>= f).wp A s fun t _ _ =>
      AllTold cfg.settings (chainNameOf cfg.settings model) t := by
  refine wp_route_bind (fun _ => (composes_allTold _ _).nil) fun chainName hchain _ => ?_
  obtain rfl := eq_chainNameOf hchain
  exact h

theorem wp_chat_told {request : ChatRequest} {key : String} :
    (chat cfg request key).wp A s fun t _ _ =>
      AllTold cfg.settings (chainNameOf cfg.settings request.model) t := by
  have hP := composes_allTold cfg.settings (chainNameOf cfg.settings request.model)
  refine Coro.wp_bind.mpr (Coro.wp_locals.mpr (wp_route_told ?_))
  refine Coro.wp_bind.mpr (Coro.wp_update.mpr (Coro.wp_bind.mpr ?_))
  refine Coro.wp_mono wp_answer_told fun t r s' _ h => ?_
  obtain ⟨ht, rfl⟩ := h
  cases r with
  | error e => exact ht
  | ok result =>
    refine Coro.wp_bind.mpr (Coro.wp_locals.mpr ?_)
    have hnamed := List.mem_append_right s.headers (List.mem_singleton_self
      ("X-Gateway-Chain", chainNameOf cfg.settings request.model))
    refine Coro.wp_mono (wp_respond_told cfg.settings hnamed) fun t' _ _ _ ht' => ?_
    simpa only [List.nil_append] using hP.append _ _ ht ht'

theorem along_streamed {p : RoutedRequest} {ignored : List (String × String)} {endpoint : Web Endpoint}
    (hendpoint : Coro.Along A (AllTold cfg.settings p.chainName) endpoint) :
    Coro.Along A (AllTold cfg.settings p.chainName) (streamed cfg p ignored endpoint) := by
  have hP := composes_allTold cfg.settings p.chainName
  have hreserve : ∀ A s, (reserveChain cfg.settings p.chainName p.messages p.params p.requestId
      p.apiKey : Py RequestState _).wp A s fun t _ _ =>
        OnChain (cfg.settings.chainOf p.chainName) t := fun _ _ =>
    Coro.wp_mono wp_reserveChain_onChain fun _ _ _ _ h => h _
  refine .bind hP (along_call hreserve) fun x => .bind hP hendpoint fun endpoint =>
    .bind hP (.locals hP) fun s => .bind hP (along_respond fun _ => ?_) fun _ =>
      along_call fun _ _ => wp_serve_onChain
  exact List.mem_append_left _ List.mem_cons_self

theorem wp_chatStream_told {request : ChatRequest} {key : String} :
    (chatStream cfg request key).wp A s fun t _ _ =>
      AllTold cfg.settings (chainNameOf cfg.settings request.model) t := by
  have hP := composes_allTold cfg.settings (chainNameOf cfg.settings request.model)
  refine Coro.wp_bind.mpr (Coro.wp_locals.mpr (wp_route_told ?_))
  exact along_streamed (.pure hP) s

theorem along_completionIdentity :
    Coro.Along A (AllTold settings chainName) completionIdentity := by
  have hP := composes_allTold settings chainName
  refine .bind hP (.perform fun r _ => allTold_of_idle (List.forall_mem_singleton.mpr id)) fun hex =>
    .bind hP (along_call fun A s => ?_) fun now => .pure hP
  exact wp_time_iff.mpr fun now _ => onChain_of_uncalled (List.forall_mem_singleton.mpr rfl)

theorem keeps_completionIdentity : completionIdentity.Keeps := by
  have htime : (call time).Keeps := fun _ _ => wp_call.mpr (wp_time_iff.mpr fun _ _ => rfl)
  exact .bind .perform fun _ => .bind htime fun _ => .pure

theorem wp_chatCompletions_told {request : ChatCompletionRequest} {fields : FieldsSet} {key : String} :
    (chatCompletions cfg request fields key).wp A s fun t _ _ =>
      AllTold cfg.settings (chainNameOf cfg.settings request.model) t := by
  have hP := composes_allTold cfg.settings (chainNameOf cfg.settings request.model)
  refine Coro.wp_bind.mpr (Coro.wp_locals.mpr (wp_route_told ?_))
  dsimp only
  split
  · exact along_streamed (.bind hP along_completionIdentity fun x => .pure hP) s
  · refine Coro.wp_bind.mpr (Coro.wp_update.mpr (Coro.wp_bind.mpr ?_))
    refine Coro.wp_mono wp_answer_told fun t r s' _ h => ?_
    obtain ⟨ht, rfl⟩ := h
    cases r with
    | error e => exact ht
    | ok result =>
      have hnamed := List.mem_append_left (ignoredHeader fields.ignoredParams)
        (List.mem_append_right s.headers (List.mem_singleton_self
          ("X-Gateway-Chain", chainNameOf cfg.settings request.model)))
      have hidentity : ∀ s, completionIdentity.wp A s fun t' _ s' =>
          AllTold cfg.settings (chainNameOf cfg.settings request.model) t' ∧ s' = s := fun s =>
        Coro.wp_and (along_completionIdentity s) (keeps_completionIdentity _ s)
      refine Coro.wp_bind.mpr (Coro.wp_mono (hidentity _) fun t' r s' _ h => ?_)
      obtain ⟨ht', rfl⟩ := h
      cases r with
      | error e => simpa only [List.nil_append] using hP.append _ _ ht ht'
      | ok identity =>
        refine Coro.wp_bind.mpr (Coro.wp_locals.mpr ?_)
        refine Coro.wp_mono (wp_respond_told cfg.settings hnamed) fun t'' _ _ _ ht'' => ?_
        simpa only [List.nil_append] using hP.append _ _ ht (hP.append _ _ ht' ht'')

theorem wp_endpoint_told : (endpoint cfg x).wp A s fun t _ _ =>
    AllTold cfg.settings (chainNameOf cfg.settings x.body.model) t := by
  have hP := composes_allTold cfg.settings (chainNameOf cfg.settings x.body.model)
  rw [endpoint, Coro.wp_bind]
  refine Coro.wp_mono wp_gates fun t r s₁ _ h => ?_
  have ht : AllTold cfg.settings (chainNameOf cfg.settings x.body.model) t :=
    allTold_of_idle h.2.idle
  cases r with
  | error e => exact ht
  | ok key =>
    obtain ⟨headers, request | request | ⟨request, fields⟩⟩ := x
    · exact Coro.wp_mono wp_chat_told fun t' _ _ _ ht' => hP.append _ _ ht ht'
    · exact Coro.wp_mono wp_chatStream_told fun t' _ _ _ ht' => hP.append _ _ ht ht'
    · exact Coro.wp_mono wp_chatCompletions_told fun t' _ _ _ ht' => hP.append _ _ ht ht'

theorem wp_dispatch_told : (dispatch cfg x).wp A s fun t _ _ =>
    AllTold cfg.settings (chainNameOf cfg.settings x.body.model) t := by
  have hP := composes_allTold cfg.settings (chainNameOf cfg.settings x.body.model)
  have hidle : ∀ {t : List SiteEv}, (∀ e ∈ t, ¬ Serving e) →
      AllTold cfg.settings (chainNameOf cfg.settings x.body.model) t := allTold_of_idle
  refine Coro.wp_attempt.mpr (Coro.wp_mono
    (Q := fun t _ _ => AllTold cfg.settings (chainNameOf cfg.settings x.body.model) t) ?_ ?_)
  · refine Coro.wp_bind.mpr (Coro.wp_mono wp_requestIdOf_idle fun t r s₁ _ ht => ?_)
    cases r with
    | error e => exact hidle ht
    | ok requestId =>
      refine Coro.wp_bind.mpr (Coro.wp_update.mpr (Coro.wp_attempt.mpr ?_))
      refine Coro.wp_mono wp_endpoint_told fun t' r s₂ _ ht' => ?_
      have hserved := hP.append _ _ (hidle ht) (hP.append _ _ hP.nil ht')
      cases r with
      | ok _ => exact hserved
      | error e =>
        dsimp only
        cases hresponse : e.response? with
        | none => exact hserved
        | some response =>
          refine Coro.wp_mono (wp_onHttpException_idle (not_answering hresponse))
            fun t'' _ _ _ h => ?_
          exact hP.append _ _ (hidle ht) (hP.append _ _ hP.nil (hP.append _ _ ht' (hidle h)))
  · intro t r s₁ _ ht
    cases r with
    | ok _ => exact ht
    | error e =>
      dsimp only
      split
      · next c hc =>
        split at hc
        · obtain rfl := Option.some.inj hc
          exact Coro.wp_mono wp_unhandledExceptionHandler_idle fun t' _ _ _ h =>
            hP.append _ _ ht (hidle h)
        · cases hc
      · exact ht

/-- However far a request has come and whatever has failed: each response that holds an answer or starts
a stream names the chain of the model that was asked for, each provider that was called was called for
an entry of that chain, and if another chain than the one asked for serves, the routing is not strict. -/
theorem served_as_told {q : Prog site (Except Raised Unit × RequestState)}
    (hrun : Prog.Run (dispatch cfg x s) t q) :
    AllTold cfg.settings (chainNameOf cfg.settings x.body.model) t ∧
      ((∃ e ∈ t, Serving e) → chainNameOf cfg.settings x.body.model = x.body.model ∨
        chainNameOf cfg.settings x.body.model = DEFAULT_CHAIN_NAME ∧
          strictly cfg x.body = false) := by
  constructor
  · obtain ⟨v, a, hreturns⟩ := hrun.exists_returns
    have htold : AllTold cfg.settings (chainNameOf cfg.settings x.body.model) (t ++ v) :=
      wp_dispatch_told.apply hreturns (A := fun _ => True) fun _ _ => trivial
    exact htold.left
  · rintro ⟨e, he, hserving⟩
    obtain ⟨u, v, rfl⟩ := List.append_of_mem he
    obtain ⟨key, hcleared⟩ := (mediated_of_run hrun).cleared hserving
    by_cases hroutable : cfg.settings.isRoutable x.body.model = true
    · exact .inl (if_pos hroutable)
    · refine .inr ⟨if_neg hroutable, ?_⟩
      rw [← Bool.not_eq_true]
      exact fun hstrict => hroutable (hcleared.routable hstrict)

theorem served_as_told_answer :
    AllTold deployed.settings (chainNameOf deployed.settings sayHi.body.model) servedRun.1 ∧
      ((∃ e ∈ servedRun.1, Serving e) →
        chainNameOf deployed.settings sayHi.body.model = sayHi.body.model ∨
        chainNameOf deployed.settings sayHi.body.model = DEFAULT_CHAIN_NAME ∧
          strictly deployed sayHi.body = false) :=
  served_as_told runs_served

end Web

end LlmGateway
