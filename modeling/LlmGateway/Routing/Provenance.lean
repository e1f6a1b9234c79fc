import LlmGateway.Coroutine.AsyncFor
import LlmGateway.Routing.Stream
import Mathlib.Data.List.Basic

/-!
# Where an answer comes from

What `FallbackRouter` returns or hands on goes under the names of a hop. That hop has been called by
then: by `called_before_yielded` for every chunk of a stream, and by `wp_chat_called` for a response.
Nothing is assumed about the providers, the breakers, the metrics or whoever reads the stream.
-/

namespace LlmGateway

open Coroutine

variable {σ α β : Type} {s : σ} {A : Ev → Prop}

/-! ## Chunks -/

section Chunks

variable {messages : List ChatMessage} {params : Option SamplingParams} {attempt : ℕ} {hop : Hop}
  {cs : List (String × String)} {t t' : List Ev}

/-- A chunk that is handed on goes by a model that has been called. -/
def Sourced (cs : List (String × String)) (e : Ev) : Prop :=
  ∀ c, yielded? e = some c → (c.provider, c.model) ∈ cs

/-- Each chunk goes by a model that was called before, in the trace or among `cs`. -/
def CalledFirst (cs : List (String × String)) (t : List Ev) : Prop :=
  Backed (fun e => (called e).toList) Sourced cs t

theorem flatMap_called (t : List Ev) : t.flatMap (fun e => (called e).toList) = upstream t :=
  (List.filterMap_eq_flatMap_toList called t).symm

theorem calledFirst_append :
    CalledFirst cs (t ++ t') ↔ CalledFirst cs t ∧ CalledFirst (cs ++ upstream t) t' := by
  rw [CalledFirst, backed_append, flatMap_called]
  rfl

theorem composes_calledFirst : Coro.Composes fun t : List Ev => ∀ cs, CalledFirst cs t where
  nil _ := trivial
  append _ _ h h' cs := calledFirst_append.mpr ⟨h cs, h' _⟩

theorem calledFirst_of_stamped (h : StampedBy hop t) (hcs : (hop.provider, hop.model) ∈ cs) :
    CalledFirst cs t := by
  refine backed_of_forall fun e he bs hbs c hc => ?_
  obtain ⟨hp, hm⟩ := h c (List.mem_filterMap.mpr ⟨e, he, hc⟩)
  rw [hp, hm]
  exact hbs hcs

theorem calledFirst_of_withheld (h : ∀ e ∈ t, e.cmd.Withheld) (cs : List (String × String)) :
    CalledFirst cs t := by
  have hnil : yielded t = [] := yielded_of_withheld h
  refine backed_of_forall fun e he bs _ c hc => ?_
  have hmem : c ∈ yielded t := List.mem_filterMap.mpr ⟨e, he, hc⟩
  rw [hnil] at hmem
  cases hmem

/-- The chunks of a trace whose chunks each go by a model called before. -/
theorem CalledFirst.mem (h : CalledFirst [] t) {c : StreamChunk} (hc : c ∈ yielded t) :
    (c.provider, c.model) ∈ upstream t := by
  obtain ⟨e, he, hyielded⟩ := List.mem_filterMap.mp hc
  obtain ⟨t₁, t₂, rfl⟩ := List.append_of_mem he
  have hbefore := Backed.of_split h c hyielded
  rw [List.nil_append, flatMap_called] at hbefore
  rw [upstream_append]
  exact List.mem_append_left _ hbefore

/-- The first thing an attempt at a hop does is to call it. -/
theorem wp_streamAttempts_head (retries : ℕ) :
    (streamAttempts messages params attempt hop retries : Py σ (Except String Unit)).wp A s
      fun t _ _ => ∃ reply t', t = ⟨.providerStream hop.provider hop.model messages params, reply⟩ :: t' := by
  cases retries with
  | zero =>
    rw [streamAttempts, Coro.wp_bind]
    refine Coro.wp_perform.mpr fun reply _ => ?_
    exact Coro.wp_mono Coro.wp_true fun t _ _ _ _ => ⟨reply, t, rfl⟩
  | succ retries =>
    rw [streamAttempts, Coro.wp_bind]
    refine Coro.wp_perform.mpr fun reply _ => ?_
    exact Coro.wp_mono Coro.wp_true fun t _ _ _ _ => ⟨reply, t, rfl⟩

/-- The attempts at a hop ask for nothing but calls, and what goes with them. -/
theorem only_streamAttempts (retries : ℕ) :
    (streamAttempts messages params attempt hop retries :
      Py σ (Except String Unit)).Only Cmd.Calling := by
  have hfailure : ∀ (message : String) (retryable : Bool) (again : Py σ (Except String Unit)),
      again.Only Cmd.Calling → (onStreamFailure hop message retryable again).Only Cmd.Calling :=
    fun _ _ _ h => .bind (only_metric trivial) fun _ => .ite (fun _ => h) fun _ => .pure
  have hrest : ∀ (again : String → Py σ (Except String Unit)) (reply : StreamReply),
      (∀ message, (again message).Only Cmd.Calling) →
      (onFirstChunk attempt hop again reply).Only Cmd.Calling := by
    intro again reply hagain
    unfold onFirstChunk
    split
    · exact hfailure _ _ _ (hagain _)
    · exact hfailure _ _ _ (hagain _)
    · exact .raise
    · exact .bind (only_commit.mono fun _ h => h.calling) fun _ => .pure
  have hwait : ∀ m : Py σ (Except String Unit), m.Only Cmd.Calling →
      (do backOff; m : Py σ (Except String Unit)).Only Cmd.Calling := fun _ h =>
    .bind (only_backOff.mono fun _ h => h.calling) fun _ => h
  refine attempts_rule (P := fun _ m => m.Only Cmd.Calling)
    (fun again => do
      let reply ← ask (.providerStream hop.provider hop.model messages params)
      onFirstChunk attempt hop again reply) ?_ (fun _ => ?_) (fun _ => .pure) (fun _ => hwait)
    (fun _ again hagain => .bind (.perform trivial) fun reply => hrest again reply hagain) retries
  · rfl
  · rfl

/-- The router's stream asks for nothing else either. -/
theorem only_chatStream {retryAttempts : ℕ} {skip : Finset String} {hops : List Hop} :
    (chatStream messages params retryAttempts skip hops : Py σ Unit).Only Cmd.Calling :=
  only_walk (fun _ h => h.calling) (fun _ _ => only_streamAttempts retryAttempts) hops 0 []

theorem calledFirst_streamAttempts (retries : ℕ) :
    Coro.Along A (fun t => ∀ cs, CalledFirst cs t)
      (streamAttempts messages params attempt hop retries : Py σ (Except String Unit)) := by
  intro s
  refine Coro.wp_mono (Coro.wp_and (wp_streamAttempts_head retries)
    (streamsAs_streamAttempts retries A s)) fun t r s' _ h cs => ?_
  obtain ⟨⟨reply, t', rfl⟩, hstamped, -⟩ := h
  have hrest : StampedBy hop t' := fun c hc => hstamped c hc
  refine ⟨fun c hc => ?_, calledFirst_of_stamped hrest ?_⟩
  · cases hc
  · exact List.mem_append_right _ (List.mem_singleton_self _)

/-- What holds of the attempts at every hop, and does not regard what is done in between, holds of the
walk along the chain. -/
theorem along_walk {P : List Ev → Prop} (hP : Coro.Composes P)
    (hquiet : ∀ t : List Ev, (∀ e ∈ t, e.cmd.Withheld) → P t) {skip : Finset String}
    {serve : ℕ → Hop → Py σ (Except String α)}
    (hserve : ∀ attempt hop, Coro.Along A P (serve attempt hop)) (hops : List Hop) (attempt : ℕ)
    (errors : List String) : Coro.Along A P (walk skip serve attempt errors hops) := by
  have hask : ∀ {c : Cmd}, c.Withheld → Coro.Along A P (ask c : Py σ (Reply c)) := fun hc =>
    .of_only (.perform hc) hquiet
  have hpublish : ∀ hop : Hop, Coro.Along A P (publishCircuitState hop : Py σ Unit) := fun _ =>
    .of_only only_publishCircuitState_withheld hquiet
  induction hops generalizing attempt errors with
  | nil => exact .raise hP
  | cons hop rest ih =>
    refine .ite (fun _ => ih _ _) fun _ => .bind hP (hask trivial) fun allowed =>
      .bind hP (hpublish hop) fun _ => .ite (fun _ => .bind hP (hserve _ _) fun outcome => ?_)
        fun _ => ih _ _
    cases outcome with
    | ok result => exact .pure hP
    | error lastError =>
      exact .bind hP (hask trivial) fun _ => .bind hP (hpublish hop) fun _ => ih _ _

/-- A chunk of the router's stream goes by a model that the router has called before it. -/
theorem called_before_yielded {retryAttempts : ℕ} {skip : Finset String} {hops : List Hop} :
    (chatStream messages params retryAttempts skip hops : Py σ Unit).wp A s fun t _ _ =>
      CalledFirst [] t :=
  Coro.wp_mono (along_walk composes_calledFirst (fun _ => calledFirst_of_withheld)
    (fun _ _ => calledFirst_streamAttempts retryAttempts) hops 0 [] s) fun _ _ _ _ h => h []

end Chunks

/-! ## Results -/

/-- Every run of `m` that returns ends in a result that its trace allows. -/
def Returning (K : List Ev → α → Prop) (m : Py σ α) : Prop :=
  ∀ A s, m.wp A s fun t r _ => ∀ a, r = .ok a → K t a

namespace Returning

variable {K : List Ev → α → Prop}

theorem pure {a : α} (h : K [] a) : Returning K (Pure.pure a : Py σ α) := by
  rintro A s _ ⟨⟩
  exact h

theorem raise {x : Exc} : Returning K (Coro.raise x : Py σ α) := by
  rintro A s _ ⟨⟩

theorem ite {c : Prop} [Decidable c] {m m' : Py σ α} (h : Returning K m) (h' : Returning K m') :
    Returning K (if c then m else m') := by
  split
  · exact h
  · exact h'

variable (hK : ∀ t t' a, K t' a → K (t ++ t') a)
include hK

/-- The last part decides, when a trace allows what an end of it allows. -/
theorem bind {m : Py σ β} {f : β → Py σ α} (hf : ∀ b, Returning K (f b)) :
    Returning K (m >>= f) := by
  intro A s
  rw [Coro.wp_bind]
  refine Coro.wp_mono Coro.wp_true fun t r s' _ _ => ?_
  cases r with
  | error x =>
    intro a ha
    cases ha
  | ok b => exact Coro.wp_mono (hf b A s') fun t' r _ _ h a ha => hK t t' a (h a ha)

theorem attempt {m : Py σ α} {h : Exc → Option (Py σ α)} (hm : Returning K m)
    (hh : ∀ x c, h x = some c → Returning K c) : Returning K (m.attempt h) := by
  intro A s
  rw [Coro.wp_attempt]
  refine Coro.wp_mono (hm A s) fun t r s' _ hr => ?_
  cases r with
  | ok a => exact hr
  | error x =>
    dsimp only
    split
    · next c hc => exact Coro.wp_mono (hh x c hc A s') fun t' r _ _ h a ha => hK t t' a (h a ha)
    · intro a ha
      cases ha

/-- The result of the walk is that of the attempts at some hop. -/
theorem walk {skip : Finset String} {serve : ℕ → Hop → Py σ (Except String α)}
    (hserve : ∀ attempt hop, Returning (fun t x => ∀ a, x = .ok a → K t a) (serve attempt hop))
    (hops : List Hop) (attempt : ℕ) (errors : List String) :
    Returning K (LlmGateway.walk skip serve attempt errors hops) := by
  induction hops generalizing attempt errors with
  | nil => exact .raise
  | cons hop rest ih =>
    refine .ite (ih _ _) (.bind hK fun allowed => .bind hK fun _ => .ite ?_ (ih _ _))
    intro A s
    rw [Coro.wp_bind]
    refine Coro.wp_mono (hserve attempt hop A s) fun t r s' _ h => ?_
    rcases r with x | lastError | result
    · intro a ha
      cases ha
    · refine Coro.wp_mono (Returning.bind hK (fun _ => .bind hK fun _ => ih _ _) A s')
        fun t' r _ _ h' a ha => hK t t' a (h' a ha)
    · refine Coro.wp_pure.mpr fun a ha => ?_
      obtain rfl := Except.ok.inj ha
      rw [List.append_nil]
      exact h _ rfl _ rfl

end Returning

/-! ## Responses -/

section Responses

variable {messages : List ChatMessage} {params : Option SamplingParams} {attempt : ℕ} {hop : Hop}

/-- A response goes by a model that has been called. -/
def ChatResponse.Called (t : List Ev) (result : ChatResponse) : Prop :=
  (result.provider, result.model) ∈ upstream t

theorem called_append (t t' : List Ev) (result : ChatResponse)
    (h : ChatResponse.Called t' result) : ChatResponse.Called (t ++ t') result := by
  rw [ChatResponse.Called, upstream_append]
  exact List.mem_append_right _ h

/-- What a hop is left with, if that is a response, goes by a model that has been called. -/
def ServedCalled (t : List Ev) (x : Except String ChatResponse) : Prop :=
  ∀ result, x = .ok result → ChatResponse.Called t result

theorem servedCalled_append (t t' : List Ev) (x : Except String ChatResponse)
    (h : ServedCalled t' x) : ServedCalled (t ++ t') x := fun result hx =>
  called_append t t' result (h result hx)

theorem servedCalled_error (t : List Ev) (message : String) : ServedCalled t (.error message) := by
  rintro result ⟨⟩

/-- A completion goes by the names of its hop. -/
theorem returning_onCompletion {completion : Completion} :
    Returning (fun _ x => ∀ result, x = .ok result →
        (result.provider, result.model) = (hop.provider, hop.model))
      (onCompletion attempt hop completion : Py σ _) := by
  have hK : ∀ (t t' : List Ev) (x : Except String ChatResponse),
      (∀ result, x = .ok result → (result.provider, result.model) = (hop.provider, hop.model)) →
      ∀ result, x = .ok result → (result.provider, result.model) = (hop.provider, hop.model) :=
    fun _ _ _ h => h
  refine .bind hK fun _ => .bind hK fun _ => .bind hK fun _ => .bind hK fun _ => .bind hK fun _ =>
    .pure ?_
  rintro result ⟨⟩
  rfl

theorem returning_chatOnce :
    Returning ServedCalled (chatOnce messages params attempt hop : Py σ _) := by
  intro A s
  rw [chatOnce_eq, Coro.wp_bind]
  refine Coro.wp_perform.mpr fun reply _ => ?_
  dsimp only
  rw [Coro.wp_bind, Coro.wp_ofExcept]
  cases reply with
  | error x =>
    intro _ h
    cases h
  | ok completion =>
    refine Coro.wp_mono (returning_onCompletion A s) fun t r _ _ h x hr result hx => ?_
    have hcall : (hop.provider, hop.model) ∈ upstream
        ([⟨.providerChat hop.provider hop.model messages params, .ok completion⟩] ++ ([] ++ t)) :=
      List.mem_cons_self ..
    rwa [← h x hr result hx] at hcall

theorem returning_chatAttempts (retries : ℕ) :
    Returning ServedCalled (chatAttempts messages params attempt hop retries : Py σ _) := by
  have honce : Returning ServedCalled (chatOnce messages params attempt hop : Py σ _) :=
    returning_chatOnce
  have hclause : ∀ (again : String → Py σ (Except String ChatResponse)) (x : Exc)
      (c : Py σ (Except String ChatResponse)), (∀ message, Returning ServedCalled (again message)) →
      onProviderError hop again x = some c → Returning ServedCalled c := by
    intro again x c hagain hc
    obtain ⟨message, retryable, -, rfl⟩ := onProviderError_eq_some hc
    exact .bind servedCalled_append fun _ => .bind servedCalled_append fun _ =>
      .ite (hagain _) (.pure (servedCalled_error [] message))
  refine attempts_rule (P := fun _ m => Returning ServedCalled m) _ ?_ (fun _ => ?_)
    (fun message => .pure (servedCalled_error [] message))
    (fun _ _ h => .bind servedCalled_append fun _ => h)
    (fun _ again hagain => .attempt servedCalled_append honce fun x c => hclause again x c hagain)
    retries
  · rfl
  · rfl

/-- The response of the router goes by a model that it has called. -/
theorem returning_chat {retryAttempts : ℕ} {skip : Finset String} {hops : List Hop} :
    Returning ChatResponse.Called (chat messages params retryAttempts skip hops : Py σ _) :=
  .walk called_append (fun _ _ => returning_chatAttempts retryAttempts) hops 0 []

end Responses

end LlmGateway
