import LlmGateway.Routing.Fallback

/-!
# The answers of the router

Which calls a run of `FallbackRouter.chat` makes and how it ends: it returns the answer of its last
call, or raises after every call it made has failed.
-/

namespace LlmGateway

open Coroutine

variable {σ α β : Type} {s : σ}

/-! ## The calls of `chat` -/

/-- A call of `provider.chat`, and what it ended in. -/
structure ChatCall where
  provider : String
  model : String
  reply : Except Exc Completion

/-- The call ended in an exception. -/
def ChatCall.Failed (c : ChatCall) : Prop := ∃ x, c.reply = .error x

/-- The call of `provider.chat` an event is. -/
def chatCall? : Ev → Option ChatCall
  | ⟨.providerChat provider model _ _, r⟩ => some ⟨provider, model, r⟩
  | _ => none

/-- The calls of `provider.chat` in a trace, in order. -/
def chatCalls (t : List Ev) : List ChatCall := t.filterMap chatCall?

@[simp] theorem chatCalls_nil : chatCalls [] = [] := rfl

@[simp] theorem chatCalls_append (t t' : List Ev) :
    chatCalls (t ++ t') = chatCalls t ++ chatCalls t' :=
  List.filterMap_append

theorem mem_upstream_of_mem_chatCalls {t : List Ev} {c : ChatCall} (h : c ∈ chatCalls t) :
    (c.provider, c.model) ∈ upstream t := by
  obtain ⟨e, he, hc⟩ := List.mem_filterMap.mp h
  refine List.mem_filterMap.mpr ⟨e, he, ?_⟩
  unfold chatCall? at hc
  split at hc
  · obtain rfl := Option.some.inj hc
    rfl
  · cases hc

/-- Any command but a call of `provider.chat`. -/
def Cmd.Inward : Cmd → Prop
  | .providerChat _ _ _ _ => False
  | _ => True

theorem Cmd.Routing.inward {c : Cmd} (h : c.Routing) : c.Inward := by
  cases c <;> trivial

theorem chatCalls_of_inward {t : List Ev} (h : ∀ e ∈ t, e.cmd.Inward) : chatCalls t = [] := by
  refine List.filterMap_eq_nil_iff.mpr fun e he => ?_
  have hc := h e he
  obtain ⟨c, r⟩ := e
  cases c <;> first | rfl | exact hc.elim

/-- The calls of a run of the router, and the response it returns: its last call was answered, or
none was. -/
inductive Answers : List ChatCall → Option ChatResponse → Prop
  | unanswered {cs : List ChatCall} (h : ∀ c ∈ cs, c.Failed) : Answers cs none
  | answered {cs : List ChatCall} (provider model : String) (completion : Completion)
      (h : ∀ c ∈ cs, c.Failed) :
      Answers (cs ++ [⟨provider, model, .ok completion⟩]) (some {
        content := completion.content, provider := provider, model := model,
        inputTokens := completion.inputTokens, outputTokens := completion.outputTokens })

theorem Answers.failed {cs : List ChatCall} (h : Answers cs none) : ∀ c ∈ cs, c.Failed := by
  cases h with
  | unanswered h => exact h

theorem Answers.prepend {cs cs' : List ChatCall} {o : Option ChatResponse} (h : Answers cs' o)
    (hcs : ∀ c ∈ cs, c.Failed) : Answers (cs ++ cs') o := by
  cases h with
  | unanswered h => exact .unanswered (List.forall_mem_append.mpr ⟨hcs, h⟩)
  | answered provider model completion h =>
    rw [← List.append_assoc]
    exact .answered provider model completion (List.forall_mem_append.mpr ⟨hcs, h⟩)

/-- The response of a hop, if it was served. -/
def served? : Except Exc (Except String ChatResponse) → Option ChatResponse
  | .ok (.ok result) => some result
  | _ => none

/-! ## The runs of the router -/

/-- While metrics and pricing do not raise, the calls and the outcome of every run satisfy `Q`. -/
def Ends (m : Py σ α) (s : σ) (Q : List ChatCall → Except Exc α → Prop) : Prop :=
  m.wp Healthy s fun t r _ => Q (chatCalls t) r

theorem ends_ite_iff {c : Prop} [Decidable c] {m m' : Py σ α}
    {Q : List ChatCall → Except Exc α → Prop} :
    Ends (if c then m else m') s Q ↔ (c → Ends m s Q) ∧ (¬ c → Ends m' s Q) :=
  Coro.wp_ite

/-- A part of the router that calls nothing upstream and returns as long as the metrics do. -/
def Steady (m : Py σ α) : Prop := ∀ s, Ends m s fun cs r => cs = [] ∧ ∃ a, r = .ok a

/-- A steady part can be left out. -/
theorem Steady.ends_bind {m : Py σ α} {f : α → Py σ β} {Q : List ChatCall → Except Exc β → Prop}
    (h : Steady m) (hf : ∀ a s', Ends (f a) s' Q) : Ends (m >>= f) s Q := by
  rw [Ends, Coro.wp_bind]
  refine Coro.wp_mono (h s) fun t r s' _ ht => ?_
  obtain ⟨hnil, a, rfl⟩ := ht
  refine Coro.wp_mono (hf a s') fun t' _ _ _ h' => ?_
  rwa [chatCalls_append, hnil]

theorem steady_metric {m : Metric} : Steady (metric m : Py σ Unit) := fun _ =>
  wp_metric.mpr ⟨rfl, _, rfl⟩

theorem steady_ask {c : Cmd} (h : c.Routing) : Steady (ask c : Py σ (Reply c)) := fun _ r _ =>
  ⟨chatCalls_of_inward (by simpa using h.inward), r, rfl⟩

theorem steady_publishCircuitState {hop : Hop} : Steady (publishCircuitState hop : Py σ Unit) :=
  fun _ => (steady_ask (by trivial)).ends_bind fun _ => steady_metric

theorem steady_countFallback {attempt : ℕ} : Steady (countFallback attempt : Py σ Unit) := by
  unfold countFallback
  split
  · exact steady_metric
  · exact fun _ => ⟨rfl, _, rfl⟩

section Router

variable {messages : List ChatMessage} {params : Option SamplingParams} {attempt : ℕ} {hop : Hop}

theorem ends_chatOnce : Ends (chatOnce messages params attempt hop) s fun cs r =>
    Answers cs (served? r) := by
  rw [Ends, chatOnce_eq, Coro.wp_bind]
  refine Coro.wp_perform.mpr fun reply _ => ?_
  dsimp only
  rw [Coro.wp_bind, Coro.wp_ofExcept]
  match reply with
  | .error x => exact .unanswered (by simp [chatCalls, chatCall?, ChatCall.Failed])
  -- once the provider has answered, nothing that follows can fail
  | .ok completion =>
    have hrest : Ends (onCompletion attempt hop completion) s fun cs r =>
        cs = [] ∧ r = .ok (.ok {
          content := completion.content, provider := hop.provider, model := hop.model,
          inputTokens := completion.inputTokens, outputTokens := completion.outputTokens }) :=
      steady_metric.ends_bind fun _ _ => (steady_ask (by trivial)).ends_bind fun _ _ =>
        steady_publishCircuitState.ends_bind fun _ _ => steady_metric.ends_bind fun _ _ =>
          steady_countFallback.ends_bind fun _ _ => ⟨rfl, rfl⟩
    dsimp only
    refine Coro.wp_mono hrest fun t r s' _ h => ?_
    obtain ⟨hnil, rfl⟩ := h
    rw [List.nil_append, chatCalls_append, hnil]
    have hnone : ∀ c ∈ ([] : List ChatCall), c.Failed := nofun
    exact .answered hop.provider hop.model completion hnone

/-- A part of the router that serves a hop ends in the answer of its last call, or in an error once
all of its calls have failed. -/
def Serves (m : Py σ (Except String ChatResponse)) : Prop :=
  ∀ s, Ends m s fun cs r => Answers cs (served? r)

theorem serves_error {message : String} : Serves (pure (.error message) : Py σ _) := fun _ =>
  .unanswered (by simp)

theorem Serves.backOff {m : Py σ (Except String ChatResponse)} (h : Serves m) :
    Serves (do backOff; m) := by
  intro s
  rw [Ends, LlmGateway.backOff, Coro.wp_bind, Coro.wp_bind]
  refine Coro.wp_perform.mpr fun slept _ => ?_
  dsimp only
  rw [Coro.wp_ofExcept]
  match slept with
  | .error x => exact .unanswered (by simp [chatCalls, chatCall?])
  | .ok () => exact h s

/-- After a failed attempt its handler may serve the hop as well. -/
theorem serves_attempt {again : String → Py σ (Except String ChatResponse)}
    (hagain : ∀ message, Serves (again message)) :
    Serves ((chatOnce messages params attempt hop).attempt (onProviderError hop again)) := by
  intro s
  rw [Ends, Coro.wp_attempt]
  refine Coro.wp_mono ends_chatOnce fun t r s' _ hanswers => ?_
  match r with
  | .ok result => exact hanswers
  | .error x =>
    dsimp only
    split
    · next c hc =>
      have hmore : Ends c s' fun cs r => Answers cs (served? r) := by
        obtain ⟨message, retryable, -, rfl⟩ := onProviderError_eq_some hc
        refine steady_metric.ends_bind fun _ _ => steady_metric.ends_bind fun _ s'' => ?_
        rw [ends_ite_iff]
        exact ⟨fun _ => hagain _ s'', fun _ => serves_error s''⟩
      refine Coro.wp_mono hmore fun t' _ _ _ h' => ?_
      rw [chatCalls_append]
      exact h'.prepend hanswers.failed
    · exact hanswers

theorem serves_chatAttempts (retries : ℕ) :
    Serves (chatAttempts messages params attempt hop retries : Py σ (Except String ChatResponse)) := by
  have honce : ∀ again : String → Py σ (Except String ChatResponse),
      (∀ message, Serves (again message)) →
      Serves ((chatOnce messages params attempt hop).attempt (onProviderError hop again)) :=
    fun _ => serves_attempt
  refine attempts_rule (P := fun _ m => Serves m) _ ?_ (fun _ => ?_) (fun _ => serves_error)
    (fun _ _ h => h.backOff) (fun _ => honce) retries
  · rfl
  · rfl

/-- The router returns the answer of its last call, or raises after all of them have failed. -/
theorem ends_walk {skip : Finset String} {serve : ℕ → Hop → Py σ (Except String ChatResponse)}
    (hserve : ∀ attempt hop, Serves (serve attempt hop))
    (hops : List Hop) (attempt : ℕ) (errors : List String) (s : σ) :
    Ends (walk skip serve attempt errors hops) s fun cs r => Answers cs r.toOption := by
  induction hops generalizing attempt errors s with
  | nil => exact .unanswered (by simp)
  | cons hop rest ih =>
    rw [walk, ends_ite_iff]
    refine ⟨fun _ => ih _ _ s, fun _ => ?_⟩
    have hallow : Cmd.Routing (.allowRequest hop.breaker) := trivial
    refine (steady_ask hallow).ends_bind fun _ _ =>
      steady_publishCircuitState.ends_bind fun _ s₁ => ?_
    rw [ends_ite_iff]
    refine ⟨fun _ => ?_, fun _ => ih _ _ s₁⟩
    rw [Ends, Coro.wp_bind]
    refine Coro.wp_mono (hserve attempt hop s₁) fun t r s₂ _ h => ?_
    rcases r with x | lastError | result
    · exact h
    · have hrest : Ends (do
          ask (.recordFailure hop.breaker)
          publishCircuitState hop
          walk skip serve (attempt + 1) (errors ++ [hop.provider ++ ": " ++ lastError]) rest) s₂
          fun cs r => Answers cs r.toOption :=
        (steady_ask (by trivial)).ends_bind fun _ _ =>
          steady_publishCircuitState.ends_bind fun _ s₃ => ih _ _ s₃
      refine Coro.wp_mono hrest fun t' _ _ _ h' => ?_
      rw [chatCalls_append]
      exact h'.prepend h.failed
    · refine Coro.wp_pure.mpr ?_
      rwa [List.append_nil]

theorem ends_chat {retryAttempts : ℕ} {skip : Finset String} {hops : List Hop} :
    Ends (chat messages params retryAttempts skip hops) s fun cs r => Answers cs r.toOption :=
  ends_walk (fun _ _ => serves_chatAttempts _) hops 0 [] s

end Router

end LlmGateway
