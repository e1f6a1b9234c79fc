import LlmGateway.Routing.Fallback
import LlmGateway.Gateway.Observe

/-!
# What a request does to a chain

The steps of a run of `FallbackRouter.chat` or `chat_stream` are what it asks and tells the breakers
and the calls it makes. `Tour` says which steps there can be: hop by hop, each passed over or called
until it has failed, up to the hop the request ends at.

Nothing is assumed about what the providers reply, so a call may also end in an exception that is
not a `ProviderError`, and the reader of a stream may go away.
-/

namespace LlmGateway

open Coroutine

variable {σ α β : Type} {s : σ}

/-! ## Steps -/

/-- What a call of a provider came to. -/
inductive CallResult where
  | completion (c : Completion)
  | stream (first : StreamChunk) (rest : List StreamChunk) (ending : Option PyError)
  | providerError (message : String) (retryable : Bool)
  | other

/-- A step of the router. -/
inductive Step where
  | asked (breaker : String) (admitted : Bool)
  | read (breaker : String)
  | called (provider model : String) (result : CallResult)
  | success (breaker : String)
  | failure (breaker : String)
  /-- a `ProviderError` after the first chunk of a stream -/
  | broke
  /-- cancelled while waiting for the next attempt -/
  | interrupted

/-- An exception as a call ends in it. -/
def callError : Exc → CallResult
  | .exception (.providerError message retryable) => .providerError message retryable
  | _ => .other

/-- The result of a call of `provider.chat`. -/
def chatResult : Except Exc Completion → CallResult
  | .ok c => .completion c
  | .error e => callError e

/-- The result of a call of `provider.chat_stream`, up to its first chunk. -/
def streamResult : StreamReply → CallResult
  | .opened first rest ending => .stream first rest ending
  | .empty => .providerError "stream produced no chunks" true
  | .failed e => callError e

/-- The exception `__anext__` raises, if it does. -/
def nextError : Upcoming → Except Exc Unit → Option Exc
  | _, .error e => some e
  | .error e, .ok () => some (.exception e)
  | _, .ok () => none

/-- The step an event is. -/
def step? : Ev → Option Step
  | ⟨.allowRequest breaker, admitted⟩ => some (.asked breaker admitted)
  | ⟨.circuitState breaker, _⟩ => some (.read breaker)
  | ⟨.recordSuccess breaker, _⟩ => some (.success breaker)
  | ⟨.recordFailure breaker, _⟩ => some (.failure breaker)
  | ⟨.providerChat provider model _ _, r⟩ => some (.called provider model (chatResult r))
  | ⟨.providerStream provider model _ _, r⟩ => some (.called provider model (streamResult r))
  | ⟨.anext next, r⟩ =>
    match nextError next r with
    | some (.exception (.providerError _ _)) => some .broke
    | _ => none
  | ⟨.sleep, .error _⟩ => some .interrupted
  | _ => none

/-- The steps of a trace. -/
def steps (t : List Ev) : List Step := t.filterMap step?

@[simp] theorem steps_nil : steps [] = [] := rfl

@[simp] theorem steps_append (t t' : List Ev) : steps (t ++ t') = steps t ++ steps t' :=
  List.filterMap_append

/-! ## Tours -/

/-- The errors of the calls of one hop, each with whether it is retryable, when at most `n` calls
are made: all are retryable but perhaps the last, and it stops early only at one that is not. -/
inductive Spent : ℕ → List (String × Bool) → Prop
  | nil : Spent 0 []
  | final {n : ℕ} (message : String) : Spent (n + 1) [(message, false)]
  | retry {n : ℕ} {es : List (String × Bool)} (message : String) (h : Spent n es) :
      Spent (n + 1) ((message, true) :: es)

/-- The calls of a hop that ended in the errors listed. -/
def failedCalls (hop : Hop) (es : List (String × Bool)) : List Step :=
  es.map fun e => .called hop.provider hop.model (.providerError e.1 e.2)

theorem mem_failedCalls {hop : Hop} {es : List (String × Bool)} {step : Step}
    (h : step ∈ failedCalls hop es) :
    ∃ message retryable,
      step = .called hop.provider hop.model (.providerError message retryable) := by
  obtain ⟨e, -, rfl⟩ := List.mem_map.mp h
  exact ⟨_, _, rfl⟩

/-- The steps of the hops listed when the request ends at none of them: each is to be skipped, or
refused by its breaker, or has failed with at most `n` calls and one report. -/
inductive Passed (n : ℕ) (skip : Finset String) : List Hop → List Step → Prop
  | nil : Passed n skip [] []
  | skipped {hop : Hop} {rest : List Hop} {ss : List Step} (hskip : hop.provider ∈ skip)
      (h : Passed n skip rest ss) : Passed n skip (hop :: rest) ss
  | refused {hop : Hop} {rest : List Hop} {ss : List Step} (hskip : hop.provider ∉ skip)
      (h : Passed n skip rest ss) :
      Passed n skip (hop :: rest) (.asked hop.breaker false :: .read hop.breaker :: ss)
  | failed {hop : Hop} {rest : List Hop} {ss : List Step} (hskip : hop.provider ∉ skip)
      (es : List (String × Bool)) (hes : Spent n es) (h : Passed n skip rest ss) :
      Passed n skip (hop :: rest)
        (.asked hop.breaker true :: .read hop.breaker :: failedCalls hop es ++
          .failure hop.breaker :: .read hop.breaker :: ss)

/-- A run over the chain `hops`. Either it passes all of them and raises, or it ends at one of them,
after fewer than `n` retryable failures there, with the steps and the result `Last` allows. -/
inductive Tour (Last : Hop → List Step → Except Exc α → Prop) (n : ℕ) (skip : Finset String)
    (hops : List Hop) : List Step → Except Exc α → Prop
  | exhausted {ss : List Step} (h : Passed n skip hops ss) (message : String) :
      Tour Last n skip hops ss (.error (.exception (.allProvidersFailed message)))
  | ended {before after : List Hop} {hop : Hop} {ss last : List Step} {r : Except Exc α}
      (hhops : hops = before ++ hop :: after) (h : Passed n skip before ss)
      (hskip : hop.provider ∉ skip) (messages : List String) (hlen : messages.length < n)
      (hlast : Last hop last r) :
      Tour Last n skip hops
        (ss ++ .asked hop.breaker true :: .read hop.breaker ::
          failedCalls hop (messages.map (·, true)) ++ last) r

/-- The end of a walk that is cut off at a hop: by an exception of a call that is not a
`ProviderError`, or while it waits. -/
inductive CutOff (hop : Hop) : List Step → Except Exc α → Prop
  | call (e : Exc) : CutOff hop [.called hop.provider hop.model .other] (.error e)
  | wait (e : Exc) : CutOff hop [.interrupted] (.error e)

/-- The end of `chat` at a hop that answers: its response goes by the model of the chain. -/
inductive Answered (hop : Hop) : List Step → Except Exc ChatResponse → Prop
  | completion (c : Completion) :
      Answered hop
        [.called hop.provider hop.model (.completion c), .success hop.breaker, .read hop.breaker]
        (.ok {
          content := c.content, provider := hop.provider, model := hop.model,
          inputTokens := c.inputTokens, outputTokens := c.outputTokens })

/-- How `chat` ends at a hop. -/
def ChatLast (hop : Hop) (ss : List Step) (r : Except Exc ChatResponse) : Prop :=
  Answered hop ss r ∨ CutOff hop ss r

/-- How `chat_stream` ends at a hop. -/
inductive StreamLast (hop : Hop) : List Step → Except Exc Unit → Prop
  | opened (first : StreamChunk) (rest : List StreamChunk) (ending : Option PyError)
      (r : Except Exc Unit) :
      StreamLast hop
        [.called hop.provider hop.model (.stream first rest ending), .success hop.breaker,
          .read hop.breaker] r
  | broke (first : StreamChunk) (rest : List StreamChunk) (ending : Option PyError)
      (message : String) :
      StreamLast hop
        [.called hop.provider hop.model (.stream first rest ending), .success hop.breaker,
          .read hop.breaker, .broke, .failure hop.breaker, .read hop.breaker]
        (.error (.exception (.allProvidersFailed message)))
  | cutOff {ss : List Step} {r : Except Exc Unit} (h : CutOff hop ss r) : StreamLast hop ss r

/-! ## The attempts at one hop -/

/-- The attempts at a hop of which `n` are left, and what they end in. -/
inductive Attempts (Last : Hop → List Step → Except Exc α → Prop) (hop : Hop) :
    ℕ → List Step → Except Exc (Except String α) → Prop
  | spent {n : ℕ} {es : List (String × Bool)} (h : Spent n es) (message : String) :
      Attempts Last hop n (failedCalls hop es) (.ok (.error message))
  | last {n : ℕ} {ss : List Step} {r : Except Exc α} (messages : List String)
      (hlen : messages.length < n) (h : Last hop ss r) :
      Attempts Last hop n (failedCalls hop (messages.map (·, true)) ++ ss) (r.map .ok)

namespace Attempts

variable {Last : Hop → List Step → Except Exc α → Prop} {hop : Hop} {n : ℕ} {ss : List Step}
  {r : Except Exc (Except String α)}

/-- One more attempt, which fails and may be retried. -/
theorem retry (h : Attempts Last hop n ss r) (message : String) :
    Attempts Last hop (n + 1)
      (.called hop.provider hop.model (.providerError message true) :: ss) r := by
  cases h with
  | spent h m => exact .spent (h.retry message) m
  | last messages hlen h => exact .last (message :: messages) (Nat.succ_lt_succ hlen) h

/-- An attempt that fails for good. -/
theorem final (message message' : String) :
    Attempts Last hop (n + 1)
      [.called hop.provider hop.model (.providerError message false)] (.ok (.error message')) :=
  .spent (.final message) message'

/-- An attempt the walk ends with. -/
theorem ends {r : Except Exc α} (h : Last hop ss r) : Attempts Last hop (n + 1) ss (r.map .ok) :=
  .last [] n.succ_pos h

/-- Attempts that do not exhaust the hop end the walk. -/
theorem tour {skip : Finset String} {rest : List Hop} {r : Except Exc α}
    (h : Attempts Last hop n ss (r.map .ok)) (hskip : hop.provider ∉ skip) :
    Tour Last n skip (hop :: rest) (.asked hop.breaker true :: .read hop.breaker :: ss) r := by
  generalize hr : r.map (Except.ok (ε := String)) = r' at h
  cases h with
  | spent h message => cases r <;> cases hr
  | @last _ r₀ messages hlen h =>
    obtain rfl : r = r₀ := by
      cases r <;> cases r₀ <;> cases hr <;> rfl
    have hhops : hop :: rest = [] ++ hop :: rest := rfl
    exact .ended hhops .nil hskip messages hlen h

/-- Attempts that exhaust the hop pass it. -/
theorem passed {skip : Finset String} {rest : List Hop} {ss' : List Step} {message : String}
    (h : Attempts Last hop n ss (.ok (.error message))) (hskip : hop.provider ∉ skip)
    (hrest : Passed n skip rest ss') :
    Passed n skip (hop :: rest)
      (.asked hop.breaker true :: .read hop.breaker :: ss ++
        .failure hop.breaker :: .read hop.breaker :: ss') := by
  generalize hr : Except.ok (Except.error message) = r' at h
  cases h with
  | spent h m => exact .failed hskip _ h hrest
  | @last _ r₀ messages hlen h => cases r₀ <;> cases hr

end Attempts

/-! ## Parts that take known steps -/

/-- Metrics do not raise, and the reader of a stream throws no `ProviderError` into it. -/
def Orderly : Ev → Prop
  | ⟨.metric _, r⟩ => r = .ok ()
  | ⟨.yieldChunk _, r⟩ =>
    ∀ message retryable, r ≠ .error (.exception (.providerError message retryable))
  | _ => True

/-- The steps and the outcome of every run of `m` satisfy `Q`. -/
def Touring (m : Py σ α) (s : σ) (Q : List Step → Except Exc α → Prop) : Prop :=
  m.wp Orderly s fun t r _ => Q (steps t) r

theorem Touring.mono {m : Py σ α} {Q Q' : List Step → Except Exc α → Prop} (h : Touring m s Q)
    (hQ : ∀ ss r, Q ss r → Q' ss r) : Touring m s Q' :=
  Coro.wp_mono h fun t r _ _ => hQ (steps t) r

theorem Touring.bind {m : Py σ α} {f : α → Py σ β} {Q : List Step → Except Exc α → Prop}
    {Q' : List Step → Except Exc β → Prop} (hm : Touring m s Q)
    (hraise : ∀ ss e, Q ss (.error e) → Q' ss (.error e))
    (hf : ∀ ss a s', Q ss (.ok a) → Touring (f a) s' fun ss' r => Q' (ss ++ ss') r) :
    Touring (m >>= f) s Q' := by
  rw [Touring, Coro.wp_bind]
  refine Coro.wp_mono hm fun t r s' _ h => ?_
  match r with
  | .error e => exact hraise _ e h
  | .ok a =>
    refine Coro.wp_mono (hf _ a s' h) fun t' _ _ _ h' => ?_
    rwa [steps_append]

/-- The part `m` of the router takes the steps `ss` and returns. -/
def Takes (m : Py σ α) (ss : List Step) : Prop :=
  ∀ s, Touring m s fun ss' r => ss' = ss ∧ ∃ a, r = .ok a

/-- What follows a part that takes known steps. -/
theorem Takes.touring_bind {m : Py σ α} {ss : List Step} {f : α → Py σ β}
    {Q : List Step → Except Exc β → Prop} (hm : Takes m ss)
    (hf : ∀ a s', Touring (f a) s' fun ss' r => Q (ss ++ ss') r) : Touring (m >>= f) s Q := by
  refine (hm s).bind (fun _ e h => ?_) fun _ a s' h => ?_
  · obtain ⟨-, a, ha⟩ := h
    cases ha
  · obtain ⟨rfl, -⟩ := h
    exact hf a s'

theorem takes_metric {m : Metric} : Takes (metric m : Py σ Unit) [] := by
  intro s
  rw [metric, Touring, Coro.wp_bind]
  refine Coro.wp_perform.mpr fun r hr => ?_
  obtain rfl : r = .ok () := hr
  exact ⟨rfl, (), rfl⟩

theorem takes_ask {c : Cmd} {ss : List Step} (h : ∀ r, steps [⟨c, r⟩] = ss) :
    Takes (ask c : Py σ (Reply c)) ss := fun _ r _ => ⟨h r, r, rfl⟩

theorem takes_circuitState {breaker : String} :
    Takes (ask (.circuitState breaker) : Py σ CircuitState) [.read breaker] := takes_ask fun _ => rfl

theorem takes_recordSuccess {breaker : String} :
    Takes (ask (.recordSuccess breaker) : Py σ Unit) [.success breaker] := takes_ask fun _ => rfl

theorem takes_recordFailure {breaker : String} :
    Takes (ask (.recordFailure breaker) : Py σ Unit) [.failure breaker] := takes_ask fun _ => rfl

variable {hop : Hop} {attempt n : ℕ}

theorem takes_publishCircuitState :
    Takes (publishCircuitState hop : Py σ Unit) [.read hop.breaker] := fun _ =>
  takes_circuitState.touring_bind fun _ s' =>
    (takes_metric s').mono fun _ _ h => ⟨congrArg ([.read hop.breaker] ++ ·) h.1, h.2⟩

theorem takes_countFallback : Takes (countFallback attempt : Py σ Unit) [] := by
  unfold countFallback
  split
  · exact takes_metric
  · exact fun _ => ⟨rfl, _, rfl⟩

/-- Waiting for the next attempt takes no step unless it is cut off. -/
theorem touring_backOff {m : Py σ α} {Q : List Step → Except Exc α → Prop}
    (hcut : ∀ e, Q [.interrupted] (.error e)) (hm : ∀ s', Touring m s' Q) :
    Touring (do backOff; m) s Q := by
  rw [Touring, backOff, Coro.wp_bind, Coro.wp_bind]
  refine Coro.wp_perform.mpr fun slept _ => ?_
  match slept with
  | .error e => exact hcut e
  | .ok () => exact hm s

/-- After a failed attempt the hop is called again if the error allows it. -/
theorem touring_retry {Last : Hop → List Step → Except Exc α → Prop}
    {again : Py σ (Except String α)} {message message' : String} {retryable : Bool}
    (hagain : ∀ s, Touring again s (Attempts Last hop n)) :
    Touring (if retryable = true then again else pure (.error message')) s fun ss r =>
      Attempts Last hop (n + 1)
        (.called hop.provider hop.model (.providerError message retryable) :: ss) r := by
  cases retryable with
  | true => exact (hagain s).mono fun ss r h => h.retry message
  | false => exact .final message message'

/-! ## `chat` -/

section Chat

variable {messages : List ChatMessage} {params : Option SamplingParams}

theorem touring_chatOnce : Touring (chatOnce messages params attempt hop : Py σ _) s fun ss r =>
    (∃ c, ss = [.called hop.provider hop.model (.completion c), .success hop.breaker,
        .read hop.breaker] ∧
      r = .ok (.ok {
        content := c.content, provider := hop.provider, model := hop.model,
        inputTokens := c.inputTokens, outputTokens := c.outputTokens })) ∨
    ∃ e, ss = [.called hop.provider hop.model (callError e)] ∧ r = .error e := by
  rw [chatOnce_eq, Touring, Coro.wp_bind]
  refine Coro.wp_perform.mpr fun reply _ => ?_
  dsimp only
  rw [Coro.wp_bind, Coro.wp_ofExcept]
  match reply with
  | .error e => exact .inr ⟨e, rfl, rfl⟩
  | .ok c =>
    -- once the provider has answered, nothing that follows can fail
    have hrest : Touring (onCompletion attempt hop c : Py σ _) s fun ss r =>
          ss = [.success hop.breaker, .read hop.breaker] ∧ r = .ok (.ok {
            content := c.content, provider := hop.provider, model := hop.model,
            inputTokens := c.inputTokens, outputTokens := c.outputTokens }) :=
      takes_metric.touring_bind fun _ _ => takes_recordSuccess.touring_bind fun _ _ =>
        takes_publishCircuitState.touring_bind fun _ _ => takes_metric.touring_bind fun _ _ =>
          takes_countFallback.touring_bind fun _ _ => ⟨rfl, rfl⟩
    refine Coro.wp_mono hrest fun t r s' _ h => .inl ⟨c, ?_, h.2⟩
    rw [List.nil_append, steps_append, h.1]
    rfl

/-- An attempt of `chat`, with `n` more left. -/
theorem attempts_chatOnce {again : String → Py σ (Except String ChatResponse)}
    (hagain : ∀ message s, Touring (again message) s (Attempts ChatLast hop n)) :
    Touring ((chatOnce messages params attempt hop).attempt (onProviderError hop again)) s
      (Attempts ChatLast hop (n + 1)) := by
  rw [Touring, Coro.wp_attempt]
  refine Coro.wp_mono touring_chatOnce fun t r s' _ h => ?_
  rcases h with ⟨c, hsteps, rfl⟩ | ⟨e, hsteps, rfl⟩
  · dsimp only
    rw [hsteps]
    have hlast : ChatLast hop _ _ := .inl (.completion c)
    exact Attempts.ends hlast
  dsimp only
  split
  · next c hc =>
    obtain ⟨message, retryable, rfl, rfl⟩ := onProviderError_eq_some hc
    have hclause : Touring (do
        metric (.providerLatency hop.provider)
        metric (.providerAttempts hop.provider "error")
        if retryable = true then again message else pure (.error message) :
        Py σ (Except String ChatResponse)) s' fun ss r => Attempts ChatLast hop (n + 1)
          (.called hop.provider hop.model (.providerError message retryable) :: ss) r :=
      takes_metric.touring_bind fun _ _ => takes_metric.touring_bind fun _ _ =>
        touring_retry fun s => hagain message s
    refine Coro.wp_mono hclause fun t' _ _ _ h' => ?_
    rw [steps_append, hsteps]
    exact h'
  · next hc =>
    have hother : callError e = .other := by
      unfold callError
      split
      · cases hc
      · rfl
    rw [hsteps, hother]
    exact Attempts.ends (r := .error e) (.inr (.call e))

theorem attempts_chatAttempts (retries : ℕ) (s : σ) :
    Touring (chatAttempts messages params attempt hop retries) s
      (Attempts ChatLast hop (retries + 1)) := by
  refine attempts_rule (P := fun n m => ∀ s, Touring m s (Attempts ChatLast hop n)) _ rfl
    (fun _ => rfl) (fun message _ => .spent .nil message)
    (fun n m h s => touring_backOff (fun e => ?_) h)
    (fun n again hagain s => attempts_chatOnce hagain) retries s
  exact Attempts.ends (r := .error e) (.inr (.wait e))

end Chat

/-! ## `chat_stream` -/

section ChatStream

variable {messages : List ChatMessage} {params : Option SamplingParams}

/-- The step a stream that ends in `r` after its first chunk has taken. -/
def brokeBy : Except Exc α → List Step
  | .error (.exception (.providerError _ _)) => [.broke]
  | _ => []

theorem steps_anext_error (next : Upcoming) (e : Exc) :
    steps [⟨.anext next, .error e⟩] = brokeBy (.error e : Except Exc α) := by
  cases next <;> unfold brokeBy <;> split <;> simp_all [steps, step?, nextError]

/-- Waiting for a chunk. -/
theorem touring_anext {next : Upcoming} {m : Py σ α} {Q : List Step → Except Exc α → Prop}
    (hraise : ∀ e, Q (brokeBy (.error e : Except Exc α)) (.error e))
    (hm : Touring m s fun ss r => Q (steps [⟨.anext next, .ok ()⟩] ++ ss) r) :
    Touring (do
      let r ← ask (.anext next)
      Coro.ofExcept r
      m) s Q := by
  rw [Touring, Coro.wp_bind]
  refine Coro.wp_perform.mpr fun r _ => ?_
  match r with
  | .ok () =>
    refine Coro.wp_mono hm fun t r s' _ h => ?_
    rwa [steps_append]
  | .error e =>
    show Q (steps [⟨.anext next, .error e⟩]) (.error e)
    rw [steps_anext_error (α := α)]
    exact hraise e

theorem touring_yieldStamped {chunk : StreamChunk} :
    Touring (yieldStamped hop chunk : Py σ Unit) s fun ss r => ss = [] ∧ brokeBy r = [] := by
  rw [yieldStamped, Touring, Coro.wp_bind]
  refine Coro.wp_perform.mpr fun r hr => ?_
  refine ⟨rfl, ?_⟩
  unfold brokeBy
  split
  · next heq => exact (hr _ _ heq).elim
  · rfl

/-- What follows the first chunk of a stream ends in a step exactly if it is a `ProviderError`. -/
theorem touring_relayRest {ending : Option PyError} (chunks : List StreamChunk) (s : σ) :
    Touring (relayRest hop ending chunks) s fun ss r => ss = brokeBy r := by
  induction chunks generalizing s with
  | nil =>
    cases ending with
    | none =>
      rw [relayRest, Touring, Coro.wp_bind]
      refine Coro.wp_perform.mpr fun r _ => ?_
      cases r with
      | ok u => rfl
      | error e => exact steps_anext_error (α := Unit) .stop e
    | some e =>
      refine touring_anext (fun e => rfl) ?_
      show steps [_] ++ [] = brokeBy _
      rw [List.append_nil]
      unfold brokeBy
      split <;> simp_all [steps, step?, nextError]
  | cons chunk rest ih =>
    refine touring_anext (fun e => rfl) ?_
    refine touring_yieldStamped.bind (fun ss e h => ?_) fun ss _ s' h => ?_
    · rw [h.1, h.2]
      rfl
    · rw [h.1]
      exact ih s'

theorem touring_commit {first : StreamChunk} {rest : List StreamChunk} {ending : Option PyError} :
    Touring (commit attempt hop first rest ending : Py σ Unit) s fun ss r =>
      StreamLast hop (.called hop.provider hop.model (.stream first rest ending) :: ss) r := by
  refine takes_recordSuccess.touring_bind fun _ _ => takes_publishCircuitState.touring_bind
    fun _ _ => takes_metric.touring_bind fun _ _ => takes_countFallback.touring_bind fun _ s₁ => ?_
  refine touring_yieldStamped.bind (fun ss e h => ?_) fun ss _ s₂ h => ?_
  · rw [h.1]
    exact .opened first rest ending _
  rw [h.1, Touring, Coro.wp_attempt]
  refine Coro.wp_mono (touring_relayRest rest s₂) fun t r s₃ _ ht => ?_
  match r with
  | .ok () =>
    dsimp only
    rw [ht]
    exact .opened first rest ending _
  | .error e =>
    dsimp only
    split
    · next c he =>
      split at he
      · next message _ =>
        obtain rfl := Option.some.inj he
        have hclause : Touring (do
            ask (.recordFailure hop.breaker)
            publishCircuitState hop
            throw (.allProvidersFailed (hop.provider ++ " failed mid-stream: " ++ message)) :
            Py σ Unit) s₃ fun ss r => StreamLast hop
              (.called hop.provider hop.model (.stream first rest ending) ::
                .success hop.breaker :: .read hop.breaker :: .broke :: ss) r :=
          takes_recordFailure.touring_bind fun _ _ => takes_publishCircuitState.touring_bind
            fun _ _ => .broke first rest ending _
        refine Coro.wp_mono hclause fun t' _ _ _ h' => ?_
        rw [steps_append, ht]
        exact h'
      · cases he
    · next he =>
      have hnone : brokeBy (.error e : Except Exc Unit) = [] := by
        unfold brokeBy
        split <;> simp_all
      rw [ht, hnone]
      exact .opened first rest ending _

/-- The rest of an attempt of `chat_stream`, with `n` more left. -/
theorem attempts_onFirstChunk {again : String → Py σ (Except String Unit)}
    (hagain : ∀ message s, Touring (again message) s (Attempts StreamLast hop n))
    (reply : StreamReply) :
    Touring (onFirstChunk attempt hop again reply) s fun ss r =>
      Attempts StreamLast hop (n + 1)
        (.called hop.provider hop.model (streamResult reply) :: ss) r := by
  have hfailed : ∀ (message : String) (retryable : Bool),
      Touring (onStreamFailure hop message retryable (again message)) s fun ss r =>
        Attempts StreamLast hop (n + 1)
          (.called hop.provider hop.model (.providerError message retryable) :: ss) r :=
    fun message _ => takes_metric.touring_bind fun _ _ => touring_retry (hagain message)
  unfold onFirstChunk
  split
  · exact hfailed _ true
  · exact hfailed _ _
  · next e he =>
    have hother : streamResult (.failed e) = .other := by
      show callError e = .other
      unfold callError
      split <;> simp_all
    rw [hother]
    exact Attempts.ends (r := .error e) (StreamLast.cutOff (.call e))
  · next first rest ending =>
    refine touring_commit.bind (fun ss e h => ?_) fun ss _ s' h => ?_
    · exact Attempts.ends (r := .error e) h
    · show Attempts _ _ _ (_ :: (ss ++ [])) _
      rw [List.append_nil]
      exact Attempts.ends (r := .ok ()) h

theorem attempts_streamAttempts (retries : ℕ) (s : σ) :
    Touring (streamAttempts messages params attempt hop retries) s
      (Attempts StreamLast hop (retries + 1)) := by
  refine attempts_rule (P := fun n m => ∀ s, Touring m s (Attempts StreamLast hop n))
    (fun again => do
      let reply ← ask (.providerStream hop.provider hop.model messages params)
      onFirstChunk attempt hop again reply) rfl
    (fun _ => rfl) (fun message _ => .spent .nil message)
    (fun n m h s => touring_backOff (fun e => ?_) h)
    (fun n again hagain s => ?_) retries s
  · exact Attempts.ends (r := .error e) (StreamLast.cutOff (.wait e))
  · rw [Touring, Coro.wp_bind]
    exact Coro.wp_perform.mpr fun reply _ =>
      Coro.wp_mono (attempts_onFirstChunk hagain reply) fun _ _ _ _ h => h

end ChatStream

/-! ## The walk -/

section Walk

variable {Last : Hop → List Step → Except Exc α → Prop} {skip : Finset String} {hops : List Hop}

namespace Tour

variable {ss : List Step} {r : Except Exc α}

/-- A hop that is passed comes before the rest of the tour. -/
theorem pass (h : Tour Last n skip hops ss r) (hop : Hop) (ps : List Step)
    (hp : ∀ {rest : List Hop} {ss : List Step}, Passed n skip rest ss →
      Passed n skip (hop :: rest) (ps ++ ss)) :
    Tour Last n skip (hop :: hops) (ps ++ ss) r := by
  cases h with
  | exhausted h message => exact .exhausted (hp h) message
  | ended hhops h hskip messages hlen hlast =>
    subst hhops
    rw [← List.append_assoc, ← List.append_assoc]
    exact .ended rfl (hp h) hskip messages hlen hlast

end Tour

theorem touring_allowRequest {f : Bool → Py σ α} {Q : List Step → Except Exc α → Prop}
    (hf : ∀ allowed s', Touring (f allowed) s' fun ss r =>
      Q ([.asked hop.breaker allowed, .read hop.breaker] ++ ss) r) :
    Touring (do
      let allowed ← ask (.allowRequest hop.breaker)
      publishCircuitState hop
      f allowed) s Q := by
  rw [Touring, Coro.wp_bind]
  refine Coro.wp_perform.mpr fun allowed _ => ?_
  exact takes_publishCircuitState.touring_bind (s := s)
    (Q := fun ss r => Q (.asked hop.breaker allowed :: ss) r) fun _ => hf allowed

theorem tour_walk {serve : ℕ → Hop → Py σ (Except String α)}
    (hserve : ∀ attempt hop s, Touring (serve attempt hop) s (Attempts Last hop n))
    (hops : List Hop) (attempt : ℕ) (errors : List String) (s : σ) :
    Touring (walk skip serve attempt errors hops) s (Tour Last n skip hops) := by
  induction hops generalizing attempt errors s with
  | nil => exact .exhausted .nil _
  | cons hop rest ih =>
    rw [walk, Touring, Coro.wp_ite]
    refine ⟨fun hskip => ?_, fun hskip => ?_⟩
    · exact Touring.mono (ih _ _ s) fun ss r h => h.pass hop [] fun h => h.skipped hskip
    refine touring_allowRequest fun allowed s₁ => ?_
    cases allowed with
    | false =>
      exact Touring.mono (ih _ _ s₁) fun ss r h =>
        h.pass hop [.asked hop.breaker false, .read hop.breaker] fun h => h.refused hskip
    | true =>
      rw [if_pos rfl]
      refine (hserve attempt hop s₁).bind (fun ss e h => ?_) fun ss outcome s₂ h => ?_
      · exact Attempts.tour (r := .error e) h hskip
      cases outcome with
      | ok result =>
        show Tour Last n skip _ (.asked hop.breaker true :: .read hop.breaker :: (ss ++ [])) _
        rw [List.append_nil]
        exact Attempts.tour (r := .ok result) h hskip
      | error lastError =>
        refine takes_recordFailure.touring_bind fun _ _ =>
          takes_publishCircuitState.touring_bind fun _ s₃ => ?_
        refine Touring.mono (ih _ _ s₃) fun ss' r h' => ?_
        have hpass := h'.pass hop
          (.asked hop.breaker true :: .read hop.breaker :: ss ++
            [.failure hop.breaker, .read hop.breaker])
          fun hrest => by simpa using h.passed hskip hrest
        simpa using hpass

/-- A run of `chat` is a tour of its chain. -/
theorem tour_chat {messages : List ChatMessage} {params : Option SamplingParams}
    {retryAttempts : ℕ} :
    Touring (chat messages params retryAttempts skip hops : Py σ ChatResponse) s
      (Tour ChatLast (retryAttempts + 1) skip hops) :=
  tour_walk (fun _ _ => attempts_chatAttempts retryAttempts) hops 0 [] s

/-- A run of `chat_stream` is a tour of its chain. -/
theorem tour_chatStream {messages : List ChatMessage} {params : Option SamplingParams}
    {retryAttempts : ℕ} :
    Touring (chatStream messages params retryAttempts skip hops : Py σ Unit) s
      (Tour StreamLast (retryAttempts + 1) skip hops) :=
  tour_walk (fun _ _ => attempts_streamAttempts retryAttempts) hops 0 [] s

end Walk

end LlmGateway
