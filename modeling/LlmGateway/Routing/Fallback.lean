import LlmGateway.Gateway.Footprint

/-!
# The fallback router

Mirrors `FallbackRouter` of `app/routing/fallback.py`. Both of its methods walk the chain: they
drop a hop that is to be skipped or whose breaker is open, make up to `retryAttempts + 1` attempts
at any other, and go on to the next hop when those have failed. The breakers and the adapters
answer commands.
-/

namespace LlmGateway

open Coroutine

variable {σ α : Type}

/-- One entry of the chain of a router: the name of its provider, the model, and its breaker. -/
structure Hop where
  provider : String
  model : String
  breaker : String

/-- `_CIRCUIT_STATE_VALUES`. -/
def circuitStateValue : CircuitState → ℕ
  | .closed => 0
  | .halfOpen => 1
  | .open => 2

/-- Mirror the state of a breaker onto its gauge. -/
def publishCircuitState (hop : Hop) : Py σ Unit := do
  let state ← ask (.circuitState hop.breaker)
  metric (.circuitState hop.provider (circuitStateValue state))

/-- `asyncio.sleep(self._retry_backoff_seconds)`. -/
def backOff : Py σ Unit := do
  let r ← ask .sleep
  Coro.ofExcept r

/-- Count a hop that was reached by falling back. -/
def countFallback (attempt : ℕ) : Py σ Unit :=
  if 0 < attempt then metric .fallbackTriggered else pure ()

/-! ## The walk along the chain -/

/-- The loop over the chain, of which `attempt` hops are done. A hop is served by `serve`, which
ends in its result or in the text of its last error. -/
def walk (skip : Finset String) (serve : ℕ → Hop → Py σ (Except String α)) :
    ℕ → List String → List Hop → Py σ α
  | _, errors, [] =>
    throw (.allProvidersFailed
      ("all providers in fallback chain failed: " ++ "; ".intercalate errors))
  | attempt, errors, hop :: rest =>
    if hop.provider ∈ skip then
      walk skip serve (attempt + 1) (errors ++ [hop.provider ++ ": out of budget"]) rest
    else do
      -- asked only now: a half-open trial is still a billable call
      let allowed ← ask (.allowRequest hop.breaker)
      publishCircuitState hop
      if allowed = true then do
        let outcome ← serve attempt hop
        match outcome with
        | .ok result => pure result
        | .error lastError => do
          ask (.recordFailure hop.breaker)
          publishCircuitState hop
          walk skip serve (attempt + 1) (errors ++ [hop.provider ++ ": " ++ lastError]) rest
      else walk skip serve (attempt + 1) (errors ++ [hop.provider ++ ": circuit open"]) rest

/-! ## `chat` -/

section Chat

variable (messages : List ChatMessage) (params : Option SamplingParams)

/-- One attempt of `chat`: the body of its `try`. The response is billed against the model that was
requested. -/
def chatOnce (attempt : ℕ) (hop : Hop) : Py σ (Except String ChatResponse) := do
  let reply ← ask (.providerChat hop.provider hop.model messages params)
  let completion ← Coro.ofExcept reply
  metric (.providerLatency hop.provider)
  ask (.recordSuccess hop.breaker)
  publishCircuitState hop
  metric (.providerAttempts hop.provider "success")
  countFallback attempt
  pure (.ok {
    content := completion.content, provider := hop.provider, model := hop.model,
    inputTokens := completion.inputTokens, outputTokens := completion.outputTokens })

/-- What `chatOnce` does with a completion. -/
def onCompletion (attempt : ℕ) (hop : Hop) (completion : Completion) :
    Py σ (Except String ChatResponse) := do
  metric (.providerLatency hop.provider)
  ask (.recordSuccess hop.breaker)
  publishCircuitState hop
  metric (.providerAttempts hop.provider "success")
  countFallback attempt
  pure (.ok {
    content := completion.content, provider := hop.provider, model := hop.model,
    inputTokens := completion.inputTokens, outputTokens := completion.outputTokens })

theorem chatOnce_eq (attempt : ℕ) (hop : Hop) :
    (chatOnce messages params attempt hop : Py σ _) = (do
      let reply ← ask (.providerChat hop.provider hop.model messages params)
      let completion ← Coro.ofExcept reply
      onCompletion attempt hop completion) := rfl

/-- The clause for `ProviderError`: only a retryable one is tried again. -/
def onProviderError (hop : Hop) (again : String → Py σ (Except String α)) :
    Exc → Option (Py σ (Except String α))
  | .exception (.providerError message retryable) => some do
    metric (.providerLatency hop.provider)
    metric (.providerAttempts hop.provider "error")
    if retryable = true then again message else pure (.error message)
  | _ => none

/-- The clause catches nothing but a `ProviderError`. -/
theorem onProviderError_eq_some {hop : Hop} {again : String → Py σ (Except String α)} {x : Exc}
    {c : Py σ (Except String α)} (h : onProviderError hop again x = some c) :
    ∃ message retryable, x = .exception (.providerError message retryable) ∧ c = (do
      metric (.providerLatency hop.provider)
      metric (.providerAttempts hop.provider "error")
      if retryable = true then again message else pure (.error message)) := by
  unfold onProviderError at h
  split at h
  · next message retryable => exact ⟨message, retryable, rfl, (Option.some.inj h).symm⟩
  · cases h

/-- The attempts of `chat` at one hop, with `retries` left after the first. -/
def chatAttempts (attempt : ℕ) (hop : Hop) : ℕ → Py σ (Except String ChatResponse)
  | 0 => (chatOnce messages params attempt hop).attempt
    (onProviderError hop fun message => pure (.error message))
  | retries + 1 => (chatOnce messages params attempt hop).attempt
    (onProviderError hop fun _ => do
      backOff
      chatAttempts attempt hop retries)

/-- `FallbackRouter.chat`. -/
def chat (retryAttempts : ℕ) (skip : Finset String) (hops : List Hop) : Py σ ChatResponse :=
  walk skip (fun attempt hop => chatAttempts messages params attempt hop retryAttempts) 0 [] hops

end Chat

/-! ## `chat_stream` -/

section ChatStream

variable (messages : List ChatMessage) (params : Option SamplingParams)

/-- `yield chunk`, under the names of the hop that serves it. -/
def yieldStamped (hop : Hop) (chunk : StreamChunk) : Py σ Unit := do
  let r ← ask (.yieldChunk { chunk with provider := hop.provider, model := hop.model })
  Coro.ofExcept r

/-- The chunks that follow the first. -/
def relayRest (hop : Hop) (ending : Option PyError) : List StreamChunk → Py σ Unit
  | [] =>
    match ending with
    | none => do
      let r ← ask (.anext .stop)
      Coro.ofExcept r
    | some e => do
      let r ← ask (.anext (.error e))
      Coro.ofExcept r
      throw e
  | chunk :: rest => do
    let r ← ask (.anext (.chunk chunk))
    Coro.ofExcept r
    yieldStamped hop chunk
    relayRest hop ending rest

/-- Once its first chunk has arrived a hop is committed to: what fails after it ends the stream. -/
def commit (attempt : ℕ) (hop : Hop) (first : StreamChunk) (rest : List StreamChunk)
    (ending : Option PyError) : Py σ Unit := do
  ask (.recordSuccess hop.breaker)
  publishCircuitState hop
  metric (.providerAttempts hop.provider "success")
  countFallback attempt
  -- outside the `try`: what the reader throws in at the first chunk is not a failure of the hop
  yieldStamped hop first
  (relayRest hop ending rest).attempt fun
    | .exception (.providerError message _) => some do
      ask (.recordFailure hop.breaker)
      publishCircuitState hop
      throw (.allProvidersFailed (hop.provider ++ " failed mid-stream: " ++ message))
    | _ => none

/-- A failure before the first chunk. -/
def onStreamFailure (hop : Hop) (message : String) (retryable : Bool)
    (again : Py σ (Except String Unit)) : Py σ (Except String Unit) := do
  metric (.providerAttempts hop.provider "error")
  if retryable = true then again else pure (.error message)

/-- The rest of an attempt once the reply for the first chunk is there. An empty stream counts as a
`ProviderError`, which is retryable. -/
def onFirstChunk (attempt : ℕ) (hop : Hop) (again : String → Py σ (Except String Unit)) :
    StreamReply → Py σ (Except String Unit)
  | .empty => onStreamFailure hop "stream produced no chunks" true
    (again "stream produced no chunks")
  | .failed (.exception (.providerError message retryable)) =>
    onStreamFailure hop message retryable (again message)
  | .failed e => Coro.raise e
  | .opened first rest ending => do
    commit attempt hop first rest ending
    pure (.ok ())

/-- The attempts of `chat_stream` at one hop, with `retries` left after the first. -/
def streamAttempts (attempt : ℕ) (hop : Hop) : ℕ → Py σ (Except String Unit)
  | 0 => do
    let reply ← ask (.providerStream hop.provider hop.model messages params)
    onFirstChunk attempt hop (fun message => pure (.error message)) reply
  | retries + 1 => do
    let reply ← ask (.providerStream hop.provider hop.model messages params)
    onFirstChunk attempt hop
      (fun _ => do
        backOff
        streamAttempts attempt hop retries)
      reply

/-- `FallbackRouter.chat_stream`. -/
def chatStream (retryAttempts : ℕ) (skip : Finset String) (hops : List Hop) : Py σ Unit :=
  walk skip (fun attempt hop => streamAttempts messages params attempt hop retryAttempts) 0 [] hops

end ChatStream

/-! ## The calls it makes -/

/-- The model an event called upstream. -/
def called : Ev → Option (String × String)
  | ⟨.providerChat provider model _ _, _⟩ => some (provider, model)
  | ⟨.providerStream provider model _ _, _⟩ => some (provider, model)
  | _ => none

/-- The upstream calls of a trace, in order. -/
def upstream (t : List Ev) : List (String × String) := t.filterMap called

@[simp] theorem upstream_nil : upstream [] = [] := rfl

@[simp] theorem upstream_append (t t' : List Ev) :
    upstream (t ++ t') = upstream t ++ upstream t' :=
  List.filterMap_append

theorem upstream_cons (e : Ev) (t : List Ev) :
    upstream (e :: t) = (called e).toList ++ upstream t := by
  rw [upstream, List.filterMap_cons]
  cases h : called e <;> rfl

/-- What the router asks for between its upstream calls. -/
def Cmd.Routing : Cmd → Prop
  | .metric _ | .sleep | .anext _ | .yieldChunk _ => True
  | .allowRequest _ | .recordSuccess _ | .recordFailure _ | .circuitState _ => True
  | _ => False

theorem upstream_of_routing {t : List Ev} (h : ∀ e ∈ t, e.cmd.Routing) : upstream t = [] := by
  refine List.filterMap_eq_nil_iff.mpr fun e he => ?_
  have hc := h e he
  obtain ⟨c, r⟩ := e
  cases c <;> first | rfl | exact hc.elim

/-- The calls of `hops` in order: each hop that is not to be skipped is called at most `n` times. -/
inductive Within (n : ℕ) (skip : Finset String) : List Hop → List (String × String) → Prop
  | stop {hops : List Hop} : Within n skip hops []
  | pass {hop : Hop} {rest : List Hop} {cs : List (String × String)} (h : Within n skip rest cs) :
      Within n skip (hop :: rest) cs
  | serve {hop : Hop} {rest : List Hop} {cs : List (String × String)} (k : ℕ) (hk : k ≤ n)
      (hskip : hop.provider ∉ skip) (h : Within n skip rest cs) :
      Within n skip (hop :: rest) (List.replicate k (hop.provider, hop.model) ++ cs)

namespace Within

variable {n : ℕ} {skip : Finset String} {hops : List Hop} {cs : List (String × String)}

/-- Only hops of the chain that are not to be skipped are called. -/
theorem exists_hop (h : Within n skip hops cs) {c : String × String} (hc : c ∈ cs) :
    ∃ hop ∈ hops, (hop.provider, hop.model) = c ∧ hop.provider ∉ skip := by
  induction h with
  | stop => cases hc
  | pass h ih =>
    obtain ⟨hop, hmem, hhop⟩ := ih hc
    exact ⟨hop, .tail _ hmem, hhop⟩
  | serve k hk hskip h ih =>
    rcases List.mem_append.mp hc with hc | hc
    · exact ⟨_, .head _, (List.eq_of_mem_replicate hc).symm, hskip⟩
    · obtain ⟨hop, hmem, hhop⟩ := ih hc
      exact ⟨hop, .tail _ hmem, hhop⟩

/-- What the calls add up to is at most what `n` calls of every hop that is not to be skipped do. -/
theorem sum_le (h : Within n skip hops cs) {w : String × String → ℚ} (hw : ∀ c, 0 ≤ w c) :
    (cs.map w).sum ≤ (hops.map fun hop =>
      if hop.provider ∈ skip then 0 else n * w (hop.provider, hop.model)).sum := by
  have hnonneg : ∀ hop : Hop,
      0 ≤ if hop.provider ∈ skip then 0 else n * w (hop.provider, hop.model) := by
    intro hop
    split
    · exact le_rfl
    · exact mul_nonneg (Nat.cast_nonneg n) (hw _)
  induction h with
  | @stop hops =>
    refine List.sum_nonneg fun x hx => ?_
    obtain ⟨hop, -, rfl⟩ := List.mem_map.mp hx
    exact hnonneg hop
  | @pass hop rest cs h ih =>
    rw [List.map_cons, List.sum_cons]
    exact ih.trans (le_add_of_nonneg_left (hnonneg hop))
  | @serve hop rest cs k hk hskip h ih =>
    have hcast : (k : ℚ) ≤ n := Nat.cast_le.mpr hk
    rw [List.map_append, List.sum_append, List.map_replicate, List.sum_replicate, nsmul_eq_mul,
      List.map_cons, List.sum_cons, if_neg hskip]
    exact add_le_add (mul_le_mul_of_nonneg_right hcast (hw _)) ih

end Within

section Calls

variable {β : Type} {A : Ev → Prop} {s : σ} {Q : List (String × String) → Prop} {hop : Hop} {n : ℕ}
  {messages : List ChatMessage} {params : Option SamplingParams} {attempt : ℕ}

/-- A part that calls nothing upstream can be left out. -/
theorem wp_routing_bind {m : Py σ α} {f : α → Py σ β} (hm : m.Only Cmd.Routing) (h0 : Q [])
    (hf : ∀ a s', (f a).wp A s' fun t _ _ => Q (upstream t)) :
    (m >>= f).wp A s fun t _ _ => Q (upstream t) := by
  rw [Coro.wp_bind]
  refine Coro.wp_mono hm.wp fun t r s' _ ht => ?_
  have hnil : upstream t = [] := upstream_of_routing ht
  match r with
  | .error e => exact hnil ▸ h0
  | .ok a => exact Coro.wp_mono (hf a s') fun t' _ _ _ h => by rwa [upstream_append, hnil]

theorem wp_routing {m : Py σ α} (hm : m.Only Cmd.Routing) (h0 : Q []) :
    m.wp A s fun t _ _ => Q (upstream t) :=
  Coro.wp_mono hm.wp fun _ _ _ _ ht => (upstream_of_routing ht) ▸ h0

theorem only_publishCircuitState : (publishCircuitState hop : Py σ Unit).Only Cmd.Routing :=
  .bind (.perform trivial) fun _ => only_metric trivial

theorem only_countFallback : (countFallback attempt : Py σ Unit).Only Cmd.Routing :=
  .ite (fun _ => only_metric trivial) fun _ => .pure

theorem only_backOff : (backOff : Py σ Unit).Only Cmd.Routing :=
  .bind (.perform trivial) fun _ => .ofExcept

theorem only_yieldStamped {c : StreamChunk} : (yieldStamped hop c : Py σ Unit).Only Cmd.Routing :=
  .bind (.perform trivial) fun _ => .ofExcept

theorem only_relayRest {ending : Option PyError} (chunks : List StreamChunk) :
    (relayRest hop ending chunks : Py σ Unit).Only Cmd.Routing := by
  induction chunks with
  | nil =>
    unfold relayRest
    split
    · exact .bind (.perform trivial) fun _ => .ofExcept
    · exact .bind (.perform trivial) fun _ => .bind .ofExcept fun _ => only_throw
  | cons c rest ih =>
    exact .bind (.perform trivial) fun _ => .bind .ofExcept fun _ =>
      .bind only_yieldStamped fun _ => ih

theorem only_commit {first : StreamChunk} {rest : List StreamChunk} {ending : Option PyError} :
    (commit attempt hop first rest ending : Py σ Unit).Only Cmd.Routing := by
  refine .bind (.perform trivial) fun _ => .bind only_publishCircuitState fun _ =>
    .bind (only_metric trivial) fun _ => .bind only_countFallback fun _ =>
      .bind only_yieldStamped fun _ => .attempt (only_relayRest rest) fun x c hc => ?_
  split at hc
  · obtain rfl := Option.some.inj hc
    exact .bind (.perform trivial) fun _ => .bind only_publishCircuitState fun _ => only_throw
  · cases hc

/-- At most `n` calls, all of the model of the hop. -/
def AtMost (n : ℕ) (hop : Hop) (cs : List (String × String)) : Prop :=
  ∃ k ≤ n, cs = List.replicate k (hop.provider, hop.model)

theorem AtMost.nil : AtMost n hop [] := ⟨0, n.zero_le, rfl⟩

theorem AtMost.cons {cs : List (String × String)} (h : AtMost n hop cs) :
    AtMost (n + 1) hop ((hop.provider, hop.model) :: cs) := by
  obtain ⟨k, hk, rfl⟩ := h
  exact ⟨k + 1, by omega, rfl⟩

/-- A hop is served with at most `n` upstream calls, all of its model. -/
def CallsAtMost (n : ℕ) (hop : Hop) (m : Py σ α) : Prop :=
  ∀ A s, m.wp A s fun t _ _ => AtMost n hop (upstream t)

theorem only_onCompletion {completion : Completion} :
    (onCompletion attempt hop completion : Py σ _).Only Cmd.Routing :=
  .bind (only_metric trivial) fun _ => .bind (.perform trivial) fun _ =>
    .bind only_publishCircuitState fun _ => .bind (only_metric trivial) fun _ =>
      .bind only_countFallback fun _ => .pure

theorem wp_chatOnce : (chatOnce messages params attempt hop).wp A s fun t _ _ =>
    upstream t = [(hop.provider, hop.model)] := by
  rw [chatOnce_eq, Coro.wp_bind]
  refine Coro.wp_perform.mpr fun reply _ => ?_
  dsimp only
  refine Coro.wp_mono (Coro.Only.wp (.bind .ofExcept fun _ => only_onCompletion)) fun t _ _ _ ht => ?_
  rw [upstream_append, upstream_of_routing ht]
  rfl

/-- What holds of giving up, and is kept by waiting and by one more attempt, holds of all the
attempts at a hop. Both methods retry in this way. -/
theorem attempts_rule {P : ℕ → Py σ (Except String α) → Prop}
    (once : (String → Py σ (Except String α)) → Py σ (Except String α))
    {attempts : ℕ → Py σ (Except String α)}
    (hzero : attempts 0 = once fun message => pure (.error message))
    (hsucc : ∀ retries, attempts (retries + 1) = once fun _ => do
      backOff
      attempts retries)
    (hgiveUp : ∀ message, P 0 (pure (.error message)))
    (hwait : ∀ n m, P (n + 1) m → P (n + 1) (do backOff; m))
    (honce : ∀ n again, (∀ message, P n (again message)) → P (n + 1) (once again))
    (retries : ℕ) : P (retries + 1) (attempts retries) := by
  induction retries with
  | zero =>
    rw [hzero]
    exact honce 0 _ hgiveUp
  | succ retries ih =>
    rw [hsucc]
    exact honce _ _ fun _ => hwait _ _ ih

/-- One attempt of `chat` adds a call to those its handler makes. -/
theorem callsAtMost_chatOnce {again : String → Py σ (Except String ChatResponse)}
    (hagain : ∀ message, CallsAtMost n hop (again message)) :
    CallsAtMost (n + 1) hop
      ((chatOnce messages params attempt hop).attempt (onProviderError hop again)) := by
  intro A s
  rw [Coro.wp_attempt]
  refine Coro.wp_mono wp_chatOnce fun t r s' _ ht => ?_
  have hone : AtMost (n + 1) hop (upstream t) := ht ▸ AtMost.nil.cons
  match r with
  | .ok _ => exact hone
  | .error x =>
    dsimp only
    split
    · next c hc =>
      have hmore : c.wp A s' fun t' _ _ => AtMost n hop (upstream t') := by
        obtain ⟨message, retryable, -, rfl⟩ := onProviderError_eq_some hc
        refine wp_routing_bind (only_metric trivial) .nil fun _ _ =>
          wp_routing_bind (only_metric trivial) .nil fun _ s'' => ?_
        rw [Coro.wp_ite]
        exact ⟨fun _ => hagain _ A s'', fun _ => wp_routing .pure .nil⟩
      refine Coro.wp_mono hmore fun t' _ _ _ h => ?_
      rw [upstream_append, ht]
      exact h.cons
    · exact hone

/-- One attempt of `chat_stream` adds a call to those it makes when it fails before its first
chunk. -/
theorem callsAtMost_streamOnce {again : String → Py σ (Except String Unit)}
    (hagain : ∀ message, CallsAtMost n hop (again message)) :
    CallsAtMost (n + 1) hop (do
      let reply ← ask (.providerStream hop.provider hop.model messages params)
      onFirstChunk attempt hop again reply) := by
  intro A s
  have hfailure : ∀ message retryable s',
      (onStreamFailure hop message retryable (again message)).wp A s' fun t _ _ =>
        AtMost n hop (upstream t) := by
    intro message retryable s'
    refine wp_routing_bind (only_metric trivial) .nil fun _ s'' => ?_
    rw [Coro.wp_ite]
    exact ⟨fun _ => hagain _ A s'', fun _ => wp_routing .pure .nil⟩
  have hrest : ∀ reply s', (onFirstChunk attempt hop again reply).wp A s' fun t _ _ =>
      AtMost n hop (upstream t) := by
    intro reply s'
    unfold onFirstChunk
    split
    · exact hfailure _ _ s'
    · exact hfailure _ _ s'
    · exact wp_routing .raise .nil
    · exact wp_routing (.bind only_commit fun _ => .pure) .nil
  rw [Coro.wp_bind]
  refine Coro.wp_perform.mpr fun reply _ => ?_
  dsimp only
  refine Coro.wp_mono (hrest reply s) fun t _ _ _ h => ?_
  rw [upstream_append]
  exact h.cons

theorem callsAtMost_pure {a : α} : CallsAtMost n hop (pure a : Py σ α) := fun _ _ =>
  wp_routing .pure .nil

theorem CallsAtMost.backOff {m : Py σ α} (h : CallsAtMost n hop m) :
    CallsAtMost n hop (do backOff; m) := fun A _ =>
  wp_routing_bind only_backOff .nil fun _ s' => h A s'

theorem callsAtMost_chatAttempts (retries : ℕ) :
    CallsAtMost (retries + 1) hop
      (chatAttempts messages params attempt hop retries : Py σ (Except String ChatResponse)) :=
  attempts_rule (P := fun n m => CallsAtMost n hop m) _ rfl (fun _ => rfl)
    (fun _ => callsAtMost_pure) (fun _ _ h => h.backOff) (fun _ _ => callsAtMost_chatOnce) retries

theorem callsAtMost_streamAttempts (retries : ℕ) :
    CallsAtMost (retries + 1) hop
      (streamAttempts messages params attempt hop retries : Py σ (Except String Unit)) :=
  attempts_rule (P := fun n m => CallsAtMost n hop m) _ rfl (fun _ => rfl)
    (fun _ => callsAtMost_pure) (fun _ _ h => h.backOff) (fun _ _ => callsAtMost_streamOnce) retries

/-- The walk keeps to the hops that are not to be skipped, and to the bound on each of them. -/
theorem wp_walk {skip : Finset String} {serve : ℕ → Hop → Py σ (Except String α)}
    (hserve : ∀ attempt hop, CallsAtMost n hop (serve attempt hop)) (hops : List Hop)
    (attempt : ℕ) (errors : List String) (s : σ) :
    (walk skip serve attempt errors hops).wp A s fun t _ _ =>
      Within n skip hops (upstream t) := by
  induction hops generalizing attempt errors s with
  | nil => exact .stop
  | cons hop rest ih =>
    have hpass : ∀ attempt errors s, (walk skip serve attempt errors rest).wp A s fun t _ _ =>
        Within n skip (hop :: rest) (upstream t) :=
      fun attempt errors s => Coro.wp_mono (ih attempt errors s) fun _ _ _ _ h => .pass h
    rw [walk, Coro.wp_ite]
    refine ⟨fun _ => hpass _ _ s, fun hskip => ?_⟩
    -- the breaker is asked for every hop that is not skipped, which calls nothing
    refine wp_routing_bind (.perform trivial) .stop fun allowed s₁ => ?_
    refine wp_routing_bind only_publishCircuitState .stop fun _ s₂ => ?_
    rw [Coro.wp_ite]
    refine ⟨fun _ => ?_, fun _ => hpass _ _ s₂⟩
    rw [Coro.wp_bind]
    refine Coro.wp_mono (hserve attempt hop A s₂) fun t r s₃ _ h => ?_
    obtain ⟨k, hk, ht⟩ := h
    have hlast : Within n skip (hop :: rest) (upstream t) := by
      rw [ht, ← List.append_nil (List.replicate _ _)]
      exact .serve k hk hskip .stop
    match r with
    | .error e => exact hlast
    | .ok (.ok result) =>
      refine Coro.wp_pure.mpr ?_
      rwa [List.append_nil]
    | .ok (.error lastError) =>
      dsimp only
      have hrest : (do
          ask (.recordFailure hop.breaker)
          publishCircuitState hop
          walk skip serve (attempt + 1) (errors ++ [hop.provider ++ ": " ++ lastError]) rest).wp A s₃
          fun t' _ _ => Within n skip rest (upstream t') :=
        wp_routing_bind (.perform trivial) .stop fun _ _ =>
          wp_routing_bind only_publishCircuitState .stop fun _ s₄ => ih _ _ s₄
      refine Coro.wp_mono hrest fun t' _ _ _ h' => ?_
      rw [upstream_append, ht]
      exact .serve k hk hskip h'

/-! ## The commands of a whole call of `chat` -/

/-- A command of the router: an upstream call, or one it issues in between. -/
def Cmd.Calling : Cmd → Prop
  | .providerChat _ _ _ _ | .providerStream _ _ _ _ => True
  | c => c.Routing

theorem Cmd.Routing.calling {c : Cmd} (h : c.Routing) : c.Calling := by
  cases c <;> first | exact h | trivial

theorem only_walk {B : Cmd → Prop} {skip : Finset String}
    {serve : ℕ → Hop → Py σ (Except String α)} (hB : ∀ c : Cmd, c.Routing → B c)
    (hserve : ∀ attempt hop, (serve attempt hop).Only B) (hops : List Hop) (attempt : ℕ)
    (errors : List String) : (walk skip serve attempt errors hops).Only B := by
  induction hops generalizing attempt errors with
  | nil => exact .raise
  | cons hop rest ih =>
    have hpublish : (publishCircuitState hop : Py σ Unit).Only B := only_publishCircuitState.mono hB
    refine .ite (fun _ => ih _ _) fun _ => .bind (.perform (hB _ trivial)) fun allowed =>
      .bind hpublish fun _ => .ite (fun _ => .bind (hserve _ _) fun outcome => ?_) fun _ => ih _ _
    match outcome with
    | .ok result => exact .pure
    | .error lastError =>
      exact .bind (.perform (hB _ trivial)) fun _ => .bind hpublish fun _ => ih _ _

theorem only_chatAttempts (retries : ℕ) :
    (chatAttempts messages params attempt hop retries :
      Py σ (Except String ChatResponse)).Only Cmd.Calling := by
  have honce : (chatOnce messages params attempt hop : Py σ _).Only Cmd.Calling :=
    .bind (.perform trivial) fun _ => .bind .ofExcept fun _ =>
      only_onCompletion.mono fun _ h => h.calling
  have hclause : ∀ (again : String → Py σ (Except String ChatResponse)) (x : Exc)
      (c : Py σ (Except String ChatResponse)), (∀ message, (again message).Only Cmd.Calling) →
      onProviderError hop again x = some c → c.Only Cmd.Calling := by
    intro again x c hagain hc
    obtain ⟨message, retryable, -, rfl⟩ := onProviderError_eq_some hc
    exact .bind (only_metric trivial) fun _ => .bind (only_metric trivial) fun _ =>
      .ite (fun _ => hagain _) fun _ => .pure
  have hwait : ∀ m : Py σ (Except String ChatResponse), m.Only Cmd.Calling →
      (do backOff; m : Py σ (Except String ChatResponse)).Only Cmd.Calling := fun _ h =>
    .bind (only_backOff.mono fun _ h => h.calling) fun _ => h
  refine attempts_rule (P := fun _ m => m.Only Cmd.Calling) _ ?_ (fun _ => ?_) (fun _ => .pure)
    (fun _ => hwait) (fun _ again hagain => .attempt honce fun x c => hclause again x c hagain) retries
  · rfl
  · rfl

theorem only_chat {retryAttempts : ℕ} {skip : Finset String} {hops : List Hop} :
    (chat messages params retryAttempts skip hops : Py σ ChatResponse).Only Cmd.Calling :=
  only_walk (fun _ h => h.calling) (fun _ _ => only_chatAttempts _) hops 0 []

end Calls

end LlmGateway
