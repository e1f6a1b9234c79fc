import LlmGateway.Routing.CircuitBreaker
import LlmGateway.Routing.Tour
import LlmGateway.Routing.Stream
import LlmGateway.Gateway.Redis

/-!
# The two methods decide alike

`chat` and `chat_stream` are run in surroundings that fix what the breakers, the clock and the
providers will do: the `k`-th use of a breaker reads the `k`-th pair of readings of the clock, and
the `k`-th call of a provider has its outcome assigned. If a stream fails before its first chunk
where the call would fail, and is complete where it would be answered, both methods take the same
steps.
-/

namespace LlmGateway

open Coroutine

variable {α β : Type}

/-! ## Surroundings -/

/-- The breakers as they stand, how often they have been used, and how often each provider has been
called. -/
structure Surroundings where
  breakers : String → CircuitBreaker ℚ
  uses : ℕ
  calls : String → ℕ

/-- What is assigned: the readings of the clock at each use of a breaker, and the outcome of each
call of a provider by either method. -/
structure Assignment where
  clock : ℕ → ℚ × ℚ
  chat : String → ℕ → Except Exc Completion
  stream : String → ℕ → StreamReply

/-- A breaker that has been used. -/
def Surroundings.use (w : Surroundings) (breaker : String) (b : CircuitBreaker ℚ) : Surroundings :=
  { w with breakers := Function.update w.breakers breaker b, uses := w.uses + 1 }

/-- A provider that has been called. -/
def Surroundings.call (w : Surroundings) (provider : String) : Surroundings :=
  { w with calls := Function.update w.calls provider (w.calls provider + 1) }

/-- Answer a command as assigned. -/
def Assignment.answer (a : Assignment) (w : Surroundings) : (c : Cmd) → Reply c × Surroundings
  | .allowRequest b =>
    let o := (w.breakers b).allowRequest (a.clock w.uses).1 (a.clock w.uses).2
    (o.1, w.use b o.2)
  | .circuitState b =>
    let o := (w.breakers b).readState (a.clock w.uses).1
    (o.1, w.use b o.2)
  | .recordSuccess b => ((), w.use b (w.breakers b).recordSuccess)
  | .recordFailure b => ((), w.use b ((w.breakers b).recordFailure (a.clock w.uses).1))
  | .providerChat provider _ _ _ => (a.chat provider (w.calls provider), w.call provider)
  | .providerStream provider _ _ _ => (a.stream provider (w.calls provider), w.call provider)
  | c => (calm c, w)

/-- A call and a stream that come to the same: both succeed, or both fail before any output with
an error that is retryable on both sides or on neither. -/
inductive SameOutcome : Except Exc Completion → StreamReply → Prop
  | success (c : Completion) (first : StreamChunk) (rest : List StreamChunk) :
      SameOutcome (.ok c) (.opened first rest none)
  | failure (message message' : String) (retryable : Bool) :
      SameOutcome (.error (.exception (.providerError message retryable)))
        (.failed (.exception (.providerError message' retryable)))

/-- Every call has the same outcome by either method. -/
def Assignment.Fair (a : Assignment) : Prop :=
  ∀ provider k, SameOutcome (a.chat provider k) (a.stream provider k)

/-! ## Runs in given surroundings -/

/-- Run `m` as assigned. -/
def Assignment.run (a : Assignment) (m : Py Unit α) (w : Surroundings) :
    List Ev × (Except Exc α × Unit) × Surroundings :=
  (m ()).drive a.answer w

/-- As assigned, `m` takes the steps `ss`, hands on the chunks `ys` and ends in `r`. -/
def Fares (a : Assignment) (m : Py Unit α) (w : Surroundings) (ss : List Step)
    (ys : List StreamChunk) (r : Except Exc α) (w' : Surroundings) : Prop :=
  ∃ t, a.run m w = (t, (r, ()), w') ∧ steps t = ss ∧ yielded t = ys

section Rules

variable {a : Assignment} {m : Py Unit α} {f : α → Py Unit β} {w w₁ w₂ : Surroundings}
  {ss ss' : List Step} {ys ys' : List StreamChunk} {hop : Hop} {attempt : ℕ}

theorem Fares.pure {x : α} : Fares a (pure x) w [] [] (.ok x) w := ⟨[], rfl, rfl, rfl⟩

theorem Fares.bind {x : α} {r : Except Exc β} (hm : Fares a m w ss ys (.ok x) w₁)
    (hf : Fares a (f x) w₁ ss' ys' r w₂) : Fares a (m >>= f) w (ss ++ ss') (ys ++ ys') r w₂ := by
  obtain ⟨t, ht, rfl, rfl⟩ := hm
  obtain ⟨t', ht', rfl, rfl⟩ := hf
  refine ⟨t ++ t', ?_, steps_append t t', yielded_append t t'⟩
  rw [Assignment.run] at ht
  rw [Assignment.run, show (m >>= f) () = (m ()).bind (Coro.onOk f) from rfl, Prog.drive_bind, ht]
  show (t ++ (a.run (f x) w₁).1, (a.run (f x) w₁).2) = _
  rw [ht']

/-- What follows takes no step. -/
theorem Fares.bind_nil {x : α} {r : Except Exc β} (hm : Fares a m w ss ys (.ok x) w₁)
    (hf : Fares a (f x) w₁ [] [] r w₂) : Fares a (m >>= f) w ss ys r w₂ := by
  have h := hm.bind hf
  rwa [List.append_nil, List.append_nil] at h

/-- What raises is not followed by anything. -/
theorem Fares.bind_error {e : Exc} (hm : Fares a m w ss ys (.error e) w₁) :
    Fares a (m >>= f) w ss ys (.error e) w₁ := by
  obtain ⟨t, ht, rfl, rfl⟩ := hm
  refine ⟨t, ?_, rfl, rfl⟩
  rw [Assignment.run] at ht
  rw [Assignment.run, show (m >>= f) () = (m ()).bind (Coro.onOk f) from rfl, Prog.drive_bind, ht]
  show (t ++ [], _) = _
  rw [List.append_nil]
  rfl

/-- A `try` whose body returns. -/
theorem Fares.attempt_ok {x : α} {h : Exc → Option (Py Unit α)}
    (hm : Fares a m w ss ys (.ok x) w₁) : Fares a (m.attempt h) w ss ys (.ok x) w₁ := by
  obtain ⟨t, ht, rfl, rfl⟩ := hm
  refine ⟨t, ?_, rfl, rfl⟩
  rw [Assignment.run] at ht
  rw [Assignment.run, Coro.attempt, Coro.attemptElse, Prog.drive_bind, ht]
  show (t ++ [], _) = _
  rw [List.append_nil]
  rfl

/-- A `try` whose body raises what a clause catches. -/
theorem Fares.attempt_error {e : Exc} {h : Exc → Option (Py Unit α)} {clause : Py Unit α}
    {r : Except Exc α} (hm : Fares a m w ss ys (.error e) w₁) (hh : h e = some clause)
    (hclause : Fares a clause w₁ ss' ys' r w₂) :
    Fares a (m.attempt h) w (ss ++ ss') (ys ++ ys') r w₂ := by
  obtain ⟨t, ht, rfl, rfl⟩ := hm
  obtain ⟨t', ht', rfl, rfl⟩ := hclause
  refine ⟨t ++ t', ?_, steps_append t t', yielded_append t t'⟩
  rw [Assignment.run] at ht
  rw [Assignment.run, Coro.attempt, Coro.attemptElse, Prog.drive_bind, ht]
  simp only [hh]
  show (t ++ (a.run clause w₁).1, (a.run clause w₁).2) = _
  rw [ht']

theorem fares_metric {m : Metric} : Fares a (metric m) w [] [] (.ok ()) w := ⟨_, rfl, rfl, rfl⟩

theorem fares_publishCircuitState : Fares a (publishCircuitState hop) w [.read hop.breaker] []
    (.ok ()) (a.answer w (.circuitState hop.breaker)).2 := ⟨_, rfl, rfl, rfl⟩

theorem fares_countFallback : Fares a (countFallback attempt) w [] [] (.ok ()) w := by
  unfold countFallback
  split
  · exact fares_metric
  · exact .pure

theorem fares_backOff : Fares a backOff w [] [] (.ok ()) w := ⟨_, rfl, rfl, rfl⟩

/-- A chunk under the names of the hop. -/
def stamped (hop : Hop) (chunk : StreamChunk) : StreamChunk :=
  { chunk with provider := hop.provider, model := hop.model }

theorem fares_yieldStamped {chunk : StreamChunk} :
    Fares a (yieldStamped hop chunk) w [] [stamped hop chunk] (.ok ()) w := ⟨_, rfl, rfl, rfl⟩

theorem fares_relayRest (chunks : List StreamChunk) :
    Fares a (relayRest hop none chunks) w [] (chunks.map (stamped hop)) (.ok ()) w := by
  induction chunks with
  | nil => exact ⟨_, rfl, rfl, rfl⟩
  | cons chunk rest ih =>
    have hanext : Fares a (ask (.anext (.chunk chunk))) w [] [] (.ok (.ok ())) w :=
      ⟨_, rfl, rfl, rfl⟩
    have hread : Fares a (Coro.ofExcept (.ok ())) w [] [] (.ok ()) w := ⟨_, rfl, rfl, rfl⟩
    exact hanext.bind (hread.bind (fares_yieldStamped.bind ih))

end Rules

/-! ## Steps that agree -/

/-- The same step, but for what a call returned or the text of its error. -/
inductive SameStep : Step → Step → Prop
  | same (step : Step) : SameStep step step
  | success (provider model : String) (c : Completion) (first : StreamChunk)
      (rest : List StreamChunk) (ending : Option PyError) :
      SameStep (.called provider model (.completion c))
        (.called provider model (.stream first rest ending))
  | failure (provider model message message' : String) (retryable : Bool) :
      SameStep (.called provider model (.providerError message retryable))
        (.called provider model (.providerError message' retryable))

theorem sameStep_refl (ss : List Step) : List.Forall₂ SameStep ss ss :=
  List.forall₂_same.mpr fun step _ => .same step

/-- `m` and `m'` take the same steps and leave the same surroundings, `m` ends in `r` and `m'`, which
hands on `ys`, in `r'`, where `R r r' ys`. -/
def DecideAlike (a : Assignment) (w : Surroundings) (m : Py Unit α) (m' : Py Unit β)
    (R : Except Exc α → Except Exc β → List StreamChunk → Prop) : Prop :=
  ∃ ss ss' ys r r' w', Fares a m w ss [] r w' ∧ Fares a m' w ss' ys r' w' ∧
    List.Forall₂ SameStep ss ss' ∧ R r r' ys

/-- A part that both sides share. -/
theorem DecideAlike.after {γ : Type} {a : Assignment} {w w₁ : Surroundings} {m : Py Unit γ}
    {f : γ → Py Unit α} {f' : γ → Py Unit β} {x : γ} {ss : List Step}
    {R : Except Exc α → Except Exc β → List StreamChunk → Prop}
    (hm : Fares a m w ss [] (.ok x) w₁) (h : DecideAlike a w₁ (f x) (f' x) R) :
    DecideAlike a w (m >>= f) (m >>= f') R := by
  obtain ⟨ss', ss'', ys, r, r', w', hfares, hfares', hsteps, hend⟩ := h
  exact ⟨_, _, _, _, _, _, hm.bind hfares, hm.bind hfares',
    List.rel_append (sameStep_refl ss) hsteps, hend⟩

theorem DecideAlike.imp {a : Assignment} {w : Surroundings} {m : Py Unit α} {m' : Py Unit β}
    {R R' : Except Exc α → Except Exc β → List StreamChunk → Prop} (h : DecideAlike a w m m' R)
    (hR : ∀ r r' ys, R r r' ys → R' r r' ys) : DecideAlike a w m m' R' := by
  obtain ⟨ss, ss', ys, r, r', w', hfares, hfares', hsteps, hend⟩ := h
  exact ⟨ss, ss', ys, r, r', w', hfares, hfares', hsteps, hR _ _ _ hend⟩

/-- A hop is given up by both methods, or serves both, under its names. -/
inductive HopAlike (hop : Hop) : Except Exc (Except String ChatResponse) →
    Except Exc (Except String Unit) → List StreamChunk → Prop
  | failed (message message' : String) :
      HopAlike hop (.ok (.error message)) (.ok (.error message')) []
  | served (response : ChatResponse) (ys : List StreamChunk)
      (hresponse : response.provider = hop.provider ∧ response.model = hop.model) (hys : ys ≠ [])
      (hstamped : ∀ chunk ∈ ys, chunk.provider = hop.provider ∧ chunk.model = hop.model) :
      HopAlike hop (.ok (.ok response)) (.ok (.ok ())) ys

section Hops

variable {a : Assignment} {w : Surroundings} {hop : Hop} {attempt : ℕ}
  {messages : List ChatMessage} {params : Option SamplingParams}

theorem fares_providerChat {x : Except Exc Completion}
    (hchat : a.chat hop.provider (w.calls hop.provider) = x) :
    Fares a (ask (.providerChat hop.provider hop.model messages params)) w
      [.called hop.provider hop.model (chatResult x)] [] (.ok x) (w.call hop.provider) := by
  subst hchat
  exact ⟨_, rfl, rfl, rfl⟩

theorem fares_providerStream {x : StreamReply}
    (hstream : a.stream hop.provider (w.calls hop.provider) = x) :
    Fares a (ask (.providerStream hop.provider hop.model messages params)) w
      [.called hop.provider hop.model (streamResult x)] [] (.ok x) (w.call hop.provider) := by
  subst hstream
  exact ⟨_, rfl, rfl, rfl⟩

theorem fares_recordSuccess : Fares a (ask (.recordSuccess hop.breaker)) w [.success hop.breaker] []
    (.ok ()) (a.answer w (.recordSuccess hop.breaker)).2 := ⟨_, rfl, rfl, rfl⟩

theorem fares_recordFailure : Fares a (ask (.recordFailure hop.breaker)) w [.failure hop.breaker] []
    (.ok ()) (a.answer w (.recordFailure hop.breaker)).2 := ⟨_, rfl, rfl, rfl⟩

theorem fares_ofExcept {x : Except Exc α} : Fares a (Coro.ofExcept x) w [] [] x w :=
  ⟨_, rfl, rfl, rfl⟩

/-- The surroundings once a call of the hop has succeeded. -/
def Assignment.settled (a : Assignment) (hop : Hop) (w : Surroundings) : Surroundings :=
  (a.answer (a.answer (w.call hop.provider) (.recordSuccess hop.breaker)).2
    (.circuitState hop.breaker)).2

/-- A call that is answered. -/
theorem fares_chatOnce {c : Completion}
    (hchat : a.chat hop.provider (w.calls hop.provider) = .ok c) :
    Fares a (chatOnce messages params attempt hop) w
      [.called hop.provider hop.model (.completion c), .success hop.breaker, .read hop.breaker] []
      (.ok (.ok {
        content := c.content, provider := hop.provider, model := hop.model,
        inputTokens := c.inputTokens, outputTokens := c.outputTokens })) (a.settled hop w) :=
  (fares_providerChat hchat).bind (fares_ofExcept.bind (fares_metric.bind (fares_recordSuccess.bind
    (fares_publishCircuitState.bind (fares_metric.bind (fares_countFallback.bind .pure))))))

/-- A stream that is complete. -/
theorem fares_onFirstChunk {first : StreamChunk} {rest : List StreamChunk}
    {again : String → Py Unit (Except String Unit)}
    (hstream : a.stream hop.provider (w.calls hop.provider) = .opened first rest none) :
    Fares a (do
        let reply ← ask (.providerStream hop.provider hop.model messages params)
        onFirstChunk attempt hop again reply) w
      [.called hop.provider hop.model (.stream first rest none), .success hop.breaker,
        .read hop.breaker] ((first :: rest).map (stamped hop)) (.ok (.ok ()))
      (a.settled hop w) := by
  have hcommit : Fares a (commit attempt hop first rest none) (w.call hop.provider)
      [.success hop.breaker, .read hop.breaker] ((first :: rest).map (stamped hop)) (.ok ())
      (a.settled hop w) :=
    fares_recordSuccess.bind (fares_publishCircuitState.bind (fares_metric.bind
      (fares_countFallback.bind (fares_yieldStamped.bind (.attempt_ok (fares_relayRest rest))))))
  rw [← List.append_nil (List.map _ _)]
  exact (fares_providerStream hstream).bind (hcommit.bind .pure)

/-- A hop that serves the call and the stream. -/
theorem served_alike {c : Completion} {first : StreamChunk} {rest : List StreamChunk}
    {clause : Exc → Option (Py Unit (Except String ChatResponse))}
    {again : String → Py Unit (Except String Unit)}
    (hchat : a.chat hop.provider (w.calls hop.provider) = .ok c)
    (hstream : a.stream hop.provider (w.calls hop.provider) = .opened first rest none) :
    DecideAlike a w ((chatOnce messages params attempt hop).attempt clause)
      (do
        let reply ← ask (.providerStream hop.provider hop.model messages params)
        onFirstChunk attempt hop again reply) (HopAlike hop) := by
  refine ⟨_, _, _, _, _, _, .attempt_ok (fares_chatOnce hchat), fares_onFirstChunk hstream,
    .cons (.success _ _ c first rest none) (sameStep_refl _), .served _ _ ⟨rfl, rfl⟩ (by simp) ?_⟩
  intro chunk hmem
  obtain ⟨chunk', -, rfl⟩ := List.mem_map.mp hmem
  exact ⟨rfl, rfl⟩

/-- After a failed attempt both methods go on if the error is retryable. -/
theorem failed_alike {message message' : String} {retryable : Bool}
    {again : String → Py Unit (Except String ChatResponse)}
    {again' : String → Py Unit (Except String Unit)}
    (hchat : a.chat hop.provider (w.calls hop.provider) =
      .error (.exception (.providerError message retryable)))
    (hstream : a.stream hop.provider (w.calls hop.provider) =
      .failed (.exception (.providerError message' retryable)))
    (hagain : DecideAlike a (w.call hop.provider) (again message) (again' message')
      (HopAlike hop)) :
    DecideAlike a w
      ((chatOnce messages params attempt hop).attempt (onProviderError hop again))
      (do
        let reply ← ask (.providerStream hop.provider hop.model messages params)
        onFirstChunk attempt hop again' reply) (HopAlike hop) := by
  have hcall : Fares a (chatOnce messages params attempt hop) w
      [.called hop.provider hop.model (.providerError message retryable)] []
      (.error (.exception (.providerError message retryable))) (w.call hop.provider) :=
    (fares_providerChat hchat).bind fares_ofExcept.bind_error
  have hnext : DecideAlike a (w.call hop.provider)
      (if retryable = true then again message else pure (.error message))
      (if retryable = true then again' message' else pure (.error message')) (HopAlike hop) := by
    cases retryable with
    | true => exact hagain
    | false => exact ⟨_, _, _, _, _, _, .pure, .pure, .nil, .failed _ _⟩
  obtain ⟨ss, ss', ys, r, r', w', hfares, hfares', hsteps, hend⟩ := hnext
  refine ⟨_, _, _, _, _, _, hcall.attempt_error rfl (fares_metric.bind (fares_metric.bind hfares)),
    (fares_providerStream hstream).bind (fares_metric.bind hfares'),
    .cons (.failure _ _ _ _ _) hsteps, hend⟩

/-- The attempts of both methods at a hop. -/
theorem attempts_alike (hfair : a.Fair) (retries : ℕ) (w : Surroundings) :
    DecideAlike a w (chatAttempts messages params attempt hop retries)
      (streamAttempts messages params attempt hop retries) (HopAlike hop) := by
  -- one attempt, whatever the methods do after a failure
  have honce : ∀ (again : String → Py Unit (Except String ChatResponse))
      (again' : String → Py Unit (Except String Unit)) w,
      (∀ message message' w', DecideAlike a w' (again message) (again' message') (HopAlike hop)) →
      DecideAlike a w
        ((chatOnce messages params attempt hop).attempt (onProviderError hop again))
        (do
          let reply ← ask (.providerStream hop.provider hop.model messages params)
          onFirstChunk attempt hop again' reply) (HopAlike hop) := by
    intro again again' w hagain
    have hsame := hfair hop.provider (w.calls hop.provider)
    generalize hchat : a.chat hop.provider (w.calls hop.provider) = x at hsame
    generalize hstream : a.stream hop.provider (w.calls hop.provider) = y at hsame
    cases hsame with
    | success c first rest => exact served_alike hchat hstream
    | failure message message' retryable =>
      exact failed_alike hchat hstream (hagain message message' _)
  induction retries generalizing w with
  | zero => exact honce _ _ w fun _ _ _ => ⟨_, _, _, _, _, _, .pure, .pure, .nil, .failed _ _⟩
  | succ retries ih =>
    exact honce _ _ w fun _ _ w' => .after fares_backOff (ih w')

end Hops

/-! ## The walks -/

/-- Both methods are served by one hop of the chain, under its names, or both raise
`AllProvidersFailedError`. -/
inductive EndAlike (hops : List Hop) : Except Exc ChatResponse → Except Exc Unit →
    List StreamChunk → Prop
  | exhausted (message message' : String) :
      EndAlike hops (.error (.exception (.allProvidersFailed message)))
        (.error (.exception (.allProvidersFailed message'))) []
  | served (hop : Hop) (hhop : hop ∈ hops) (response : ChatResponse) (ys : List StreamChunk)
      (hresponse : response.provider = hop.provider ∧ response.model = hop.model) (hys : ys ≠ [])
      (hstamped : ∀ chunk ∈ ys, chunk.provider = hop.provider ∧ chunk.model = hop.model) :
      EndAlike hops (.ok response) (.ok ()) ys

theorem EndAlike.cons {hop : Hop} {hops : List Hop} {r : Except Exc ChatResponse}
    {r' : Except Exc Unit} {ys : List StreamChunk} (h : EndAlike hops r r' ys) :
    EndAlike (hop :: hops) r r' ys := by
  cases h with
  | exhausted message message' => exact .exhausted message message'
  | served hop' hhop response ys hresponse hys hstamped =>
    exact .served hop' (.tail _ hhop) response ys hresponse hys hstamped

theorem walk_alike {a : Assignment} (skip : Finset String)
    {serve : ℕ → Hop → Py Unit (Except String ChatResponse)}
    {serve' : ℕ → Hop → Py Unit (Except String Unit)}
    (hserve : ∀ attempt hop w, DecideAlike a w (serve attempt hop) (serve' attempt hop)
      (HopAlike hop))
    (hops : List Hop) (attempt : ℕ) (errors errors' : List String) (w : Surroundings) :
    DecideAlike a w (walk skip serve attempt errors hops) (walk skip serve' attempt errors' hops)
      (EndAlike hops) := by
  induction hops generalizing attempt errors errors' w with
  | nil => exact ⟨_, _, _, _, _, _, ⟨[], rfl, rfl, rfl⟩, ⟨[], rfl, rfl, rfl⟩, .nil, .exhausted _ _⟩
  | cons hop rest ih =>
    rw [walk, walk]
    split
    · exact (ih (attempt + 1) _ _ w).imp fun _ _ _ => .cons
    have hallow : Fares a (ask (.allowRequest hop.breaker)) w
        [.asked hop.breaker (a.answer w (.allowRequest hop.breaker)).1] []
        (.ok (a.answer w (.allowRequest hop.breaker)).1)
        (a.answer w (.allowRequest hop.breaker)).2 := ⟨_, rfl, rfl, rfl⟩
    refine .after hallow (.after fares_publishCircuitState ?_)
    split
    · obtain ⟨ss, ss', ys, r, r', w₁, hfares, hfares', hsteps, hhop⟩ := hserve attempt hop
        (a.answer (a.answer w (.allowRequest hop.breaker)).2 (.circuitState hop.breaker)).2
      cases hhop with
      | served response ys hresponse hys hstamped =>
        exact ⟨ss, ss', ys, _, _, w₁, hfares.bind_nil .pure, hfares'.bind_nil .pure, hsteps,
          .served hop (.head _) response ys hresponse hys hstamped⟩
      | failed message message' =>
        have hrest : DecideAlike a w₁
            (do
              ask (.recordFailure hop.breaker)
              publishCircuitState hop
              walk skip serve (attempt + 1) (errors ++ [hop.provider ++ ": " ++ message]) rest)
            (do
              ask (.recordFailure hop.breaker)
              publishCircuitState hop
              walk skip serve' (attempt + 1) (errors' ++ [hop.provider ++ ": " ++ message']) rest)
            (EndAlike rest) :=
          .after fares_recordFailure (.after fares_publishCircuitState (ih _ _ _ _))
        obtain ⟨ss₁, ss₁', ys, r, r', w₂, hcalled, hstreamed, hsteps', hend⟩ := hrest
        exact ⟨_, _, _, _, _, _, hfares.bind hcalled, hfares'.bind hstreamed,
          List.rel_append hsteps hsteps', hend.cons⟩
    · exact (ih (attempt + 1) _ _ _).imp fun _ _ _ => .cons

/-- The call a step is. -/
def Step.call? : Step → Option (String × String)
  | .called provider model _ => some (provider, model)
  | _ => none

theorem upstream_eq_filterMap_steps (t : List Ev) : upstream t = (steps t).filterMap Step.call? := by
  rw [upstream, steps, List.filterMap_filterMap]
  refine List.filterMap_congr fun e _ => ?_
  obtain ⟨c, r⟩ := e
  cases c with
  | anext next =>
    show none = (step? ⟨.anext next, r⟩).bind Step.call?
    unfold step?
    dsimp only
    split <;> rfl
  | sleep => cases r <;> rfl
  | _ => rfl

theorem filterMap_call_of_sameStep {ss ss' : List Step} (h : List.Forall₂ SameStep ss ss') :
    ss.filterMap Step.call? = ss'.filterMap Step.call? := by
  induction h with
  | nil => rfl
  | cons hstep _ ih =>
    cases hstep with
    | same step => rw [List.filterMap_cons, List.filterMap_cons, ih]
    | success => exact congrArg (_ :: ·) ih
    | failure => exact congrArg (_ :: ·) ih

/-- Run in the same surroundings, `chat` and `chat_stream` call the same providers with the same
models in the same order, take the same steps with the breakers, leave the same surroundings, and
are served by one hop, under its names, or both raise `AllProvidersFailedError`. -/
theorem chat_chatStream_agree {a : Assignment} (hfair : a.Fair) (messages : List ChatMessage)
    (params : Option SamplingParams) (retryAttempts : ℕ) (skip : Finset String) (hops : List Hop)
    (w : Surroundings) :
    let byChat := a.run (chat messages params retryAttempts skip hops) w
    let byStream := a.run (chatStream messages params retryAttempts skip hops) w
    upstream byChat.1 = upstream byStream.1 ∧
      List.Forall₂ SameStep (steps byChat.1) (steps byStream.1) ∧
      byChat.2.2 = byStream.2.2 ∧
      EndAlike hops byChat.2.1.1 byStream.2.1.1 (yielded byStream.1) := by
  have hserve : ∀ attempt hop w,
      DecideAlike a w (chatAttempts messages params attempt hop retryAttempts)
        (streamAttempts messages params attempt hop retryAttempts) (HopAlike hop) :=
    fun _ _ w => attempts_alike hfair retryAttempts w
  obtain ⟨ss, ss', ys, r, r', w', ⟨t, ht, rfl, -⟩, ⟨t', ht', rfl, rfl⟩, hsteps, hend⟩ :=
    walk_alike skip hserve hops 0 [] [] w
  intro byChat byStream
  have hchat : byChat = (t, (r, ()), w') := ht
  have hstream : byStream = (t', (r', ()), w') := ht'
  rw [hchat, hstream]
  refine ⟨?_, hsteps, rfl, hend⟩
  rw [upstream_eq_filterMap_steps, upstream_eq_filterMap_steps]
  exact filterMap_call_of_sameStep hsteps

/-- OpenAI fails for good, and the other providers answer. -/
def openaiDown : Assignment where
  clock _ := (0, 0)
  chat provider _ :=
    if provider = "openai" then .error (.exception (.providerError "HTTP 401" false))
    else .ok ⟨.str "4", .int 9, .int 1⟩
  stream provider _ :=
    if provider = "openai" then .failed (.exception (.providerError "HTTP 401" false))
    else .opened { content := .str "4" } [] none

theorem fair_openaiDown : openaiDown.Fair := by
  intro provider k
  show SameOutcome (if provider = "openai" then _ else _) (if provider = "openai" then _ else _)
  split
  · exact .failure _ _ _
  · exact .success _ _ _

theorem chat_chatStream_agree_openaiDown :
    let hops : List Hop := [⟨"openai", "gpt-4o", "openai"⟩, ⟨"ollama", "llama3", "ollama"⟩]
    let w : Surroundings := ⟨fun _ => .new 5 30, 0, fun _ => 0⟩
    EndAlike hops (openaiDown.run (chat [] none 2 ∅ hops) w).2.1.1
      (openaiDown.run (chatStream [] none 2 ∅ hops) w).2.1.1
      (yielded (openaiDown.run (chatStream [] none 2 ∅ hops) w).1) :=
  (chat_chatStream_agree fair_openaiDown [] none 2 ∅ _ _).2.2.2

end LlmGateway
