import LlmGateway.Routing.Tour
import LlmGateway.Coroutine.Simulation
import LlmGateway.Gateway.Redis

/-!
# Which hop serves a request

What `FallbackRouter.chat` does when every call of a provider is answered or ends in a
`ProviderError`: it is served by the first hop of its chain that is not skipped, that its breaker
admits and one of whose calls succeeds. A skipped hop leaves no trace, so the run is one over the
chain without it.
-/

namespace LlmGateway

open Coroutine

variable {σ α β : Type} {s s' : σ} {messages : List ChatMessage} {params : Option SamplingParams}
  {retryAttempts n : ℕ} {skip : Finset String} {hops : List Hop}

/-- A call is answered or ends in a `ProviderError`, and nothing else goes wrong. -/
def Assigned : Ev → Prop
  | ⟨.providerChat _ _ _ _, r⟩ => chatResult r ≠ .other
  | ⟨.providerStream _ _ _ _, r⟩ => streamResult r ≠ .other
  | ⟨.sleep, r⟩ => r = .ok ()
  | e => Orderly e

theorem Assigned.orderly {e : Ev} (h : Assigned e) : Orderly e := by
  obtain ⟨c, r⟩ := e
  cases c <;> first | exact h | trivial

/-! ## Tours that end in an answer -/

/-- The errors of a hop that has failed: fewer than `n` retryable ones and a last one, which is not
retryable unless it is the `n`-th. -/
theorem spent_iff {es : List (String × Bool)} :
    Spent (n + 1) es ↔ ∃ (failures : List String) (last : String × Bool),
      es = failures.map (·, true) ++ [last] ∧ failures.length ≤ n ∧
        (last.2 = false ∨ failures.length = n) := by
  constructor
  · intro h
    induction n generalizing es with
    | zero =>
      cases h with
      | final message => exact ⟨[], (message, false), rfl, le_rfl, .inl rfl⟩
      | retry message h =>
        cases h
        exact ⟨[], (message, true), rfl, le_rfl, .inr rfl⟩
    | succ n ih =>
      cases h with
      | final message => exact ⟨[], (message, false), rfl, Nat.zero_le _, .inl rfl⟩
      | retry message h =>
        obtain ⟨failures, last, rfl, hlen, hlast⟩ := ih h
        exact ⟨message :: failures, last, rfl, Nat.succ_le_succ hlen, hlast.imp_right (by simp)⟩
  · rintro ⟨failures, ⟨message, retryable⟩, rfl, hlen, hlast⟩
    induction failures generalizing n with
    | nil =>
      cases retryable with
      | false => exact .final message
      | true =>
        obtain rfl : 0 = n := by simpa using hlast
        exact .retry message .nil
    | cons failure failures ih =>
      obtain ⟨k, rfl⟩ : ∃ k, n = k + 1 := Nat.exists_eq_add_one.mpr (by simp at hlen; omega)
      refine .retry failure (ih (by simpa using hlen) (hlast.imp_right (by simp)))

theorem Tour.imp {Last Last' : Hop → List Step → Except Exc α → Prop} {ss : List Step}
    {r : Except Exc α} (h : Tour Last n skip hops ss r)
    (himp : ∀ hop last, (∀ step ∈ last, step ∈ ss) → Last hop last r → Last' hop last r) :
    Tour Last' n skip hops ss r := by
  cases h with
  | exhausted h message => exact .exhausted h message
  | ended hhops h hskip failures hlen hlast =>
    exact .ended hhops h hskip failures hlen
      (himp _ _ (fun _ hstep => List.mem_append_right _ hstep) hlast)

/-- The steps of an assigned run never cut it off. -/
theorem not_cutOff {t : List Ev} (hA : ∀ e ∈ t, Assigned e) {hop : Hop} {last : List Step}
    (hlast : ∀ step ∈ last, step ∈ steps t) {r : Except Exc α} : ¬ CutOff hop last r := by
  have hstep : ∀ step ∈ steps t, (∀ provider model, step ≠ .called provider model .other) ∧
      step ≠ .interrupted := by
    intro step hmem
    obtain ⟨e, he, hstep⟩ := List.mem_filterMap.mp hmem
    have hassigned := hA e he
    unfold step? at hstep
    split at hstep
    case h_5 provider model _ _ r =>
      obtain rfl := Option.some.inj hstep
      exact ⟨fun _ _ h => hassigned (Step.called.inj h).2.2, nofun⟩
    case h_6 provider model _ _ r =>
      obtain rfl := Option.some.inj hstep
      exact ⟨fun _ _ h => hassigned (Step.called.inj h).2.2, nofun⟩
    case h_8 x => cases (hassigned : Except.error x = .ok ())
    case h_7 =>
      split at hstep <;> cases hstep
      exact ⟨nofun, nofun⟩
    case h_9 => cases hstep
    all_goals
      cases hstep
      exact ⟨nofun, nofun⟩
  intro h
  cases h with
  | call e => exact (hstep _ (hlast _ (.head _))).1 _ _ rfl
  | wait e => exact (hstep _ (hlast _ (.head _))).2 rfl

theorem completion_notMem_failedCalls {hop : Hop} {es : List (String × Bool)}
    {provider model : String} {c : Completion} :
    .called provider model (.completion c) ∉ failedCalls hop es := by
  intro hmem
  obtain ⟨_, _, he⟩ := mem_failedCalls hmem
  cases he

/-- No call of the hops that are passed is answered. -/
theorem Passed.completion_notMem {ss : List Step} (h : Passed n skip hops ss)
    {provider model : String} {c : Completion} : .called provider model (.completion c) ∉ ss := by
  induction h with
  | nil => exact List.not_mem_nil
  | skipped hskip h ih => exact ih
  | refused hskip h ih => simpa using ih
  | failed hskip es hes h ih => simpa using ⟨completion_notMem_failedCalls, ih⟩

/-- A tour that ends only at a hop that answers raises exactly if no call is answered. -/
theorem Tour.raises_iff {ss : List Step} {r : Except Exc ChatResponse}
    (h : Tour Answered n skip hops ss r) :
    (∃ message, r = .error (.exception (.allProvidersFailed message))) ↔
      ∀ provider model c, .called provider model (.completion c) ∉ ss := by
  cases h with
  | exhausted h message => exact iff_of_true ⟨message, rfl⟩ fun _ _ _ => h.completion_notMem
  | @ended _ _ hop _ _ _ hhops h hskip failures hlen hlast =>
    obtain ⟨c⟩ := hlast
    refine iff_of_false nofun fun hnone => hnone hop.provider hop.model c ?_
    exact List.mem_append_right _ (.head _)

/-! ## Leaving out the hops to be skipped -/

/-- Any command but the count of a fallback, which depends on where in the chain a hop stands. -/
def Cmd.Placeless : Cmd → Prop
  | .metric .fallbackTriggered => False
  | _ => True

instance : DecidablePred Cmd.Placeless := fun c => by
  unfold Cmd.Placeless
  split <;> infer_instance

/-- The same end, but for the text of the `AllProvidersFailedError`, which lists the hops. -/
inductive SameEnd : Except Exc α → Except Exc α → Prop
  | same (r : Except Exc α) : SameEnd r r
  | exhausted (message message' : String) :
      SameEnd (.error (.exception (.allProvidersFailed message)))
        (.error (.exception (.allProvidersFailed message')))

/-- Bodies that issue the same commands but for that count and end alike, while the metrics do not
raise. -/
abbrev Alike (m m' : Py σ α) : Prop := Coro.Similar Orderly Cmd.Placeless Eq m m'

variable {attempt attempt' : ℕ} {hop : Hop}

theorem alike_metric {m : Metric} : Alike (metric m : Py σ Unit) (metric m) :=
  .bind .perform fun _ => .ofExcept

theorem alike_publishCircuitState :
    Alike (publishCircuitState hop : Py σ Unit) (publishCircuitState hop) :=
  .bind .perform fun _ => alike_metric

theorem alike_countFallback (h : attempt' ≤ attempt) :
    Alike (countFallback attempt : Py σ Unit) (countFallback attempt') := by
  unfold countFallback
  by_cases hpos : 0 < attempt'
  · rw [if_pos hpos, if_pos (hpos.trans_le h)]
    exact alike_metric
  rw [if_neg hpos]
  split
  · refine Coro.Similar.silent (.bind (.perform id) fun _ => .ofExcept) .pure fun u u' hu => ?_
    rw [metric, Coro.wp_bind]
    refine Coro.wp_perform.mpr fun r hr => ?_
    obtain rfl : r = .ok () := hr
    exact ⟨rfl, hu⟩
  · exact .pure

theorem alike_chatOnce (h : attempt' ≤ attempt) :
    Alike (chatOnce messages params attempt hop : Py σ _)
      (chatOnce messages params attempt' hop) :=
  .bind .perform fun _ => .bind .ofExcept fun _ => .bind alike_metric fun _ =>
    .bind .perform fun _ => .bind alike_publishCircuitState fun _ => .bind alike_metric fun _ =>
      .bind (alike_countFallback h) fun _ => .pure

theorem alike_chatAttempts (h : attempt' ≤ attempt) (retries : ℕ) :
    Alike (chatAttempts messages params attempt hop retries : Py σ _)
      (chatAttempts messages params attempt' hop retries) := by
  have hclause : ∀ again again' : String → Py σ (Except String ChatResponse),
      (∀ message, Alike (again message) (again' message)) →
      ∀ e, Option.Rel Alike (onProviderError hop again e) (onProviderError hop again' e) := by
    intro again again' hagain e
    unfold onProviderError
    split
    · exact .some (.bind alike_metric fun _ => .bind alike_metric fun _ =>
        .ite (fun _ => hagain _) fun _ => .pure)
    · exact .none
  induction retries with
  | zero => exact .attempt (alike_chatOnce h) (hclause _ _ fun _ => .pure)
  | succ retries ih =>
    refine .attempt (alike_chatOnce h) (hclause _ _ fun _ => .bind ?_ fun _ => ih)
    exact .bind .perform fun _ => .ofExcept

/-- The hops of a chain that are not to be skipped. -/
def unskipped (skip : Finset String) (hops : List Hop) : List Hop :=
  hops.filter fun hop => hop.provider ∉ skip

/-- The walk does the same on the chain without the hops that are to be skipped. -/
theorem similar_walk (skip : Finset String) {serve : ℕ → Hop → Py σ (Except String α)}
    (hserve : ∀ attempt attempt' hop, attempt' ≤ attempt →
      Alike (serve attempt hop) (serve attempt' hop))
    (hops : List Hop) {attempt attempt' : ℕ} (h : attempt' ≤ attempt) (errors errors' : List String)
    (s : σ) :
    ((walk skip serve attempt errors hops) s).Similar Orderly Cmd.Placeless
      (fun x y => x.2 = y.2 ∧ SameEnd x.1 y.1)
      ((walk ∅ serve attempt' errors' (unskipped skip hops)) s) := by
  induction hops generalizing attempt attempt' errors errors' s with
  | nil => exact .ret ⟨rfl, .exhausted _ _⟩
  | cons hop rest ih =>
    have hraise : ∀ (e : Exc) (u u' : σ), u = u' →
        u = u' ∧ SameEnd (.error e : Except Exc α) (.error e) := fun e _ _ hu => ⟨hu, .same _⟩
    by_cases hskip : hop.provider ∈ skip
    · rw [walk, if_pos hskip, unskipped, List.filter_cons_of_neg (by simpa using hskip)]
      exact ih (h.trans (Nat.le_succ _)) _ _ s
    rw [walk, if_neg hskip, unskipped, List.filter_cons_of_pos (by simpa using hskip), walk,
      if_neg (Finset.notMem_empty _)]
    refine Coro.Similar.perform.bind_to hraise (fun allowed u u' hu => ?_) s s rfl
    refine alike_publishCircuitState.bind_to hraise (fun _ u u' hu => ?_) u u' hu
    subst hu
    cases allowed with
    | false => exact ih (Nat.succ_le_succ h) _ _ u
    | true =>
      refine (hserve attempt attempt' hop h).bind_to hraise (fun outcome u u' hu => ?_) u u rfl
      subst hu
      cases outcome with
      | ok result => exact .ret ⟨rfl, .same _⟩
      | error lastError =>
        refine Coro.Similar.perform.bind_to hraise (fun _ u u' hu => ?_) u u rfl
        refine alike_publishCircuitState.bind_to hraise (fun _ u u' hu => ?_) u u' hu
        subst hu
        exact ih (Nat.succ_le_succ h) _ _ u

/-! ## The specification of `chat` -/

/-- A run of `chat` in which each call is answered or ends in a `ProviderError`. It is a tour that
ends at a hop that answers, with a response that goes by the model of the chain, or that passes
every hop and raises `AllProvidersFailedError`; the latter is so exactly if no call was answered.
And it is a run over the chain without the skipped hops. -/
theorem chat_selects {t : List Ev} {r : Except Exc ChatResponse}
    (h : Coro.Runs (chat messages params retryAttempts skip hops) s t r s')
    (hA : ∀ e ∈ t, Assigned e) :
    Tour Answered (retryAttempts + 1) skip hops (steps t) r ∧
      ((∃ message, r = .error (.exception (.allProvidersFailed message))) ↔
        ∀ provider model c, .called provider model (.completion c) ∉ steps t) ∧
      ∃ t' r', Coro.Runs (chat messages params retryAttempts ∅ (unskipped skip hops)) s t' r' s' ∧
        t'.filter (fun e => e.cmd.Placeless) = t.filter (fun e => e.cmd.Placeless) ∧
        SameEnd r r' := by
  have htour : Tour Answered (retryAttempts + 1) skip hops (steps t) r :=
    (tour_chat.apply h fun e he => (hA e he).orderly).imp fun hop last hmem hlast =>
      hlast.elim id fun hcut => (not_cutOff hA hmem hcut).elim
  have hserve : ∀ attempt attempt' hop, attempt' ≤ attempt →
      Alike (chatAttempts messages params attempt hop retryAttempts : Py σ _)
        (chatAttempts messages params attempt' hop retryAttempts) :=
    fun _ _ _ hle => alike_chatAttempts hle retryAttempts
  have hsim := similar_walk skip hserve hops (le_refl 0) [] [] s
  have hplace : ∀ c, ¬ Cmd.Placeless c → ∃ r, Orderly ⟨c, r⟩ := fun c hc => by
    unfold Cmd.Placeless at hc
    split at hc
    · exact ⟨.ok (), rfl⟩
    · exact absurd trivial hc
  obtain ⟨t', ⟨r', _⟩, hrun, -, hfilter, rfl, hend⟩ :=
    hsim.returns hplace h fun e he => (hA e he).orderly
  exact ⟨htour, htour.raises_iff, t', r', hrun, hfilter, hend⟩

/-- OpenAI rejects every request, and everything else succeeds. -/
def rejecting : (c : Cmd) → Reply c
  | .providerChat provider _ _ _ =>
    if provider = "openai" then .error (.exception (.providerError "HTTP 400" false))
    else .ok ⟨.str "", .int 0, .int 0⟩
  | c => calm c

theorem assigned_rejecting (c : Cmd) : Assigned ⟨c, rejecting c⟩ := by
  cases c with
  | providerChat provider model messages params =>
    show chatResult (if provider = "openai" then _ else _) ≠ .other
    split <;> exact nofun
  | providerStream => exact (nofun : CallResult.providerError _ _ ≠ .other)
  | yieldChunk => exact fun _ _ => nofun
  | metric => exact rfl
  | sleep => exact rfl
  | _ => trivial

/-- Its first hop is to be skipped, the second is rejected and the third answers. -/
theorem chat_selects_third :
    let hops : List Hop := [⟨"anthropic", "claude", "anthropic"⟩, ⟨"openai", "gpt-4o", "openai"⟩,
      ⟨"ollama", "llama3", "ollama"⟩]
    let run := Prog.drive (fun u c => (rejecting c, u))
      ((chat [] none 2 {"anthropic"} hops : Py Unit ChatResponse) ()) ()
    Tour Answered 3 {"anthropic"} hops (steps run.1) run.2.1.1 :=
  (chat_selects (Prog.returns_drive _ _ _)
    (Prog.forall_drive (fun _ c => assigned_rejecting c) _ _)).1

end LlmGateway
