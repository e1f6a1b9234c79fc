import LlmGateway.Routing.CircuitBreaker
import LlmGateway.Routing.Tour
import LlmGateway.Gateway.Redis

/-!
# Consecutive failures of a provider

Requests are handled one after the other, by either method of the router, and the breakers are
circuit breakers. What a request does to the breaker of one provider is read off its tour: a failure
before the first chunk is reported as a failure, one after the first chunk as a success and then a
failure. So a mid-stream failure starts the count of consecutive failures again.
-/

namespace LlmGateway

open Coroutine CircuitBreaker

variable {σ α : Type} {n : ℕ} {cooldown : ℚ} {provider breaker : String}

/-! ## Breakers as part of the world -/

/-- The calls each breaker has had, the latest first. -/
abbrev BreakerCalls : Type := String → List (Op ℚ)

/-- One more call of a breaker. -/
def BreakerCalls.add (w : BreakerCalls) (breaker : String) (call : Op ℚ) : BreakerCalls :=
  Function.update w breaker (call :: w breaker)

/-- How the breakers answer an event: as `CircuitBreaker` does, whatever the clock reads. -/
def Uses (n : ℕ) (cooldown : ℚ) (w : BreakerCalls) : Ev → BreakerCalls → Prop
  | ⟨.allowRequest breaker, admitted⟩, w' => ∃ t now,
    admitted = ((after n cooldown (w breaker)).allowRequest t now).1 ∧
      w' = w.add breaker (.allowRequest t now)
  | ⟨.circuitState breaker, state⟩, w' => ∃ t,
    state = ((after n cooldown (w breaker)).readState t).1 ∧ w' = w.add breaker (.state t)
  | ⟨.recordSuccess breaker, _⟩, w' => w' = w.add breaker .recordSuccess
  | ⟨.recordFailure breaker, _⟩, w' => ∃ t, w' = w.add breaker (.recordFailure t)
  | _, w' => w' = w

/-- A process whose breakers all have one threshold and one cooldown. -/
def breakers (n : ℕ) (cooldown : ℚ) : World gateway where
  State := BreakerCalls
  answers w e w' := Orderly e ∧ Uses n cooldown w e w'

theorem orderly_evolves {w w' : BreakerCalls} {t : List Ev}
    (h : (breakers n cooldown).Evolves w t w') : ∀ e ∈ t, Orderly e :=
  World.Evolves.forall_mem (W := breakers n cooldown) (fun _ _ _ hans => hans.1) h

/-- The breaker a step is about. -/
def Step.breaker? : Step → Option String
  | .asked breaker _ => some breaker
  | .read breaker => some breaker
  | .success breaker => some breaker
  | .failure breaker => some breaker
  | _ => none

/-- The step that a call of `breaker` makes, after the calls `earlier`. -/
def stepOf (n : ℕ) (cooldown : ℚ) (breaker : String) (earlier : List (Op ℚ)) : Op ℚ → Step
  | .allowRequest t now => .asked breaker ((after n cooldown earlier).allowRequest t now).1
  | .state _ => .read breaker
  | .recordSuccess => .success breaker
  | .recordFailure _ => .failure breaker

theorem BreakerCalls.add_cases (w : BreakerCalls) (b breaker : String) (call : Op ℚ) :
    (b ≠ breaker ∧ w.add b call breaker = w breaker) ∨
      b = breaker ∧ w.add b call breaker = call :: w breaker := by
  unfold BreakerCalls.add
  by_cases h : b = breaker
  · subst h
    exact .inr ⟨rfl, Function.update_self _ _ _⟩
  · exact .inl ⟨h, Function.update_of_ne (Ne.symm h) _ _⟩

/-- An event is a call of `breaker` or does not concern it. -/
theorem answers_cases {w w' : BreakerCalls} {e : Ev} (h : (breakers n cooldown).answers w e w')
    (breaker : String) :
    (w' breaker = w breaker ∧ ∀ step ∈ steps [e], step.breaker? ≠ some breaker) ∨
      ∃ call, w' breaker = call :: w breaker ∧
        steps [e] = [stepOf n cooldown breaker (w breaker) call] := by
  have hcall : ∀ b (call : Op ℚ) (step : Step), step.breaker? = some b →
      (b = breaker → step = stepOf n cooldown breaker (w breaker) call) → w' = w.add b call →
      steps [e] = [step] →
      (w' breaker = w breaker ∧ ∀ step ∈ steps [e], step.breaker? ≠ some breaker) ∨
        ∃ call, w' breaker = call :: w breaker ∧
          steps [e] = [stepOf n cooldown breaker (w breaker) call] := by
    rintro b call step hstep hof rfl he
    rcases w.add_cases b breaker call with ⟨hb, hadd⟩ | ⟨hb, hadd⟩
    · refine .inl ⟨hadd, fun step' hmem => ?_⟩
      obtain rfl : step' = step := by simpa [he] using hmem
      rw [hstep]
      exact fun heq => hb (Option.some.inj heq)
    · exact .inr ⟨call, hadd, by rw [he, hof hb]⟩
  obtain ⟨-, hu⟩ := h
  unfold Uses at hu
  split at hu
  · next b admitted =>
    obtain ⟨t, now, rfl, hw⟩ := hu
    exact hcall b _ (.asked b _) rfl (by rintro rfl; rfl) hw rfl
  · next b state =>
    obtain ⟨t, -, hw⟩ := hu
    exact hcall b _ (.read b) rfl (by rintro rfl; rfl) hw rfl
  · next b _ => exact hcall b _ (.success b) rfl (by rintro rfl; rfl) hu rfl
  · next b _ =>
    obtain ⟨t, hw⟩ := hu
    exact hcall b _ (.failure b) rfl (by rintro rfl; rfl) hw rfl
  · next hallow hread hsuccess hfailure =>
    refine .inl ⟨congrFun hu breaker, fun step hmem => ?_⟩
    obtain ⟨e', he', hstep⟩ := List.mem_filterMap.mp hmem
    obtain rfl : e' = e := by simpa using he'
    unfold step? at hstep
    split at hstep
    · exact (hallow _ _ rfl).elim
    · exact (hread _ _ rfl).elim
    · exact (hsuccess _ _ rfl).elim
    · exact (hfailure _ _ rfl).elim
    · cases hstep
      exact nofun
    · cases hstep
      exact nofun
    · split at hstep <;> cases hstep
      exact nofun
    · cases hstep
      exact nofun
    · cases hstep

/-- What a step does to the number of consecutive failures of a breaker. -/
def reported (breaker : String) (k : ℕ) : Step → ℕ
  | .success b => if b = breaker then 0 else k
  | .failure b => if b = breaker then k + 1 else k
  | _ => k

theorem reported_of_ne {step : Step} (h : step.breaker? ≠ some breaker) (k : ℕ) :
    reported breaker k step = k := by
  cases step <;> simp_all [reported, Step.breaker?]

/-- The consecutive failures a breaker has counted. -/
def failures (n : ℕ) (cooldown : ℚ) (w : BreakerCalls) (breaker : String) : ℕ :=
  streak (history n cooldown (w breaker))

theorem failures_answers {w w' : BreakerCalls} {e : Ev} (h : (breakers n cooldown).answers w e w') :
    failures n cooldown w' breaker =
      (steps [e]).foldl (reported breaker) (failures n cooldown w breaker) := by
  unfold failures
  rcases answers_cases h breaker with ⟨hsame, hsteps⟩ | ⟨call, hcall, hsteps⟩
  · rw [hsame]
    generalize steps [e] = ss at hsteps ⊢
    induction ss with
    | nil => rfl
    | cons step ss ih =>
      rw [List.foldl_cons, reported_of_ne (hsteps step (.head _))]
      exact ih fun step hmem => hsteps step (.tail _ hmem)
  · rw [hcall, hsteps, history]
    cases call with
    | allowRequest t now =>
      rw [entry]
      split <;> rfl
    | state t => rfl
    | recordSuccess => simp [stepOf, reported, entry, streak]
    | recordFailure t => simp [stepOf, reported, entry, streak]

/-- The steps of a trace tell what it does to the number of consecutive failures. -/
theorem failures_evolves {w w' : BreakerCalls} {t : List Ev}
    (h : (breakers n cooldown).Evolves w t w') :
    failures n cooldown w' breaker =
      (steps t).foldl (reported breaker) (failures n cooldown w breaker) := by
  induction t generalizing w with
  | nil =>
    obtain rfl := World.Evolves.nil_iff.mp h
    rfl
  | cons e t ih =>
    obtain ⟨v, he, ht⟩ := World.Evolves.cons_iff.mp h
    rw [ih ht, failures_answers he, ← List.foldl_append, ← steps_append]
    rfl

/-! ## Tours of either method -/

/-- How the last hop of a request ends, whichever method handles it: its provider has answered or
opened a stream, which may have broken off, or the request is cut off. -/
inductive HopEnd (hop : Hop) : List Step → Prop
  | served (result : CallResult) (h : ∀ m r, result ≠ .providerError m r) :
      HopEnd hop
        [.called hop.provider hop.model result, .success hop.breaker, .read hop.breaker]
  | broke (result : CallResult) (h : ∀ m r, result ≠ .providerError m r) :
      HopEnd hop
        [.called hop.provider hop.model result, .success hop.breaker, .read hop.breaker, .broke,
          .failure hop.breaker, .read hop.breaker]
  | cut : HopEnd hop [.called hop.provider hop.model .other]
  | waiting : HopEnd hop [.interrupted]

/-- A tour of a chain, whatever the request returns. -/
def TourOf (n : ℕ) (skip : Finset String) (hops : List Hop) (ss : List Step) : Prop :=
  ∃ r : Except Exc Unit, Tour (fun hop last _ => HopEnd hop last) n skip hops ss r

theorem Tour.of {Last : Hop → List Step → Except Exc α → Prop} {skip : Finset String}
    {hops : List Hop} {ss : List Step} {r : Except Exc α} (h : Tour Last n skip hops ss r)
    (hlast : ∀ hop last r, Last hop last r → HopEnd hop last) : TourOf n skip hops ss := by
  cases h with
  | exhausted h message => exact ⟨_, .exhausted h message⟩
  | ended hhops h hskip failures hlen hl =>
    exact ⟨.ok (), .ended hhops h hskip failures hlen (hlast _ _ _ hl)⟩

theorem CutOff.hopEnd {hop : Hop} {last : List Step} {r : Except Exc α} (h : CutOff hop last r) :
    HopEnd hop last := by
  cases h with
  | call e => exact .cut
  | wait e => exact .waiting

theorem ChatLast.hopEnd {hop : Hop} {last : List Step} {r : Except Exc ChatResponse}
    (h : ChatLast hop last r) : HopEnd hop last := by
  rcases h with h | h
  · cases h with
    | completion c => exact .served (.completion c) nofun
  · exact h.hopEnd

theorem StreamLast.hopEnd {hop : Hop} {last : List Step} {r : Except Exc Unit}
    (h : StreamLast hop last r) : HopEnd hop last := by
  cases h with
  | opened first rest ending => exact .served (.stream first rest ending) nofun
  | broke first rest ending message => exact .broke (.stream first rest ending) nofun
  | cutOff h => exact h.hopEnd

/-- A complete run of `chat` or `chat_stream` over a chain in which the hops of `provider`, and no
others, go by `breaker`. -/
inductive Handles (provider breaker : String) : List Ev → Prop
  | chat {messages : List ChatMessage} {params : Option SamplingParams} {retryAttempts : ℕ}
      {skip : Finset String} {hops : List Hop} {t : List Ev} {r : Except Exc ChatResponse}
      (hown : ∀ hop ∈ hops, hop.breaker = breaker ↔ hop.provider = provider)
      (h : Coro.Runs (chat messages params retryAttempts skip hops : Py Unit ChatResponse) () t r
        ()) : Handles provider breaker t
  | chatStream {messages : List ChatMessage} {params : Option SamplingParams} {retryAttempts : ℕ}
      {skip : Finset String} {hops : List Hop} {t : List Ev} {r : Except Exc Unit}
      (hown : ∀ hop ∈ hops, hop.breaker = breaker ↔ hop.provider = provider)
      (h : Coro.Runs (chatStream messages params retryAttempts skip hops : Py Unit Unit) () t r
        ()) : Handles provider breaker t

theorem Handles.tour {t : List Ev} (h : Handles provider breaker t) (hA : ∀ e ∈ t, Orderly e) :
    ∃ m skip hops, 1 ≤ m ∧ (∀ hop ∈ hops, hop.breaker = breaker ↔ hop.provider = provider) ∧
      TourOf m skip hops (steps t) := by
  cases h with
  | @chat _ _ retryAttempts skip hops _ _ hown h =>
    exact ⟨retryAttempts + 1, skip, hops, Nat.succ_pos _, hown,
      (tour_chat.apply h hA).of fun _ _ _ => ChatLast.hopEnd⟩
  | @chatStream _ _ retryAttempts skip hops _ _ hown h =>
    exact ⟨retryAttempts + 1, skip, hops, Nat.succ_pos _, hown,
      (tour_chatStream.apply h hA).of fun _ _ _ => StreamLast.hopEnd⟩

/-! ## What a request means for one provider -/

/-- Some call of the request went to `provider`. -/
def attempted (provider : String) (ss : List Step) : Bool :=
  ss.any fun
    | .called p _ _ => p = provider
    | _ => false

/-- Every call that went to `provider`, and there was one, failed before any output. -/
def FailsEarly (provider : String) (ss : List Step) : Prop :=
  attempted provider ss = true ∧ .interrupted ∉ ss ∧
    ∀ model result, .called provider model result ∈ ss → ∃ m r, result = .providerError m r

/-- The stream that `provider` opened broke off. -/
def FailsMidStream (provider : String) (ss : List Step) : Prop :=
  .broke ∈ ss ∧ ∃ model first rest ending, .called provider model (.stream first rest ending) ∈ ss

section Steps

variable {m k : ℕ} {skip : Finset String} {hops : List Hop} {ss last : List Step} {hop : Hop}
  {es : List (String × Bool)}

theorem attempted_iff : attempted provider ss = true ↔
    ∃ model result, .called provider model result ∈ ss := by
  rw [attempted, List.any_eq_true]
  constructor
  · rintro ⟨step, hmem, hstep⟩
    split at hstep
    · next p model result =>
      obtain rfl : p = provider := by simpa using hstep
      exact ⟨model, result, hmem⟩
    · cases hstep
  · rintro ⟨model, result, hmem⟩
    exact ⟨_, hmem, by simp⟩

theorem foldl_failedCalls : (failedCalls hop es).foldl (reported breaker) k = k := by
  induction es with
  | nil => rfl
  | cons e es ih => exact ih

/-- What the hops that are passed do to the count of `breaker`: it does not fall, and it rises if
`provider` was called. -/
theorem Passed.reported_le (h : Passed m skip hops ss)
    (hown : ∀ hop ∈ hops, hop.breaker = breaker ↔ hop.provider = provider) (k : ℕ) :
    k ≤ ss.foldl (reported breaker) k ∧
      (attempted provider ss = true → k + 1 ≤ ss.foldl (reported breaker) k) := by
  induction h generalizing k with
  | nil => exact ⟨le_rfl, nofun⟩
  | skipped hskip h ih => exact ih (fun hop hmem => hown hop (.tail _ hmem)) k
  | refused hskip h ih => exact ih (fun hop hmem => hown hop (.tail _ hmem)) k
  | @failed hop rest ss hskip es hes h ih =>
    have hrest := ih fun hop hmem => hown hop (.tail _ hmem)
    have hfold : (.asked hop.breaker true :: .read hop.breaker :: failedCalls hop es ++
        .failure hop.breaker :: .read hop.breaker :: ss).foldl (reported breaker) k =
          ss.foldl (reported breaker) (if hop.breaker = breaker then k + 1 else k) := by
      simp only [List.cons_append, List.foldl_cons, List.foldl_append, foldl_failedCalls, reported]
    rw [hfold]
    by_cases hb : hop.breaker = breaker
    · rw [if_pos hb]
      exact ⟨(Nat.le_succ k).trans (hrest _).1, fun _ => (hrest _).1⟩
    · rw [if_neg hb]
      refine ⟨(hrest k).1, fun hatt => (hrest k).2 ?_⟩
      have hprov : hop.provider ≠ provider := fun hp => hb ((hown hop (.head _)).mpr hp)
      obtain ⟨model, result, hmem⟩ := attempted_iff.mp hatt
      refine attempted_iff.mpr ⟨model, result, ?_⟩
      simp only [List.cons_append, List.mem_cons, List.mem_append, reduceCtorEq, false_or] at hmem
      rcases hmem with hmem | hmem
      · obtain ⟨_, _, heq⟩ := mem_failedCalls hmem
        exact absurd (Step.called.inj heq).1.symm hprov
      · exact hmem

/-- A hop of another provider does nothing to the count of `breaker`. -/
theorem HopEnd.reported_eq (h : HopEnd hop last) (hb : hop.breaker ≠ breaker) (k : ℕ) :
    last.foldl (reported breaker) k = k := by
  cases h <;> simp [reported, hb]

theorem Passed.broke_notMem (h : Passed m skip hops ss) : .broke ∉ ss := by
  have hcalls : ∀ (hop : Hop) (es : List (String × Bool)), .broke ∉ failedCalls hop es := by
    intro hop es hmem
    obtain ⟨_, _, heq⟩ := mem_failedCalls hmem
    cases heq
  induction h with
  | nil => exact List.not_mem_nil
  | skipped hskip h ih => exact ih
  | refused hskip h ih => simpa using ih
  | failed hskip es hes h ih => simpa using ⟨hcalls _ es, ih⟩

/-- The only calls of the hops that are passed are ones that failed. -/
theorem Passed.of_called (h : Passed m skip hops ss) {p model : String} {result : CallResult}
    (hmem : .called p model result ∈ ss) : ∃ message retryable,
      result = .providerError message retryable := by
  induction h with
  | nil => cases hmem
  | skipped hskip h ih => exact ih hmem
  | refused hskip h ih => exact ih (by simpa using hmem)
  | failed hskip es hes h ih =>
    simp only [List.cons_append, List.mem_cons, List.mem_append, reduceCtorEq, false_or] at hmem
    rcases hmem with hmem | hmem
    · obtain ⟨message, retryable, heq⟩ := mem_failedCalls hmem
      exact ⟨message, retryable, (Step.called.inj heq).2.2⟩
    · exact ih hmem

/-- The calls of the last hop are its own, and none of them is a `ProviderError`. -/
theorem HopEnd.of_called (h : HopEnd hop last) {p model : String} {result : CallResult}
    (hmem : .called p model result ∈ last) :
    p = hop.provider ∧ ∀ m r, result ≠ .providerError m r := by
  cases h with
  | served result' hr =>
    obtain ⟨rfl, -, rfl⟩ : p = hop.provider ∧ model = hop.model ∧ result = result' := by
      simpa using hmem
    exact ⟨rfl, hr⟩
  | broke result' hr =>
    obtain ⟨rfl, -, rfl⟩ : p = hop.provider ∧ model = hop.model ∧ result = result' := by
      simpa using hmem
    exact ⟨rfl, hr⟩
  | cut =>
    obtain ⟨rfl, -, rfl⟩ : p = hop.provider ∧ model = hop.model ∧ result = .other := by
      simpa using hmem
    exact ⟨rfl, nofun⟩
  | waiting => simp at hmem

/-- The last hop is called in the end, unless the request is cut off while it waits. -/
theorem HopEnd.called_or (h : HopEnd hop last) :
    .interrupted ∈ last ∨ ∃ result, .called hop.provider hop.model result ∈ last := by
  cases h with
  | served result hr => exact .inr ⟨result, .head _⟩
  | broke result hr => exact .inr ⟨result, .head _⟩
  | cut => exact .inr ⟨.other, .head _⟩
  | waiting => exact .inl (.head _)

theorem foldl_ended (k : ℕ) :
    (ss ++ .asked hop.breaker true :: .read hop.breaker :: failedCalls hop es ++ last).foldl
      (reported breaker) k = last.foldl (reported breaker) (ss.foldl (reported breaker) k) := by
  simp only [List.cons_append, List.append_assoc, List.foldl_cons, List.foldl_append,
    foldl_failedCalls, reported]

theorem mem_ended {step : Step}
    (h : step ∈ ss ++ .asked hop.breaker true :: .read hop.breaker :: failedCalls hop es ++ last)
    (hasked : step ≠ .asked hop.breaker true) (hread : step ≠ .read hop.breaker) :
    step ∈ ss ∨ step ∈ failedCalls hop es ∨ step ∈ last := by
  simpa [hasked, hread] using h

/-- A request that does not call `provider` leaves its breaker's count alone. -/
theorem TourOf.le_of_unattempted (h : TourOf m skip hops ss)
    (hown : ∀ hop ∈ hops, hop.breaker = breaker ↔ hop.provider = provider)
    (hatt : attempted provider ss = false) (k : ℕ) : k ≤ ss.foldl (reported breaker) k := by
  obtain ⟨r, h⟩ := h
  cases h with
  | exhausted h message => exact (h.reported_le hown k).1
  | @ended before later hop ps last _ hhops h hskip failures hlen hlast =>
    subst hhops
    have hbefore := (h.reported_le (fun hop hmem => hown hop (List.mem_append_left _ hmem)) k).1
    rw [foldl_ended]
    rcases hlast.called_or with hwait | ⟨result, hcall⟩
    · cases hlast <;> simp at hwait
      simpa [reported] using hbefore
    have hprov : hop.provider ≠ provider := by
      rintro rfl
      rw [attempted_iff.mpr ⟨hop.model, result, List.mem_append_right _ hcall⟩] at hatt
      cases hatt
    have hb : hop.breaker ≠ breaker := fun hb => hprov ((hown hop (by simp)).mp hb)
    rwa [hlast.reported_eq hb]

/-- A request in which `provider` fails before any output adds to its breaker's count. -/
theorem TourOf.succ_le_of_failsEarly (h : TourOf m skip hops ss)
    (hown : ∀ hop ∈ hops, hop.breaker = breaker ↔ hop.provider = provider)
    (hfails : FailsEarly provider ss) (k : ℕ) : k + 1 ≤ ss.foldl (reported breaker) k := by
  obtain ⟨hatt, hwait, hcalls⟩ := hfails
  obtain ⟨r, h⟩ := h
  cases h with
  | exhausted h message => exact (h.reported_le hown k).2 hatt
  | @ended before later hop ps last _ hhops h hskip failures hlen hlast =>
    subst hhops
    have hlasthop : ∃ result, .called hop.provider hop.model result ∈ last :=
      hlast.called_or.resolve_left fun hmem => hwait (List.mem_append_right _ hmem)
    obtain ⟨result, hcall⟩ := hlasthop
    have hprov : hop.provider ≠ provider := by
      rintro rfl
      obtain ⟨message, retryable, hres⟩ := hcalls _ _ (List.mem_append_right _ hcall)
      exact (hlast.of_called hcall).2 message retryable hres
    have hb : hop.breaker ≠ breaker := fun hb => hprov ((hown hop (by simp)).mp hb)
    rw [foldl_ended, hlast.reported_eq hb]
    -- the calls of `provider` are those of the hops that were passed
    refine (h.reported_le (fun hop hmem => hown hop (List.mem_append_left _ hmem)) k).2 ?_
    obtain ⟨model, result', hmem⟩ := attempted_iff.mp hatt
    refine attempted_iff.mpr ⟨model, result', ?_⟩
    rcases mem_ended hmem nofun nofun with hmem | hmem | hmem
    · exact hmem
    · obtain ⟨_, _, heq⟩ := mem_failedCalls hmem
      exact absurd (Step.called.inj heq).1.symm hprov
    · exact absurd (hlast.of_called hmem).1.symm hprov

/-- After a stream of `provider` has broken off its breaker has counted a failure. -/
theorem TourOf.pos_of_failsMidStream (h : TourOf m skip hops ss)
    (hown : ∀ hop ∈ hops, hop.breaker = breaker ↔ hop.provider = provider)
    (hfails : FailsMidStream provider ss) (k : ℕ) : 1 ≤ ss.foldl (reported breaker) k := by
  obtain ⟨hbroke, model, first, rest, ending, hcall⟩ := hfails
  obtain ⟨r, h⟩ := h
  cases h with
  | exhausted h message => exact absurd hbroke h.broke_notMem
  | @ended before later hop ps last _ hhops h hskip failures hlen hlast =>
    subst hhops
    have hlastbroke : .broke ∈ last := by
      rcases mem_ended hbroke nofun nofun with hmem | hmem | hmem
      · exact absurd hmem h.broke_notMem
      · obtain ⟨_, _, heq⟩ := mem_failedCalls hmem
        cases heq
      · exact hmem
    have hprov : provider = hop.provider := by
      rcases mem_ended hcall nofun nofun with hmem | hmem | hmem
      · obtain ⟨_, _, heq⟩ := h.of_called hmem
        cases heq
      · obtain ⟨_, _, heq⟩ := mem_failedCalls hmem
        cases heq
      · exact (hlast.of_called hmem).1
    have hb : hop.breaker = breaker := (hown hop (by simp)).mpr hprov.symm
    rw [foldl_ended]
    cases hlast with
    | broke result hr => simp [reported, hb]
    | served result hr => simp at hlastbroke
    | cut => simp at hlastbroke
    | waiting => simp at hlastbroke

end Steps

/-! ## A breaker that has opened -/

/-- No request gets past `breaker` before the next report to it. -/
def Guarded (breaker : String) : List Step → Prop
  | [] => True
  | .asked b admitted :: ss => ¬ (b = breaker ∧ admitted = true) ∧ Guarded breaker ss
  | .success b :: ss => b = breaker ∨ Guarded breaker ss
  | .failure b :: ss => b = breaker ∨ Guarded breaker ss
  | _ :: ss => Guarded breaker ss

theorem guarded_append_of_ne {ss ss' : List Step} (h : ∀ step ∈ ss, step.breaker? ≠ some breaker)
    (h' : Guarded breaker ss') : Guarded breaker (ss ++ ss') := by
  induction ss with
  | nil => exact h'
  | cons step ss ih =>
    have hstep := h step (.head _)
    have hrest := ih fun step hmem => h step (.tail _ hmem)
    cases step with
    | asked b admitted => exact ⟨fun hb => hstep (congrArg some hb.1), hrest⟩
    | success b => exact .inr hrest
    | failure b => exact .inr hrest
    | _ => exact hrest

/-- The calls a breaker has had are kept. -/
theorem calls_suffix {w w' : BreakerCalls} {t : List Ev} (h : (breakers n cooldown).Evolves w t w')
    (breaker : String) : ∃ new, w' breaker = new ++ w breaker := by
  induction t generalizing w with
  | nil =>
    obtain rfl := World.Evolves.nil_iff.mp h
    exact ⟨[], rfl⟩
  | cons e t ih =>
    obtain ⟨v, he, ht⟩ := World.Evolves.cons_iff.mp h
    obtain ⟨new, hnew⟩ := ih ht
    rcases answers_cases he breaker with ⟨hsame, -⟩ | ⟨call, hcall, -⟩
    · exact ⟨new, hnew.trans (congrArg (new ++ ·) hsame)⟩
    · exact ⟨new ++ [call], by rw [hnew, hcall]; simp⟩

/-- Within a cooldown of the failure that opened it, a breaker lets no request past. -/
theorem guarded_evolves (hn : 1 ≤ n) {w w' : BreakerCalls} {t : List Ev} {f : ℚ} {new : List (Op ℚ)}
    (h : (breakers n cooldown).Evolves w t w') (hopen : n ≤ failures n cooldown w breaker)
    (hf : lastFailure (history n cooldown (w breaker)) = some f) (hclock : Timely (w' breaker))
    (hnew : w' breaker = new ++ w breaker)
    (hwithin : ∀ s ∈ new.flatMap Op.readings, s - f < cooldown) : Guarded breaker (steps t) := by
  induction t generalizing w new with
  | nil => trivial
  | cons e t ih =>
    obtain ⟨v, he, ht⟩ := World.Evolves.cons_iff.mp h
    rw [← List.singleton_append, steps_append]
    rcases answers_cases he breaker with ⟨hsame, hsteps⟩ | ⟨call, hcall, hsteps⟩
    · refine guarded_append_of_ne hsteps (ih ht ?_ ?_ (hnew.trans ?_) hwithin)
      · show n ≤ streak (history n cooldown (v breaker))
        rwa [hsame]
      · rwa [hsame]
      · rw [hsame]
    obtain ⟨new', hnew'⟩ := calls_suffix ht breaker
    obtain rfl : new = new' ++ [call] := by
      rw [hcall, hnew, List.append_cons] at hnew'
      exact List.append_cancel_right hnew'
    rw [List.flatMap_append, List.forall_mem_append] at hwithin
    obtain ⟨hwithin', hcallwithin⟩ := hwithin
    -- an entry that is neither a report nor an admission leaves the breaker open
    have hgo : ∀ e', (after n cooldown (w breaker)).entry call = e' → (e' = .refused ∨ e' = .read) →
        Guarded breaker (steps t) := by
      rintro e' he' hquiet
      have hhist : history n cooldown (v breaker) = e' :: history n cooldown (w breaker) := by
        rw [hcall, history, he']
      refine ih ht ?_ ?_ (hcall ▸ hnew') hwithin'
      · show n ≤ streak (history n cooldown (v breaker))
        rw [hhist]
        rcases hquiet with rfl | rfl <;> exact hopen
      · rw [hhist]
        rcases hquiet with rfl | rfl <;> exact hf
    rw [hsteps]
    cases call with
    | allowRequest s now =>
      have htimely : Timely (.allowRequest s now :: w breaker) := by
        rw [hnew', hcall] at hclock
        exact hclock.of_append
      have hrefused : ((after n cooldown (w breaker)).allowRequest s now).1 = false := by
        rw [Bool.eq_false_iff, Ne, allowRequest_after_iff hn htimely]
        rintro (hlt | ⟨hcool, -⟩)
        · exact absurd hopen (not_le.mpr hlt)
        · exact absurd (hcool f hf) (not_le.mpr (hcallwithin s (by simp [Op.readings])))
      refine ⟨fun hb => ?_, hgo .refused ?_ (.inl rfl)⟩
      · cases hrefused.symm.trans hb.2
      · rw [entry, hrefused]
        rfl
    | state s => exact hgo .read rfl (.inr rfl)
    | recordSuccess => exact .inl rfl
    | recordFailure s => exact .inl rfl

section Guarded

variable {m : ℕ} {skip : Finset String} {hops : List Hop} {hop : Hop} {ss rest last : List Step}
  {es : List (String × Bool)}

theorem Guarded.of_failedCalls (h : Guarded breaker (failedCalls hop es ++ rest)) :
    Guarded breaker rest := by
  induction es with
  | nil => exact h
  | cons e es ih => exact ih h

theorem attempted_failedCalls (hprov : hop.provider ≠ provider) :
    attempted provider (failedCalls hop es) = false := by
  rw [← Bool.not_eq_true, attempted_iff]
  rintro ⟨model, result, hmem⟩
  obtain ⟨_, _, heq⟩ := mem_failedCalls hmem
  exact hprov (Step.called.inj heq).1.symm

/-- The hops that are passed do not call `provider` if its breaker is guarded. -/
theorem Passed.unattempted (h : Passed m skip hops ss)
    (hown : ∀ hop ∈ hops, hop.breaker = breaker ↔ hop.provider = provider)
    (hguard : Guarded breaker (ss ++ rest)) :
    attempted provider ss = false ∧ Guarded breaker rest := by
  induction h with
  | nil => exact ⟨rfl, hguard⟩
  | skipped hskip h ih => exact ih (fun hop hmem => hown hop (.tail _ hmem)) hguard
  | refused hskip h ih => exact ih (fun hop hmem => hown hop (.tail _ hmem)) hguard.2
  | @failed hop rest' ss hskip es hes h ih =>
    rw [List.append_assoc] at hguard
    obtain ⟨hasked, hguard⟩ := hguard
    have hb : hop.breaker ≠ breaker := fun hb => hasked ⟨hb, rfl⟩
    have hprov : hop.provider ≠ provider := fun hp => hb ((hown hop (.head _)).mpr hp)
    have hcalls : Guarded breaker (failedCalls hop es ++
        .failure hop.breaker :: .read hop.breaker :: (ss ++ rest)) := hguard
    have hfailure := hcalls.of_failedCalls
    obtain ⟨hrest, hguard⟩ :=
      ih (fun hop hmem => hown hop (.tail _ hmem)) (hfailure.resolve_left hb)
    refine ⟨?_, hguard⟩
    show attempted provider (failedCalls hop es ++ _) = false
    rw [attempted, List.any_append, Bool.or_eq_false_iff]
    exact ⟨attempted_failedCalls hprov, hrest⟩

/-- A request does not call `provider` if its breaker is guarded. -/
theorem TourOf.unattempted (h : TourOf m skip hops ss)
    (hown : ∀ hop ∈ hops, hop.breaker = breaker ↔ hop.provider = provider)
    (hguard : Guarded breaker ss) : attempted provider ss = false := by
  obtain ⟨r, h⟩ := h
  cases h with
  | exhausted h message =>
    rw [← List.append_nil ss] at hguard
    exact (h.unattempted hown hguard).1
  | @ended before later hop ps last _ hhops h hskip failures hlen hlast =>
    subst hhops
    rw [List.append_assoc] at hguard ⊢
    obtain ⟨hbefore, hasked, -⟩ :=
      h.unattempted (fun hop hmem => hown hop (List.mem_append_left _ hmem)) hguard
    have hprov : hop.provider ≠ provider := fun hp => hasked ⟨(hown hop (by simp)).mpr hp, rfl⟩
    have hlastnone : attempted provider last = false := by
      rw [← Bool.not_eq_true, attempted_iff]
      rintro ⟨model, result, hmem⟩
      exact hprov (hlast.of_called hmem).1.symm
    rw [attempted, List.any_append, Bool.or_eq_false_iff]
    refine ⟨hbefore, ?_⟩
    show attempted provider (failedCalls hop _ ++ last) = false
    rw [attempted, List.any_append, Bool.or_eq_false_iff]
    exact ⟨attempted_failedCalls hprov, hlastnone⟩

end Guarded

/-! ## Runs of requests -/

section Runs

variable {w w' : BreakerCalls}

/-- Requests that, if they call `provider` at all, fail there before any output, add to the count of
its breaker each time they do. -/
theorem failures_le_of_requests {requests : List (List Ev)}
    (hrun : ∀ t ∈ requests, Handles provider breaker t)
    (hfails : ∀ t ∈ requests, attempted provider (steps t) = true → FailsEarly provider (steps t))
    (h : (breakers n cooldown).Evolves w requests.flatten w') :
    failures n cooldown w breaker + requests.countP (fun t => attempted provider (steps t)) ≤
      failures n cooldown w' breaker := by
  induction requests generalizing w with
  | nil =>
    obtain rfl := World.Evolves.nil_iff.mp h
    exact le_rfl
  | cons t requests ih =>
    rw [List.flatten_cons] at h
    obtain ⟨v, ht, hrest⟩ := World.Evolves.append_iff.mp h
    have hA : ∀ e ∈ t, Orderly e := orderly_evolves ht
    obtain ⟨m, skip, hops, -, hown, htour⟩ := (hrun t (.head _)).tour hA
    have hlater := ih (fun t hmem => hrun t (.tail _ hmem))
      (fun t hmem => hfails t (.tail _ hmem)) hrest
    have hcount : failures n cooldown v breaker = _ := failures_evolves ht
    rw [List.countP_cons]
    cases hatt : attempted provider (steps t) with
    | true =>
      have := htour.succ_le_of_failsEarly hown (hfails t (.head _) hatt)
        (failures n cooldown w breaker)
      simp only [if_true]
      omega
    | false =>
      have := htour.le_of_unattempted hown hatt (failures n cooldown w breaker)
      simp only [Bool.false_eq_true, if_false]
      omega

/-- The breaker of `provider` is not closed. Until a cooldown has passed since its last failure it
reads as open, and a request does not call `provider`. -/
def Opened (n : ℕ) (cooldown : ℚ) (provider breaker : String) (w : BreakerCalls) : Prop :=
  (after n cooldown (w breaker)).state ≠ .closed ∧
    ∃ f, lastFailure (history n cooldown (w breaker)) = some f ∧
      (∀ t, (∀ s ∈ (w breaker).flatMap Op.readings, s ≤ t) → t - f < cooldown →
        ((after n cooldown (w breaker)).readState t).1 = .open) ∧
      ∀ next w' new, Handles provider breaker next → (breakers n cooldown).Evolves w next w' →
        Timely (w' breaker) → w' breaker = new ++ w breaker →
        (∀ s ∈ new.flatMap Op.readings, s - f < cooldown) →
          attempted provider (steps next) = false

theorem opened_of_failures (hn : 1 ≤ n) (hcount : n ≤ failures n cooldown w breaker) :
    Opened n cooldown provider breaker w := by
  have htracks : Tracks n cooldown _ _ _ := Tracks.after hn (w breaker)
  obtain ⟨f, hf⟩ := lastFailure_of_streak (hn.trans hcount)
  have hclosed : ∀ b : CircuitState, (b = .closed ↔ streak (history n cooldown (w breaker)) < n) →
      b ≠ .closed := fun b hb hc => absurd hcount (not_le.mpr (hb.mp hc))
  refine ⟨hclosed _ htracks.closed_iff, f, hf, fun t hts hwithin => ?_, ?_⟩
  · have hnot : ((after n cooldown (w breaker)).updateState t).state ≠ .halfOpen := fun hhalf =>
      not_le.mpr hwithin ((htracks.updateState_halfOpen_iff hn hts).mp hhalf |>.2 f hf)
    have hnot' := hclosed _ (htracks.updateState (t := t)).closed_iff
    show ((after n cooldown (w breaker)).updateState t).state = .open
    match hs : ((after n cooldown (w breaker)).updateState t).state with
    | .open => rfl
    | .closed => exact absurd hs hnot'
    | .halfOpen => exact absurd hs hnot
  · intro next w' new hnext hevolves hclock hnew hwithin
    obtain ⟨m, skip, hops, -, hown, htour⟩ := hnext.tour (orderly_evolves hevolves)
    exact htour.unattempted hown (guarded_evolves hn hevolves hcount hf hclock hnew hwithin)

/-- Requests are handled one after the other. Of those from `first` on, each that calls `provider`
fails there, and there are at least `n` of them. If none but `first` fails after its first chunk,
the breaker of `provider` opens. -/
theorem opens_after_failures (hn : 1 ≤ n) {before others : List (List Ev)} {first : List Ev}
    (hrun : ∀ t ∈ before ++ first :: others, Handles provider breaker t)
    (h : (breakers n cooldown).Evolves (fun _ => []) (before ++ first :: others).flatten w)
    (hfirst : FailsEarly provider (steps first) ∨ FailsMidStream provider (steps first))
    (hothers : ∀ t ∈ others, attempted provider (steps t) = true → FailsEarly provider (steps t))
    (hcount : n ≤ others.countP (fun t => attempted provider (steps t)) + 1) :
    Opened n cooldown provider breaker w := by
  rw [List.flatten_append, List.flatten_cons] at h
  obtain ⟨v, -, h⟩ := World.Evolves.append_iff.mp h
  obtain ⟨u, ht, hrest⟩ := World.Evolves.append_iff.mp h
  obtain ⟨m, skip, hops, -, hown, htour⟩ := (hrun first (by simp)).tour (orderly_evolves ht)
  have hpos : 1 ≤ failures n cooldown u breaker := by
    rw [failures_evolves ht]
    rcases hfirst with hearly | hmid
    · exact (Nat.le_add_left 1 _).trans (htour.succ_le_of_failsEarly hown hearly _)
    · exact htour.pos_of_failsMidStream hown hmid _
  have hlater := failures_le_of_requests (fun t hmem => hrun t (by simp [hmem])) hothers hrest
  exact opened_of_failures hn (by omega)

end Runs

/-! ## Streams that break off -/

/-- Breakers with a threshold of 2, a clock that stands still, and providers that reply to every
stream with `reply`. -/
def replying (reply : StreamReply) (w : BreakerCalls) : (c : Cmd) → Reply c × BreakerCalls
  | .allowRequest b =>
    (((after 2 30 (w b)).allowRequest 0 0).1, w.add b (.allowRequest 0 0))
  | .circuitState b => (((after 2 30 (w b)).readState 0).1, w.add b (.state 0))
  | .recordSuccess b => ((), w.add b .recordSuccess)
  | .recordFailure b => ((), w.add b (.recordFailure 0))
  | .providerStream _ _ _ _ => (reply, w)
  | c => (calm c, w)

theorem replying_answers {reply : StreamReply} (w : BreakerCalls) (c : Cmd) :
    (breakers 2 30).answers w ⟨c, (replying reply w c).1⟩ (replying reply w c).2 := by
  cases c with
  | allowRequest b => exact ⟨trivial, 0, 0, rfl, rfl⟩
  | circuitState b => exact ⟨trivial, 0, rfl, rfl⟩
  | recordSuccess b => exact ⟨trivial, rfl⟩
  | recordFailure b => exact ⟨trivial, 0, rfl⟩
  | metric m => exact ⟨rfl, rfl⟩
  | yieldChunk chunk => exact ⟨fun _ _ => nofun, rfl⟩
  | _ => exact ⟨trivial, rfl⟩

/-- A stream request to OpenAI. -/
def streamRequest (reply : StreamReply) (w : BreakerCalls) :
    List Ev × (Except Exc Unit × Unit) × BreakerCalls :=
  Prog.drive (replying reply) (chatStream [] none 0 ∅ [⟨"openai", "gpt-4o", "openai"⟩] ()) w

theorem handles_streamRequest (reply : StreamReply) (w : BreakerCalls) :
    Handles "openai" "openai" (streamRequest reply w).1 := by
  have hown : ∀ hop ∈ [(⟨"openai", "gpt-4o", "openai"⟩ : Hop)],
      hop.breaker = "openai" ↔ hop.provider = "openai" := by simp
  have hrun := Prog.returns_drive (I := gateway) (replying reply)
    ((chatStream [] none 0 ∅ [⟨"openai", "gpt-4o", "openai"⟩] : Py Unit Unit) ()) w
  exact Handles.chatStream (r := (streamRequest reply w).2.1.1) hown hrun

/-- A stream that breaks off after its first chunk. -/
def brokenOff : StreamReply :=
  .opened { content := .str "The" } [] (some (.providerError "connection reset" true))

/-- A stream that fails before its first chunk. -/
def unavailable : StreamReply := .failed (.exception (.providerError "HTTP 503" true))

/-- The steps of a stream that breaks off. -/
def brokenOffSteps : List Step :=
  [.asked "openai" true, .read "openai", .called "openai" "gpt-4o" (streamResult brokenOff),
    .success "openai", .read "openai", .broke, .failure "openai", .read "openai"]

theorem failsMidStream_brokenOffSteps : FailsMidStream "openai" brokenOffSteps := by
  refine ⟨by simp [brokenOffSteps], "gpt-4o", { content := .str "The" }, [],
    some (.providerError "connection reset" true), ?_⟩
  simp [brokenOffSteps, streamResult, brokenOff]

/-- The first stream of a new process breaks off. -/
def firstBroken : List Ev × (Except Exc Unit × Unit) × BreakerCalls :=
  streamRequest brokenOff fun _ => []

/-- The one after it fails before its first chunk. -/
def thenUnavailable : List Ev × (Except Exc Unit × Unit) × BreakerCalls :=
  streamRequest unavailable firstBroken.2.2

/-- The one after it breaks off as well. -/
def thenBroken : List Ev × (Except Exc Unit × Unit) × BreakerCalls :=
  streamRequest brokenOff firstBroken.2.2

theorem steps_firstBroken : steps firstBroken.1 = brokenOffSteps := rfl

theorem steps_thenBroken : steps thenBroken.1 = brokenOffSteps := rfl

theorem steps_thenUnavailable : steps thenUnavailable.1 =
    [.asked "openai" true, .read "openai", .called "openai" "gpt-4o" (streamResult unavailable),
      .failure "openai", .read "openai"] := rfl

theorem failsEarly_thenUnavailable : FailsEarly "openai" (steps thenUnavailable.1) := by
  rw [steps_thenUnavailable]
  refine ⟨by decide +kernel, by simp, fun model result hmem => ?_⟩
  have hresult : result = streamResult unavailable := by
    simp only [List.mem_cons, reduceCtorEq, Step.called.injEq, List.not_mem_nil, or_false,
      false_or] at hmem
    exact hmem.2.2
  exact ⟨_, _, hresult⟩

/-- A stream that breaks off and one that fails before its first chunk open a breaker with a
threshold of 2. -/
theorem opens_after_failures_two : Opened 2 30 "openai" "openai" thenUnavailable.2.2 := by
  have hrun : ∀ t ∈ ([] ++ firstBroken.1 :: [thenUnavailable.1] : List (List Ev)),
      Handles "openai" "openai" t := by
    intro t hmem
    rcases List.mem_pair.mp hmem with rfl | rfl <;> exact handles_streamRequest _ _
  have hevolves : (breakers 2 30).Evolves (fun _ => [])
      ([] ++ firstBroken.1 :: [thenUnavailable.1] : List (List Ev)).flatten
      thenUnavailable.2.2 := by
    show (breakers 2 30).Evolves _ (firstBroken.1 ++ (thenUnavailable.1 ++ [])) _
    rw [List.append_nil]
    exact World.Evolves.append_iff.mpr ⟨_, Pool.evolves_drive replying_answers _ _,
      Pool.evolves_drive replying_answers _ _⟩
  refine opens_after_failures (by decide) hrun hevolves (.inr ?_) (fun t hmem _ => ?_) ?_
  · rw [steps_firstBroken]
    exact failsMidStream_brokenOffSteps
  · rw [List.mem_singleton.mp hmem]
    exact failsEarly_thenUnavailable
  · decide +kernel

/-- With a threshold of 2, two streams in a row that break off leave the breaker closed. -/
theorem closed_after_midstream_failures :
    ∃ first second w, Handles "openai" "openai" first ∧ Handles "openai" "openai" second ∧
      (breakers 2 30).Evolves (fun _ => []) (first ++ second) w ∧ Timely (w "openai") ∧
      FailsMidStream "openai" (steps first) ∧ FailsMidStream "openai" (steps second) ∧
      (after 2 30 (w "openai")).state = .closed := by
  refine ⟨firstBroken.1, thenBroken.1, thenBroken.2.2, handles_streamRequest _ _,
    handles_streamRequest _ _,
    World.Evolves.append_iff.mpr ⟨_, Pool.evolves_drive replying_answers _ _,
      Pool.evolves_drive replying_answers _ _⟩, ?_, ?_, ?_, ?_⟩
  · unfold Timely
    decide +kernel
  · rw [steps_firstBroken]
    exact failsMidStream_brokenOffSteps
  · rw [steps_thenBroken]
    exact failsMidStream_brokenOffSteps
  · decide +kernel

end LlmGateway
