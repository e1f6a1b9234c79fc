import LlmGateway.Routing.Stream

/-!
# Whose words a stream is made of

The router may call several providers for a stream, and some of them more than once. What it hands on
are the chunks of the last call, from the first on and without a gap: `wp_chatStream_quotes`. A call
that came before has contributed nothing, and none comes after: `exists_lastCall`.
-/

namespace LlmGateway

open Coroutine

variable {σ α β : Type} {s : σ} {A : Ev → Prop}

/-- A chunk under the names of a hop. -/
def Hop.stamp (hop : Hop) (c : StreamChunk) : StreamChunk :=
  { c with provider := hop.provider, model := hop.model }

/-- Nothing is handed on, and no provider is called. -/
def Cmd.Backstage : Cmd → Prop
  | .yieldChunk _ | .providerChat _ _ _ _ | .providerStream _ _ _ _ => False
  | _ => True

theorem Cmd.Backstage.withheld {c : Cmd} (h : c.Backstage) : c.Withheld := by
  cases c <;> trivial

theorem upstream_of_backstage {t : List Ev} (h : ∀ e ∈ t, e.cmd.Backstage) : upstream t = [] := by
  refine List.filterMap_eq_nil_iff.mpr fun e he => ?_
  have hc := h e he
  obtain ⟨c, r⟩ := e
  cases c <;> first | rfl | exact hc.elim

section Hops

variable {messages : List ChatMessage} {params : Option SamplingParams} {attempt : ℕ} {hop : Hop}
  {t t' : List Ev}

/-- What is handed on are the first of the chunks, under the names of the hop, and no provider is
called. -/
structure PassesOn (hop : Hop) (chunks : List StreamChunk) (t : List Ev) : Prop where
  handedOn : yielded t <+: chunks.map hop.stamp
  upstream : upstream t = []

/-- The chunks that are handed on, if there are any, are the first of those that the last call of a
provider was answered with: a call of this hop, for these messages. -/
def Quotes (messages : List ChatMessage) (params : Option SamplingParams) (hop : Hop)
    (t : List Ev) : Prop :=
  yielded t = [] ∨ ∃ u first rest ending v, yielded u = [] ∧ PassesOn hop (first :: rest) v ∧
    t = u ++ ⟨.providerStream hop.provider hop.model messages params, .opened first rest ending⟩ :: v

theorem Quotes.prepend (h : Quotes messages params hop t') (hnil : yielded t = []) :
    Quotes messages params hop (t ++ t') := by
  rcases h with h | ⟨u, first, rest, ending, v, hu, hv, rfl⟩
  · refine .inl ?_
    rw [yielded_append, hnil, h, List.append_nil]
  · refine .inr ⟨t ++ u, first, rest, ending, v, ?_, hv, (List.append_assoc ..).symm⟩
    rw [yielded_append, hnil, hu, List.append_nil]

theorem PassesOn.append {chunks chunks' : List StreamChunk} (h : yielded t = chunks.map hop.stamp)
    (hup : LlmGateway.upstream t = []) (h' : PassesOn hop chunks' t') :
    PassesOn hop (chunks ++ chunks') (t ++ t') where
  handedOn := by
    rw [yielded_append, h, List.map_append, List.prefix_append_right_inj]
    exact h'.handedOn
  upstream := by rw [upstream_append, hup, h'.upstream, List.append_nil]

theorem passesOn_of_backstage {chunks : List StreamChunk} (h : ∀ e ∈ t, e.cmd.Backstage) :
    PassesOn hop chunks t where
  handedOn := by
    rw [yielded_of_withheld fun e he => (h e he).withheld]
    exact List.nil_prefix
  upstream := upstream_of_backstage h

/-- A part that neither hands on a chunk nor calls a provider can be left out. -/
theorem wp_passesOn_bind {m : Py σ α} {f : α → Py σ β} {chunks : List StreamChunk}
    (h : m.Only Cmd.Backstage)
    (hf : ∀ a s', (f a).wp A s' fun t _ _ => PassesOn hop chunks t) :
    (m >>= f).wp A s fun t _ _ => PassesOn hop chunks t := by
  rw [Coro.wp_bind]
  refine Coro.wp_mono h.wp fun t r s' _ ht => ?_
  cases r with
  | error e => exact passesOn_of_backstage ht
  | ok a =>
    refine Coro.wp_mono (hf a s') fun t' _ _ _ h' => ?_
    have hnil : yielded t = ([] : List StreamChunk).map hop.stamp :=
      yielded_of_withheld fun e he => (ht e he).withheld
    exact PassesOn.append hnil (upstream_of_backstage ht) h'

/-- A chunk, and what comes after it. -/
theorem wp_yieldStamped_bind {c : StreamChunk} {f : Unit → Py σ β} {rest : List StreamChunk}
    (hf : ∀ s', (f ()).wp A s' fun t _ _ => PassesOn hop rest t) :
    (yieldStamped hop c >>= f).wp A s fun t _ _ => PassesOn hop (c :: rest) t := by
  have hone : ∀ r : Except Exc Unit, yielded [(⟨.yieldChunk (hop.stamp c), r⟩ : Ev)] = [c].map hop.stamp :=
    fun _ => rfl
  rw [Coro.wp_bind, yieldStamped, Coro.wp_bind]
  refine Coro.wp_perform.mpr fun r _ => Coro.wp_ofExcept.mpr ?_
  cases r with
  | error e => exact ⟨⟨rest.map hop.stamp, rfl⟩, rfl⟩
  | ok u => exact Coro.wp_mono (hf s) fun t _ _ _ h => PassesOn.append (hone _) rfl h

theorem wp_relayRest_passesOn {ending : Option PyError} (chunks : List StreamChunk) (s : σ) :
    (relayRest hop ending chunks).wp A s fun t _ _ => PassesOn hop chunks t := by
  induction chunks generalizing s with
  | nil =>
    have hquiet : (relayRest hop ending [] : Py σ Unit).Only Cmd.Backstage := by
      unfold relayRest
      split
      · exact .bind (.perform trivial) fun _ => .ofExcept
      · exact .bind (.perform trivial) fun _ => .bind .ofExcept fun _ => only_throw
    exact Coro.wp_mono hquiet.wp fun _ _ _ _ h => passesOn_of_backstage h
  | cons c rest ih =>
    rw [relayRest]
    refine wp_passesOn_bind (.perform trivial) fun _ s₁ => wp_passesOn_bind .ofExcept fun _ s₂ => ?_
    exact wp_yieldStamped_bind fun s₃ => ih s₃

theorem only_publishCircuitState_backstage :
    (publishCircuitState hop : Py σ Unit).Only Cmd.Backstage :=
  .bind (.perform trivial) fun _ => only_metric trivial

/-- A hop that is committed to is quoted, and nothing that fails then is made up for. -/
theorem wp_commit_passesOn {first : StreamChunk} {rest : List StreamChunk} {ending : Option PyError} :
    (commit attempt hop first rest ending).wp A s fun t _ _ => PassesOn hop (first :: rest) t := by
  have hcount : (countFallback attempt : Py σ Unit).Only Cmd.Backstage :=
    .ite (fun _ => only_metric trivial) fun _ => .pure
  have hquiet : ∀ message, (do
      ask (.recordFailure hop.breaker)
      publishCircuitState hop
      throw (.allProvidersFailed (hop.provider ++ " failed mid-stream: " ++ message)) :
        Py σ Unit).Only Cmd.Backstage := fun _ =>
    .bind (.perform trivial) fun _ => .bind only_publishCircuitState_backstage fun _ => only_throw
  rw [commit]
  refine wp_passesOn_bind (.perform trivial) fun _ s₁ =>
    wp_passesOn_bind only_publishCircuitState_backstage fun _ s₂ =>
      wp_passesOn_bind (only_metric trivial) fun _ s₃ => wp_passesOn_bind hcount fun _ s₄ =>
        wp_yieldStamped_bind fun s₅ => ?_
  rw [Coro.wp_attempt]
  refine Coro.wp_mono (wp_relayRest_passesOn rest s₅) fun t r s' _ h => ?_
  cases r with
  | ok u => exact h
  | error x =>
    dsimp only
    split
    · next m hm =>
      split at hm
      · obtain rfl := Option.some.inj hm
        refine Coro.wp_mono (hquiet _).wp fun t' _ _ _ ht' => ⟨?_, ?_⟩
        · rw [yielded_append, yielded_of_withheld fun e he => (ht' e he).withheld, List.append_nil]
          exact h.handedOn
        · rw [upstream_append, h.upstream, upstream_of_backstage ht', List.append_nil]
      · cases hm
    · exact h

/-- A hop is quoted, and not at all if it is given up. -/
def QuotesOnly (messages : List ChatMessage) (params : Option SamplingParams) (hop : Hop)
    (m : Py σ (Except String Unit)) : Prop :=
  ∀ A s, m.wp A s fun t r _ => Quotes messages params hop t ∧
    ∀ message, r = .ok (.error message) → yielded t = []

theorem QuotesOnly.withheld_bind {m : Py σ α} {f : α → Py σ (Except String Unit)}
    (h : m.Only Cmd.Withheld) (hf : ∀ a, QuotesOnly messages params hop (f a)) :
    QuotesOnly messages params hop (m >>= f) := by
  intro A s
  rw [Coro.wp_bind]
  refine Coro.wp_mono h.wp fun t r s' _ ht => ?_
  have hnil : yielded t = [] := yielded_of_withheld ht
  cases r with
  | error e => exact ⟨.inl hnil, by rintro _ ⟨⟩⟩
  | ok a =>
    refine Coro.wp_mono (hf a A s') fun t' r' _ _ h' => ⟨h'.1.prepend hnil, fun message hr => ?_⟩
    rw [yielded_append, hnil, h'.2 message hr, List.append_nil]

theorem QuotesOnly.giveUp {message : String} :
    QuotesOnly messages params hop (pure (.error message) : Py σ _) :=
  fun _ _ => ⟨.inl rfl, fun _ _ => rfl⟩

/-- A call, and what is made of its reply. -/
theorem quotesOnly_call {again : String → Py σ (Except String Unit)}
    (hagain : ∀ message, QuotesOnly messages params hop (again message)) :
    QuotesOnly messages params hop (do
      let reply ← ask (.providerStream hop.provider hop.model messages params)
      onFirstChunk attempt hop again reply) := by
  have hfailure : ∀ message retryable,
      QuotesOnly messages params hop (onStreamFailure hop message retryable (again message)) := by
    intro message retryable
    refine .withheld_bind (only_metric trivial) fun _ => ?_
    split
    · exact hagain _
    · exact .giveUp
  intro A s
  rw [Coro.wp_bind]
  refine Coro.wp_perform.mpr fun reply _ => ?_
  have hunopened : ∀ {m : Py σ (Except String Unit)}, QuotesOnly messages params hop m →
      m.wp A s fun t r _ => Quotes messages params hop
        ([⟨.providerStream hop.provider hop.model messages params, reply⟩] ++ t) ∧
          ∀ message, r = .ok (.error message) →
            yielded ([(⟨.providerStream hop.provider hop.model messages params, reply⟩ : Ev)] ++ t) = [] :=
    fun hm => Coro.wp_mono (hm A s) fun t r _ _ h => ⟨h.1.prepend rfl, fun message hr => h.2 message hr⟩
  dsimp only
  cases reply with
  | failed e =>
    cases e with
    | exception e => cases e <;> first | exact hunopened (hfailure _ _) | exact ⟨.inl rfl, by rintro _ ⟨⟩⟩
    | _ => exact ⟨.inl rfl, by rintro _ ⟨⟩⟩
  | empty => exact hunopened (hfailure _ _)
  | opened first rest ending =>
    rw [onFirstChunk, Coro.wp_bind]
    refine Coro.wp_mono wp_commit_passesOn fun t r s' _ h => ?_
    have hquotes : Quotes messages params hop
        ([⟨.providerStream hop.provider hop.model messages params, .opened first rest ending⟩] ++ t) :=
      .inr ⟨[], first, rest, ending, t, rfl, h, rfl⟩
    cases r with
    | error e => exact ⟨hquotes, by rintro _ ⟨⟩⟩
    | ok u =>
      refine Coro.wp_pure.mpr ⟨?_, by rintro _ ⟨⟩⟩
      rwa [List.append_nil]

theorem quotesOnly_streamAttempts (retries : ℕ) :
    QuotesOnly messages params hop (streamAttempts messages params attempt hop retries : Py σ _) :=
  attempts_rule (P := fun _ m => QuotesOnly messages params hop m)
    (fun again => do
      let reply ← ask (.providerStream hop.provider hop.model messages params)
      onFirstChunk attempt hop again reply) rfl (fun _ => rfl) (fun _ => .giveUp)
    (fun _ _ h => .withheld_bind (.bind (.perform trivial) fun _ => .ofExcept) fun _ => h)
    (fun _ _ hagain => quotesOnly_call hagain) retries

end Hops

/-- A hop of the chain that is not to be skipped is quoted. -/
def QuotesOneOf (messages : List ChatMessage) (params : Option SamplingParams) (skip : Finset String)
    (hops : List Hop) (t : List Ev) : Prop :=
  yielded t = [] ∨ ∃ hop ∈ hops, hop.provider ∉ skip ∧ Quotes messages params hop t

section Walk

variable {messages : List ChatMessage} {params : Option SamplingParams} {skip : Finset String}
  {hops : List Hop} {t t' : List Ev}

theorem QuotesOneOf.prepend (h : QuotesOneOf messages params skip hops t') (hnil : yielded t = []) :
    QuotesOneOf messages params skip hops (t ++ t') := by
  rcases h with h | ⟨hop, hmem, hskip, h⟩
  · refine .inl ?_
    rw [yielded_append, hnil, h, List.append_nil]
  · exact .inr ⟨hop, hmem, hskip, h.prepend hnil⟩

theorem wp_quotesOneOf_bind {m : Py σ α} {f : α → Py σ β} (h : m.Only Cmd.Withheld)
    (hf : ∀ a s', (f a).wp A s' fun t _ _ => QuotesOneOf messages params skip hops t) :
    (m >>= f).wp A s fun t _ _ => QuotesOneOf messages params skip hops t := by
  rw [Coro.wp_bind]
  refine Coro.wp_mono h.wp fun t r s' _ ht => ?_
  have hnil : yielded t = [] := yielded_of_withheld ht
  cases r with
  | error e => exact .inl hnil
  | ok a => exact Coro.wp_mono (hf a s') fun _ _ _ _ h' => h'.prepend hnil

theorem wp_walk_quotes {serve : ℕ → Hop → Py σ (Except String Unit)}
    (hserve : ∀ attempt hop, QuotesOnly messages params hop (serve attempt hop)) (hops : List Hop)
    (attempt : ℕ) (errors : List String) (s : σ) :
    (walk skip serve attempt errors hops).wp A s fun t _ _ =>
      QuotesOneOf messages params skip hops t := by
  induction hops generalizing attempt errors s with
  | nil => exact .inl rfl
  | cons hop rest ih =>
    have hpass : ∀ attempt errors s, (walk skip serve attempt errors rest).wp A s fun t _ _ =>
        QuotesOneOf messages params skip (hop :: rest) t := by
      intro attempt errors s
      refine Coro.wp_mono (ih attempt errors s) fun _ _ _ _ h => ?_
      exact h.imp_right fun h => h.imp fun hop' h => ⟨List.mem_cons_of_mem _ h.1, h.2⟩
    rw [walk, Coro.wp_ite]
    refine ⟨fun _ => hpass _ _ s, fun hskip => ?_⟩
    refine wp_quotesOneOf_bind (.perform trivial) fun allowed s₁ =>
      wp_quotesOneOf_bind only_publishCircuitState_withheld fun _ s₂ => ?_
    rw [Coro.wp_ite]
    refine ⟨fun _ => ?_, fun _ => hpass _ _ s₂⟩
    rw [Coro.wp_bind]
    refine Coro.wp_mono (hserve attempt hop A s₂) fun t r s₃ _ h => ?_
    have hlast : QuotesOneOf messages params skip (hop :: rest) t :=
      .inr ⟨hop, List.mem_cons_self, hskip, h.1⟩
    rcases r with e | lastError | ⟨⟩
    · exact hlast
    -- a hop that is given up is not quoted
    · have hnil : yielded t = [] := h.2 _ rfl
      refine Coro.wp_mono (wp_quotesOneOf_bind (.perform trivial) fun _ _ =>
        wp_quotesOneOf_bind only_publishCircuitState_withheld fun _ s₄ => hpass _ _ s₄)
        fun _ _ _ _ h' => h'.prepend hnil
    · refine Coro.wp_pure.mpr ?_
      rwa [List.append_nil]

theorem wp_chatStream_quotes {retryAttempts : ℕ} :
    (chatStream messages params retryAttempts skip hops).wp A s fun t _ _ =>
      QuotesOneOf messages params skip hops t :=
  wp_walk_quotes (fun _ _ => quotesOnly_streamAttempts retryAttempts) hops 0 [] s

end Walk

/-! ## Runs that stop short -/

/-- The calls of providers with their replies, in order. -/
def upstreamEvents (t : List Ev) : List Ev := t.filterMap fun e => (called e).map fun _ => e

/-- The last call of a provider. -/
def lastCall (t : List Ev) : Option Ev := (upstreamEvents t).getLast?

theorem upstreamEvents_of_upstream {t : List Ev} (h : upstream t = []) : upstreamEvents t = [] := by
  refine List.filterMap_eq_nil_iff.mpr fun e he => ?_
  rw [List.filterMap_eq_nil_iff.mp h e he]
  rfl

theorem upstreamEvents_append (t t' : List Ev) :
    upstreamEvents (t ++ t') = upstreamEvents t ++ upstreamEvents t' :=
  List.filterMap_append

theorem upstreamEvents_call {e : Ev} {t : List Ev} {x : String × String} (h : called e = some x) :
    upstreamEvents (e :: t) = e :: upstreamEvents t :=
  List.filterMap_cons_some (by rw [h]; rfl)

/-- What the chain has handed on by some point is the beginning of what the provider that it called last
has streamed. -/
theorem exists_lastCall {messages : List ChatMessage} {params : Option SamplingParams} {hop : Hop}
    {u w : List Ev} (h : Quotes messages params hop (u ++ w)) (hne : yielded u ≠ []) :
    ∃ first rest ending,
      lastCall u = some
        ⟨.providerStream hop.provider hop.model messages params, .opened first rest ending⟩ ∧
      yielded u <+: (first :: rest).map hop.stamp := by
  rcases h with hnil | ⟨a, first, rest, ending, v, ha, hv, hsplit⟩
  · rw [yielded_append, List.append_eq_nil_iff] at hnil
    exact absurd hnil.1 hne
  -- the point is after the call, since before it nothing was handed on
  rcases List.append_eq_append_iff.mp hsplit with ⟨b, rfl, -⟩ | ⟨b, rfl, hb⟩
  · rw [yielded_append, List.append_eq_nil_iff] at ha
    exact absurd ha.1 hne
  · cases b with
    | nil =>
      rw [List.append_nil] at hne
      exact absurd ha hne
    | cons e b =>
      rw [List.cons_append] at hb
      obtain ⟨rfl, rfl⟩ := List.cons.inj hb
      have hquiet : upstreamEvents b = [] := by
        have hup := hv.upstream
        rw [upstream_append, List.append_eq_nil_iff] at hup
        exact upstreamEvents_of_upstream hup.1
      have hhanded := hv.handedOn
      rw [yielded_append] at hhanded
      refine ⟨first, rest, ending, ?_, ?_⟩
      · rw [lastCall, upstreamEvents_append, upstreamEvents_call rfl, hquiet]
        exact List.getLast?_concat
      · rw [yielded_append, ha, List.nil_append]
        exact (List.prefix_append _ _).trans hhanded

end LlmGateway
