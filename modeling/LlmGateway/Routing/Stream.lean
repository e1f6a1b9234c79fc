import LlmGateway.Routing.Fallback

/-!
# The chunks of the router

Which chunks a run of `FallbackRouter.chat_stream` hands on: those of one hop, under its names. A
hop that fails before its first chunk has handed on nothing, and one that has is committed to.
-/

namespace LlmGateway

open Coroutine

variable {σ α : Type} {s : σ} {A : Ev → Prop}

/-- The chunk an event handed to the reader of the router's stream. -/
def yielded? : Ev → Option StreamChunk
  | ⟨.yieldChunk c, _⟩ => some c
  | _ => none

/-- The chunks a trace handed on, in order. -/
def yielded (t : List Ev) : List StreamChunk := t.filterMap yielded?

@[simp] theorem yielded_append (t t' : List Ev) : yielded (t ++ t') = yielded t ++ yielded t' :=
  List.filterMap_append

/-- Any command but handing on a chunk. -/
def Cmd.Withheld : Cmd → Prop
  | .yieldChunk _ => False
  | _ => True

theorem yielded_of_withheld {t : List Ev} (h : ∀ e ∈ t, e.cmd.Withheld) : yielded t = [] := by
  refine List.filterMap_eq_nil_iff.mpr fun e he => ?_
  have hc := h e he
  obtain ⟨c, r⟩ := e
  cases c <;> first | rfl | exact hc.elim

/-- Every chunk goes under the names of the hop. -/
def StampedBy (hop : Hop) (t : List Ev) : Prop :=
  ∀ c ∈ yielded t, c.provider = hop.provider ∧ c.model = hop.model

theorem composes_stampedBy (hop : Hop) : Coro.Composes (StampedBy hop) where
  nil := by simp [StampedBy, yielded]
  append t t' h h' := by
    rw [StampedBy, yielded_append]
    exact List.forall_mem_append.mpr ⟨h, h'⟩

section Attempts

variable {messages : List ChatMessage} {params : Option SamplingParams} {attempt : ℕ} {hop : Hop}

theorem stampedBy_of_only {m : Py σ α} (h : m.Only Cmd.Withheld) :
    Coro.Along A (StampedBy hop) m :=
  .of_only h fun t ht => by simp [StampedBy, yielded_of_withheld ht]

theorem only_publishCircuitState_withheld :
    (publishCircuitState hop : Py σ Unit).Only Cmd.Withheld :=
  .bind (.perform trivial) fun _ => only_metric trivial

theorem stampedBy_yieldStamped {c : StreamChunk} :
    Coro.Along A (StampedBy hop) (yieldStamped hop c : Py σ Unit) :=
  .bind (composes_stampedBy hop)
    (.perform fun _ _ => by simp [StampedBy, yielded, yielded?]) fun _ =>
      .ofExcept (composes_stampedBy hop)

theorem stampedBy_relayRest {ending : Option PyError} (chunks : List StreamChunk) :
    Coro.Along A (StampedBy hop) (relayRest hop ending chunks : Py σ Unit) := by
  have hP := composes_stampedBy hop
  induction chunks with
  | nil =>
    unfold relayRest
    split
    · exact stampedBy_of_only (.bind (.perform trivial) fun _ => .ofExcept)
    · exact stampedBy_of_only (.bind (.perform trivial) fun _ => .bind .ofExcept fun _ => only_throw)
  | cons c rest ih =>
    refine .bind hP (stampedBy_of_only (.perform trivial)) fun _ => .bind hP (.ofExcept hP)
      fun _ => .bind hP stampedBy_yieldStamped fun _ => ih

theorem stampedBy_commit {first : StreamChunk} {rest : List StreamChunk} {ending : Option PyError} :
    Coro.Along A (StampedBy hop) (commit attempt hop first rest ending : Py σ Unit) := by
  have hP := composes_stampedBy hop
  have hquiet : (countFallback attempt : Py σ Unit).Only Cmd.Withheld :=
    .ite (fun _ => only_metric trivial) fun _ => .pure
  refine .bind hP (stampedBy_of_only (.perform trivial)) fun _ =>
    .bind hP (stampedBy_of_only only_publishCircuitState_withheld) fun _ =>
      .bind hP (stampedBy_of_only (only_metric trivial)) fun _ =>
        .bind hP (stampedBy_of_only hquiet) fun _ => .bind hP stampedBy_yieldStamped fun _ =>
          .attempt hP (stampedBy_relayRest rest) fun x c hc => ?_
  split at hc
  · obtain rfl := Option.some.inj hc
    exact stampedBy_of_only (.bind (.perform trivial) fun _ =>
      .bind only_publishCircuitState_withheld fun _ => only_throw)
  · cases hc

/-- A hop hands on chunks under its names, and none if it is given up. -/
def StreamsAs (hop : Hop) (m : Py σ (Except String Unit)) : Prop :=
  ∀ A s, m.wp A s fun t r _ => StampedBy hop t ∧ ∀ message, r = .ok (.error message) → yielded t = []

theorem StreamsAs.withheld_bind {m : Py σ α} {f : α → Py σ (Except String Unit)}
    (h : m.Only Cmd.Withheld) (hf : ∀ a, StreamsAs hop (f a)) : StreamsAs hop (m >>= f) := by
  intro A s
  rw [Coro.wp_bind]
  refine Coro.wp_mono h.wp fun t r s' _ ht => ?_
  have hnil : yielded t = [] := yielded_of_withheld ht
  match r with
  | .error e => exact ⟨by simp [StampedBy, hnil], nofun⟩
  | .ok a =>
    refine Coro.wp_mono (hf a A s') fun t' r' _ _ h' => ?_
    simpa only [StampedBy, yielded_append, hnil, List.nil_append] using h'

theorem StreamsAs.giveUp {message : String} : StreamsAs hop (pure (.error message) : Py σ _) :=
  fun _ _ => ⟨by simp [StampedBy, yielded], fun _ _ => rfl⟩

theorem streamsAs_onFirstChunk {again : String → Py σ (Except String Unit)}
    (hagain : ∀ message, StreamsAs hop (again message)) (reply : StreamReply) :
    StreamsAs hop (onFirstChunk attempt hop again reply) := by
  have hfailure : ∀ message retryable,
      StreamsAs hop (onStreamFailure hop message retryable (again message)) := by
    intro message retryable
    refine .withheld_bind (only_metric trivial) fun _ => ?_
    split
    · exact hagain _
    · exact .giveUp
  unfold onFirstChunk
  split
  · exact hfailure _ _
  · exact hfailure _ _
  · exact fun _ _ => ⟨by simp [StampedBy, yielded], nofun⟩
  · intro A s
    rw [Coro.wp_bind]
    refine Coro.wp_mono (stampedBy_commit s) fun t r s' _ h => ?_
    match r with
    | .error e => exact ⟨h, nofun⟩
    | .ok () =>
      refine Coro.wp_pure.mpr ⟨?_, nofun⟩
      rwa [List.append_nil]

theorem streamsAs_streamAttempts (retries : ℕ) :
    StreamsAs hop (streamAttempts messages params attempt hop retries : Py σ _) := by
  refine attempts_rule (P := fun _ m => StreamsAs hop m)
    (fun again => do
      let reply ← ask (.providerStream hop.provider hop.model messages params)
      onFirstChunk attempt hop again reply) rfl (fun _ => rfl) (fun _ => .giveUp)
    (fun _ _ h => .withheld_bind (.bind (.perform trivial) fun _ => .ofExcept) fun _ => h)
    (fun _ again hagain => .withheld_bind (.perform trivial) fun reply =>
      streamsAs_onFirstChunk hagain reply) retries

end Attempts

/-- The chunks of a run of the router's stream are those of one hop that is not to be skipped. -/
def Stamped (skip : Finset String) (hops : List Hop) (t : List Ev) : Prop :=
  yielded t = [] ∨ ∃ hop ∈ hops, hop.provider ∉ skip ∧ StampedBy hop t

theorem Stamped.withheld_append {skip : Finset String} {hops : List Hop} {t t' : List Ev}
    (h : Stamped skip hops t') (hnil : yielded t = []) : Stamped skip hops (t ++ t') := by
  simpa only [Stamped, StampedBy, yielded_append, hnil, List.nil_append] using h

/-- A part that hands on no chunk can be left out. -/
theorem wp_withheld_bind {β : Type} {m : Py σ α} {f : α → Py σ β} {skip : Finset String}
    {hops : List Hop} (h : m.Only Cmd.Withheld)
    (hf : ∀ a s', (f a).wp A s' fun t _ _ => Stamped skip hops t) :
    (m >>= f).wp A s fun t _ _ => Stamped skip hops t := by
  rw [Coro.wp_bind]
  refine Coro.wp_mono h.wp fun t r s' _ ht => ?_
  have hnil : yielded t = [] := yielded_of_withheld ht
  match r with
  | .error e => exact .inl hnil
  | .ok a => exact Coro.wp_mono (hf a s') fun _ _ _ _ h' => h'.withheld_append hnil

theorem stamped_walk {skip : Finset String} {serve : ℕ → Hop → Py σ (Except String Unit)}
    (hserve : ∀ attempt hop, StreamsAs hop (serve attempt hop)) (hops : List Hop)
    (attempt : ℕ) (errors : List String) (s : σ) :
    (walk skip serve attempt errors hops).wp A s fun t _ _ => Stamped skip hops t := by
  induction hops generalizing attempt errors s with
  | nil => exact .inl rfl
  | cons hop rest ih =>
    have hpass : ∀ attempt errors s, (walk skip serve attempt errors rest).wp A s fun t _ _ =>
        Stamped skip (hop :: rest) t := by
      intro attempt errors s
      refine Coro.wp_mono (ih attempt errors s) fun _ _ _ _ h => ?_
      obtain h | ⟨hop', hmem, h'⟩ := h
      · exact .inl h
      · exact .inr ⟨hop', .tail _ hmem, h'⟩
    rw [walk, Coro.wp_ite]
    refine ⟨fun _ => hpass _ _ s, fun hskip => ?_⟩
    refine wp_withheld_bind (.perform trivial) fun allowed s₁ =>
      wp_withheld_bind only_publishCircuitState_withheld fun _ s₂ => ?_
    rw [Coro.wp_ite]
    refine ⟨fun _ => ?_, fun _ => hpass _ _ s₂⟩
    rw [Coro.wp_bind]
    refine Coro.wp_mono (hserve attempt hop A s₂) fun t r s₃ _ h => ?_
    have hlast : Stamped skip (hop :: rest) t := .inr ⟨hop, .head _, hskip, h.1⟩
    rcases r with e | lastError | ⟨⟩
    · exact hlast
    -- a hop that is given up has handed on nothing
    · have hnil : yielded t = [] := h.2 _ rfl
      refine Coro.wp_mono (wp_withheld_bind (.perform trivial) fun _ _ =>
        wp_withheld_bind only_publishCircuitState_withheld fun _ s₄ => hpass _ _ s₄)
        fun _ _ _ _ h' => h'.withheld_append hnil
    · refine Coro.wp_pure.mpr ?_
      rwa [List.append_nil]

/-- The router's stream hands on the chunks of one hop that is not to be skipped. -/
theorem stamped_chatStream {messages : List ChatMessage} {params : Option SamplingParams}
    {retryAttempts : ℕ} {skip : Finset String} {hops : List Hop} :
    (chatStream messages params retryAttempts skip hops).wp A s fun t _ _ =>
      Stamped skip hops t :=
  stamped_walk (fun _ _ => streamsAs_streamAttempts retryAttempts) hops 0 [] s

end LlmGateway
