import LlmGateway.Main.RoutedRequest
import LlmGateway.Main.Wire
import LlmGateway.Routing.Quotation

/-!
# Whose words the client reads

A stream request may call several providers. The text that its client reads, however much of the
response it has received, is the beginning of what one of them streamed: the one that was called last.
-/

namespace LlmGateway

open Coroutine

variable {σ : Type} {settings : Settings} {q : RequestArgs} {A : Ev → Prop}

/-! ## Text -/

/-- The text that a frame carries. -/
def Frame.said? : Frame → Option PyVal
  | .chunk c => if c.done then none else some c.content
  | .content _ _ _ text => some text
  | _ => none

/-- The text of frames, piece by piece. -/
def spoken (fs : List Frame) : List PyVal := fs.filterMap Frame.said?

/-- The text of chunks; the one that carries the usage has none. -/
def contents (chunks : List StreamChunk) : List PyVal :=
  (chunks.filter fun c => !c.done).map StreamChunk.content

theorem spoken_append (fs fs' : List Frame) : spoken (fs ++ fs') = spoken fs ++ spoken fs' :=
  List.filterMap_append

theorem contents_cons (c : StreamChunk) (rest : List StreamChunk) :
    contents (c :: rest) = (if c.done then [] else [c.content]) ++ contents rest := by
  cases h : c.done <;> simp [contents, h]

theorem contents_stamp (hop : Hop) (chunks : List StreamChunk) :
    contents (chunks.map hop.stamp) = contents chunks := by
  rw [contents, contents, List.filter_map, List.map_map]
  rfl

theorem contents_mono {chunks chunks' : List StreamChunk} (h : chunks <+: chunks') :
    contents chunks <+: contents chunks' :=
  (h.filter _).map _

/-! ## What the endpoints send -/

/-- The commands that the endpoints issue themselves, with the frames that they send. -/
def Cmd.Sends (F : Frame → Prop) : Cmd → Prop
  | .yield f => F f
  | .start | .anext _ | .pricing => True
  | c => c.Settling ∨ c.Auditing

section Sends

variable {F : Frame → Prop}

theorem Cmd.Accounting.sends {c : Cmd} (h : c.Accounting) : c.Sends F := by
  cases c <;> first | exact .inl trivial | exact h.elim

theorem Cmd.Auditing.sends {c : Cmd} (h : c.Auditing) : c.Sends F := by
  cases c <;> first | exact .inr trivial | exact h.elim

theorem sends_metric {m : Metric} : (metric m : Py σ Unit).Only (Cmd.Sends F) :=
  only_metric (.inl trivial)

theorem sends_settleStreamOnAbort {provider model : String} {inputTokens : PyVal}
    {streamedChars : ℕ} :
    (settleStreamOnAbort settings q provider model inputTokens streamedChars : Py σ Unit).Only
      (Cmd.Sends F) :=
  .ite (fun _ => only_settleChain fun _ h => h.sends) fun _ =>
    .bind (.bind (only_pricing trivial) fun _ => .ofExcept) fun _ =>
      .bind (only_settleChain fun _ h => h.sends) fun _ =>
        .bind (only_recordUsage fun _ => .inl trivial) fun _ => only_recordAuditLog fun _ h => h.sends

theorem sends_abortStream : (abortStream settings q).Only (Cmd.Sends F) :=
  .bind .locals fun _ => sends_settleStreamOnAbort

theorem sends_tryAbortStream : (tryAbortStream settings q).Only (Cmd.Sends F) :=
  .bind .locals fun _ => only_tryExcept sends_settleStreamOnAbort fun _ => .pure

theorem sends_onAllFailed {endpoint : Endpoint} (hF : ∀ f, f.said? = none → F f) :
    (endpoint.onAllFailed settings q).Only (Cmd.Sends F) := by
  cases endpoint with
  | native =>
    exact .bind sends_metric fun _ => .bind (only_recordAuditLog fun _ h => h.sends) fun _ =>
      .bind sends_abortStream fun _ => only_emit (hF _ rfl)
  | openai completionId created =>
    exact .bind sends_metric fun _ => .bind sends_abortStream fun _ => only_emit (hF _ rfl)

theorem sends_onDisconnect {α : Type} {x : Exc} :
    (onDisconnect settings q x : Py StreamLocals α).Only (Cmd.Sends F) :=
  .bind sends_metric fun _ => .bind sends_abortStream fun _ => .raise

theorem sends_loopClause {endpoint : Endpoint} (hF : ∀ f, f.said? = none → F f) (x : Exc) :
    (loopClause settings q (endpoint.onAllFailed settings q) x).Only (Cmd.Sends F) := by
  have hunexpected : (onUnexpected settings q).Only (Cmd.Sends F) :=
    .bind sends_metric fun _ => .bind sends_metric fun _ => .bind sends_tryAbortStream fun _ =>
      only_emit (hF _ rfl)
  cases x with
  | generatorExit | cancelled => exact sends_onDisconnect
  | interrupt => exact .raise
  | exception e => cases e <;> first | exact sends_onAllFailed hF | exact hunexpected

theorem sends_bookkeeping {endpoint : Endpoint} (hF : ∀ f, f.said? = none → F f) :
    (bookkeeping settings q endpoint.closing >>= finish).Only (Cmd.Sends F) := by
  have hreport : (do
      metric (.requestCount "error")
      emit (streamErrorFrame q.requestId)
      pure false : Py StreamLocals Bool).Only (Cmd.Sends F) :=
    .bind sends_metric fun _ => .bind (only_emit (hF _ rfl)) fun _ => .pure
  have hunbooked : (onUnbooked settings q).Only (Cmd.Sends F) :=
    .bind sends_metric fun _ => .bind .locals fun _ => .ite (fun _ => hreport) fun _ =>
      .bind sends_tryAbortStream fun _ => hreport
  have hclosing : endpoint.closing.Only (Cmd.Sends F) := by
    cases endpoint with
    | native => exact .pure
    | openai completionId created => exact .bind .locals fun _ => only_emit (hF _ rfl)
  refine .bind (.attempt (.bind .locals fun s => .bind ?_ fun _ => .bind .update fun _ =>
    .bind (only_recordAuditLog fun _ h => h.sends) fun _ => .bind hclosing fun _ => .pure)
    fun x c hc => ?_) fun booked => ?_
  · exact .bind (only_priceStream trivial fun _ => .inl trivial) fun _ =>
      .bind (only_settleChain fun _ h => h.sends) fun _ => .pure
  · cases x with
    | exception e =>
      obtain rfl := Option.some.inj hc
      exact hunbooked
    | _ => cases hc
  · exact .ite (fun _ => .bind sends_metric fun _ => only_emit (hF _ rfl)) fun _ => .pure

end Sends

/-! ## What the loop says -/

/-- The text that a trace has sent. -/
def spokenIn (t : List Ev) : List PyVal := spoken (frames t)

theorem spokenIn_append (t t' : List Ev) : spokenIn (t ++ t') = spokenIn t ++ spokenIn t' := by
  rw [spokenIn, frames_append, spoken_append]
  rfl

/-- Frames without text say nothing. -/
theorem spokenIn_of_sends {t : List Ev} (h : ∀ e ∈ t, e.cmd.Sends fun f => f.said? = none) :
    spokenIn t = [] := by
  refine List.filterMap_eq_nil_iff.mpr fun f hf => ?_
  obtain ⟨⟨c, r⟩, he, hframe⟩ := List.mem_filterMap.mp hf
  have hc := h _ he
  cases c with
  | yield f' =>
    obtain rfl := Option.some.inj hframe
    exact hc
  | _ => cases hframe

/-- The text of a chunk is sent, or what sends it is interrupted before. -/
def Says (c : StreamChunk) (t : List Ev) (r : Except Exc Unit) : Prop :=
  spokenIn t = contents [c] ∨ spokenIn t = [] ∧ r ≠ .ok ()

theorem wp_absorb_says {c : StreamChunk} {s : StreamLocals} {f : Unit → Py StreamLocals Unit}
    (hf : ∀ s, (f ()).wp A s fun t r _ => Says c t r) :
    (absorb c >>= f).wp A s fun t r _ => Says c t r := by
  rw [Coro.wp_bind]
  refine Coro.wp_mono wp_absorb fun t r s' _ h => ?_
  obtain ⟨rfl, -, -⟩ := h
  cases r with
  | error x => exact .inr ⟨rfl, by rintro ⟨⟩⟩
  | ok u => exact hf s'

theorem wp_deliver_says {endpoint : Endpoint} {c : StreamChunk} {s : StreamLocals} :
    (endpoint.deliver q c).wp A s fun t r _ => Says c t r := by
  cases endpoint with
  | native =>
    have hchunk : (Frame.chunk c).said?.toList = contents [c] := by
      cases h : c.done <;> simp [Frame.said?, contents, h]
    refine wp_absorb_says fun s' => wp_emit_iff.mpr fun r _ => .inl ?_
    rw [← hchunk]
    cases h : (Frame.chunk c).said? <;> simp [spokenIn, spoken, frames, frame?, h]
  | openai completionId created =>
    refine wp_absorb_says fun s₁ => Coro.wp_ite.mpr ⟨fun hdone => ?_, fun hdone => ?_⟩
    · refine Coro.wp_pure.mpr (.inl ?_)
      simp [spokenIn, spoken, contents, hdone]
    · have hcontents : contents [c] = [c.content] := by simp [contents, hdone]
      have hcontent : ∀ (model : String) (s : StreamLocals),
          (emit (.content completionId created model c.content)).wp A s
          fun t r _ => Says c t r := fun model s =>
        wp_emit_iff.mpr fun r _ => .inl hcontents.symm
      refine Coro.wp_bind.mpr (Coro.wp_locals.mpr (Coro.wp_ite.mpr ⟨fun _ => ?_, fun _ => ?_⟩))
      · refine Coro.wp_bind.mpr (wp_emit_iff.mpr fun r _ => ?_)
        cases r with
        | error x => exact .inr ⟨rfl, by rintro ⟨⟩⟩
        | ok u => exact Coro.wp_bind.mpr (Coro.wp_update.mpr (hcontent _ _))
      · exact hcontent _ _

theorem wp_forChunks_spoken {endpoint : Endpoint} {ending : Option PyError}
    (chunks : List StreamChunk) (s : StreamLocals) :
    (forChunks (endpoint.deliver q) ending chunks).wp A s fun t _ _ =>
      spokenIn t <+: contents chunks := by
  have hanext : ∀ (next : Upcoming) (r : Except Exc Unit), spokenIn [⟨.anext next, r⟩] = [] :=
    fun _ _ => rfl
  induction chunks generalizing s with
  | nil =>
    have hsilent : (forChunks (endpoint.deliver q) ending [] : Py StreamLocals Unit).Only
        (Cmd.Sends fun f => f.said? = none) := by
      cases ending with
      | none => exact .bind (.perform trivial) fun _ => .ofExcept
      | some e => exact .bind (.bind (.perform trivial) fun _ => .ofExcept) fun _ => only_throw
    refine Coro.wp_mono hsilent.wp fun t _ _ _ h => ?_
    rw [spokenIn_of_sends h]
    exact List.nil_prefix
  | cons c rest ih =>
    rw [forChunks, Coro.wp_bind, wp_anext_iff]
    intro r _
    cases r with
    | error x => exact List.nil_prefix
    | ok u =>
      dsimp only
      rw [Coro.wp_bind]
      refine Coro.wp_mono wp_deliver_says fun t r s₁ _ h => ?_
      have hcons : contents (c :: rest) = contents [c] ++ contents rest := by
        rw [contents_cons, contents_cons, contents, List.append_assoc]
        rfl
      rw [hcons]
      cases r with
      | error x =>
        rw [spokenIn_append, hanext, List.nil_append]
        rcases h with h | ⟨h, -⟩
        · exact ⟨contents rest, congrArg (· ++ contents rest) h⟩
        · rw [h]
          exact List.nil_prefix
      | ok u =>
        refine Coro.wp_mono (ih s₁) fun t' _ _ _ h' => ?_
        rw [spokenIn_append, spokenIn_append, hanext, List.nil_append]
        obtain h | ⟨-, hr⟩ := h
        · rw [h, List.prefix_append_right_inj]
          exact h'
        · exact absurd rfl hr

theorem sends_forChunks {endpoint : Endpoint} {ending : Option PyError} (chunks : List StreamChunk) :
    (forChunks (endpoint.deliver q) ending chunks).Only (Cmd.Sends fun _ => True) := by
  have hnext : ∀ next, (anext next : Py StreamLocals Unit).Only (Cmd.Sends fun _ => True) :=
    fun _ => .bind (.perform trivial) fun _ => .ofExcept
  have hdeliver : ∀ c, (endpoint.deliver q c).Only (Cmd.Sends fun _ => True) := by
    intro c
    cases endpoint with
    | native => exact only_relayChunk trivial
    | openai completionId created => exact only_relayDelta (fun _ => trivial) fun _ => trivial
  induction chunks with
  | nil =>
    cases ending with
    | none => exact hnext _
    | some e => exact .bind (hnext _) fun _ => only_throw
  | cons c rest ih => exact .bind (hnext _) fun _ => .bind (hdeliver c) fun _ => ih

/-! ## The generators -/

theorem called_of_sends {F : Frame → Prop} {e : Ev} (h : e.cmd.Sends F) : called e = none := by
  obtain ⟨c, r⟩ := e
  cases c <;> first | rfl | exact h.elim False.elim False.elim

/-- The text sent is the beginning of the chunks', and no provider is called. -/
structure Speaks (chunks : List StreamChunk) (t : List Ev) : Prop where
  spoken : spokenIn t <+: contents chunks
  uncalled : ∀ e ∈ t, called e = none

theorem Speaks.append {chunks : List StreamChunk} {t t' : List Ev} (h : Speaks chunks t)
    (h' : ∀ e ∈ t', e.cmd.Sends fun f => f.said? = none) : Speaks chunks (t ++ t') where
  spoken := by
    rw [spokenIn_append, spokenIn_of_sends h', List.append_nil]
    exact h.spoken
  uncalled := List.forall_mem_append.mpr ⟨h.uncalled, fun e he => called_of_sends (h' e he)⟩

theorem wp_generator_speaks {endpoint : Endpoint} {source : RouterStream} :
    (generator settings q (endpoint.deliver q) (endpoint.onAllFailed settings q) endpoint.closing
      source).wp A {} fun t _ _ => Speaks source.chunks t := by
  have hloop : (forChunks (endpoint.deliver q) source.ending source.chunks).wp A {} fun t _ _ =>
      Speaks source.chunks t :=
    Coro.wp_mono (Coro.wp_and (wp_forChunks_spoken _ _) (sends_forChunks _).wp)
      fun t _ _ _ h => ⟨h.1, fun e he => called_of_sends (h.2 e he)⟩
  refine wp_generator_of_phases hloop ?_ ?_ ?_
  · intro t x s ht
    refine Coro.wp_mono (sends_loopClause (fun _ h => h) x).wp fun t' _ _ _ ht' l _ => ?_
    exact ht.append (List.forall_mem_append.mpr ⟨ht', List.forall_mem_singleton.mpr (.inl trivial)⟩)
  · intro t s e ht _
    exact ht.append (List.forall_mem_singleton.mpr (.inl trivial))
  · intro t s ht _
    refine Coro.wp_mono (sends_bookkeeping fun _ h => h).wp fun t' _ _ _ ht' => ?_
    exact ht.append (List.forall_mem_cons.mpr ⟨.inl trivial, ht'⟩)

/-- What an endpoint sends has no other text than that of its chunks. -/
theorem wp_endpoint_speaks {endpoint : Endpoint} {source : RouterStream} :
    (endpoint.run settings q source).wp A {} fun t _ _ => Speaks source.chunks t := by
  have hstart : endpoint.run settings q source = whenStarted (generator settings q
      (endpoint.deliver q) (endpoint.onAllFailed settings q) endpoint.closing source) := by
    cases endpoint with
    | native => rfl
    | openai completionId created => rfl
  have hunsaid : ∀ started : Bool, Speaks source.chunks ([⟨.start, started⟩] : List Ev) := fun _ =>
    ⟨List.nil_prefix, List.forall_mem_singleton.mpr rfl⟩
  rw [hstart, whenStarted, Coro.wp_bind, wp_start_iff]
  rintro (_ | _) _
  · exact hunsaid false
  · exact Coro.wp_mono wp_generator_speaks fun t _ _ _ h =>
      ⟨h.spoken, List.forall_mem_append.mpr ⟨(hunsaid true).uncalled, h.uncalled⟩⟩

/-! ## What the client reads -/

/-- The text that a client has read off what it has received. -/
def heard (p : List Char) : List PyVal := (framesRead p).filterMap fun f => f.bind Frame.said?

theorem heard_mono {fs : List Frame} {ms : List Sse.Message} (h : Carried fs ms) {p : List Char}
    (hp : p <+: Sse.texts ms) : heard p <+: spoken fs := by
  obtain ⟨k, -, -, -, hread⟩ := Sse.messages_of_prefix [] h.sendable hp
  rw [heard, h.framesRead_take hread, List.filterMap_map]
  exact (List.take_prefix k fs).filterMap _

/-- The router sends nothing to the client, and neither does waiting for it. -/
theorem frames_of_explains {messages : List ChatMessage} {params : Option SamplingParams}
    {retryAttempts : ℕ} {skip : Finset String} {hops : List Hop} {source : RouterStream}
    {t t' : List Ev}
    (h : Explains (chatStream messages params retryAttempts skip hops) source t t') :
    frames t = frames t' := by
  obtain ⟨tb, tg, ta, hmerge, hmerge', p, hgen, -, hta⟩ := h
  have hrouter : ∀ e ∈ tg, frame? e = none := by
    intro e he
    obtain ⟨u, hrun, -, v, hv, -⟩ := hgen.run
    have hcalling : e.cmd.Calling := (only_chatStream ()).forall_mem hrun e (hv.mem_iff.mpr (.inl he))
    obtain ⟨c, r⟩ := e
    cases c <;> first | rfl | exact hcalling.elim
  have hawaited : ∀ e ∈ ta, frame? e = none := by
    intro e he
    cases hta e he <;> rfl
  rw [frames, frames, hmerge.filterMap_left hrouter, hmerge'.filterMap_left hawaited]

/-- The chunks that the router hands on to a loop are the beginning of what the provider that was called
last has streamed. -/
theorem exists_lastCall_of_explains {messages : List ChatMessage} {params : Option SamplingParams}
    {retryAttempts : ℕ} {skip : Finset String} {hops : List Hop} {source : RouterStream}
    {t t' : List Ev}
    (h : Explains (chatStream messages params retryAttempts skip hops) source t t')
    (huncalled : ∀ e ∈ t', called e = none) (hne : source.chunks ≠ []) :
    ∃ hop ∈ hops, hop.provider ∉ skip ∧ ∃ first rest ending,
      lastCall t = some
        ⟨.providerStream hop.provider hop.model messages params, .opened first rest ending⟩ ∧
      source.chunks <+: (first :: rest).map hop.stamp := by
  obtain ⟨tb, tg, ta, hmerge, hmerge', p, hgen, -, -⟩ := h
  obtain ⟨u, hrun, hchunks, v, hv, hquiet⟩ := hgen.run
  obtain ⟨w, x, hreturns⟩ := exists_returns hrun
  have hany : ∀ e ∈ u ++ w, (fun _ : Ev => True) e := fun _ _ => trivial
  have hyielded : yielded u = source.chunks := by
    rw [← hchunks, yielded]
    exact List.filterMap_congr fun e _ => (value?_handedOn e).symm
  -- the calls of the run are those of the generator
  have hcalls : upstreamEvents t = upstreamEvents u := by
    have hbody : ∀ e ∈ tb, (called e).map (fun _ => e) = none := fun e he => by
      rw [huncalled e (hmerge'.mem_iff.mpr (.inl he))]
      rfl
    have hhanded : ∀ e ∈ v, (called e).map (fun _ => e) = none := fun e he => by
      rw [called_of_handedOn (hquiet e he)]
      rfl
    exact (hmerge.filterMap_right hbody).trans (hv.filterMap_left hhanded).symm
  rw [← hyielded] at hne ⊢
  rcases wp_chatStream_quotes.apply hreturns hany with hnil | ⟨hop, hmem, hskip, hquotes⟩
  · rw [yielded_append, List.append_eq_nil_iff] at hnil
    exact absurd hnil.1 hne
  · obtain ⟨first, rest, ending, hlast, hprefix⟩ := exists_lastCall hquotes hne
    refine ⟨hop, hmem, hskip, first, rest, ending, ?_, hprefix⟩
    rw [lastCall, hcalls]
    exact hlast

/-- The text that the client of a stream has read, wherever what it has received stops, is the beginning
of what one provider streamed: the one that was called last, for the messages of the request. -/
theorem one_provider_heard {endpoint : Endpoint} {messages : List ChatMessage}
    {params : Option SamplingParams} {retryAttempts : ℕ} {skip : Finset String} {hops : List Hop}
    {t : List Ev} {r : Except Exc Unit} {s : StreamLocals}
    (h : Coro.Runs (endpoint.stream settings q
      (chatStream messages params retryAttempts skip hops)) {} t r s)
    {ms : List Sse.Message} (hms : Carried (frames t) ms) {p : List Char}
    (hp : p <+: Sse.texts ms) :
    heard p = [] ∨ ∃ hop ∈ hops, hop.provider ∉ skip ∧ ∃ first rest ending,
      lastCall t = some
        ⟨.providerStream hop.provider hop.model messages params, .opened first rest ending⟩ ∧
      heard p <+: contents (first :: rest) := by
  obtain ⟨source, t', hrun, hexplains⟩ := covers_stream.exists_run h
  have hany : ∀ e ∈ t', (fun _ : Ev => True) e := fun _ _ => trivial
  have hspeaks : Speaks source.chunks t' := wp_endpoint_speaks.apply hrun hany
  have hspoken : heard p <+: contents source.chunks := by
    refine (heard_mono hms hp).trans ?_
    rw [frames_of_explains hexplains]
    exact hspeaks.spoken
  by_cases hnil : source.chunks = []
  · rw [hnil] at hspoken
    exact .inl (List.prefix_nil.mp hspoken)
  · obtain ⟨hop, hmem, hskip, first, rest, ending, hlast, hprefix⟩ :=
      exists_lastCall_of_explains hexplains hspeaks.uncalled hnil
    refine .inr ⟨hop, hmem, hskip, first, rest, ending, hlast, ?_⟩
    rw [← contents_stamp hop]
    exact hspoken.trans (contents_mono hprefix)

/-- The messages of the run of the native endpoint over the local router. -/
def streamedMessages : List Sse.Message := (frames streamedRun.1).filterMap Frame.message?

theorem carried_streamedRun : Carried (frames streamedRun.1) streamedMessages :=
  carried_filterMap (by decide +kernel)

theorem one_provider_heard_streamedRun :
    ∃ hop ∈ [(⟨"ollama", "llama3", "ollama"⟩ : Hop)], hop.provider ∉ (∅ : Finset String) ∧
      ∃ first rest ending, lastCall streamedRun.1 = some ⟨.providerStream hop.provider hop.model
          [⟨"user", "hi!"⟩] none, .opened first rest ending⟩ ∧
        heard (Sse.texts streamedMessages) <+: contents (first :: rest) :=
  (one_provider_heard runs_streamedRun carried_streamedRun (List.prefix_refl _)).resolve_left
    (by decide +kernel)

end LlmGateway
