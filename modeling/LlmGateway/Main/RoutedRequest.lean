import LlmGateway.Main.RoutedStream
import LlmGateway.Main.Overcharge
import LlmGateway.Routing.ModelMap
import LlmGateway.Routing.Provenance

/-!
# Requests over the running router

A request whose chain is known, from its reservation to its end: the part of the endpoints of
`app/main.py` behind `_route`. It is served by a router that `build_router` has made for its chain, so
its upstream calls are part of its run.
-/

namespace LlmGateway

open Coroutine

variable {σ : Type} {settings : Settings} {q : RequestArgs}

/-! ## The handlers -/

/-- The hops of the router for a chain. Those of one provider share its breaker. -/
def Settings.hops (settings : Settings) (chainName : String) : List Hop :=
  ((settings.fallbackChains.lookup chainName).getD []).map fun entry => ⟨entry.1, entry.2, entry.1⟩

/-- How the answer goes out. -/
inductive Delivery where
  /-- At once. -/
  | response
  /-- As a stream of events. -/
  | stream (endpoint : Endpoint)

/-- A request with its chain. -/
structure RoutedRequest where
  chainName : String
  messages : List ChatMessage
  params : Option SamplingParams
  requestId : String
  apiKey : String
  requestedModel : String
  delivery : Delivery

namespace RoutedRequest

variable (settings) (p : RoutedRequest)

/-- What a request is served with, once it has its reservations. -/
def args (reservations : OrderedDict String ℚ) : RequestArgs :=
  ⟨p.apiKey, p.requestedModel, p.requestId, reservations⟩

/-- The rest of the handler once the chain is reserved: `x` is what `_reserve_chain` returned. -/
def serve (x : OrderedDict String ℚ × Finset String) : Py σ Unit :=
  match p.delivery with
  | .response => do
    let _ ← serveChat settings (chat p.messages p.params settings.providerRetryAttempts x.2
      (settings.hops p.chainName)) (p.args x.1)
    pure ()
  | .stream endpoint => Coro.scope {} (endpoint.stream settings (p.args x.1)
      (chatStream p.messages p.params settings.providerRetryAttempts x.2
        (settings.hops p.chainName)))

/-- The handler of a request. -/
def handle : Py σ Unit := do
  let x ← reserveChain settings p.chainName p.messages p.params p.requestId p.apiKey
  p.serve settings x

/-- The answer of a request that is not streamed. -/
def answer : Py σ ChatResponse := do
  let x ← reserveChain settings p.chainName p.messages p.params p.requestId p.apiKey
  serveChat settings (chat p.messages p.params settings.providerRetryAttempts x.2
    (settings.hops p.chainName)) (p.args x.1)

end RoutedRequest

/-! ## What a stream is fed -/

/-- A run that stops short can go on to an end. -/
theorem exists_returns {α : Type} {p q : Prog gateway α} {t : List Ev} (h : Prog.Run p t q) :
    ∃ t' a, Prog.Returns p (t ++ t') a :=
  ⟨_, _, h.trans (Prog.returns_drive (answer calm) q fun _ => 0)⟩

/-- Handing on a chunk is what the loop takes for it. -/
theorem value?_handedOn (e : Ev) : handedOn.value? e = yielded? e := by
  obtain ⟨c, r⟩ := e
  cases c <;> rfl

/-- A call upstream hands on nothing. -/
theorem called_of_handedOn {e : Ev} (h : ∃ c, handedOn e.cmd = some (c, e.reply)) :
    called e = none := by
  obtain ⟨c, hc⟩ := h
  obtain ⟨cmd, r⟩ := e
  cases cmd <;> first | rfl | cases hc

/-- The chunks that the router hands on to a loop are those of one hop, which it has called. -/
theorem exists_called_hop {messages : List ChatMessage} {params : Option SamplingParams}
    {retryAttempts : ℕ} {skip : Finset String} {hops : List Hop} {source : RouterStream}
    {t t' : List Ev}
    (h : Explains (chatStream messages params retryAttempts skip hops) source t t') :
    source.chunks = [] ∨ ∃ hop ∈ hops, hop.provider ∉ skip ∧
      (hop.provider, hop.model) ∈ upstream t ∧
      ∀ c ∈ source.chunks, c.provider = hop.provider ∧ c.model = hop.model := by
  obtain ⟨tb, tg, ta, hmerge, -, p, hgen, -, -⟩ := h
  obtain ⟨u, hrun, hchunks, v, hv, hquiet⟩ := hgen.run
  obtain ⟨w, x, hreturns⟩ := exists_returns hrun
  have hany : ∀ e ∈ u ++ w, (fun _ : Ev => True) e := fun _ _ => trivial
  have hstamped : Stamped skip hops (u ++ w) := stamped_chatStream.apply hreturns hany
  have hcalled : CalledFirst [] (u ++ w) := called_before_yielded.apply hreturns hany
  have hyielded : yielded u = source.chunks := by
    rw [← hchunks, yielded]
    exact List.filterMap_congr fun e _ => (value?_handedOn e).symm
  -- a call of the generator is one of the run it is part of
  have hsub : upstream u ⊆ upstream t := by
    intro x hx
    obtain ⟨e, he, hcall⟩ := List.mem_filterMap.mp hx
    refine List.mem_filterMap.mpr ⟨e, hmerge.mem_iff.mpr (.inr ?_), hcall⟩
    refine (hv.mem_iff.mp he).resolve_right fun hmem => ?_
    rw [called_of_handedOn (hquiet e hmem)] at hcall
    cases hcall
  rcases hstamped with hnil | ⟨hop, hmem, hskip, hstamped⟩
  · rw [yielded_append, List.append_eq_nil_iff, hyielded] at hnil
    exact .inl hnil.1
  have hnames : ∀ c ∈ source.chunks, c.provider = hop.provider ∧ c.model = hop.model := by
    intro c hc
    refine hstamped c ?_
    rw [yielded_append, hyielded]
    exact List.mem_append_left _ hc
  cases hall : source.chunks with
  | nil => exact .inl rfl
  | cons c rest =>
    have hc : c ∈ source.chunks := hall ▸ List.mem_cons_self ..
    refine .inr ⟨hop, hmem, hskip, ?_, hall ▸ hnames⟩
    obtain ⟨hp, hm⟩ := hnames c hc
    rw [← hp, ← hm]
    exact hsub ((calledFirst_append.mp hcalled).1.mem (hyielded ▸ hc))

end LlmGateway
