import LlmGateway.Coroutine.AsyncFor
import LlmGateway.Gateway.Redis
import LlmGateway.Main.EventStream
import LlmGateway.Routing.Fallback

/-!
# The stream endpoints over the running router

In `EventStream` the router's stream is what it has in store. Here the generators of the endpoints
iterate over the router itself, which makes its upstream calls between their frames.

`stream_refines` connects the two: apart from what the router does, a run of an endpoint over a
router is a run of the endpoint over the chunks that the router handed on. What is proved of the
endpoints for every stream therefore holds of them over every router.
-/

namespace LlmGateway

open Coroutine

variable {settings : Settings} {q : RequestArgs}

/-! ## The generators -/

/-- `router.chat_stream(...)` as a generator: whoever iterates over it asks for the next chunk. -/
def handedOn : Emission gateway StreamChunk
  | .yieldChunk c => some (c, .ok ())
  | _ => none

/-- The clauses and the `finally` around a loop, which ends in whether the loop went through. -/
def guardLoop (settings : Settings) (q : RequestArgs) (onAllFailed loop : Py StreamLocals Unit) :
    Py StreamLocals Bool :=
  ((do
    loop
    pure true).attempt fun
      | .generatorExit => some (onDisconnect settings q .generatorExit)
      | .cancelled => some (onDisconnect settings q .cancelled)
      | .exception (.allProvidersFailed _) => some (do
          onAllFailed
          pure false)
      | .exception _ => some (do
          onUnexpected settings q
          pure false)
      | .interrupt => none).ensure (metric .requestLatency)

/-- A generator with its loop for a parameter. -/
def generatorOver (settings : Settings) (q : RequestArgs) (onAllFailed closing loop :
    Py StreamLocals Unit) : Py StreamLocals Unit := do
  let completed ← guardLoop settings q onAllFailed loop
  if completed then do
    let booked ← bookkeeping settings q closing
    finish booked
  else pure ()

namespace Endpoint

/-- The body of the loop of an endpoint. -/
def deliver (q : RequestArgs) : Endpoint → StreamChunk → Py StreamLocals Unit
  | .native => relayChunk
  | .openai completionId created => relayDelta q completionId created

/-- The clause of an endpoint for `AllProvidersFailedError`. -/
def onAllFailed (settings : Settings) (q : RequestArgs) : Endpoint → Py StreamLocals Unit
  | .native => LlmGateway.onAllFailed settings q
  | .openai _ _ => onAllFailedOpenai settings q

/-- The last frame of an endpoint before `[DONE]`, if there is one. -/
def closing : Endpoint → Py StreamLocals Unit
  | .native => pure ()
  | .openai completionId created => relayFinish completionId created

/-- `_event_stream` or `_openai_event_stream`, iterating over `router`. A generator that is left in
its loop does not ask the router again, whose own clauses catch nothing of that. -/
def stream (settings : Settings) (q : RequestArgs) (endpoint : Endpoint) (router : Py Unit Unit) :
    Py StreamLocals Unit :=
  whenStarted (generatorOver settings q (endpoint.onAllFailed settings q) endpoint.closing
    (Coro.forEach handedOn (endpoint.deliver q) (router ())))

/-- The endpoint over what a stream has in store, in the same form. -/
theorem run_eq (endpoint : Endpoint) (source : RouterStream) :
    endpoint.run settings q source = whenStarted (generatorOver settings q
      (endpoint.onAllFailed settings q) endpoint.closing
        (forChunks (endpoint.deliver q) source.ending source.chunks)) := by
  cases endpoint with
  | native => rfl
  | openai completionId created => rfl

end Endpoint

/-! ## What the loop waits for -/

/-- The `Exception` a generator ends in. -/
def pyError? : Except Exc Unit → Option PyError
  | .error (.exception e) => some e
  | _ => none

/-- A reply of `__anext__`: a chunk that was handed on, or how the generator has ended. -/
inductive Awaited (chunks : List StreamChunk) (ended : Except Exc Unit → Prop) : Ev → Prop
  | chunk {c : StreamChunk} (h : c ∈ chunks) : Awaited chunks ended ⟨.anext (.chunk c), .ok ()⟩
  | stop (h : ended (.ok ())) : Awaited chunks ended ⟨.anext .stop, .ok ()⟩
  | error {e : PyError} (h : ended (.error (.exception e))) :
      Awaited chunks ended ⟨.anext (.error e), .ok ()⟩
  /-- Not an `Exception`: it reached the router while the loop was waiting for it. -/
  | raised {x : Exc} (hx : x.isException = false) (h : ended (.error x)) :
      Awaited chunks ended ⟨.anext .stop, .error x⟩

theorem Awaited.mono {chunks chunks' : List StreamChunk} {P P' : Except Exc Unit → Prop} {e : Ev}
    (h : Awaited chunks P e) (hchunks : chunks ⊆ chunks') (hP : ∀ r, P r → P' r) :
    Awaited chunks' P' e := by
  cases h with
  | chunk h => exact .chunk (hchunks h)
  | stop h => exact .stop (hP _ h)
  | error h => exact .error (hP _ h)
  | raised hx h => exact .raised hx (hP _ h)

theorem runs_anext (next : Upcoming) (r : Except Exc Unit) (s : StreamLocals) :
    Coro.Runs (anext next) s [⟨.anext next, r⟩] r s :=
  Prog.Run.cons (I := gateway) (c := .anext next) r (.nil _)

/-- A loop over chunks that is ended by `ending`, as one that waits for each of them. -/
theorem runs_forChunks {body : StreamChunk → Py StreamLocals Unit} {ending r : Except Exc Unit}
    {chunks : List StreamChunk} {s s' : StreamLocals} {tb : List Ev}
    (h : Coro.Runs (Coro.forList body ending chunks) s tb r s') :
    ∃ t ta, Coro.Runs (forChunks body (pyError? ending) chunks) s t r s' ∧ Merge t tb ta ∧
      ∀ e ∈ ta, Awaited chunks (fun x => x = ending ∧ x = r) e := by
  induction chunks generalizing s tb with
  | nil =>
    obtain ⟨rfl, hr⟩ := Prog.Returns.ret_iff.mp h
    obtain ⟨rfl, rfl⟩ := Prod.mk.inj hr
    have hlast : ∀ e : Ev, Merge [e] [] [e] := fun e => .right .nil
    rcases r with x | ⟨⟩
    · cases x with
      | exception e =>
        have hraise : Coro.Runs (throw e : Py StreamLocals Unit) s' [] (.error (.exception e)) s' :=
          .nil _
        exact ⟨_, _, (runs_anext (.error e) (.ok ()) s').bind_ok hraise, hlast _,
          List.forall_mem_singleton.mpr (.error ⟨rfl, rfl⟩)⟩
      | _ =>
        exact ⟨_, _, runs_anext .stop (.error _) s', hlast _,
          List.forall_mem_singleton.mpr (.raised rfl ⟨rfl, rfl⟩)⟩
    · exact ⟨_, _, runs_anext .stop (.ok ()) s', hlast _,
        List.forall_mem_singleton.mpr (.stop ⟨rfl, rfl⟩)⟩
  | cons c rest ih =>
    have hwait := runs_anext (.chunk c) (.ok ()) s
    have hchunk : Awaited (c :: rest) (fun x => x = ending ∧ x = r) ⟨.anext (.chunk c), .ok ()⟩ :=
      .chunk (List.mem_cons_self ..)
    rcases h.bind_cases with ⟨x, rfl, hbody⟩ | ⟨t₁, ⟨⟩, s₁, t₂, rfl, hbody, hrest⟩
    · exact ⟨_, _, hwait.bind_ok hbody.bind_error, .right (.of_left tb),
        List.forall_mem_singleton.mpr hchunk⟩
    · obtain ⟨t, ta, hrun, hmerge, hta⟩ := ih hrest
      refine ⟨_, _, hwait.bind_ok (hbody.bind_ok hrun), .right ((Merge.of_left t₁).append hmerge),
        List.forall_mem_cons.mpr ⟨hchunk, fun e he => ?_⟩⟩
      exact (hta e he).mono (List.subset_cons_self _ _) fun _ h => h

/-! ## The refinement -/

/-- What a router did, and what a loop over the chunks it handed on waited for instead. -/
def Feeds (router : Py Unit Unit) (source : RouterStream) (tg ta : List Ev) : Prop :=
  ∃ p, Generates handedOn (router ()) tg source.chunks p ∧
    (∀ e, source.ending = some e → p.value? = some (.error (.exception e), ())) ∧
    ∀ e ∈ ta, Awaited source.chunks (fun r => p.value? = some (r, ())) e

/-- `t` is a run over the router and `t'` one over its chunks: they are the same but for what the
router does in the one and what the loop waits for in the other. -/
def Explains (router : Py Unit Unit) (source : RouterStream) (t t' : List Ev) : Prop :=
  ∃ tb tg ta, Merge t tb tg ∧ Merge t' tb ta ∧ Feeds router source tg ta

theorem framed_explains {router : Py Unit Unit} : Framed (Explains router) where
  refl := ⟨⟨[], none⟩, fun t => ⟨t, [], [], .of_left t, .of_left t,
    ⟨router (), .nil _, by simp, by simp⟩⟩⟩
  prepend := fun _ _ _ u ⟨tb, tg, ta, h, h', hf⟩ =>
    ⟨u ++ tb, tg, ta, (Merge.of_left u).append h, (Merge.of_left u).append h', hf⟩
  append := fun _ _ _ u ⟨tb, tg, ta, h, h', hf⟩ => by
    refine ⟨tb ++ u, tg, ta, ?_, ?_, hf⟩
    · simpa using h.append (Merge.of_left u)
    · simpa using h'.append (Merge.of_left u)

/-- The loop over a router, as one over the chunks it hands on. -/
theorem covers_forEach {body : StreamChunk → Py StreamLocals Unit} {router : Py Unit Unit} :
    Coro.Covers (Explains router) (Coro.forEach handedOn body (router ()))
      fun source => forChunks body source.ending source.chunks := by
  rintro s t ⟨r, s'⟩ h
  obtain ⟨tb, tg, xs, p, hmerge, hgen, hloop⟩ := Coro.Runs.forEach_cases h
  rcases hloop with ⟨ending, ⟨⟩, rfl, hloop⟩ | ⟨⟨x, rfl⟩, hloop⟩
  · obtain ⟨t', ta, hrun, hmerge', hta⟩ := runs_forChunks hloop
    refine ⟨⟨xs, pyError? ending⟩, t', hrun, tb, tg, ta, hmerge, hmerge', _, hgen, fun e he => ?_,
      fun e he => (hta e he).mono (List.Subset.refl _) fun r hr => by rw [hr.1]; rfl⟩
    cases ending with
    | ok u => cases he
    | error x =>
      cases x with
      | exception e' =>
        obtain rfl := Option.some.inj he
        rfl
      | _ => cases he
  -- the body raised, so the loop does not get to how the generator ends
  · obtain ⟨t', ta, hrun, hmerge', hta⟩ := runs_forChunks (hloop (.ok ()))
    refine ⟨⟨xs, none⟩, t', hrun, tb, tg, ta, hmerge, hmerge', p, hgen, by simp, fun e he => ?_⟩
    refine (hta e he).mono (List.Subset.refl _) fun r hr => ?_
    obtain ⟨rfl, hr⟩ := hr
    cases hr

theorem covers_stream {endpoint : Endpoint} {router : Py Unit Unit} :
    Coro.Covers (Explains router) (endpoint.stream settings q router)
      fun source => endpoint.run settings q source := by
  have hR : Framed (Explains router) := framed_explains
  simp only [Endpoint.run_eq]
  refine .bind_right hR fun started => .ite (fun _ => ?_) fun _ => .refl hR _
  exact .bind hR (.ensure hR (.attempt hR (.bind hR covers_forEach _) _) _) _

/-- Apart from what the router does, a run of an endpoint over a router is a run of the endpoint over
the chunks that the router handed on, and over the `Exception` it ended in. -/
theorem stream_refines {endpoint : Endpoint} {router : Py Unit Unit} {s s' : StreamLocals}
    {t : List Ev} {r : Except Exc Unit}
    (h : Coro.Runs (endpoint.stream settings q router) s t r s') :
    ∃ source t', Coro.Runs (endpoint.run settings q source) s t' r s' ∧
      Explains router source t t' :=
  covers_stream.exists_run h

/-! ## A stream over a running router -/

/-- Every provider streams two chunks, the last of which carries the usage. -/
def streamingReply : (c : Cmd) → Reply c
  | .providerStream _ _ _ _ => .opened ⟨.str "hi", false, .int 0, .int 0, "", ""⟩
      [⟨.str "", true, .int 1, .int 1, "", ""⟩] none
  | c => calm c

/-- The router over a local provider. -/
def localRouter : Py Unit Unit :=
  chatStream [⟨"user", "hi!"⟩] none 1 ∅ [⟨"ollama", "llama3", "ollama"⟩]

def localRequest : RequestArgs := ⟨"k", "local", "r", .empty⟩

/-- The run of the native endpoint over it. -/
def streamedRun : List Ev × (Except Exc Unit × StreamLocals) × Ledgers :=
  Prog.drive (answer streamingReply)
    (Endpoint.native.stream { hashKey := id } localRequest localRouter {}) fun _ => 0

theorem runs_streamedRun :
    Coro.Runs (Endpoint.native.stream { hashKey := id } localRequest localRouter) {} streamedRun.1
      streamedRun.2.1.1 streamedRun.2.1.2 := by
  unfold streamedRun
  exact Prog.returns_drive _ _ _

theorem stream_refines_streamedRun :
    ∃ source t', Coro.Runs (Endpoint.native.run { hashKey := id } localRequest source) {} t'
        streamedRun.2.1.1 streamedRun.2.1.2 ∧ Explains localRouter source streamedRun.1 t' :=
  stream_refines runs_streamedRun

end LlmGateway
