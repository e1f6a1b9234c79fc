import LlmGateway.Gateway.Value

/-!
# What the adapters stream

Mirrors the `chat_stream` methods of `app/providers/openai_provider.py`,
`app/providers/anthropic_provider.py` and `app/providers/ollama_provider.py` from where the reply of
the provider begins. What the SDK or the HTTP client reads off it is an argument, with the error it
may end in.

`BaseProvider.chat_stream` promises that the last chunk carries `done=True` and the token counts.
The second half says for which replies each adapter keeps that promise.
-/

namespace LlmGateway

/-- An error of an SDK or of the HTTP client: its text, and the status code if it is about one. -/
structure UpstreamError where
  text : String
  statusCode : Option ℕ

/-- `is_retryable_status_code`. -/
def isRetryableStatusCode (statusCode : ℕ) : Bool := statusCode = 429 ∨ 500 ≤ statusCode

/-- `_provider_error` of the adapters. -/
def UpstreamError.toProviderError (label : String) (e : UpstreamError) : PyError :=
  .providerError (label ++ ": " ++ e.text) ((e.statusCode.map isRetryableStatusCode).getD true)

/-- What came out of a generator: its chunks, and the exception it ended in. -/
structure Streamed where
  chunks : List StreamChunk
  raised : Option PyError

/-! ## OpenAI -/

namespace OpenAI

/-- An event of the stream: its `usage`, and the `delta.content` of its first choice. -/
structure Event where
  usage : Option (ℤ × ℤ)
  content : Option String

/-- The text an event brings. -/
def Event.text (e : Event) : String := e.content.getD ""

/-- What an event is turned into. -/
def chunk? (e : Event) : Option StreamChunk :=
  match e.usage with
  | some (promptTokens, completionTokens) => some {
      content := .str ""
      done := true
      inputTokens := .int promptTokens
      outputTokens := .int completionTokens }
  | none => if e.text = "" then none else some { content := .str e.text }

/-- `OpenAIProvider.chat_stream`. -/
def chatStream (events : List Event) (failure : Option UpstreamError) : Streamed where
  chunks := events.filterMap chunk?
  raised := failure.map (UpstreamError.toProviderError "openai stream failed")

end OpenAI

/-! ## Anthropic -/

namespace Anthropic

/-- `AnthropicProvider.chat_stream`: the text deltas, then the usage of the final message. -/
def chatStream (texts : List String) (final : Except UpstreamError (ℤ × ℤ)) : Streamed :=
  let deltas : List StreamChunk := texts.map fun text => { content := .str text }
  match final with
  | .ok (inputTokens, outputTokens) => {
      chunks := deltas ++ [{
        content := .str ""
        done := true
        inputTokens := .int inputTokens
        outputTokens := .int outputTokens }]
      raised := none }
  | .error e => ⟨deltas, some (e.toProviderError "anthropic stream failed")⟩

end Anthropic

/-! ## Ollama -/

namespace PyVal

/-- Python's truth value. -/
def truthy : PyVal → Bool
  | .none => false
  | .bool b => b
  | .int n => n ≠ 0
  | .count n => n ≠ 0
  | .float x => x ≠ 0
  | .str s => s ≠ ""
  | .list xs => !xs.isEmpty
  | .dict kvs => !kvs.isEmpty

/-- `v.get(k, default)`. -/
def get (v : PyVal) (k : String) (default : PyVal) : Except PyError PyVal :=
  match v with
  | .dict kvs => .ok ((kvs.lookup k).getD default)
  | _ => .error (.other "AttributeError")

/-- `v[k]`. -/
def item (v : PyVal) (k : String) : Except PyError PyVal :=
  match v with
  | .dict kvs =>
    match kvs.lookup k with
    | some x => .ok x
    | Option.none => .error (.other "KeyError")
  | _ => .error .typeError

end PyVal

namespace Ollama

/-- Why the interpreter does not decode a JSON text. -/
inductive Undecoded where
  /-- It is nested deeper than the recursion limit. -/
  | tooDeep
  /-- It has an integer of more digits than `int` accepts. -/
  | tooManyDigits

/-- What `json.loads` raises. It is no `JSONDecodeError`. -/
def Undecoded.error : Undecoded → PyError
  | .tooDeep => .other "RecursionError"
  | .tooManyDigits => .valueError

/-- A line of the response. -/
inductive Line where
  | blank
  | notJson
  | undecoded (why : Undecoded)
  | json (data : PyVal)

/-- What a line that is JSON is turned into. -/
def chunk (data : PyVal) : Except PyError StreamChunk := do
  if (← data.get "done" .none).truthy then
    pure {
      content := .str ""
      done := true
      inputTokens := ← data.get "prompt_eval_count" (.int 0)
      outputTokens := ← data.get "eval_count" (.int 0) }
  else
    pure { content := ← (← data.item "message").item "content" }

/-- The chunks of the lines, up to the first line that raises. -/
def readLines : List Line → Streamed
  | [] => ⟨[], none⟩
  | .blank :: lines => readLines lines
  | .notJson :: _ => ⟨[], some (.other "JSONDecodeError")⟩
  | .undecoded why :: _ => ⟨[], some why.error⟩
  | .json data :: lines =>
    match chunk data with
    | .ok c => ⟨c :: (readLines lines).chunks, (readLines lines).raised⟩
    | .error e => ⟨[], some e⟩

/-- `except (KeyError, TypeError, json.JSONDecodeError)`. `str` gives the text of an exception. -/
def translate (str : PyError → String) (e : PyError) : PyError :=
  match e with
  | .typeError | .other "KeyError" | .other "JSONDecodeError" =>
    .providerError ("ollama returned an unexpected stream chunk shape: " ++ str e) true
  | e => e

/-- `OllamaProvider.chat_stream`. -/
def chatStream (str : PyError → String) (lines : List Line) (failure : Option UpstreamError) :
    Streamed where
  chunks := (readLines lines).chunks
  raised :=
    match (readLines lines).raised with
    | some e => some (translate str e)
    | none => failure.map (UpstreamError.toProviderError "ollama stream failed")

end Ollama

/-! ## What a reply brings

Whatever the provider, a reply is a sequence of pieces of text, some of which report token counts.
-/

/-- A piece of a reply: its text, and the token counts if it reports them. -/
@[ext]
structure Delta where
  text : String
  usage : Option (ℤ × ℤ)
  deriving DecidableEq

/-- The chunk an adapter makes of a piece. The text of a piece that reports the counts is dropped. -/
def Delta.chunk (d : Delta) : StreamChunk :=
  match d.usage with
  | some (promptTokens, completionTokens) => {
      content := .str ""
      done := true
      inputTokens := .int promptTokens
      outputTokens := .int completionTokens }
  | none => { content := .str d.text }

namespace OpenAI

/-- The piece of the reply an event is. -/
def Event.delta (e : Event) : Delta := ⟨e.text, e.usage⟩

/-- An event with neither text nor counts is passed over. -/
theorem chunk?_eq (e : Event) :
    chunk? e = if e.delta = ⟨"", none⟩ then none else some e.delta.chunk := by
  obtain ⟨usage, content⟩ := e
  cases usage with
  | none =>
    by_cases htext : content.getD "" = ""
    · simp [chunk?, Event.delta, Event.text, htext]
    · simp [chunk?, Event.delta, Event.text, Delta.chunk, htext]
  | some u => simp [chunk?, Event.delta, Delta.chunk]

/-- The pieces that come out as a chunk. -/
def relayed (events : List Event) : List Delta := (events.map Event.delta).filter (· ≠ ⟨"", none⟩)

theorem chatStream_eq (events : List Event) :
    chatStream events none = ⟨(relayed events).map Delta.chunk, none⟩ := by
  have hchunks : events.filterMap chunk? = (relayed events).map Delta.chunk := by
    induction events with
    | nil => rfl
    | cons e events ih =>
      by_cases he : e.delta = ⟨"", none⟩
      · simpa [relayed, chunk?_eq, he] using ih
      · simpa [relayed, chunk?_eq, he] using ih
  simp [chatStream, hchunks]

/-- What is passed over has no text. -/
theorem join_relayed (events : List Event) :
    String.join ((relayed events).map Delta.text) =
      String.join ((events.map Event.delta).map Delta.text) := by
  induction events with
  | nil => rfl
  | cons e events ih =>
    simp only [relayed, List.map_cons, String.join_cons] at ih ⊢
    rw [← ih]
    by_cases he : e.delta = ⟨"", none⟩ <;> simp [he]

/-- What is passed over has no counts. -/
theorem usage_relayed (events : List Event) :
    (relayed events).filterMap Delta.usage = (events.map Event.delta).filterMap Delta.usage := by
  induction events with
  | nil => rfl
  | cons e events ih =>
    simp only [relayed, List.map_cons, List.filterMap_cons] at ih ⊢
    rw [← ih]
    by_cases he : e.delta = ⟨"", none⟩ <;> simp [he, List.filterMap_cons]

end OpenAI

namespace Anthropic

/-- The pieces of a reply: the text deltas, and the usage of the final message. -/
def deltas (texts : List String) (usage : ℤ × ℤ) : List Delta :=
  texts.map (fun text => ⟨text, none⟩) ++ [⟨"", some usage⟩]

theorem chatStream_eq (texts : List String) (usage : ℤ × ℤ) :
    chatStream texts (.ok usage) = ⟨(deltas texts usage).map Delta.chunk, none⟩ := by
  simp [chatStream, deltas, Delta.chunk, Function.comp_def]

end Anthropic

namespace Ollama

/-- `data["message"]["content"]` where it is there, else no text. -/
def message (data : PyVal) : String :=
  match data.item "message" >>= (PyVal.item · "content") with
  | .ok (.str s) => s
  | _ => ""

/-- A token count of a line, `0` where the line has none. -/
def count (data : PyVal) (k : String) : ℤ :=
  match data.get k (.int 0) with
  | .ok (.int n) => n
  | _ => 0

/-- Whether a line ends the reply. -/
def isDone (data : PyVal) : Bool :=
  match data.get "done" .none with
  | .ok v => v.truthy
  | .error _ => false

/-- The piece of the reply a line is. -/
def delta (data : PyVal) : Delta where
  text := message data
  usage :=
    if isDone data then some (count data "prompt_eval_count", count data "eval_count") else none

/-- The pieces of the reply in a line. -/
def Line.deltas : Line → List Delta
  | .json data => [delta data]
  | _ => []

/-- What Ollama documents of a line: an object, which has its text in `message` unless it is the
one that ends the reply, and whose counts are numbers there. -/
def Line.WellFormed : Line → Prop
  | .blank => True
  | .notJson | .undecoded _ => False
  | .json data =>
    (∃ kvs, data = .dict kvs) ∧
    (isDone data = false →
      ∃ s, data.item "message" >>= (PyVal.item · "content") = .ok (.str s)) ∧
    (isDone data = true →
      ∀ k ∈ ["prompt_eval_count", "eval_count"], ∃ n, data.get k (.int 0) = .ok (.int n))

theorem count_of_get {data : PyVal} {k : String} {n : ℤ} (h : data.get k (.int 0) = .ok (.int n)) :
    count data k = n := by
  simp only [count, h]

/-- A well-formed line gives the chunk of its piece. -/
theorem chunk_of_wellFormed {data : PyVal} (h : (Line.json data).WellFormed) :
    chunk data = .ok (delta data).chunk := by
  obtain ⟨⟨kvs, rfl⟩, htext, hcounts⟩ := h
  have hget (k : String) (v : PyVal) :
      (PyVal.dict kvs).get k v = .ok ((kvs.lookup k).getD v) := rfl
  cases hdone : isDone (.dict kvs) with
  | false =>
    obtain ⟨s, hs⟩ := htext hdone
    have htruthy : ((kvs.lookup "done").getD .none).truthy = false := hdone
    have hmessage : message (.dict kvs) = s := by simp only [message, hs]
    obtain ⟨m, hm, hms⟩ : ∃ m, (PyVal.dict kvs).item "message" = .ok m ∧
        m.item "content" = .ok (.str s) := by
      cases hm : (PyVal.dict kvs).item "message" with
      | ok m => exact ⟨m, rfl, by simpa [hm, bind, Except.bind] using hs⟩
      | error e => simp [hm, bind, Except.bind] at hs
    simp [chunk, hget, htruthy, hm, hms, delta, hdone, hmessage, Delta.chunk, bind, Except.bind,
      pure, Except.pure]
  | true =>
    obtain ⟨p, hp⟩ := hcounts hdone "prompt_eval_count" (by simp)
    obtain ⟨n, hn⟩ := hcounts hdone "eval_count" (by simp)
    have htruthy : ((kvs.lookup "done").getD .none).truthy = true := hdone
    simp [chunk, hget "done", htruthy, hp, hn, delta, hdone, count_of_get hp, count_of_get hn,
      Delta.chunk, bind, Except.bind, pure, Except.pure]

/-- Well-formed lines are read to the end, and every line that is not blank gives a chunk. -/
theorem readLines_eq {lines : List Line} (h : ∀ line ∈ lines, line.WellFormed) :
    readLines lines = ⟨(lines.flatMap Line.deltas).map Delta.chunk, none⟩ := by
  induction lines with
  | nil => rfl
  | cons line lines ih =>
    have htail := ih fun l hl => h l (List.mem_cons_of_mem _ hl)
    have hhead := h line List.mem_cons_self
    cases line with
    | blank => simpa [readLines, Line.deltas] using htail
    | notJson => exact hhead.elim
    | undecoded why => exact hhead.elim
    | json data => simp [readLines, Line.deltas, chunk_of_wellFormed hhead, htail]

theorem chatStream_eq (str : PyError → String) {lines : List Line}
    (h : ∀ line ∈ lines, line.WellFormed) :
    chatStream str lines none = ⟨(lines.flatMap Line.deltas).map Delta.chunk, none⟩ := by
  simp [chatStream, readLines_eq h]

end Ollama

/-! ## The promise

`BaseProvider.chat_stream`: "The last chunk must carry `done=True` and token counts."
-/

/-- The text of a chunk. -/
def StreamChunk.text (c : StreamChunk) : String :=
  match c.content with
  | .str s => s
  | _ => ""

/-- The chunk ends the stream with these token counts. -/
def StreamChunk.Reports (c : StreamChunk) (u : ℤ × ℤ) : Prop :=
  c.done = true ∧ c.inputTokens = .int u.1 ∧ c.outputTokens = .int u.2

/-- A stream that yields a chunk and ends normally keeps the promise for the pieces received: its
last chunk, and no other, is done and carries counts that were received, and its text is theirs. -/
def Streamed.Honours (s : Streamed) (received : List Delta) : Prop :=
  s.raised = none → s.chunks ≠ [] →
    (∃ init last, s.chunks = init ++ [last] ∧ (∀ c ∈ init, c.done = false) ∧
      ∃ u ∈ received.filterMap Delta.usage, last.Reports u) ∧
    String.join (s.chunks.map StreamChunk.text) = String.join (received.map Delta.text)

/-- The pieces end in one that reports the counts and has no text, and no other reports any. -/
def EndsInUsage (ds : List Delta) : Prop :=
  ∃ init u, ds = init ++ [⟨"", some u⟩] ∧ ∀ d ∈ init, d.usage = none

@[simp]
theorem Delta.chunk_done (d : Delta) : d.chunk.done = d.usage.isSome := by
  obtain ⟨text, _ | u⟩ := d <;> rfl

@[simp]
theorem Delta.chunk_text (d : Delta) : d.chunk.text = if d.usage = none then d.text else "" := by
  obtain ⟨text, _ | u⟩ := d <;> rfl

/-- Pieces without counts come out with their text. -/
theorem join_text_chunk {ds : List Delta} (h : ∀ d ∈ ds, d.usage = none) :
    (ds.map Delta.chunk).map StreamChunk.text = ds.map Delta.text := by
  rw [List.map_map]
  refine List.map_congr_left fun d hd => ?_
  simp [h d hd]

/-- If what is relayed has the text of what was received, and its counts were received, the promise
is kept just when nothing is relayed or the pieces relayed end in the counts. -/
theorem honours_map_chunk {relayed received : List Delta}
    (htext : String.join (received.map Delta.text) = String.join (relayed.map Delta.text))
    (husage : received.filterMap Delta.usage = relayed.filterMap Delta.usage) :
    (Streamed.mk (relayed.map Delta.chunk) none).Honours received ↔
      relayed = [] ∨ EndsInUsage relayed := by
  rcases List.eq_nil_or_concat relayed with rfl | ⟨init, d, rfl⟩
  · simp [Streamed.Honours]
  · simp only [List.concat_eq_append] at *
    constructor
    · intro h
      obtain ⟨⟨cs, c, hcs, hinit, u, -, hdone, -⟩, hjoin⟩ := h rfl (by simp)
      obtain ⟨rfl, rfl⟩ : init.map Delta.chunk = cs ∧ d.chunk = c := by simpa using hcs
      have hnone : ∀ e ∈ init, e.usage = none := fun e he => by
        simpa using hinit e.chunk (List.mem_map_of_mem he)
      have hsome : d.usage.isSome := by simpa using hdone
      obtain ⟨v, hv⟩ := Option.isSome_iff_exists.mp hsome
      -- The text of the last piece is what is missing from the chunks.
      have hlast : d.text = "" := by
        simp only [htext, List.map_append, List.map_cons, List.map_nil, String.join_append,
          join_text_chunk hnone] at hjoin
        have hpieces := (String.append_right_inj _).mp hjoin
        simpa [hv] using hpieces.symm
      exact .inr ⟨init, v, by rw [show d = ⟨"", some v⟩ from Delta.ext hlast hv], hnone⟩
    · rintro (h | ⟨ds, u, h, hnone⟩)
      · simp at h
      · obtain ⟨rfl, rfl⟩ : init = ds ∧ d = ⟨"", some u⟩ := by simpa using h
        intro _ _
        refine ⟨⟨init.map Delta.chunk, Delta.chunk ⟨"", some u⟩, by simp, ?_, u, ?_, rfl, rfl, rfl⟩,
          ?_⟩
        · intro c hc
          obtain ⟨e, he, rfl⟩ := List.mem_map.mp hc
          simp [hnone e he]
        · simp [husage]
        · rw [htext]
          simp [join_text_chunk hnone, String.join_append]

/-! ## The replies -/

/-- A reply that an adapter reads to its end: the events of OpenAI, the text deltas and the usage of
Anthropic, the lines of Ollama. -/
inductive ProviderReply where
  | openai (events : List OpenAI.Event)
  | anthropic (texts : List String) (usage : ℤ × ℤ)
  | ollama (lines : {lines : List Ollama.Line // ∀ line ∈ lines, line.WellFormed})

namespace ProviderReply

/-- What the adapter makes of the reply. -/
def streamed (str : PyError → String) : ProviderReply → Streamed
  | .openai events => OpenAI.chatStream events none
  | .anthropic texts usage => Anthropic.chatStream texts (.ok usage)
  | .ollama lines => Ollama.chatStream str lines none

/-- The pieces of the reply. -/
def received : ProviderReply → List Delta
  | .openai events => events.map OpenAI.Event.delta
  | .anthropic texts usage => Anthropic.deltas texts usage
  | .ollama lines => lines.1.flatMap Ollama.Line.deltas

/-- What is asked of the reply. Of OpenAI's, that the only event with usage is the last one that is
not passed over, and has no text. Of Ollama's, that the only line that is done is the last one, and
has no text. Of Anthropic's, nothing. -/
def EndsProperly : ProviderReply → Prop
  | .openai events => OpenAI.relayed events = [] ∨ EndsInUsage (OpenAI.relayed events)
  | .anthropic _ _ => True
  | .ollama lines =>
    lines.1.flatMap Ollama.Line.deltas = [] ∨ EndsInUsage (lines.1.flatMap Ollama.Line.deltas)

/-- Each adapter keeps the promise of `chat_stream` for exactly the replies that end properly. -/
theorem honours_iff (str : PyError → String) (r : ProviderReply) :
    (r.streamed str).Honours r.received ↔ r.EndsProperly := by
  cases r with
  | openai events =>
    rw [streamed, OpenAI.chatStream_eq]
    exact honours_map_chunk (OpenAI.join_relayed events).symm (OpenAI.usage_relayed events).symm
  | anthropic texts usage =>
    rw [streamed, Anthropic.chatStream_eq]
    refine (honours_map_chunk rfl rfl).trans (iff_of_true (.inr ?_) trivial)
    exact ⟨_, usage, rfl, by simp⟩
  | ollama lines =>
    rw [streamed, Ollama.chatStream_eq str lines.2]
    exact honours_map_chunk rfl rfl

/-- An OpenAI stream without usage ends in a chunk that is not done. -/
theorem not_honours_without_usage :
    ¬ ((ProviderReply.openai [⟨none, some "hi"⟩]).streamed fun _ => "").Honours
      (ProviderReply.openai [⟨none, some "hi"⟩]).received := by
  intro h
  obtain ⟨⟨init, last, hchunks, -, u, hu, -⟩, -⟩ := h rfl (by decide +kernel)
  exact absurd hu (by simp [received, OpenAI.Event.delta])

end ProviderReply

end LlmGateway
