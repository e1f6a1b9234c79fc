import LlmGateway.Providers.StreamContract

/-!
# Replies of Ollama of any shape

`OllamaProvider.chat` and `chat_stream` read fields off a decoded JSON value without knowing what it
is. A body of an unexpected shape is meant to end in a `ProviderError`, so that the router falls back.

The clause after both reads names `KeyError`, `TypeError` and `JSONDecodeError`. It does not name the
`AttributeError` that `.get` raises on a line that is no object, nor what the decoder raises on bytes
that are no UTF-8 and on JSON past the interpreter's limits, and nothing checks the type of what is
read.
-/

namespace LlmGateway

namespace PyVal

/-- A JSON object. -/
def isObject : PyVal → Bool
  | .dict _ => true
  | _ => false

def IsStr (v : PyVal) : Prop := ∃ s, v = .str s

def IsInt : PyVal → Prop
  | .int _ | .count _ => True
  | _ => False

@[simp] theorem isStr_str (s : String) : (str s).IsStr := ⟨s, rfl⟩

@[simp] theorem isInt_int (n : ℤ) : (int n).IsInt := trivial

theorem get_dict (kvs : List (String × PyVal)) (k : String) (v : PyVal) :
    (dict kvs).get k v = .ok ((kvs.lookup k).getD v) := rfl

theorem get_of_not_isObject {data : PyVal} (h : data.isObject = false) (k : String) (v : PyVal) :
    data.get k v = .error (.other "AttributeError") := by
  cases data with
  | dict kvs => cases h
  | _ => rfl

theorem item_of_not_isObject {data : PyVal} (h : data.isObject = false) (k : String) :
    data.item k = .error .typeError := by
  cases data with
  | dict kvs => cases h
  | _ => rfl

end PyVal

namespace Ollama

/-- `data["message"]["content"]`. -/
def contentOf (data : PyVal) : Except PyError PyVal := data.item "message" >>= (PyVal.item · "content")

/-- The exceptions that the adapter's last clause names. -/
def IsShapeError : PyError → Prop
  | .typeError | .other "KeyError" | .other "JSONDecodeError" => True
  | _ => False

/-- The adapter's last clause, with the text it puts before that of the exception. -/
def asProviderError (text : String) (str : PyError → String) (e : PyError) : PyError :=
  match e with
  | .typeError | .other "KeyError" | .other "JSONDecodeError" =>
    .providerError (text ++ str e) true
  | e => e

/-- The exception is a `ProviderError`. -/
def IsProviderError (e : PyError) : Prop := ∃ message retryable, e = .providerError message retryable

theorem translate_eq (str : PyError → String) :
    translate str = asProviderError "ollama returned an unexpected stream chunk shape: " str := by
  funext e
  rfl

/-! ## `chat` -/

/-- The `ChatResponse` of `OllamaProvider.chat`. Its model is what the reply says it is. -/
structure Response where
  content : PyVal
  provider : String := "ollama"
  model : PyVal
  inputTokens : PyVal
  outputTokens : PyVal

/-- The body of a 2xx reply. The lines of a stream are decoded leniently; a body is not. -/
inductive Body where
  | notUtf8
  | notJson
  | undecoded (why : Undecoded)
  | json (data : PyVal)

/-- The body of the `try`: the decoded reply and its content. -/
def Body.read : Body → Except PyError (PyVal × PyVal)
  | .notUtf8 => .error (.other "UnicodeDecodeError")
  | .notJson => .error (.other "JSONDecodeError")
  | .undecoded why => .error why.error
  | .json data => do
    let content ← (← data.item "message").item "content"
    pure (data, content)

/-- `OllamaProvider.chat`, asked for `model`, from where a 2xx reply is there. -/
def chat (str : PyError → String) (model : String) (body : Body) : Except PyError Response := do
  let (data, content) ←
    body.read.mapError (asProviderError "ollama returned an unexpected response shape: " str)
  pure {
    content := content
    model := ← data.get "model" (.str model)
    inputTokens := ← data.get "prompt_eval_count" (.int 0)
    outputTokens := ← data.get "eval_count" (.int 0) }

/-! ## What the fields hold -/

/-- The text and the two counts of a response or a chunk have their types. -/
def Typed (content inputTokens outputTokens : PyVal) : Prop :=
  content.IsStr ∧ inputTokens.IsInt ∧ outputTokens.IsInt

/-- Each of the two counts of a reply is missing or an integer. -/
def HasCounts (data : PyVal) : Prop :=
  ∀ k ∈ ["prompt_eval_count", "eval_count"], ∀ v, data.get k (.int 0) = .ok v → v.IsInt

/-- The content of a reply is missing or a string. -/
def HasText (data : PyVal) : Prop := ∀ v, contentOf data = .ok v → v.IsStr

theorem isProviderError_of_isShapeError {e : PyError} (h : IsShapeError e) (text : String)
    (str : PyError → String) : IsProviderError (asProviderError text str e) := by
  unfold IsShapeError at h
  split at h
  · exact ⟨_, _, rfl⟩
  · exact ⟨_, _, rfl⟩
  · exact ⟨_, _, rfl⟩
  · exact h.elim

/-- What `data["message"]["content"]` raises is named by the clause. -/
theorem isShapeError_item {data : PyVal} {k : String} {e : PyError} (h : data.item k = .error e) :
    IsShapeError e := by
  unfold PyVal.item at h
  split at h
  · split at h
    · cases h
    · cases h
      trivial
  · cases h
    trivial

theorem isShapeError_contentOf {data : PyVal} {e : PyError} (h : contentOf data = .error e) :
    IsShapeError e := by
  unfold contentOf at h
  cases hm : data.item "message" with
  | error e' =>
    rw [hm] at h
    cases h
    exact isShapeError_item hm
  | ok message =>
    rw [hm] at h
    exact isShapeError_item h

/-- A value with a content is an object. -/
theorem isObject_of_contentOf {data v : PyVal} (h : contentOf data = .ok v) : data.isObject := by
  by_contra hobject
  rw [contentOf, PyVal.item_of_not_isObject (by simpa using hobject)] at h
  cases h

/-- The counts of an object, as the adapter reads them. -/
theorem hasCounts_dict {kvs : List (String × PyVal)} :
    HasCounts (.dict kvs) ↔
      ((kvs.lookup "prompt_eval_count").getD (.int 0)).IsInt ∧
        ((kvs.lookup "eval_count").getD (.int 0)).IsInt := by
  simp [HasCounts, PyVal.get_dict]

theorem hasText_of_contentOf {data v : PyVal} (h : contentOf data = .ok v) :
    HasText data ↔ v.IsStr := by
  simp [HasText, h]

/-! ## Reading a line -/

/-- A line the loop does not get past: not decoded, or neither done nor with a content. -/
def Line.unreadable : Line → Bool
  | .blank => false
  | .notJson | .undecoded _ => true
  | .json data => !isDone data && !(contentOf data).isOk

/-- What a line raises. -/
def Line.failure : Line → Option PyError
  | .blank => none
  | .notJson => some (.other "JSONDecodeError")
  | .undecoded why => some why.error
  | .json data =>
    match chunk data with
    | .ok _ => none
    | .error e => some e

/-- A line that, unreadable, raises what the adapter's last clause names: no JSON, or an object. -/
def Line.Named : Line → Prop
  | .undecoded _ => False
  | .json data => data.isObject = true
  | _ => True

/-- A line that is read holds the types that are expected of it. -/
def Line.Conforms : Line → Prop
  | .json data => if isDone data then HasCounts data else HasText data
  | _ => True

theorem chunk_of_not_isObject {data : PyVal} (h : data.isObject = false) :
    chunk data = .error (.other "AttributeError") := by
  rw [chunk, PyVal.get_of_not_isObject h]
  rfl

/-- A line that ends the reply. -/
theorem chunk_of_isDone {data : PyVal} (h : isDone data = true) :
    ∃ c, chunk data = .ok c ∧ (Typed c.content c.inputTokens c.outputTokens ↔ HasCounts data) := by
  cases data with
  | dict kvs =>
    have htruthy : ((kvs.lookup "done").getD .none).truthy = true := h
    refine ⟨{
      content := .str ""
      done := true
      inputTokens := (kvs.lookup "prompt_eval_count").getD (.int 0)
      outputTokens := (kvs.lookup "eval_count").getD (.int 0) }, ?_, ?_⟩
    · simp [chunk, PyVal.get_dict, htruthy, bind, Except.bind, pure, Except.pure]
    rw [hasCounts_dict]
    simp [Typed]
  | _ => cases h

/-- An object that does not end the reply. -/
theorem chunk_of_not_isDone {data : PyVal} (hobject : data.isObject = true)
    (h : isDone data = false) :
    chunk data = (contentOf data).map fun v => { content := v } := by
  cases data with
  | dict kvs =>
    have htruthy : ((kvs.lookup "done").getD .none).truthy = false := h
    rw [chunk, PyVal.get_dict, contentOf]
    cases hm : (PyVal.dict kvs).item "message" with
    | error e => simp [htruthy, bind, Except.bind, Except.map]
    | ok message =>
      cases message.item "content" <;>
        simp [htruthy, bind, Except.bind, pure, Except.pure, Except.map]
  | _ => cases hobject

/-- A readable line gives a chunk, whose fields have their types if those of the line do. -/
theorem chunk_of_readable {data : PyVal} (h : (Line.json data).unreadable = false) :
    ∃ c, chunk data = .ok c ∧
      (Typed c.content c.inputTokens c.outputTokens ↔ (Line.json data).Conforms) := by
  by_cases hdone : isDone data = true
  · obtain ⟨c, hc, htyped⟩ := chunk_of_isDone hdone
    exact ⟨c, hc, by rwa [Line.Conforms, if_pos hdone]⟩
  · rw [Bool.not_eq_true] at hdone
    cases hv : contentOf data with
    | error e => simp [Line.unreadable, hdone, hv, Except.isOk, Except.toBool] at h
    | ok v =>
      refine ⟨{ content := v }, ?_, ?_⟩
      · rw [chunk_of_not_isDone (isObject_of_contentOf hv) hdone, hv]
        rfl
      · rw [Line.Conforms, hdone, if_neg Bool.false_ne_true, hasText_of_contentOf hv]
        simp [Typed]

theorem not_isProviderError_undecoded (why : Undecoded) (text : String) (str : PyError → String) :
    ¬ IsProviderError (asProviderError text str why.error) := by
  rintro ⟨_, _, h⟩
  cases why <;> cases h

/-- What an unreadable line raises is turned into a `ProviderError` if the adapter names it. -/
theorem failure_of_unreadable {line : Line} (h : line.unreadable = true) (text : String)
    (str : PyError → String) :
    ∃ e, line.failure = some e ∧
      (IsProviderError (asProviderError text str e) ↔ line.Named) := by
  cases line with
  | blank => cases h
  | notJson => exact ⟨_, rfl, iff_of_true ⟨_, _, rfl⟩ trivial⟩
  | undecoded why =>
    exact ⟨_, rfl, iff_of_false (not_isProviderError_undecoded why text str) not_false⟩
  | json data =>
    cases hobject : data.isObject with
    | false =>
      refine ⟨.other "AttributeError", by rw [Line.failure, chunk_of_not_isObject hobject], ?_⟩
      refine iff_of_false (fun ⟨_, _, h⟩ => by cases h) ?_
      simp [Line.Named, hobject]
    | true =>
      obtain ⟨hdone, hcontent⟩ : isDone data = false ∧ (contentOf data).isOk = false := by
        simpa [Line.unreadable] using h
      cases hv : contentOf data with
      | ok v => simp [hv, Except.isOk, Except.toBool] at hcontent
      | error e =>
        refine ⟨e, by rw [Line.failure, chunk_of_not_isDone hobject hdone, hv]; rfl, ?_⟩
        exact iff_of_true
          (isProviderError_of_isShapeError (isShapeError_contentOf hv) text str) hobject

/-! ## Reading the lines -/

/-- The lines are read up to the first that is unreadable, and end in what that one raises. -/
theorem raised_readLines (lines : List Line) :
    (readLines lines).raised = (lines.find? Line.unreadable).bind Line.failure := by
  induction lines with
  | nil => rfl
  | cons line lines ih =>
    cases hline : line.unreadable with
    | false =>
      rw [List.find?_cons_of_neg (by simp [hline]), ← ih]
      cases line with
      | blank => rfl
      | notJson => cases hline
      | undecoded why => cases hline
      | json data =>
        obtain ⟨c, hc, -⟩ := chunk_of_readable hline
        rw [readLines, hc]
    | true =>
      rw [List.find?_cons_of_pos hline, Option.bind_some]
      cases line with
      | blank => cases hline
      | notJson => rfl
      | undecoded why => rfl
      | json data =>
        obtain ⟨e, he, -⟩ := failure_of_unreadable hline "" fun _ => ""
        rw [he, readLines]
        cases hc : chunk data with
        | ok c => simp [Line.failure, hc] at he
        | error e' =>
          rw [Line.failure, hc] at he
          exact he

/-- Of lines that can all be read, the fields of the chunks have their types if the lines' do. -/
theorem typed_readLines {lines : List Line} (h : ∀ line ∈ lines, line.unreadable = false) :
    (∀ c ∈ (readLines lines).chunks, Typed c.content c.inputTokens c.outputTokens) ↔
      ∀ line ∈ lines, line.Conforms := by
  induction lines with
  | nil => simp [readLines]
  | cons line lines ih =>
    have htail := ih fun l hl => h l (List.mem_cons_of_mem _ hl)
    have hline := h line List.mem_cons_self
    cases line with
    | blank => simpa [readLines, Line.Conforms] using htail
    | notJson => cases hline
    | undecoded why => cases hline
    | json data =>
      obtain ⟨c, hc, htyped⟩ := chunk_of_readable hline
      simp only [readLines, hc, List.forall_mem_cons, htyped, htail]

/-! ## What a malformed reply ends in

A comment in `chat`: "it must also raise ProviderError so FallbackRouter falls back instead of
letting a raw KeyError/JSONDecodeError skip the fallback chain entirely".
-/

/-- A call of `chat` gives a response whose fields have their types, or a `ProviderError`. -/
def Answered : Except PyError Response → Prop
  | .ok r => Typed r.content r.inputTokens r.outputTokens
  | .error e => IsProviderError e

/-- A stream is one of chunks whose fields have their types, or ends in a `ProviderError`. -/
def Relayed (s : Streamed) : Prop :=
  match s.raised with
  | none => ∀ c ∈ s.chunks, Typed c.content c.inputTokens c.outputTokens
  | some e => IsProviderError e

/-- The body is decoded or no JSON, and if it has a content, that is a string and each count is
missing or an integer. -/
def Body.Conforms : Body → Prop
  | .notUtf8 | .undecoded _ => False
  | .notJson => True
  | .json data => (contentOf data).isOk = true → HasText data ∧ HasCounts data

/-- The first unreadable line is no JSON or an object. If there is none, the fields of every line
have their types. -/
def LinesConform (lines : List Line) : Prop :=
  match lines.find? Line.unreadable with
  | none => ∀ line ∈ lines, line.Conforms
  | some line => line.Named

theorem read_json (data : PyVal) :
    (Body.json data).read = (contentOf data).map fun content => (data, content) := by
  rw [Body.read, contentOf]
  cases data.item "message" with
  | error e => rfl
  | ok message =>
    simp only [bind, Except.bind]
    cases message.item "content" <;> rfl

/-- `chat` on any JSON value, and on a body that is none. -/
theorem answered_chat (str : PyError → String) (model : String) (body : Body) :
    Answered (chat str model body) ↔ body.Conforms := by
  cases body with
  | notUtf8 => exact iff_of_false (fun ⟨_, _, h⟩ => by cases h) not_false
  | notJson => exact iff_of_true ⟨_, _, rfl⟩ trivial
  | undecoded why => exact iff_of_false (not_isProviderError_undecoded why _ str) not_false
  | json data =>
    cases hv : contentOf data with
    | error e =>
      have herror := isProviderError_of_isShapeError (isShapeError_contentOf hv)
        "ollama returned an unexpected response shape: " str
      rw [chat, read_json, hv]
      exact iff_of_true herror (by simp [Body.Conforms, hv, Except.isOk, Except.toBool])
    | ok v =>
      have hobject := isObject_of_contentOf hv
      cases data with
      | dict kvs =>
        rw [chat, read_json, hv, Body.Conforms, hv, hasText_of_contentOf hv, hasCounts_dict]
        simp [Except.map, Except.mapError, bind, Except.bind, pure, Except.pure, PyVal.get_dict,
          Answered, Typed, Except.isOk, Except.toBool]
      | _ => cases hobject

/-- `chat_stream` on any lines. -/
theorem relayed_chatStream (str : PyError → String) (lines : List Line) :
    Relayed (chatStream str lines none) ↔ LinesConform lines := by
  unfold Relayed chatStream LinesConform
  rw [raised_readLines]
  cases hfind : lines.find? Line.unreadable with
  | none =>
    have hread : ∀ line ∈ lines, line.unreadable = false := by simpa using hfind
    simpa using typed_readLines hread
  | some line =>
    obtain ⟨e, he, hshape⟩ := failure_of_unreadable (List.find?_some hfind)
      "ollama returned an unexpected stream chunk shape: " str
    simpa only [Option.bind_some, he, translate_eq] using hshape

/-- A malformed reply is answered with its fields in order, or with a `ProviderError`, just when the
decoder raises nothing but `JSONDecodeError`, no field that is read has another type than is expected
of it and, in a stream, the first line that cannot be read is no JSON or an object. -/
theorem malformed_reply_iff (str : PyError → String) (model : String) :
    (∀ body, Answered (chat str model body) ↔ body.Conforms) ∧
      ∀ lines, Relayed (chatStream str lines none) ↔ LinesConform lines :=
  ⟨answered_chat str model, relayed_chatStream str⟩

/-- A line that is an array raises `AttributeError`, one that is nested too deep `RecursionError`,
and a content that is a number is passed on. -/
theorem malformed_reply_escapes :
    ¬ Relayed (chatStream (fun _ => "") [.json (.list [])] none) ∧
      ¬ Relayed (chatStream (fun _ => "") [.undecoded .tooDeep] none) ∧
      ¬ Answered (chat (fun _ => "") "llama3"
        (.json (.dict [("message", .dict [("content", .int 1)])]))) := by
  refine ⟨?_, ?_, ?_⟩
  · rintro ⟨_, _, h⟩
    cases h
  · rintro ⟨_, _, h⟩
    cases h
  · rintro ⟨⟨_, h⟩, -⟩
    cases h

end Ollama

end LlmGateway
