import LlmGateway.Gateway.Command
import LlmGateway.Text.Json
import LlmGateway.Text.ServerSentEvents

/-!
# The frames on the wire

What the stream endpoints `yield` is text: server-sent events that carry JSON. `Frame.message?` is this
text's message, and `Frame.read?` what a client makes of a message.
-/

namespace LlmGateway

/-! ## Values -/

mutual

/-- The value as `json.dumps` takes it, but for floats and the gateway's own counts. A count is priced
and logged, never sent. A float is: a malformed done line of Ollama passes float token counts on to a
native frame, and such a frame is not among those below. -/
def PyVal.toJson? : PyVal → Option Json
  | .none => some .null
  | .bool b => some (.bool b)
  | .int n => some (.int n)
  | .count _ | .float _ => Option.none
  | .str s => some (.str s)
  | .list xs => (PyVal.toJsons? xs).map .list
  | .dict kvs => (PyVal.toMembers? kvs).map .dict

def PyVal.toJsons? : List PyVal → Option (List Json)
  | [] => some []
  | x :: xs => do
    let v ← PyVal.toJson? x
    let vs ← PyVal.toJsons? xs
    pure (v :: vs)

def PyVal.toMembers? : List (String × PyVal) → Option (List (String × Json))
  | [] => some []
  | (k, x) :: kvs => do
    let v ← PyVal.toJson? x
    let vs ← PyVal.toMembers? kvs
    pure ((k, v) :: vs)

end

mutual

/-- The value that `json.loads` makes of it. -/
def ofJson : Json → PyVal
  | .null => .none
  | .bool b => .bool b
  | .int n => .int n
  | .str s => .str s
  | .list xs => .list (ofJsons xs)
  | .dict kvs => .dict (ofMembers kvs)

def ofJsons : List Json → List PyVal
  | [] => []
  | v :: vs => ofJson v :: ofJsons vs

def ofMembers : List (String × Json) → List (String × PyVal)
  | [] => []
  | (k, v) :: vs => (k, ofJson v) :: ofMembers vs

end

/-- What holds of a value if it holds of its items holds of all values. -/
@[elab_as_elim]
theorem PyVal.induct {P : PyVal → Prop} (none : P .none) (bool : ∀ b, P (.bool b))
    (int : ∀ n, P (.int n)) (count : ∀ n, P (.count n)) (float : ∀ x, P (.float x))
    (str : ∀ s, P (.str s))
    (list : ∀ xs, (∀ x ∈ xs, P x) → P (.list xs))
    (dict : ∀ kvs : List (String × PyVal), (∀ kv ∈ kvs, P kv.2) → P (.dict kvs)) (x : PyVal) : P x :=
  @PyVal.rec P (fun xs => ∀ x ∈ xs, P x) (fun kvs => ∀ kv ∈ kvs, P kv.2) (fun kv => P kv.2)
    none bool int count float str list dict (by simp)
    (fun _ _ hx hxs => List.forall_mem_cons.mpr ⟨hx, hxs⟩) (by simp)
    (fun _ _ hkv hkvs => List.forall_mem_cons.mpr ⟨hkv, hkvs⟩) (fun _ _ h => h) x

theorem ofJsons_toJsons? {xs : List PyVal} (h : ∀ x ∈ xs, ∀ v, x.toJson? = some v → ofJson v = x)
    {vs : List Json} (hvs : PyVal.toJsons? xs = some vs) : ofJsons vs = xs := by
  induction xs generalizing vs with
  | nil =>
    obtain rfl := Option.some.inj hvs
    rfl
  | cons x xs ih =>
    obtain ⟨hx, hxs⟩ := List.forall_mem_cons.mp h
    simp only [PyVal.toJsons?, Option.bind_eq_bind, Option.bind_eq_some_iff] at hvs
    obtain ⟨v, hv, vs', hvs', heq⟩ := hvs
    obtain rfl := Option.some.inj heq
    rw [ofJsons, hx v hv, ih hxs hvs']

theorem ofMembers_toMembers? {kvs : List (String × PyVal)}
    (h : ∀ kv ∈ kvs, ∀ v, kv.2.toJson? = some v → ofJson v = kv.2) {vs : List (String × Json)}
    (hvs : PyVal.toMembers? kvs = some vs) : ofMembers vs = kvs := by
  induction kvs generalizing vs with
  | nil =>
    obtain rfl := Option.some.inj hvs
    rfl
  | cons kv kvs ih =>
    obtain ⟨k, x⟩ := kv
    obtain ⟨hx, hkvs⟩ := List.forall_mem_cons.mp h
    simp only [PyVal.toMembers?, Option.bind_eq_bind, Option.bind_eq_some_iff] at hvs
    obtain ⟨v, hv, vs', hvs', heq⟩ := hvs
    obtain rfl := Option.some.inj heq
    rw [ofMembers, hx v hv, ih hkvs hvs']

/-- Nothing is lost on the way. -/
theorem ofJson_toJson? {x : PyVal} {v : Json} (h : x.toJson? = some v) : ofJson v = x := by
  induction x using PyVal.induct generalizing v with
  | none =>
    obtain rfl := Option.some.inj h
    rfl
  | bool b =>
    obtain rfl := Option.some.inj h
    rfl
  | int n =>
    obtain rfl := Option.some.inj h
    rfl
  | count n => cases h
  | float x => cases h
  | str s =>
    obtain rfl := Option.some.inj h
    rfl
  | list xs ih =>
    obtain ⟨vs, hvs, rfl⟩ := Option.map_eq_some_iff.mp h
    rw [ofJson, ofJsons_toJsons? (fun x hx v => ih x hx) hvs]
  | dict kvs ih =>
    obtain ⟨vs, hvs, rfl⟩ := Option.map_eq_some_iff.mp h
    rw [ofJson, ofMembers_toMembers? (fun kv hkv v => ih kv hkv) hvs]

/-! ## Frames -/

/-- The payload of `envelope` in `_openai_event_stream`. -/
def envelope (completionId : String) (created : ℤ) (model : String) (delta : List (String × Json))
    (finishReason : Json) : Json :=
  .dict [("id", .str completionId), ("object", .str "chat.completion.chunk"),
    ("created", .int created), ("model", .str model),
    ("choices", .list [.dict [("index", .int 0), ("delta", .dict delta),
      ("finish_reason", finishReason)]])]

/-- The JSON that a frame carries; `[DONE]` is none. -/
def Frame.payload? : Frame → Option Json
  | .chunk c => do
    let text ← c.content.toJson?
    let inputTokens ← c.inputTokens.toJson?
    let outputTokens ← c.outputTokens.toJson?
    pure (.dict [("content", text), ("done", .bool c.done), ("input_tokens", inputTokens),
      ("output_tokens", outputTokens), ("provider", .str c.provider), ("model", .str c.model)])
  | .errorEvent error requestId => some (.dict [("error", .str error), ("request_id", .str requestId)])
  | .role completionId created model =>
    some (envelope completionId created model [("role", .str "assistant")] .null)
  | .content completionId created model text => do
    let text ← text.toJson?
    pure (envelope completionId created model [("content", text)] .null)
  | .finish completionId created model =>
    some (envelope completionId created model [] (.str "stop"))
  | .errorObject message requestId =>
    some (.dict [("error", .dict [("message", .str message), ("request_id", .str requestId)])])
  | .done => none

/-- The type of an `event: error`. -/
def errorType : List Char := ['e', 'r', 'r', 'o', 'r']

/-- What is sent at the end of a stream. -/
def doneData : List Char := ['[', 'D', 'O', 'N', 'E', ']']

/-- The line `event: …` that a frame starts with, or none. -/
def Frame.type : Frame → List Char
  | .errorEvent _ _ => errorType
  | _ => Sse.plainType

/-- What comes after `data: `. -/
def Frame.data? : Frame → Option (List Char)
  | .done => some doneData
  | f => f.payload?.map Json.dumps

/-- The message of a frame. -/
def Frame.message? (f : Frame) : Option Sse.Message := f.data?.map fun data => ⟨f.type, data⟩

/-- What a client makes of the JSON of a message. -/
def Frame.ofPayload? : Json → Option Frame
  | .dict [("content", text), ("done", .bool last), ("input_tokens", inputTokens),
      ("output_tokens", outputTokens), ("provider", .str provider), ("model", .str model)] =>
    some (.chunk ⟨ofJson text, last, ofJson inputTokens, ofJson outputTokens, provider, model⟩)
  | .dict [("error", .str error), ("request_id", .str requestId)] =>
    some (.errorEvent error requestId)
  | .dict [("error", .dict [("message", .str message), ("request_id", .str requestId)])] =>
    some (.errorObject message requestId)
  | .dict [("id", .str completionId), ("object", .str "chat.completion.chunk"),
      ("created", .int created), ("model", .str model),
      ("choices", .list [.dict [("index", .int 0), ("delta", .dict delta),
        ("finish_reason", finishReason)]])] =>
    match delta, finishReason with
    | [("role", .str "assistant")], .null => some (.role completionId created model)
    | [("content", text)], .null => some (.content completionId created model (ofJson text))
    | [], .str "stop" => some (.finish completionId created model)
    | _, _ => none
  | _ => none

/-- What a client makes of a message. -/
def Frame.read? (m : Sse.Message) : Option Frame :=
  if m.data = doneData then some .done else Json.loads? m.data >>= Frame.ofPayload?

theorem Frame.ofPayload?_payload {f : Frame} {v : Json} (h : f.payload? = some v) :
    Frame.ofPayload? v = some f := by
  cases f with
  | chunk c =>
    simp only [payload?, Option.bind_eq_bind, Option.bind_eq_some_iff] at h
    obtain ⟨text, htext, inputTokens, hin, outputTokens, hout, heq⟩ := h
    obtain rfl := Option.some.inj heq
    simp only [ofPayload?, ofJson_toJson? htext, ofJson_toJson? hin, ofJson_toJson? hout]
  | errorEvent error requestId =>
    obtain rfl := Option.some.inj h
    rfl
  | role completionId created model =>
    obtain rfl := Option.some.inj h
    rfl
  | content completionId created model text =>
    simp only [payload?, Option.bind_eq_bind, Option.bind_eq_some_iff] at h
    obtain ⟨text', htext, heq⟩ := h
    obtain rfl := Option.some.inj heq
    have hread : ofPayload? (envelope completionId created model [("content", text')] .null) =
        some (.content completionId created model (ofJson text')) := rfl
    rw [hread, ofJson_toJson? htext]
  | finish completionId created model =>
    obtain rfl := Option.some.inj h
    rfl
  | errorObject message requestId =>
    obtain rfl := Option.some.inj h
    rfl
  | done => cases h

/-- A payload is an object. -/
theorem Frame.dumps_payload {f : Frame} {v : Json} (h : f.payload? = some v) :
    v.dumps ≠ doneData := by
  obtain ⟨kvs, rfl⟩ : ∃ kvs, v = .dict kvs := by
    cases f with
    | chunk c =>
      simp only [payload?, Option.bind_eq_bind, Option.bind_eq_some_iff] at h
      obtain ⟨text, -, inputTokens, -, outputTokens, -, heq⟩ := h
      exact ⟨_, (Option.some.inj heq).symm⟩
    | content completionId created model text =>
      simp only [payload?, Option.bind_eq_bind, Option.bind_eq_some_iff] at h
      obtain ⟨text', -, heq⟩ := h
      exact ⟨_, (Option.some.inj heq).symm⟩
    | done => cases h
    | _ => exact ⟨_, (Option.some.inj h).symm⟩
  intro hdone
  rw [Json.dumps, doneData, List.cons.injEq] at hdone
  exact absurd hdone.1 (by decide)

theorem Frame.data?_cases {f : Frame} {data : List Char} (h : f.data? = some data) :
    f = .done ∧ data = doneData ∨ ∃ v, f.payload? = some v ∧ data = v.dumps := by
  by_cases hdone : f = .done
  · subst hdone
    exact .inl ⟨rfl, (Option.some.inj h).symm⟩
  · rw [data?.eq_2 f hdone] at h
    obtain ⟨v, hv, rfl⟩ := Option.map_eq_some_iff.mp h
    exact .inr ⟨v, hv, rfl⟩

theorem Frame.type_mem (f : Frame) : f.type ∈ [Sse.plainType, errorType] := by
  cases f <;> simp [type]

/-- The client makes of a message the frame that it was sent for. -/
theorem Frame.read?_message {f : Frame} {m : Sse.Message} (h : f.message? = some m) :
    Frame.read? m = some f := by
  obtain ⟨data, hdata, rfl⟩ := Option.map_eq_some_iff.mp h
  rcases data?_cases hdata with ⟨rfl, rfl⟩ | ⟨v, hv, rfl⟩
  · exact if_pos rfl
  · rw [read?, if_neg (dumps_payload hv), Json.loads?_dumps]
    exact ofPayload?_payload hv

theorem oneLine_of_printable {s : List Char} (h : ∀ c ∈ s, Json.Printable c) : Sse.OneLine s := by
  intro c hc
  constructor
  · rintro rfl
    exact absurd (h _ hc) (by decide)
  · rintro rfl
    exact absurd (h _ hc) (by decide)

theorem Frame.sendable {f : Frame} {m : Sse.Message} (h : f.message? = some m) : m.Sendable := by
  have htypes : ∀ type ∈ [Sse.plainType, errorType],
      type ≠ [] ∧ ∀ c ∈ type, Json.Printable c := by
    simp [Sse.plainType, errorType, Json.Printable]
  have hdone : ∀ c ∈ doneData, Json.Printable c := by simp [doneData, Json.Printable]
  obtain ⟨data, hdata, rfl⟩ := Option.map_eq_some_iff.mp h
  obtain ⟨hne, htype⟩ := htypes _ f.type_mem
  refine ⟨hne, oneLine_of_printable htype, oneLine_of_printable ?_⟩
  rcases data?_cases hdata with ⟨-, rfl⟩ | ⟨v, -, rfl⟩
  · exact hdone
  · exact Json.printable_dumps v

/-! ## Streams -/

/-- The messages of frames, in order. -/
def Carried (fs : List Frame) (ms : List Sse.Message) : Prop :=
  List.Forall₂ (fun f m => f.message? = some m) fs ms

/-- The frames that a client has read off a text. -/
def framesRead (p : List Char) : List (Option Frame) :=
  ((Sse.between []).readAll p).messages.map Frame.read?

variable {fs : List Frame} {ms : List Sse.Message}

theorem Carried.sendable (h : Carried fs ms) : ∀ m ∈ ms, m.Sendable := by
  induction h with
  | nil => simp
  | cons hf _ ih => exact List.forall_mem_cons.mpr ⟨Frame.sendable hf, ih⟩

theorem Carried.map_read? (h : Carried fs ms) : ms.map Frame.read? = fs.map some := by
  induction h with
  | nil => rfl
  | cons hf _ ih => rw [List.map_cons, List.map_cons, Frame.read?_message hf, ih]

theorem Carried.take (h : Carried fs ms) (k : ℕ) : Carried (fs.take k) (ms.take k) :=
  List.forall₂_take k h

theorem Carried.framesRead_take (h : Carried fs ms) {p : List Char} {k : ℕ}
    (hread : ((Sse.between []).readAll p).messages = ms.take k) :
    framesRead p = (fs.take k).map some := by
  rw [framesRead, hread, (h.take k).map_read?]

/-- Frames that can all be sent have messages. -/
theorem carried_filterMap (h : ∀ f ∈ fs, f.message?.isSome) : Carried fs (fs.filterMap Frame.message?) := by
  induction fs with
  | nil => exact .nil
  | cons f fs ih =>
    obtain ⟨hf, hfs⟩ := List.forall_mem_cons.mp h
    obtain ⟨m, hm⟩ := Option.isSome_iff_exists.mp hf
    rw [List.filterMap_cons_some hm]
    exact .cons hm (ih hfs)

/-- A client that has received the text of some frames up to some character, wherever that is, has read
the frames whose text is complete, each of them as it was sent, and nothing else. -/
theorem frames_arrive (h : Carried fs ms) {p : List Char} (hp : p <+: Sse.texts ms) :
    ∃ k ≤ fs.length, Sse.texts (ms.take k) <+: p ∧
      (k < fs.length → ¬ Sse.texts (ms.take (k + 1)) <+: p) ∧
      framesRead p = (fs.take k).map some := by
  obtain ⟨k, hk, htake, hnext, hread⟩ := Sse.messages_of_prefix [] h.sendable hp
  rw [← h.length_eq] at hk hnext
  exact ⟨k, hk, htake, hnext, h.framesRead_take hread⟩

/-- A chunk whose text has to be escaped, and the end of the stream. -/
def greeting : List Frame := [.chunk ⟨.str "hi \"é\"!\n", false, .int 0, .int 0, "ollama", "llama3"⟩, .done]

/-- Their messages. -/
def greetingMessages : List Sse.Message := greeting.filterMap Frame.message?

theorem carried_greeting : Carried greeting greetingMessages :=
  .cons rfl (.cons rfl .nil)

theorem frames_arrive_greeting :
    ∃ k ≤ 2, Sse.texts (greetingMessages.take k) <+: (Sse.texts greetingMessages).take 140 ∧
      (k < 2 → ¬ Sse.texts (greetingMessages.take (k + 1)) <+: (Sse.texts greetingMessages).take 140) ∧
      framesRead ((Sse.texts greetingMessages).take 140) = (greeting.take k).map some :=
  frames_arrive carried_greeting (List.take_prefix _ _)

end LlmGateway
