import Mathlib.Data.List.Basic

/-!
# Server-sent events

A stream of messages as text, and a client that reads it a character at a time. A line ends in `\n`,
`\r` or both, a line `data: …` or `event: …` is a field of the message to come, and an empty line ends
the message. Whatever comes in pieces is put together, so it does not matter how the text was cut:
`messages_of_prefix` says what the client has got of a text that it has read up to some character.
-/

namespace Sse

/-- A message: its type, which is `message` where the stream names none, and its data. -/
structure Message where
  type : List Char
  data : List Char
  deriving DecidableEq

/-- What a message that names no type is of. -/
def plainType : List Char := ['m', 'e', 's', 's', 'a', 'g', 'e']

/-! ## Reading -/

/-- A client, with the line it is reading, the fields it has read since the last message, and the
messages. -/
structure Reader where
  line : List Char := []
  /-- The last character was `\r`, so `\n` would belong to it. -/
  afterReturn : Bool := false
  type : List Char := []
  data : List (List Char) := []
  messages : List Message := []

namespace Reader

/-- An empty line: the message is complete, unless it has no data. -/
def dispatch (r : Reader) : Reader :=
  if r.data = [] then { r with line := [], type := [] }
  else
    { line := []
      afterReturn := r.afterReturn
      messages := r.messages ++
        [⟨if r.type = [] then plainType else r.type, List.intercalate ['\n'] r.data⟩] }

/-- The value of a field, without the blank after the colon. -/
def fieldValue : List Char → List Char
  | ':' :: ' ' :: value => value
  | ':' :: value => value
  | value => value

/-- A line is complete. -/
def endLine (r : Reader) : Reader :=
  match r.line with
  | [] => r.dispatch
  | c :: cs =>
    let name := (c :: cs).takeWhile (· ≠ ':')
    let value := fieldValue ((c :: cs).dropWhile (· ≠ ':'))
    if name = ['d', 'a', 't', 'a'] then { r with line := [], data := r.data ++ [value] }
    else if name = ['e', 'v', 'e', 'n', 't'] then { r with line := [], type := value }
    else { r with line := [] }

/-- The next character. -/
def read (r : Reader) (c : Char) : Reader :=
  if c = '\n' ∧ r.afterReturn = true then { r with afterReturn := false }
  else if c = '\n' ∨ c = '\r' then { r.endLine with afterReturn := c = '\r' }
  else { r with line := r.line ++ [c], afterReturn := false }

/-- A text, character by character. -/
def readAll (r : Reader) (s : List Char) : Reader := s.foldl read r

theorem readAll_append (r : Reader) (s t : List Char) :
    r.readAll (s ++ t) = (r.readAll s).readAll t := List.foldl_append

theorem messages_dispatch (r : Reader) : r.messages <+: r.dispatch.messages := by
  unfold dispatch
  split
  · exact List.prefix_refl _
  · exact List.prefix_append _ _

theorem messages_endLine (r : Reader) : r.messages <+: r.endLine.messages := by
  unfold endLine
  split
  · exact messages_dispatch r
  · dsimp only
    split
    · exact List.prefix_refl _
    · split <;> exact List.prefix_refl _

/-- A message that the client has got, it keeps. -/
theorem messages_readAll (r : Reader) (s : List Char) : r.messages <+: (r.readAll s).messages := by
  induction s generalizing r with
  | nil => exact List.prefix_refl _
  | cons c s ih =>
    refine List.IsPrefix.trans ?_ (ih (r.read c))
    unfold read
    split
    · exact List.prefix_refl _
    · split
      · exact messages_endLine r
      · exact List.prefix_refl _

end Reader

/-! ## Writing -/

/-- There is no end of a line in the text. -/
def OneLine (s : List Char) : Prop := ∀ c ∈ s, c ≠ '\n' ∧ c ≠ '\r'

/-- A message that can be sent on one line, with a type that is named. -/
structure Message.Sendable (m : Message) : Prop where
  type_ne_nil : m.type ≠ []
  type : OneLine m.type
  data : OneLine m.data

/-- The line that names the type, if it is not the one that need not be named. -/
def Message.typeLine (m : Message) : List Char :=
  if m.type = plainType then [] else ['e', 'v', 'e', 'n', 't', ':', ' '] ++ m.type ++ ['\n']

/-- The text of a message up to the last character. -/
def Message.body (m : Message) : List Char :=
  m.typeLine ++ (['d', 'a', 't', 'a', ':', ' '] ++ m.data ++ ['\n'])

/-- The text of a message. -/
def Message.text (m : Message) : List Char := m.body ++ ['\n']

/-! ## What was written is read -/

/-- A client between two messages. -/
def between (ms : List Message) : Reader := { messages := ms }

variable {r : Reader} {s : List Char} {m : Message} {ms l : List Message}

theorem readAll_oneLine (hs : OneLine s) (hr : r.afterReturn = false) :
    r.readAll s = { r with line := r.line ++ s } := by
  induction s generalizing r with
  | nil => simp [Reader.readAll]
  | cons c s ih =>
    obtain ⟨⟨hn, hr'⟩, hrest⟩ := List.forall_mem_cons.mp hs
    have hread : r.read c = { r with line := r.line ++ [c] } := by
      simp [Reader.read, hn, hr', hr]
    have hnext : (r.read c).readAll s = { r.read c with line := (r.read c).line ++ s } :=
      ih hrest (by rw [hread]; exact hr)
    rw [Reader.readAll, List.foldl_cons, ← Reader.readAll, hnext, hread, List.append_assoc]
    rfl

/-- A line, with its end. -/
theorem readAll_line (hs : OneLine s) (hline : r.line = []) (hr : r.afterReturn = false) :
    r.readAll (s ++ ['\n']) = { Reader.endLine { r with line := s } with afterReturn := false } := by
  rw [Reader.readAll_append, readAll_oneLine hs hr, hline, List.nil_append]
  simp [Reader.readAll, Reader.read, hr]

theorem takeWhile_name (name : List Char) (h : ':' ∉ name) (rest : List Char) :
    (name ++ ':' :: rest).takeWhile (· ≠ ':') = name ∧
      (name ++ ':' :: rest).dropWhile (· ≠ ':') = ':' :: rest := by
  have hname : ∀ c ∈ name, decide (c ≠ ':') = true := by
    intro c hc
    exact decide_eq_true (ne_of_mem_of_not_mem hc h)
  constructor
  · rw [List.takeWhile_append_of_pos hname, List.takeWhile_cons_of_neg (by simp), List.append_nil]
  · rw [List.dropWhile_append_of_pos hname, List.dropWhile_cons_of_neg (by simp)]

/-- A line `event: …`. -/
theorem readAll_typeLine {type : List Char} (htype : OneLine type) (hline : r.line = [])
    (hr : r.afterReturn = false) :
    r.readAll (['e', 'v', 'e', 'n', 't', ':', ' '] ++ type ++ ['\n']) = { r with type := type } := by
  have hone : OneLine (['e', 'v', 'e', 'n', 't', ':', ' '] ++ type) :=
    List.forall_mem_append.mpr ⟨by simp, htype⟩
  obtain ⟨htake, hdrop⟩ := takeWhile_name ['e', 'v', 'e', 'n', 't'] (by simp) (' ' :: type)
  rw [readAll_line hone hline hr]
  obtain ⟨line, afterReturn, type', data, messages⟩ := r
  obtain rfl : line = [] := hline
  obtain rfl : afterReturn = false := hr
  simp only [Reader.endLine, List.cons_append, List.nil_append] at htake hdrop ⊢
  rw [htake, hdrop]
  rfl

/-- A line `data: …`. -/
theorem readAll_dataLine {data : List Char} (hdata : OneLine data) (hline : r.line = [])
    (hr : r.afterReturn = false) :
    r.readAll (['d', 'a', 't', 'a', ':', ' '] ++ data ++ ['\n']) =
      { r with data := r.data ++ [data] } := by
  have hone : OneLine (['d', 'a', 't', 'a', ':', ' '] ++ data) :=
    List.forall_mem_append.mpr ⟨by simp, hdata⟩
  obtain ⟨htake, hdrop⟩ := takeWhile_name ['d', 'a', 't', 'a'] (by simp) (' ' :: data)
  rw [readAll_line hone hline hr]
  obtain ⟨line, afterReturn, type', data', messages⟩ := r
  obtain rfl : line = [] := hline
  obtain rfl : afterReturn = false := hr
  simp only [Reader.endLine, List.cons_append, List.nil_append] at htake hdrop ⊢
  rw [htake, hdrop]
  rfl

theorem readAll_body (hm : m.Sendable) : (between ms).readAll m.body =
    { between ms with type := if m.type = plainType then [] else m.type, data := [m.data] } := by
  rw [Message.body, Reader.readAll_append, Message.typeLine]
  split
  · exact readAll_dataLine hm.data rfl rfl
  · rw [readAll_typeLine hm.type rfl rfl]
    exact readAll_dataLine hm.data rfl rfl

/-- Between two messages, a client that reads the text of a message has got that message. -/
theorem readAll_text (hm : m.Sendable) : (between ms).readAll m.text = between (ms ++ [m]) := by
  rw [Message.text, Reader.readAll_append, readAll_body hm]
  obtain ⟨type, data⟩ := m
  have hne : type ≠ [] := hm.type_ne_nil
  by_cases hplain : type = plainType
  · subst hplain
    simp [Reader.readAll, Reader.read, Reader.endLine, Reader.dispatch, between]
  · simp [Reader.readAll, Reader.read, Reader.endLine, Reader.dispatch, between, hplain, hne]

/-- A text of messages. -/
def texts (l : List Message) : List Char := l.flatMap Message.text

/-! ## A text that is cut off -/

/-- A message that is not complete has not been got. -/
theorem messages_of_prefix_body (hm : m.Sendable) {p : List Char} (hp : p <+: m.body) :
    ((between ms).readAll p).messages = ms := by
  obtain ⟨s, hs⟩ := hp
  have hbody : (((between ms).readAll p).readAll s).messages = ms := by
    rw [← Reader.readAll_append, hs, readAll_body hm]
    rfl
  have hafter := Reader.messages_readAll ((between ms).readAll p) s
  rw [hbody] at hafter
  have hbefore : ms <+: ((between ms).readAll p).messages := Reader.messages_readAll (between ms) p
  exact (hbefore.eq_of_length_le hafter.length_le).symm

/-- A client that has read a text of messages up to some character has got the messages whose text is
complete, and nothing else. -/
theorem messages_of_prefix (ms : List Message) (hl : ∀ m ∈ l, m.Sendable) {p : List Char} (hp : p <+: texts l) :
    ∃ k ≤ l.length, texts (l.take k) <+: p ∧ (k < l.length → ¬ texts (l.take (k + 1)) <+: p) ∧
      ((between ms).readAll p).messages = ms ++ l.take k := by
  induction l generalizing ms p with
  | nil =>
    obtain rfl : p = [] := List.prefix_nil.mp hp
    refine ⟨0, Nat.le_refl 0, List.prefix_refl _, fun h => absurd h (Nat.lt_irrefl 0), ?_⟩
    simp [Reader.readAll, between]
  | cons m l ih =>
    obtain ⟨hm, hl⟩ := List.forall_mem_cons.mp hl
    have htexts : ∀ l', texts (m :: l') = m.text ++ texts l' := fun _ => rfl
    rw [htexts] at hp
    by_cases hcomplete : m.text <+: p
    · obtain ⟨p', rfl⟩ := hcomplete
      obtain ⟨k, hk, htake, hnext, hmessages⟩ := ih (ms ++ [m]) hl
        ((List.prefix_append_right_inj m.text).mp hp)
      refine ⟨k + 1, by simpa using hk, ?_, fun hlt => ?_, ?_⟩
      · rw [List.take_succ_cons, htexts]
        exact (List.prefix_append_right_inj m.text).mpr htake
      · rw [List.take_succ_cons, htexts, List.prefix_append_right_inj]
        exact hnext (by simpa using hlt)
      · rw [Reader.readAll_append, readAll_text hm, hmessages]
        simp
    · refine ⟨0, Nat.zero_le _, List.nil_prefix, fun _ => ?_, ?_⟩
      · rw [List.take_succ_cons, List.take_zero, htexts]
        simpa [texts] using hcomplete
      · have htext : p <+: m.text :=
          (List.prefix_or_prefix_of_prefix hp (List.prefix_append _ _)).resolve_right hcomplete
        have hbody : p <+: m.body := by
          refine (List.prefix_concat_iff.mp htext).resolve_left fun heq => hcomplete ?_
          exact heq ▸ List.prefix_refl _
        rw [messages_of_prefix_body hm hbody]
        simp

end Sse
