import LlmGateway.Main.StreamCharge

/-!
# How a stream ends

A stream that nobody but its client interrupts leaves its loop in one of four ways: its source ran
out, every provider failed, the client left, or an `Exception` of another class came out of the
source or of a chunk. Which one it was can be read off the trace, and decides which clause runs.
-/

namespace LlmGateway

open Coroutine

variable {settings : Settings} {q : RequestArgs} {A : Ev → Prop} {t t' : List Ev}

/-! ## Reading it off a trace -/

/-- The only interruption of a stream is its client's leaving. -/
def Disconnecting (e : Ev) : Prop :=
  ∀ x, streamRaised e = some x → x = .cancelled ∨ x = .generatorExit

/-- The router reported that every provider failed. -/
def gaveUp : Ev → Bool
  | ⟨.anext (.error (.allProvidersFailed _)), .ok ()⟩ => true
  | _ => false

/-- Every provider failed, before the first chunk or after it. -/
def AllFailed (t : List Ev) : Prop := ∃ e ∈ t, gaveUp e = true

/-- The client left while it was waiting for a chunk or being handed a frame. -/
def Left (t : List Ev) : Prop := ∃ e ∈ t, (streamRaised e).isSome = true

instance (t : List Ev) : Decidable (AllFailed t) :=
  inferInstanceAs (Decidable (∃ e ∈ t, gaveUp e = true))

instance (t : List Ev) : Decidable (Left t) :=
  inferInstanceAs (Decidable (∃ e ∈ t, (streamRaised e).isSome = true))

theorem allFailed_append : AllFailed (t ++ t') ↔ AllFailed t ∨ AllFailed t' := by
  simp [AllFailed, or_and_right, exists_or]

theorem allFailed_cons {e : Ev} : AllFailed (e :: t) ↔ gaveUp e = true ∨ AllFailed t := by
  simp [AllFailed]

theorem left_append : Left (t ++ t') ↔ Left t ∨ Left t' := by
  simp [Left, or_and_right, exists_or]

@[simp] theorem not_left_nil : ¬ Left [] := by simp [Left]

theorem not_allFailed_of_unfed (h : ∀ e ∈ t, e.cmd.Unfed) : ¬ AllFailed t := by
  rintro ⟨⟨c, r⟩, he, hup⟩
  have hc := h _ he
  cases c <;> first | cases hup | exact hc.elim

theorem allFailed_append_of_unfed (h : ∀ e ∈ t', e.cmd.Unfed) :
    AllFailed (t ++ t') ↔ AllFailed t := by
  rw [allFailed_append, or_iff_left (not_allFailed_of_unfed h)]

/-- A trace in which the source goes on and the client stays. -/
structure Ongoing (t : List Ev) : Prop where
  exhausted : ¬ Exhausted t
  failed : ¬ AllFailed t
  left : ¬ Left t

theorem Ongoing.append (h : Ongoing t) (h' : Ongoing t') : Ongoing (t ++ t') where
  exhausted hex := (exhausted_append.mp hex).elim h.exhausted h'.exhausted
  failed hup := (allFailed_append.mp hup).elim h.failed h'.failed
  left hl := (left_append.mp hl).elim h.left h'.left

theorem ongoing_chunk {c : StreamChunk} : Ongoing [⟨.anext (.chunk c), .ok ()⟩] :=
  ⟨by simp [Exhausted, ranOut], by simp [AllFailed, gaveUp], by simp [Left, streamRaised]⟩

/-- How the loop ended, with what its trace shows. -/
inductive Parted (t : List Ev) : Except Exc Unit → Prop
  | exhausted (h : Exhausted t) (hf : ¬ AllFailed t) (hl : ¬ Left t) : Parted t (.ok ())
  | failed (m : String) (h : AllFailed t) (hex : ¬ Exhausted t) (hl : ¬ Left t) :
    Parted t (.error (.exception (.allProvidersFailed m)))
  | left (x : Exc) (hx : x = .cancelled ∨ x = .generatorExit) (h : Left t) (hex : ¬ Exhausted t)
    (hf : ¬ AllFailed t) : Parted t (.error x)
  | broken (e : PyError) (he : ∀ m, e ≠ .allProvidersFailed m) (h : Ongoing t) :
    Parted t (.error (.exception e))

theorem Parted.prepend {r : Except Exc Unit} (h : Parted t' r) (ht : Ongoing t) :
    Parted (t ++ t') r := by
  have hex : Exhausted (t ++ t') ↔ Exhausted t' := by rw [exhausted_append, or_iff_right ht.exhausted]
  have hf : AllFailed (t ++ t') ↔ AllFailed t' := by rw [allFailed_append, or_iff_right ht.failed]
  have hl : Left (t ++ t') ↔ Left t' := by rw [left_append, or_iff_right ht.left]
  cases h with
  | exhausted h₁ h₂ h₃ => exact .exhausted (hex.mpr h₁) (hf.not.mpr h₂) (hl.not.mpr h₃)
  | failed m h₁ h₂ h₃ => exact .failed m (hf.mpr h₁) (hex.not.mpr h₂) (hl.not.mpr h₃)
  | left x hx h₁ h₂ h₃ => exact .left x hx (hl.mpr h₁) (hex.not.mpr h₂) (hf.not.mpr h₃)
  | broken e he h => exact .broken e he (ht.append h)

/-! ## One chunk -/

/-- What handing on a chunk ends in: the client leaves, or the content has no length. -/
def Handed (t : List Ev) (r : Except Exc Unit) : Prop :=
  if Left t then r = .error .cancelled ∨ r = .error .generatorExit
  else r = .ok () ∨ r = .error (.exception .typeError)

theorem handed_of_not_left {r : Except Exc Unit} (h : ¬ Left t)
    (hr : r = .ok () ∨ r = .error (.exception .typeError)) : Handed t r := by
  rwa [Handed, if_neg h]

theorem handed_emit {f : Frame} {r : Except Exc Unit} (hA : Disconnecting ⟨.yield f, r⟩) :
    Handed [⟨.yield f, r⟩] r := by
  match r with
  | .ok () => exact handed_of_not_left (by simp [Left, streamRaised]) (.inl rfl)
  | .error x =>
    rw [Handed, if_pos (by simp [Left, streamRaised])]
    exact (hA x rfl).imp (congrArg _) (congrArg _)

/-- What comes before without an interruption does not matter. -/
theorem Handed.prepend {r : Except Exc Unit} (h : Handed t' r) (ht : ¬ Left t) :
    Handed (t ++ t') r := by
  simpa [Handed, left_append, ht] using h

/-- A chunk that is not handed on ends the loop. -/
theorem Handed.cases {r : Except Exc Unit} (h : Handed t r) (hfed : ∀ e ∈ t, e.cmd.Unfed) :
    (∃ x, r = .error x ∧ Parted t (.error x)) ∨ r = .ok () ∧ Ongoing t := by
  have hex := not_exhausted_of_unfed hfed
  have hf := not_allFailed_of_unfed hfed
  by_cases hl : Left t
  · rw [Handed, if_pos hl] at h
    rcases h with rfl | rfl
    · exact .inl ⟨_, rfl, .left _ (.inl rfl) hl hex hf⟩
    · exact .inl ⟨_, rfl, .left _ (.inr rfl) hl hex hf⟩
  · rw [Handed, if_neg hl] at h
    rcases h with rfl | rfl
    · exact .inr ⟨rfl, hex, hf, hl⟩
    · exact .inl ⟨_, rfl, .broken _ nofun ⟨hex, hf, hl⟩⟩

/-- Taking the length is all that can fail before a frame is handed on. -/
theorem wp_absorb_bind {chunk : StreamChunk} {s : StreamLocals} {f : Unit → Py StreamLocals Unit}
    (hf : ∀ s, (f ()).wp A s fun t r _ => Handed t r) :
    (absorb chunk >>= f).wp A s fun t r _ => Handed t r := by
  have hlen : (absorb chunk).wp A s fun t r _ =>
      t = [] ∧ (r = .ok () ∨ r = .error (.exception .typeError)) := by
    rw [absorb, Coro.wp_ite]
    refine ⟨fun _ => ⟨rfl, .inl rfl⟩, fun _ => ?_⟩
    rw [Coro.wp_bind, Coro.wp_ofExcept]
    cases hlen : chunk.content.len with
    | ok n => exact ⟨rfl, .inl rfl⟩
    | error x => exact ⟨rfl, .inr (by rw [PyVal.len_error hlen])⟩
  rw [Coro.wp_bind]
  refine Coro.wp_mono hlen fun t r s' _ h => ?_
  obtain ⟨rfl, rfl | rfl⟩ := h
  · exact Coro.wp_mono (hf s') fun t' r' _ _ h => h.prepend not_left_nil
  · exact handed_of_not_left not_left_nil (.inr rfl)

theorem wp_relayChunk_handed (hA : ∀ e, A e → Disconnecting e) (c : StreamChunk)
    (s : StreamLocals) : (relayChunk c).wp A s fun t r _ => Handed t r :=
  wp_absorb_bind fun _ _ hr => handed_emit (hA _ hr)

theorem wp_relayDelta_handed (hA : ∀ e, A e → Disconnecting e) {completionId : String}
    {created : ℤ} (c : StreamChunk) (s : StreamLocals) :
    (relayDelta q completionId created c).wp A s fun t r _ => Handed t r := by
  refine wp_absorb_bind fun s => ?_
  rw [Coro.wp_ite]
  refine ⟨fun _ => handed_of_not_left not_left_nil (.inl rfl), fun _ => ?_⟩
  rw [Coro.wp_bind, Coro.wp_locals]
  dsimp only
  rw [Coro.wp_ite]
  refine ⟨fun _ => ?_, fun _ _ hr => handed_emit (hA _ hr)⟩
  -- the role comes first
  rw [Coro.wp_bind, wp_emit_iff]
  rintro (x | ⟨⟩) hx
  · exact handed_emit (hA _ hx)
  · exact fun _ hr => (handed_emit (hA _ hr)).prepend (by simp [Left, streamRaised])

/-! ## The loop -/

variable {deliver : StreamChunk → Py StreamLocals Unit}

theorem parted_anext {next : Upcoming} {x : Exc} (hA : Disconnecting ⟨.anext next, .error x⟩) :
    Parted [⟨.anext next, .error x⟩] (.error x) := by
  refine .left x (hA x rfl) (by simp [Left, streamRaised]) ?_ ?_
  · cases next <;> simp [Exhausted, ranOut]
  · cases next with
    | error e => cases e <;> simp [AllFailed, gaveUp]
    | _ => simp [AllFailed, gaveUp]

theorem wp_forChunks_parted (hA : ∀ e, A e → Disconnecting e) (h : Delivers A deliver)
    (hhanded : ∀ c s, (deliver c).wp A s fun t r _ => Handed t r) (ending : Option PyError)
    (chunks : List StreamChunk) (s : StreamLocals) :
    (forChunks deliver ending chunks).wp A s fun t r _ => Parted t r := by
  induction chunks generalizing s with
  | nil =>
    unfold forChunks
    cases ending with
    | none =>
      rw [wp_anext_iff]
      rintro (x | ⟨⟩) hx
      · exact parted_anext (hA _ hx)
      · exact .exhausted (by simp [Exhausted, ranOut]) (by simp [AllFailed, gaveUp])
          (by simp [Left, streamRaised])
    | some e =>
      dsimp only
      rw [Coro.wp_bind, wp_anext_iff]
      rintro (x | ⟨⟩) hx
      · exact parted_anext (hA _ hx)
      · have hex : ¬ Exhausted [⟨.anext (.error e), .ok ()⟩] := by simp [Exhausted, ranOut]
        have hl : ¬ Left [⟨.anext (.error e), .ok ()⟩] := by simp [Left, streamRaised]
        cases e with
        | allProvidersFailed m => exact .failed m (by simp [AllFailed, gaveUp]) hex hl
        | _ => exact .broken _ (by rintro _ ⟨⟩) ⟨hex, by simp [AllFailed, gaveUp], hl⟩
  | cons c rest ih =>
    rw [forChunks, Coro.wp_bind, wp_anext_iff]
    rintro (x | ⟨⟩) hx
    · exact parted_anext (hA _ hx)
    dsimp only
    rw [Coro.wp_bind]
    refine Coro.wp_mono (Coro.wp_and (hhanded c s) (h.only c).wp) fun t r s₁ _ h₁ => ?_
    obtain ⟨hr, honly⟩ := h₁
    obtain ⟨x, rfl, hpart⟩ | ⟨rfl, hon⟩ := hr.cases fun e he => (honly e he).unfed
    · exact hpart.prepend ongoing_chunk
    · exact Coro.wp_mono (ih s₁) fun t' r' s' _ h' => (h'.prepend hon).prepend ongoing_chunk

/-! ## The clauses -/

/-- An `Exception` of another class has the last clause. -/
theorem loopClause_broken {onAllFailed : Py StreamLocals Unit} {e : PyError}
    (he : ∀ m, e ≠ .allProvidersFailed m) :
    loopClause settings q onAllFailed (.exception e) = onUnexpected settings q := by
  cases e with
  | allProvidersFailed m => exact absurd rfl (he m)
  | _ => rfl

end LlmGateway
