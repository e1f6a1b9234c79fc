import LlmGateway.Main.StreamEnd

/-!
# The terminal frame and the request count

A stream should end in one terminal frame and be counted once, under a status that says what its
caller got. Metrics, pricing, Redis and the audit log may raise an `Exception` at every step here,
and the client may leave at every frame.

The count and the frame come apart in four places: a counter of outcomes can raise itself; the time
is taken in a `finally` between the loop and the bookkeeping; nothing counts a client that leaves
between the bookkeeping and `[DONE]`; and the clause for `AllProvidersFailedError` settles without a
guard after it has counted the error, so the frame is lost if that raises.
-/

namespace LlmGateway

open Coroutine

variable {σ : Type} {s : σ} {settings : Settings} {q : RequestArgs} {A : Ev → Prop} {t t' : List Ev}

/-! ## What a stream tells -/

/-- The report of a failure. -/
def Frame.isError : Frame → Bool
  | .errorEvent _ _ | .errorObject _ _ => true
  | _ => false

/-- `[DONE]` or the report of a failure. -/
def Frame.isTerminal : Frame → Bool
  | .done => true
  | f => f.isError

/-- What a stream tells its operator and its caller. -/
inductive Signal where
  | counted (status : String)
  | sent (f : Frame)

/-- An increment of `REQUEST_COUNT` that went through, or a frame that was handed on. -/
def signal? : Ev → Option Signal
  | ⟨.metric (.requestCount status), .ok ()⟩ => some (.counted status)
  | ⟨.yield f, _⟩ => some (.sent f)
  | _ => none

def Signal.status? : Signal → Option String
  | .counted status => some status
  | .sent _ => none

def Signal.frame? : Signal → Option Frame
  | .counted _ => none
  | .sent f => some f

/-- The signals of a trace, in order. -/
def signals (t : List Ev) : List Signal := t.filterMap signal?

/-- The statuses a trace counted. -/
def statuses (t : List Ev) : List String := (signals t).filterMap Signal.status?

/-- The client left while it waited for a chunk, or at a frame that is not terminal. -/
def leavesEarly : Ev → Bool
  | ⟨.anext _, .error _⟩ => true
  | ⟨.yield f, .error _⟩ => !f.isTerminal
  | _ => false

/-- The client left before the bookkeeping was over, which the terminal frame comes after. -/
def LeftEarly (t : List Ev) : Prop := ∃ e ∈ t, leavesEarly e = true

/-- The terminal frame and the count match what the caller got. -/
structure ToldTruly (t : List Ev) : Prop where
  once : ∃ status, statuses t = [status]
  success : ∀ xs ys, signals t = xs ++ .counted "success" :: ys → ys.head? = some (.sent .done)
  error : "error" ∈ statuses t ↔ ∃ f ∈ frames t, f.isError = true
  aborted : "aborted" ∈ statuses t ↔ LeftEarly t
  terminal : (∀ e ∈ t, Read e) → ∃ fs f, frames t = fs ++ [f] ∧ f.isTerminal = true ∧
    ∀ g ∈ fs, g.isTerminal = false

/-! ## When it tells the truth -/

/-- What keeps a stream from being counted: a counter of outcomes that raises, or a client that
leaves at the frame between the bookkeeping and `[DONE]`. -/
def lostCount : Ev → Bool
  | ⟨.metric (.requestCount _), .error _⟩ => true
  | ⟨.metric .unhandledExceptions, .error _⟩ => true
  | ⟨.yield (.finish _ _ _), .error _⟩ => true
  | _ => false

/-- The time was not taken. -/
def untimed : Ev → Bool
  | ⟨.metric .requestLatency, .error _⟩ => true
  | _ => false

/-- Nothing keeps the stream from being counted. -/
def Counted (t : List Ev) : Prop := ∀ e ∈ t, lostCount e = false

/-- The streams that tell the truth: nothing keeps them from being counted, the time of one that ran
out can be taken, and the spend of one all of whose providers failed can be settled and published.
-/
structure Heard (t : List Ev) : Prop where
  counted : Counted t
  timed : Exhausted t → ∀ e ∈ t, untimed e = false
  published : AllFailed t →
    (usageOf t).finalProvider = "" ∨ Published t ∧ (usageOf t).inputTokens.Countable

/-! ## The ways to end -/

/-- The ways the signals of a stream can end, after frames that are not terminal. -/
inductive Concludes (left heard : Prop) : List Signal → Prop
  | aborted (hl : left) (hh : heard) : Concludes left heard [.counted "aborted"]
  | failed (f : Frame) (hf : f.isError = true) (hl : ¬ left) (hh : heard) :
    Concludes left heard [.counted "error", .sent f]
  | finished (hl : ¬ left) (hh : heard) :
    Concludes left heard [.counted "success", .sent .done]
  | uncounted (hh : ¬ heard) : Concludes left heard []
  | unsent (hh : ¬ heard) : Concludes left heard [.counted "error"]
  | relayed (f : Frame) (hf : f.isTerminal = false) (xs : List Signal)
    (h : Concludes left heard xs) : Concludes left heard (.sent f :: xs)

variable {left heard left' heard' : Prop} {xs : List Signal}

theorem Concludes.congr (h : Concludes left heard xs) (hl : left ↔ left') (hh : heard ↔ heard') :
    Concludes left' heard' xs := by
  rwa [← propext hl, ← propext hh]

theorem Frame.isError_of_not_isTerminal {f : Frame} (h : f.isTerminal = false) :
    f.isError = false := by
  cases f <;> first | rfl | exact h

/-- What the signals of a stream that tells the truth say. -/
structure Tells (left : Prop) (xs : List Signal) : Prop where
  once : ∃ status, xs.filterMap Signal.status? = [status]
  success : ∀ ys zs, xs = ys ++ .counted "success" :: zs → zs.head? = some (.sent .done)
  error : "error" ∈ xs.filterMap Signal.status? ↔
    ∃ f ∈ xs.filterMap Signal.frame?, f.isError = true
  aborted : "aborted" ∈ xs.filterMap Signal.status? ↔ left
  terminal : ¬ left → ∃ fs f, xs.filterMap Signal.frame? = fs ++ [f] ∧ f.isTerminal = true ∧
    ∀ g ∈ fs, g.isTerminal = false

theorem Tells.relayed {f : Frame} (hf : f.isTerminal = false) (h : Tells left xs) :
    Tells left (.sent f :: xs) where
  once := h.once
  success ys zs heq := by
    cases ys with
    | nil => cases heq
    | cons y ys => exact h.success ys zs (List.cons.inj heq).2
  error := by
    have hframe : (Signal.sent f :: xs).filterMap Signal.frame? = f :: xs.filterMap Signal.frame? :=
      rfl
    rw [hframe, List.exists_mem_cons_iff, Frame.isError_of_not_isTerminal hf]
    simp only [Bool.false_eq_true, false_or]
    exact h.error
  aborted := h.aborted
  terminal hl := by
    obtain ⟨fs, g, hfs, hg, hall⟩ := h.terminal hl
    exact ⟨f :: fs, g, congrArg (f :: ·) hfs, hg, List.forall_mem_cons.mpr ⟨hf, hall⟩⟩

/-- A count and the frames after it. -/
theorem tells_of_counted {status : String} (fs : List Frame)
    (hs : status = "success" → fs.head? = some .done)
    (he : status = "error" ↔ ∃ f ∈ fs, f.isError = true) (ha : status = "aborted" ↔ left)
    (ht : ¬ left → ∃ f, fs = [f] ∧ f.isTerminal = true) :
    Tells left (.counted status :: fs.map .sent) := by
  have hstatus : (Signal.counted status :: fs.map .sent).filterMap Signal.status? = [status] := by
    have hnone : (fs.map Signal.sent).filterMap Signal.status? = [] := by
      rw [List.filterMap_map]
      exact List.filterMap_eq_nil_iff.mpr fun f _ => rfl
    exact congrArg (status :: ·) hnone
  have hframe : (Signal.counted status :: fs.map .sent).filterMap Signal.frame? = fs := by
    rw [List.filterMap_cons_none rfl, List.filterMap_map]
    exact List.filterMap_some
  refine ⟨⟨status, hstatus⟩, fun ys zs heq => ?_, ?_, ?_, fun hl => ?_⟩
  · cases ys with
    | nil =>
      obtain ⟨hsuccess, rfl⟩ := List.cons.inj heq
      rw [List.head?_map, hs (Signal.counted.inj hsuccess), Option.map_some]
    | cons y ys =>
      have hmem : Signal.counted "success" ∈ fs.map Signal.sent := by
        rw [(List.cons.inj heq).2]
        simp
      obtain ⟨f, -, hf⟩ := List.mem_map.mp hmem
      cases hf
  · rw [hstatus, hframe, List.mem_singleton, eq_comm, he]
  · rw [hstatus, List.mem_singleton, eq_comm, ha]
  · obtain ⟨f, rfl, hf⟩ := ht hl
    exact ⟨[], f, hframe, hf, nofun⟩

theorem Concludes.tells (h : Concludes left heard xs) (hh : heard) : Tells left xs := by
  induction h with
  | aborted hl _ =>
    exact tells_of_counted [] nofun (by simp) (iff_of_true rfl hl) fun h => absurd hl h
  | failed f hf hl _ =>
    refine tells_of_counted [f] (by simp) (by simp [hf]) (iff_of_false (by simp) hl)
      fun _ => ⟨f, rfl, ?_⟩
    cases f <;> first | rfl | exact hf
  | finished hl _ =>
    exact tells_of_counted [.done] (fun _ => rfl) (by simp [Frame.isError])
      (iff_of_false (by simp) hl) fun _ => ⟨.done, rfl, rfl⟩
  | uncounted hno => exact absurd hh hno
  | unsent hno => exact absurd hh hno
  | relayed f hf xs _ ih => exact ih.relayed hf

/-- A stream that does not is not counted, or counted as an error without the report of one. -/
theorem Concludes.untold (h : Concludes left heard xs) (hh : ¬ heard) :
    xs.filterMap Signal.status? = [] ∨ "error" ∈ xs.filterMap Signal.status? ∧
      ∀ f ∈ xs.filterMap Signal.frame?, f.isError = false := by
  induction h with
  | aborted _ hyes | failed _ _ _ hyes | finished _ hyes => exact absurd hyes hh
  | uncounted _ => exact .inl rfl
  | unsent _ => exact .inr ⟨.head _, nofun⟩
  | relayed f hf xs _ ih =>
    refine ih.imp_right fun ⟨herror, hnone⟩ => ⟨herror, ?_⟩
    exact List.forall_mem_cons.mpr ⟨Frame.isError_of_not_isTerminal hf, hnone⟩

theorem filterMap_frame_signals (t : List Ev) : (signals t).filterMap Signal.frame? = frames t := by
  rw [signals, List.filterMap_filterMap, frames]
  congr 1
  funext e
  obtain ⟨c, r⟩ := e
  cases c with
  | metric m => cases m <;> first | rfl | (cases r <;> rfl)
  | _ => rfl

theorem not_read_of_leavesEarly {e : Ev} (h : leavesEarly e = true) : ¬ Read e := by
  obtain ⟨c, r⟩ := e
  intro hread
  cases c with
  | anext next | yield f =>
    obtain rfl : r = .ok () := hread
    cases h
  | _ => cases h

/-- A stream tells the truth exactly if it ends in one of the ways that do. -/
theorem Concludes.toldTruly_iff (h : Concludes (LeftEarly t) heard (signals t)) :
    ToldTruly t ↔ heard := by
  constructor
  · intro htold
    by_contra hh
    rcases h.untold hh with hnone | ⟨herror, hframes⟩
    · obtain ⟨status, hs⟩ := htold.once
      rw [statuses, hnone] at hs
      cases hs
    · obtain ⟨f, hf, hferror⟩ := htold.error.mp herror
      rw [← filterMap_frame_signals] at hf
      rw [hframes f hf] at hferror
      cases hferror
  · intro hh
    obtain ⟨honce, hsuccess, herror, haborted, hterminal⟩ := h.tells hh
    rw [filterMap_frame_signals] at herror hterminal
    refine ⟨honce, hsuccess, herror, haborted, fun hread => hterminal ?_⟩
    rintro ⟨e, he, hleft⟩
    exact not_read_of_leavesEarly hleft (hread e he)

/-! ## Traces that tell nothing -/

theorem signals_append : signals (t ++ t') = signals t ++ signals t' := List.filterMap_append

theorem leftEarly_append : LeftEarly (t ++ t') ↔ LeftEarly t ∨ LeftEarly t' := by
  simp [LeftEarly, or_and_right, exists_or]

instance (t : List Ev) : Decidable (Counted t) :=
  inferInstanceAs (Decidable (∀ e ∈ t, lostCount e = false))

theorem counted_append : Counted (t ++ t') ↔ Counted t ∧ Counted t' := List.forall_mem_append

/-- A trace without a signal that leaves the count and the client alone. -/
structure Mute (t : List Ev) : Prop where
  signals : signals t = []
  stays : ¬ LeftEarly t
  counted : Counted t

theorem mute_of_quiet (h : ∀ e ∈ t, e.cmd.Quiet) : Mute t where
  signals := List.filterMap_eq_nil_iff.mpr fun ⟨c, r⟩ he => by
    have hc := h _ he
    cases c with
    | metric m => cases m <;> first | rfl | exact hc.elim
    | _ => first | rfl | exact hc.elim
  stays := by
    rintro ⟨⟨c, r⟩, he, hleft⟩
    have hc := h _ he
    cases c <;> first | cases hleft | exact hc.elim
  counted := fun ⟨c, r⟩ he => by
    have hc := h _ he
    cases c with
    | metric m => cases m <;> first | rfl | exact hc.elim
    | _ => first | rfl | exact hc.elim

theorem mute_latency {l : Except PyError Unit} : Mute [⟨.metric .requestLatency, l⟩] where
  signals := by cases l <;> rfl
  stays := by simp [LeftEarly, leavesEarly]
  counted := List.forall_mem_singleton.mpr rfl

theorem mute_unhandled : Mute [⟨.metric .unhandledExceptions, .ok ()⟩] where
  signals := rfl
  stays := by simp [LeftEarly, leavesEarly]
  counted := List.forall_mem_singleton.mpr rfl

/-- What a trace concludes, a mute one before it does not change. -/
theorem Concludes.prepend (ht : Mute t)
    (h : Concludes (LeftEarly t') (Counted t' ∧ heard) (signals t')) :
    Concludes (LeftEarly (t ++ t')) (Counted (t ++ t') ∧ heard) (signals (t ++ t')) := by
  rw [signals_append, ht.signals, List.nil_append]
  refine h.congr ?_ ?_
  · rw [leftEarly_append, or_iff_right ht.stays]
  · rw [counted_append, and_iff_right ht.counted]

theorem Concludes.prepend_frame {f : Frame} (hf : f.isTerminal = false)
    (h : Concludes (LeftEarly t) (Counted t ∧ heard) (signals t)) :
    Concludes (LeftEarly (⟨.yield f, .ok ()⟩ :: t)) (Counted (⟨.yield f, .ok ()⟩ :: t) ∧ heard)
      (signals (⟨.yield f, .ok ()⟩ :: t)) := by
  refine .relayed f hf _ (h.congr ?_ (and_congr_left fun _ => ?_))
  · simp [LeftEarly, leavesEarly]
  · have hone : lostCount ⟨.yield f, .ok ()⟩ = false := by cases f <;> rfl
    rw [Counted, Counted, List.forall_mem_cons, and_iff_right hone]

/-! ## The statements of the bookkeeping -/

theorem published_of_accounting (h : ∀ e ∈ t, e.cmd.Accounting) : Published t := by
  rintro ⟨c, r⟩ he
  have hc := h _ he
  cases c with
  | metric m => cases m <;> first | rfl | exact hc.elim
  | _ => first | rfl | exact hc.elim

theorem published_of_auditing (h : ∀ e ∈ t, e.cmd.Auditing) : Published t := by
  rintro ⟨c, r⟩ he
  have hc := h _ he
  cases c <;> first | rfl | exact hc.elim

section Statements

variable (hA : ∀ e, A e → Tolerable e)
include hA

theorem quiet_settleChain {apiKey provider : String} {reservations : OrderedDict String ℚ}
    {cost : ℚ} :
    (settleChain settings apiKey reservations provider cost).wp A s fun t r s' =>
      r = .ok () ∧ s' = s ∧ (∀ e ∈ t, e.cmd.Quiet) ∧ Published t := by
  refine Coro.wp_mono (Coro.wp_and (wp_settleChain_tolerable hA)
    (only_settleChain (B := Cmd.Accounting) fun _ h => h).wp) fun t r s' _ h => ?_
  exact ⟨h.1.1, h.1.2, fun e he => (h.2 e he).quiet, published_of_accounting h.2⟩

theorem quiet_recordAuditLog {apiKey : String} {row : AuditFields} :
    (recordAuditLog settings apiKey row).wp A s fun t r s' =>
      r = .ok () ∧ s' = s ∧ (∀ e ∈ t, e.cmd.Quiet) ∧ Published t := by
  refine Coro.wp_mono (Coro.wp_and (wp_recordAuditLog_tolerable hA)
    (only_recordAuditLog (B := Cmd.Auditing) fun _ h => h).wp) fun t r s' _ h => ?_
  exact ⟨h.1.1, h.1.2, fun e he => (h.2 e he).quiet, published_of_auditing h.2⟩

/-- Settling a stream that ends early goes through if there is nothing to price, or if the price and
the usage can be had. -/
theorem quiet_settleStreamOnAbort {provider model : String} {inputTokens : PyVal}
    {streamedChars : ℕ} :
    (settleStreamOnAbort settings q provider model inputTokens streamedChars).wp A s fun t r s' =>
      s' = s ∧ (r = .ok () ↔ provider = "" ∨ Published t ∧ inputTokens.Countable) := by
  rw [settleStreamOnAbort, Coro.wp_ite]
  refine ⟨fun hp => ?_, fun hp => ?_⟩
  · refine Coro.wp_mono (quiet_settleChain hA) fun t r s' _ h => ?_
    exact ⟨h.2.1, iff_of_true h.1 (.inl hp)⟩
  rw [Coro.wp_bind]
  refine Coro.wp_mono wp_estimateCost_iff fun t₁ r s₁ _ h => ?_
  obtain ⟨rfl, h₁⟩ := h
  cases r with
  | error x =>
    refine ⟨rfl, iff_of_false (by rintro ⟨⟩) fun hc => ?_⟩
    obtain ⟨hpub, hin⟩ := hc.resolve_left hp
    obtain ⟨cost, hcost, -⟩ := estimateCostUsd_of_countable settings.pricing provider model hin
      (PyVal.countable_count (max 1 (streamedChars / 3)))
    cases (h₁ cost).mpr ⟨hpub, hcost⟩
  | ok cost =>
    obtain ⟨hpub₁, hcost⟩ := (h₁ cost).mp rfl
    dsimp only
    rw [Coro.wp_bind]
    refine Coro.wp_mono (quiet_settleChain hA) fun t₂ r s₂ _ h => ?_
    obtain ⟨rfl, rfl, -, hpub₂⟩ := h
    dsimp only
    rw [Coro.wp_bind]
    refine Coro.wp_mono wp_recordUsage_iff fun t₃ r s₃ _ h => ?_
    obtain ⟨rfl, h₃⟩ := h
    have hiff : r = .ok () ↔ provider = "" ∨ Published t₃ ∧ inputTokens.Countable := by
      rw [h₃]
      refine or_congr_right (and_congr_right fun _ => ⟨fun h => h.2.1, fun hin => ?_⟩)
      have hout := PyVal.countable_count (max 1 (streamedChars / 3))
      obtain ⟨c, hc, hc0⟩ := estimateCostUsd_of_countable settings.pricing provider model hin hout
      rw [hcost] at hc
      exact ⟨Except.ok.inj hc ▸ hc0, hin, hout⟩
    cases r with
    | error x =>
      refine ⟨rfl, iff_of_false (by rintro ⟨⟩) fun hc => ?_⟩
      obtain ⟨hpub, hin⟩ := hc.resolve_left hp
      rw [published_append, published_append] at hpub
      cases hiff.mpr (.inr ⟨hpub.2.2, hin⟩)
    | ok u =>
      refine Coro.wp_mono (quiet_recordAuditLog hA) fun t₄ r s₄ _ h => ?_
      obtain ⟨rfl, rfl, -, hpub₄⟩ := h
      obtain ⟨hpub₃, hin⟩ := (hiff.mp rfl).resolve_left hp
      refine ⟨rfl, iff_of_true rfl (.inr ⟨?_, hin⟩)⟩
      simp only [published_append]
      exact ⟨hpub₁, hpub₂, hpub₃, hpub₄⟩

theorem catchable_settleChain [Rounding] {apiKey provider : String} {reservations : OrderedDict String ℚ}
    {cost : ℚ} :
    Catchable A (settleChain settings apiKey reservations provider cost : Py σ Unit) := fun _ =>
  Coro.wp_mono (wp_settleChain_tolerable hA) fun _ _ _ _ h => ⟨h.2, fun _ hx => nomatch h.1 ▸ hx⟩

theorem catchable_settleStreamOnAbort [Rounding] {provider model : String} {inputTokens : PyVal}
    {streamedChars : ℕ} :
    Catchable A (settleStreamOnAbort settings q provider model inputTokens streamedChars :
      Py σ Unit) := by
  refine .ite (catchable_settleChain hA) <| .bind catchable_estimateCost fun _ =>
    .bind (catchable_settleChain hA) fun _ => .bind catchable_recordUsage fun _ s => ?_
  exact Coro.wp_mono (wp_recordAuditLog_tolerable hA)
    fun _ _ _ _ h => ⟨h.2, fun _ hx => nomatch h.1 ▸ hx⟩

end Statements

/-! ## The clauses -/

/-- What follows the count of an error: the report of it, or nothing. -/
structure Announced (heard : Prop) (t : List Ev) : Prop where
  stays : ¬ LeftEarly t
  counted : Counted t
  sent : heard → ∃ f : Frame, f.isError = true ∧ signals t = [.sent f]
  unsent : ¬ heard → signals t = []

theorem Announced.prepend (ht : Mute t) (h : Announced heard t') : Announced heard (t ++ t') where
  stays hl := (leftEarly_append.mp hl).elim ht.stays h.stays
  counted := counted_append.mpr ⟨ht.counted, h.counted⟩
  sent hh := by
    obtain ⟨f, hf, hsignals⟩ := h.sent hh
    exact ⟨f, hf, by rw [signals_append, ht.signals, hsignals]; rfl⟩
  unsent hh := by rw [signals_append, ht.signals, h.unsent hh]; rfl

theorem announced_emit {f : Frame} {r : Except Exc Unit} (hf : f.isError = true) (hh : heard) :
    Announced heard [⟨.yield f, r⟩] where
  stays := by
    have hterminal : f.isTerminal = true := by cases f <;> first | rfl | exact hf
    cases r <;> simp [LeftEarly, leavesEarly, hterminal]
  counted := List.forall_mem_singleton.mpr <| by
    cases f <;> first | (cases r <;> rfl) | cases hf
  sent _ := ⟨f, hf, rfl⟩
  unsent hno := absurd hh hno

theorem Mute.announced (ht : Mute t) (hh : ¬ heard) : Announced heard t :=
  ⟨ht.stays, ht.counted, fun h => absurd h hh, fun _ => ht.signals⟩

/-- A count that fails is the end of it, and one that goes through is followed by the report. -/
theorem wp_countError {α : Type} {m : Unit → Py σ α} (told : List Ev → Prop)
    (htold : ∀ t, told (⟨.metric (.requestCount "error"), .ok ()⟩ :: t) ↔ told t)
    (hm : (m ()).wp A s fun t _ _ => Announced (told t) t) :
    (metric (.requestCount "error") >>= m).wp A s fun t _ _ =>
      Concludes (LeftEarly t) (Counted t ∧ told t) (signals t) := by
  rw [Coro.wp_bind, wp_metric_iff]
  rintro (e | ⟨⟩) _
  · exact .uncounted fun h => nomatch h.1 _ (.head _)
  refine Coro.wp_mono hm fun t r s' _ h => ?_
  have hstays : ¬ LeftEarly (⟨.metric (.requestCount "error"), .ok ()⟩ :: t) := fun hl =>
    (leftEarly_append (t := [⟨.metric (.requestCount "error"), .ok ()⟩])).mp hl |>.elim
      (by simp [LeftEarly, leavesEarly]) h.stays
  have hcounted : Counted (⟨.metric (.requestCount "error"), .ok ()⟩ :: t) :=
    List.forall_mem_cons.mpr ⟨rfl, h.counted⟩
  show Concludes _ _ (.counted "error" :: signals t)
  by_cases ht : told t
  · obtain ⟨f, hf, hsignals⟩ := h.sent ht
    rw [hsignals]
    exact .failed f hf hstays ⟨hcounted, (htold t).mpr ht⟩
  · rw [h.unsent ht]
    exact .unsent fun hc => ht ((htold t).mp hc.2)

section Clauses

variable {s : StreamLocals} (hA : ∀ e, A e → Tolerable e)
include hA

/-- The spend of a stream that ends early can be settled and published. -/
def StreamLocals.Settles (s : StreamLocals) (t : List Ev) : Prop :=
  s.finalProvider = "" ∨ Published t ∧ s.inputTokens.Countable

theorem mute_abortStream : (abortStream settings q).wp A s fun t r s' =>
    s' = s ∧ Mute t ∧ (r = .ok () ↔ s.Settles t) := by
  have habort : (abortStream settings q).wp A s fun t r s' => s' = s ∧ (r = .ok () ↔ s.Settles t) := by
    rw [abortStream, Coro.wp_bind, Coro.wp_locals]
    exact quiet_settleStreamOnAbort hA
  exact Coro.wp_mono (Coro.wp_and habort only_abortStream.wp) fun t r s' _ h =>
    ⟨h.1.1, mute_of_quiet h.2, h.1.2⟩

theorem mute_tryAbortStream [Rounding] : (tryAbortStream settings q).wp A s fun t r s' =>
    r = .ok () ∧ s' = s ∧ Mute t := by
  have htry : (tryAbortStream settings q).wp A s fun _ r s' => r = .ok () ∧ s' = s := by
    rw [tryAbortStream, Coro.wp_bind, Coro.wp_locals]
    refine wp_tryPass (catchable_settleStreamOnAbort hA s) (fun _ _ h => ⟨rfl, h.1⟩)
      (fun _ _ _ h => ⟨rfl, h.1⟩) fun _ x _ h hx => ?_
    exact absurd (h.2 x rfl) (by rw [hx]; simp)
  exact Coro.wp_mono (Coro.wp_and htry only_tryAbortStream.wp) fun t r s' _ h =>
    ⟨h.1.1, h.1.2, mute_of_quiet h.2⟩

theorem announced_abortStream {f : Frame} (hf : f.isError = true) :
    (abortStream settings q >>= fun _ => emit f).wp A s fun t _ _ =>
      Announced (s.Settles t) t := by
  rw [Coro.wp_bind]
  refine Coro.wp_mono (mute_abortStream hA) fun t r s' _ h => ?_
  obtain ⟨rfl, hmute, hr⟩ := h
  match r with
  | .error x => exact hmute.announced fun hs => nomatch hr.mpr hs
  | .ok () =>
    dsimp only
    rw [wp_emit_iff]
    intro r _
    refine (announced_emit hf ?_).prepend hmute
    refine (hr.mp rfl).imp id fun h => ⟨published_append.mpr ⟨h.1, ?_⟩, h.2⟩
    exact published_singleton.mpr rfl

omit hA in
theorem settles_cons {status : String} : s.Settles (⟨.metric (.requestCount status), .ok ()⟩ :: t) ↔
    s.Settles t := by
  simp [StreamLocals.Settles, published_cons, unpublished]

theorem concludes_onAllFailed : (onAllFailed settings q).wp A s fun t _ _ =>
    Concludes (LeftEarly t) (Counted t ∧ s.Settles t) (signals t) := by
  refine wp_countError s.Settles (fun _ => settles_cons) ?_
  rw [Coro.wp_bind]
  refine Coro.wp_mono (quiet_recordAuditLog hA) fun t r s₁ _ h => ?_
  obtain ⟨rfl, rfl, hquiet, hpub⟩ := h
  refine Coro.wp_mono (announced_abortStream hA rfl) fun t' r' s' _ h' => ?_
  have hsettles : s₁.Settles (t ++ t') ↔ s₁.Settles t' := by
    simp [StreamLocals.Settles, published_append, hpub]
  rw [hsettles]
  exact h'.prepend (mute_of_quiet hquiet)

theorem concludes_onAllFailedOpenai : (onAllFailedOpenai settings q).wp A s fun t _ _ =>
    Concludes (LeftEarly t) (Counted t ∧ s.Settles t) (signals t) :=
  wp_countError s.Settles (fun _ => settles_cons) (announced_abortStream hA rfl)

theorem concludes_onUnexpected : (onUnexpected settings q).wp A s fun t _ _ =>
    Concludes (LeftEarly t) (Counted t ∧ True) (signals t) := by
  rw [onUnexpected, Coro.wp_bind, wp_metric_iff]
  rintro (e | ⟨⟩) _
  · exact .uncounted fun h => nomatch h.1 _ (.head _)
  refine Coro.wp_mono (wp_countError (fun _ => True) (fun _ => Iff.rfl) ?_)
    fun t r s' _ h => h.prepend mute_unhandled
  rw [Coro.wp_bind]
  refine Coro.wp_mono (mute_tryAbortStream hA) fun t r s₁ _ h => ?_
  obtain ⟨rfl, rfl, hquiet⟩ := h
  exact fun r _ => (announced_emit rfl trivial).prepend hquiet

omit hA in
/-- The clause after the last chunk never ends in a stream that went through. -/
theorem onUnbooked_ne_true : (onUnbooked settings q).wp A s fun _ r _ => r ≠ .ok true := by
  have hrest : ∀ s, (do
      metric (.requestCount "error")
      emit (streamErrorFrame q.requestId)
      pure false : Py StreamLocals Bool).wp A s fun _ r _ => r ≠ .ok true := by
    intro s
    rw [Coro.wp_bind]
    refine Coro.wp_mono Coro.wp_true fun _ r s₁ _ _ => ?_
    match r with
    | .error x => nofun
    | .ok () =>
      dsimp only
      rw [Coro.wp_bind]
      refine Coro.wp_mono Coro.wp_true fun _ r s₂ _ _ => ?_
      match r with
      | .error x => nofun
      | .ok () => exact Coro.wp_pure.mpr (by simp)
  rw [onUnbooked, Coro.wp_bind]
  refine Coro.wp_mono Coro.wp_true fun _ r s₁ _ _ => ?_
  match r with
  | .error x => nofun
  | .ok () =>
    dsimp only
    rw [Coro.wp_bind, Coro.wp_locals]
    dsimp only
    split
    · exact hrest s₁
    · rw [Coro.wp_bind]
      refine Coro.wp_mono Coro.wp_true fun _ r s₂ _ _ => ?_
      match r with
      | .error x => nofun
      | .ok () => exact hrest s₂

theorem concludes_onUnbooked (hs : s.settled = false) : (onUnbooked settings q).wp A s
    fun t _ _ => Concludes (LeftEarly t) (Counted t ∧ True) (signals t) := by
  rw [onUnbooked, Coro.wp_bind, wp_metric_iff]
  rintro (e | ⟨⟩) _
  · exact .uncounted fun h => by cases h.1 _ (.head _)
  dsimp only [Except.mapError]
  rw [Coro.wp_bind, Coro.wp_locals]
  simp only [hs, Bool.false_eq_true, if_false, List.nil_append]
  rw [Coro.wp_bind]
  refine Coro.wp_mono (mute_tryAbortStream hA) fun t r s₁ _ h => ?_
  obtain ⟨rfl, rfl, hmute⟩ := h
  refine Coro.wp_mono (wp_countError (fun _ => True) (fun _ => Iff.rfl) ?_)
    fun t' r s' _ h => (h.prepend hmute).prepend mute_unhandled
  rw [Coro.wp_bind, wp_emit_iff]
  intro r _
  cases r with
  | error x => exact announced_emit rfl trivial
  | ok u => exact announced_emit rfl trivial

omit hA in
theorem concludes_onDisconnect {x : Exc} :
    (onDisconnect settings q x : Py StreamLocals Unit).wp A s fun t _ _ =>
      Concludes True (Counted t ∧ True) (signals t) := by
  rw [onDisconnect, Coro.wp_bind, wp_metric_iff]
  rintro (e | ⟨⟩) _
  · exact .uncounted fun h => by cases h.1 _ (.head _)
  have honly : (abortStream settings q >>= fun _ => Coro.raise x : Py StreamLocals Unit).Only
      Cmd.Quiet := .bind only_abortStream fun _ => .raise
  refine Coro.wp_mono honly.wp fun t r s' _ ht => ?_
  have hmute := mute_of_quiet ht
  show Concludes _ _ (.counted "aborted" :: signals t)
  rw [hmute.signals]
  exact .aborted trivial ⟨List.forall_mem_cons.mpr ⟨rfl, hmute.counted⟩, trivial⟩

/-! ## The bookkeeping -/

/-- What the frame before `[DONE]` does, on the endpoint that has one. -/
inductive Closed : List Ev → Except Exc Unit → Prop
  | none : Closed [] (.ok ())
  | taken (id : String) (created : ℤ) (model : String) :
    Closed [⟨.yield (.finish id created model), .ok ()⟩] (.ok ())
  | left (id : String) (created : ℤ) (model : String) (x : Exc) (hx : x.isException = false) :
    Closed [⟨.yield (.finish id created model), .error x⟩] (.error x)

omit hA in
theorem concludes_finish {s : StreamLocals} : (finish true).wp A s fun t _ _ =>
    Concludes (LeftEarly t) (Counted t ∧ True) (signals t) := by
  rw [finish, if_pos rfl, Coro.wp_bind, wp_metric_iff]
  rintro (e | ⟨⟩) _
  · exact .uncounted fun h => nomatch h.1 _ (.head _)
  dsimp only [Except.mapError]
  rw [wp_emit_iff]
  intro r _
  refine .finished ?_ ⟨?_, trivial⟩
  · cases r <;> simp [LeftEarly, leavesEarly, Frame.isTerminal]
  · cases r <;> exact List.forall_mem_cons.mpr ⟨rfl, List.forall_mem_singleton.mpr rfl⟩

/-- A stream that ran out is told so, or that its bookkeeping failed. -/
theorem concludes_bookkeeping {closing : Py StreamLocals Unit}
    (hclosing : ∀ s, closing.wp A s fun t r s' => s' = s ∧ Closed t r) (hs : s.settled = false) :
    (bookkeeping settings q closing >>= finish).wp A s fun t _ _ =>
      Concludes (LeftEarly t) (Counted t ∧ True) (signals t) := by
  rw [Coro.wp_bind, bookkeeping, Coro.wp_attempt, Coro.wp_bind, Coro.wp_locals]
  dsimp only
  rw [Coro.wp_bind, settleStreamSpend, Coro.wp_bind]
  refine Coro.wp_mono (Coro.wp_and wp_priceStream quiet_priceStream.wp) fun t₁ r s₁ _ h => ?_
  obtain ⟨⟨rfl, -, hraise, -⟩, hquiet₁⟩ := h
  have h₁ := mute_of_quiet hquiet₁
  cases r with
  | error x =>
    cases x with
    | exception e =>
      refine Coro.wp_mono (Coro.wp_and (concludes_onUnbooked hA hs) onUnbooked_ne_true)
        fun t' r' s' _ h => ?_
      obtain ⟨hconcludes, hne⟩ := h
      rcases r' with x | _ | _
      · exact hconcludes.prepend h₁
      · refine Coro.wp_pure.mpr ?_
        rw [List.append_nil]
        exact hconcludes.prepend h₁
      · exact absurd rfl hne
    | _ => cases hraise _ rfl
  | ok cost =>
    dsimp only
    rw [Coro.wp_bind]
    refine Coro.wp_mono (quiet_settleChain hA) fun t₂ r s₂ _ h => ?_
    obtain ⟨rfl, rfl, hquiet₂, -⟩ := h
    refine Coro.wp_pure.mpr ?_
    dsimp only
    rw [Coro.wp_bind, Coro.wp_update]
    dsimp only
    rw [Coro.wp_bind]
    refine Coro.wp_mono (quiet_recordAuditLog hA) fun t₃ r s₃ _ h => ?_
    obtain ⟨rfl, rfl, hquiet₃, -⟩ := h
    have hmute : Mute (t₁ ++ (t₂ ++ t₃)) :=
      mute_of_quiet (List.forall_mem_append.mpr
        ⟨hquiet₁, List.forall_mem_append.mpr ⟨hquiet₂, hquiet₃⟩⟩)
    dsimp only
    rw [Coro.wp_bind]
    refine Coro.wp_mono (hclosing _) fun t₄ r s₄ _ h => ?_
    obtain ⟨rfl, hclosed⟩ := h
    cases hclosed with
    | none =>
      refine Coro.wp_pure.mpr (Coro.wp_mono concludes_finish fun t' r' s' _ h => ?_)
      simpa using h.prepend hmute
    | taken id created model =>
      refine Coro.wp_pure.mpr (Coro.wp_mono concludes_finish fun t' r' s' _ h => ?_)
      simpa using (h.prepend_frame (f := .finish id created model) rfl).prepend hmute
    | left id created model x hx =>
      -- nothing catches it, and nothing is counted
      have hlost : Concludes (LeftEarly [⟨.yield (.finish id created model), .error x⟩])
          (Counted [⟨.yield (.finish id created model), .error x⟩] ∧ True)
          (signals [⟨.yield (.finish id created model), .error x⟩]) :=
        .relayed _ rfl _ (.uncounted fun h => by cases h.1 _ (.head _))
      cases x with
      | exception e => cases hx
      | _ => simpa using hlost.prepend hmute

end Clauses

/-! ## The loop -/

theorem only_forChunks {deliver : StreamChunk → Py StreamLocals Unit}
    (h : ∀ c, (deliver c).Only Cmd.Relaying) (ending : Option PyError)
    (chunks : List StreamChunk) : (forChunks deliver ending chunks).Only Cmd.Relaying := by
  have hnext : ∀ next, (anext next : Py StreamLocals Unit).Only Cmd.Relaying := fun _ =>
    .bind (.perform trivial) fun _ => .ofExcept
  induction chunks with
  | nil =>
    cases ending with
    | none => exact hnext _
    | some e => exact .bind (hnext _) fun _ => only_throw
  | cons c rest ih => exact .bind (hnext _) fun _ => .bind (h c) fun _ => ih

/-- The loop hands on frames that are not terminal, and nothing else. -/
theorem Concludes.prepend_relaying (ht : ∀ e ∈ t, e.cmd.Relaying) (h : Concludes left heard xs) :
    Concludes left heard (signals t ++ xs) := by
  induction t with
  | nil => exact h
  | cons e t ih =>
    obtain ⟨he, hts⟩ := List.forall_mem_cons.mp ht
    obtain ⟨c, r⟩ := e
    cases c with
    | anext next => exact ih hts
    | yield f =>
      refine .relayed f ?_ _ (ih hts)
      cases f <;> first | rfl | exact he.elim
    | _ => exact he.elim

theorem leftEarly_of_relaying (ht : ∀ e ∈ t, e.cmd.Relaying) : LeftEarly t ↔ Left t := by
  refine exists_congr fun e => and_congr_right fun he => ?_
  have hc := ht e he
  obtain ⟨c, r⟩ := e
  cases c with
  | anext next => cases r <;> simp [leavesEarly, streamRaised]
  | yield f =>
    cases f <;> first
      | exact hc.elim
      | (cases r <;> simp [leavesEarly, streamRaised, Frame.isTerminal, Frame.isError])
  | _ => exact hc.elim

theorem counted_of_relaying (ht : ∀ e ∈ t, e.cmd.Relaying) : Counted t := by
  rintro ⟨c, r⟩ he
  have hc := ht _ he
  cases c with
  | yield f => cases f <;> first | rfl | exact hc.elim
  | _ => first | rfl | exact hc.elim

theorem published_of_relaying (ht : ∀ e ∈ t, e.cmd.Relaying) : Published t := by
  rintro ⟨c, r⟩ he
  have hc := ht _ he
  cases c <;> first | rfl | exact hc.elim

theorem timed_of_relaying (ht : ∀ e ∈ t, e.cmd.Relaying) : ∀ e ∈ t, untimed e = false := by
  rintro ⟨c, r⟩ he
  have hc := ht _ he
  cases c <;> first | rfl | exact hc.elim

theorem timed_of_trailing (ht : ∀ e ∈ t, e.cmd.Trailing) : ∀ e ∈ t, untimed e = false := by
  rintro ⟨c, r⟩ he
  have hc := ht _ he
  cases c with
  | metric m => cases m <;> first | rfl | exact hc.elim
  | _ => rfl

theorem heard_iff : Heard t ↔ Counted t ∧ (Exhausted t → ∀ e ∈ t, untimed e = false) ∧
    (AllFailed t →
      (usageOf t).finalProvider = "" ∨ Published t ∧ (usageOf t).inputTokens.Countable) :=
  ⟨fun h => ⟨h.counted, h.timed, h.published⟩, fun h => ⟨h.1, h.2.1, h.2.2⟩⟩

theorem heard_start : Heard (⟨.start, true⟩ :: t) ↔ Heard t := by
  have hcounted : Counted (⟨.start, true⟩ :: t) ↔ Counted t :=
    List.forall_mem_cons.trans (and_iff_right rfl)
  have htimed : (∀ e ∈ (⟨.start, true⟩ :: t : List Ev), untimed e = false) ↔
      ∀ e ∈ t, untimed e = false := List.forall_mem_cons.trans (and_iff_right rfl)
  have hpublished : Published (⟨.start, true⟩ :: t) ↔ Published t :=
    published_cons.trans (and_iff_right rfl)
  have hex : Exhausted (⟨.start, true⟩ :: t) ↔ Exhausted t := by simp [exhausted_cons, ranOut]
  have hf : AllFailed (⟨.start, true⟩ :: t) ↔ AllFailed t := by simp [allFailed_cons, gaveUp]
  rw [heard_iff, heard_iff, hcounted, hex, htimed, hf, hpublished]
  rfl

/-- What a run is heard by, in terms of the loop and what follows it. -/
theorem heard_append_iff {u : Usage} (ht : ∀ e ∈ t, e.cmd.Relaying)
    (hfed : ∀ e ∈ t', e.cmd.Unfed) (hu : usageOf t = u) :
    Heard (t ++ t') ↔ Counted t' ∧ (Exhausted t → ∀ e ∈ t', untimed e = false) ∧
      (AllFailed t → u.finalProvider = "" ∨ Published t' ∧ u.inputTokens.Countable) := by
  rw [heard_iff, exhausted_append_of_unfed hfed, allFailed_append_of_unfed hfed,
    usageOf_append_of_unfed hfed, hu, counted_append,
    and_iff_right (counted_of_relaying ht), published_append,
    and_iff_right (published_of_relaying ht), List.forall_mem_append,
    and_iff_right (timed_of_relaying ht)]

/-! ## The endpoints -/

section Endpoints

variable {deliver : StreamChunk → Py StreamLocals Unit} {allFailed closing : Py StreamLocals Unit}
  {stream : RouterStream}

/-- Redis and the database raise nothing but an `Exception`, and nobody but its client interrupts a
stream. Metrics and pricing may raise. -/
def Troubled (e : Ev) : Prop := Tolerable e ∧ Disconnecting e

theorem wp_generator_concludes {C : Prop}
    (h : Clauses C settings q Troubled deliver allFailed closing)
    (hhanded : ∀ c s, (deliver c).wp Troubled s fun t r _ => Handed t r)
    (hrelaying : ∀ c, (deliver c).Only Cmd.Relaying)
    (hfailed : ∀ s : StreamLocals, allFailed.wp Troubled s fun t _ _ =>
      Concludes (LeftEarly t) (Counted t ∧ s.Settles t) (signals t))
    (hclosing : ∀ s, closing.wp Troubled s fun t r s' => s' = s ∧ Closed t r) :
    (generator settings q deliver allFailed closing stream).wp Troubled {} fun t _ _ =>
      Concludes (LeftEarly t) (Heard t) (signals t) := by
  have hA : ∀ e, Troubled e → Tolerable e := fun _ h => h.1
  refine wp_generator_of_phases (Coro.wp_and (wp_forChunks h.delivers _ _ _) (Coro.wp_and
    (wp_forChunks_parted (fun _ he => he.2) h.delivers hhanded _ _ _)
    (only_forChunks hrelaying _ _).wp)) ?_ ?_ ?_
  · rintro t x s ⟨hloop, hpart, hrel⟩
    have husage : usageOf t = s.toUsage := hloop.usage.symm
    -- what the clause concludes is what the run does
    have hrun : ∀ {t' : List Ev} {heard' : Prop} (l : Except PyError Unit), ¬ Exhausted t →
        (∀ e ∈ t', e.cmd.Unfed) → Concludes (Left t ∨ LeftEarly t') (Counted t' ∧ heard')
          (signals t') →
        (heard' ↔ (AllFailed t → s.Settles t')) →
        Concludes (LeftEarly (t ++ (t' ++ [⟨.metric .requestLatency, l⟩])))
          (Heard (t ++ (t' ++ [⟨.metric .requestLatency, l⟩])))
          (signals (t ++ (t' ++ [⟨.metric .requestLatency, l⟩]))) := by
      intro t' heard' l hex hfed hconcludes hheard
      have hmute : Mute [⟨.metric .requestLatency, l⟩] := mute_latency
      have hpub : Published [⟨.metric .requestLatency, l⟩] := published_singleton.mpr rfl
      rw [signals_append, signals_append, hmute.signals, List.append_nil]
      refine (hconcludes.congr ?_ ?_).prepend_relaying hrel
      · rw [leftEarly_append, leftEarly_append, or_iff_left hmute.stays, leftEarly_of_relaying hrel]
      · rw [heard_append_iff hrel (List.forall_mem_append.mpr ⟨hfed, by simp [Cmd.Unfed]⟩) husage,
          counted_append, and_iff_left hmute.counted, published_append, and_iff_left hpub, hheard,
          and_iff_right fun h => absurd h hex]
        rfl
    cases hpart with
    | failed m hf hex hl =>
      refine Coro.wp_mono (Coro.wp_and (hfailed s) h.failed_only.wp) fun t' _ _ _ ht' l _ => ?_
      exact hrun l hex ht'.2 (ht'.1.congr (or_iff_right hl).symm Iff.rfl) (by simp [hf])
    | left x hx hl hex hf =>
      rcases hx with rfl | rfl <;>
        refine Coro.wp_mono (Coro.wp_and concludes_onDisconnect only_onDisconnect.wp)
          fun t' _ _ _ ht' l _ => ?_ <;>
        exact hrun l hex ht'.2 (ht'.1.congr (by simp [hl]) Iff.rfl) (by simp [hf])
    | broken e he hon =>
      rw [loopClause_broken he]
      refine Coro.wp_mono (Coro.wp_and (concludes_onUnexpected hA) only_onUnexpected.wp)
        fun t' _ _ _ ht' l _ => ?_
      exact hrun l hon.exhausted ht'.2 (ht'.1.congr (or_iff_right hon.left).symm Iff.rfl)
        (by simp [hon.failed])
  · rintro t s e ⟨hloop, hpart, hrel⟩ -
    cases hpart with
    | exhausted hex hf hl =>
      rw [signals_append, mute_latency.signals]
      refine (Concludes.uncounted fun hheard => ?_).prepend_relaying hrel
      have htimed := hheard.timed (exhausted_append.mpr (.inl hex)) _
        (List.mem_append_right _ (.head _))
      cases htimed
  · rintro t s ⟨hloop, hpart, hrel⟩ -
    have husage : usageOf t = s.toUsage := hloop.usage.symm
    cases hpart with
    | exhausted hex hf hl =>
      refine Coro.wp_mono (Coro.wp_and (concludes_bookkeeping hA hclosing hloop.settled)
        (only_bookkeeping_finish h.closing_only).wp) fun t' r s' _ ht' => ?_
      have hconcludes := ht'.1.prepend (mute_latency (l := .ok ()))
      have hfed : ∀ e ∈ (⟨.metric .requestLatency, .ok ()⟩ :: t' : List Ev), e.cmd.Unfed :=
        List.forall_mem_cons.mpr ⟨trivial, fun e he => (ht'.2 e he).unfed⟩
      rw [signals_append]
      refine (hconcludes.congr ?_ ?_).prepend_relaying hrel
      · rw [leftEarly_append (t := t), leftEarly_of_relaying hrel, or_iff_right hl]
        rfl
      · rw [heard_append_iff hrel hfed husage]
        refine and_congr_right fun _ => iff_of_true trivial ⟨fun _ => ?_, fun h => absurd h hf⟩
        exact List.forall_mem_cons.mpr ⟨rfl, timed_of_trailing ht'.2⟩

theorem wp_whenStarted_concludes {body : Py StreamLocals Unit}
    (h : body.wp Troubled {} fun t _ _ => Concludes (LeftEarly t) (Heard t) (signals t)) :
    (whenStarted body).wp Troubled {} fun t _ _ =>
      Started t → Concludes (LeftEarly t) (Heard t) (signals t) := by
  rw [whenStarted, Coro.wp_bind, wp_start_iff]
  rintro (_ | _) _
  · exact fun hstart => absurd hstart Bool.false_ne_true
  · dsimp only
    rw [if_pos rfl]
    refine Coro.wp_mono h fun t r s' _ ht _ => ht.congr ?_ ?_
    · simp [LeftEarly, leavesEarly]
    · exact heard_start.symm

theorem closed_pure {s : StreamLocals} :
    (pure () : Py StreamLocals Unit).wp A s fun t r s' => s' = s ∧ Closed t r :=
  Coro.wp_pure.mpr ⟨rfl, .none⟩

theorem closed_relayFinish (hA : ∀ e, A e → Disconnecting e) {completionId : String} {created : ℤ}
    {s : StreamLocals} :
    (relayFinish completionId created).wp A s fun t r s' => s' = s ∧ Closed t r := by
  rw [relayFinish, Coro.wp_bind, Coro.wp_locals]
  dsimp only
  rw [wp_emit_iff]
  rintro (x | ⟨⟩) hx
  · refine ⟨rfl, .left _ _ _ x ?_⟩
    rcases hA _ hx x rfl with rfl | rfl <;> rfl
  · exact ⟨rfl, .taken _ _ _⟩

theorem wp_endpoint_concludes (endpoint : Endpoint) :
    (endpoint.run settings q stream).wp Troubled {} fun t _ _ =>
      Started t → Concludes (LeftEarly t) (Heard t) (signals t) := by
  have hA : ∀ e, Troubled e → Tolerable e := fun _ h => h.1
  have hleave : ∀ e, Troubled e → Disconnecting e := fun _ h => h.2
  cases endpoint with
  | native =>
    exact wp_whenStarted_concludes <| wp_generator_concludes clauses_native
      (wp_relayChunk_handed hleave) (fun _ => only_relayChunk trivial)
      (fun _ => concludes_onAllFailed hA) fun _ => closed_pure
  | openai completionId created =>
    exact wp_whenStarted_concludes <| wp_generator_concludes clauses_openai
      (wp_relayDelta_handed hleave)
      (fun _ => only_relayDelta (fun _ => trivial) fun _ => trivial)
      (fun _ => concludes_onAllFailedOpenai hA) fun _ => closed_relayFinish hleave

end Endpoints

/-- Whatever of the bookkeeping raises an `Exception`, and wherever the client leaves: a stream that
was started ends in its one terminal frame and is counted once, as what its caller got, exactly if
it is heard. -/
theorem told_truly_iff {endpoint : Endpoint} {stream : RouterStream} {r : Except Exc Unit}
    {s' : StreamLocals} (hrun : Coro.Runs (endpoint.run settings q stream) {} t r s')
    (hA : ∀ e ∈ t, Troubled e) (hstart : Started t) : ToldTruly t ↔ Heard t :=
  ((wp_endpoint_concludes endpoint).apply hrun hA hstart).toldTruly_iff

/-! ## Streams that are not told so -/

/-- The client leaves at the frame before `[DONE]`. -/
def leftAtFinish : (c : Cmd) → Reply c
  | .yield (.finish _ _ _) => .error .generatorExit
  | c => calm c

/-- The price table cannot be read. -/
def unpricedTable : (c : Cmd) → Reply c
  | .pricing => .error (.other "RuntimeError")
  | c => calm c

theorem told_truly_iff_wholeText :
    ToldTruly (streamed calm .native ⟨wholeText, none⟩).1 ↔
      Heard (streamed calm .native ⟨wholeText, none⟩).1 :=
  told_truly_iff (q := heldStream) runs_streamed
    (forall_streamed fun L c => by
      cases c <;> exact ⟨by simp [Tolerable, raised, auditRaised, Sent.raised, answer, calm],
        fun _ hx => by cases hx⟩)
    rfl

/-- With everything but the ledgers answered by `other`, the stream does not tell its caller the
truth. -/
structure Mistold (other : (c : Cmd) → Reply c) (endpoint : Endpoint) (stream : RouterStream) :
    Prop where
  run : Coro.Runs (endpoint.run { hashKey := id } heldStream stream) {}
    (streamed other endpoint stream).1 (streamed other endpoint stream).2.1.1
    (streamed other endpoint stream).2.1.2
  troubled : ∀ e ∈ (streamed other endpoint stream).1, Troubled e
  started : Started (streamed other endpoint stream).1
  mistold : ¬ ToldTruly (streamed other endpoint stream).1

theorem mistold_of_unheard {other : (c : Cmd) → Reply c} {endpoint : Endpoint}
    {stream : RouterStream} (hother : ∀ L c, Troubled ⟨c, (answer other L c).1⟩)
    (hstart : Started (streamed other endpoint stream).1)
    (hheard : ¬ Heard (streamed other endpoint stream).1) : Mistold other endpoint stream where
  run := runs_streamed
  troubled := forall_streamed hother
  started := hstart
  mistold := mt (((wp_endpoint_concludes endpoint).apply runs_streamed (forall_streamed hother)
    hstart).toldTruly_iff).mp hheard

/-- A client that leaves at the frame before `[DONE]` is not counted, and a stream that breaks off
while it cannot be priced is cut short without a terminal frame. -/
theorem stream_mistold :
    Mistold leftAtFinish (.openai "id" 0) ⟨wholeText, none⟩ ∧
      Mistold unpricedTable .native brokenStream := by
  refine ⟨mistold_of_unheard (fun L c => ?_) rfl fun h => ?_,
    mistold_of_unheard (fun L c => ?_) rfl fun h => ?_⟩
  · cases c with
    | yield f =>
      cases f <;> exact ⟨by simp [Tolerable, raised, auditRaised], fun x hx => by
        first | (cases hx; exact .inr rfl) | cases hx⟩
    | _ => exact ⟨by simp [Tolerable, raised, auditRaised, Sent.raised, answer, leftAtFinish, calm],
        fun _ hx => by cases hx⟩
  · exact absurd h.counted (by decide +kernel)
  · cases c <;> exact ⟨by simp [Tolerable, raised, auditRaised, Sent.raised, answer, unpricedTable,
      calm], fun _ hx => by cases hx⟩
  · exact absurd (h.published (by decide +kernel)) (by decide +kernel)

end LlmGateway
