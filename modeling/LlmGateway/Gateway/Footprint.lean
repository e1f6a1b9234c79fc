import LlmGateway.Gateway.Observe
import LlmGateway.Coroutine.Footprint

/-!
# Kinds of commands

What a trace cannot contain because of the commands its function is able to issue: settling does not
read a stream, the audit log does not touch a ledger, a metric records no call.
-/

namespace LlmGateway

open Coroutine

variable {σ α β : Type} {B : Cmd → Prop}

/-- The commands of settling: the clock, the metrics, the ledgers and the record of a call. -/
def Cmd.Settling : Cmd → Prop
  | .time | .metric _ | .log _ | .get _ | .incrbyfloat _ _ | .incrbyfloatExpire _ _ _ => True
  | _ => False

/-- The commands of settling, of whose metrics there are two: the gauges of a provider's ledger. -/
def Cmd.Accounting : Cmd → Prop
  | .metric (.providerBudgetSpent _ _) | .metric (.providerBudgetRemaining _ _) => True
  | .time | .log _ | .get _ | .incrbyfloat _ _ | .incrbyfloatExpire _ _ _ => True
  | _ => False

/-- The commands of reserving: those of settling, but for the record of a call. -/
def Cmd.Claiming : Cmd → Prop
  | .time | .metric _ | .get _ | .incrbyfloat _ _ | .incrbyfloatExpire _ _ _ => True
  | _ => False

/-- The commands of the audit log. -/
def Cmd.Auditing : Cmd → Prop
  | .openSession | .selectTeam _ | .commitAudit _ | .closeSession => True
  | _ => False

/-- The commands that publish what a request used. -/
def Cmd.Publishing : Cmd → Prop
  | .metric (.costUsd _ _ _) | .metric (.tokens _ _ _ _) => True
  | _ => False

/-- The commands of a stream: waiting for a chunk and handing on a frame. -/
def Cmd.Streaming : Cmd → Prop
  | .anext _ | .yield _ => True
  | _ => False

/-- The commands of the loop of a stream: waiting for a chunk and handing on what it holds. -/
def Cmd.Relaying : Cmd → Prop
  | .anext _ | .yield (.chunk _) | .yield (.role _ _ _) | .yield (.content _ _ _ _) => True
  | _ => False

/-- Handing on a frame. -/
def Cmd.Yielding : Cmd → Prop
  | .yield _ => True
  | _ => False

/-- Any command but the record of a call. -/
def Cmd.Unrecorded : Cmd → Prop
  | .log _ => False
  | _ => True

/-- Any command but waiting for a chunk. -/
def Cmd.Unfed : Cmd → Prop
  | .anext _ => False
  | _ => True

/-- Any command but handing on a frame. -/
def Cmd.Unframed : Cmd → Prop
  | .yield _ => False
  | _ => True

/-- Neither the commands of a stream nor the metrics of its outcome. -/
def Cmd.Quiet : Cmd → Prop
  | .metric (.requestCount _) | .metric .unhandledExceptions | .metric .requestLatency => False
  | .start | .anext _ | .yield _ => False
  | _ => True

/-- The commands of a stream once its loop is over and the time is taken. -/
def Cmd.Trailing : Cmd → Prop
  | .start | .anext _ | .metric .requestLatency => False
  | _ => True

/-- Neither the record of a call nor a command of the audit log. -/
def Cmd.Plain (c : Cmd) : Prop := c.Unrecorded ∧ ¬ c.Auditing

theorem Cmd.Yielding.streaming {c : Cmd} (h : c.Yielding) : c.Streaming := by
  cases c <;> trivial

theorem Cmd.Yielding.unfed {c : Cmd} (h : c.Yielding) : c.Unfed := by
  cases c <;> trivial

theorem Cmd.Yielding.unrecorded {c : Cmd} (h : c.Yielding) : c.Unrecorded := by
  cases c <;> trivial

theorem Cmd.Streaming.plain {c : Cmd} (h : c.Streaming) : c.Plain := by
  cases c <;> first | exact ⟨trivial, id⟩ | exact h.elim

theorem Cmd.Claiming.settling {c : Cmd} (h : c.Claiming) : c.Settling := by
  cases c <;> trivial

theorem Cmd.Claiming.unrecorded {c : Cmd} (h : c.Claiming) : c.Unrecorded := by
  cases c <;> trivial

theorem Cmd.Accounting.settling {c : Cmd} (h : c.Accounting) : c.Settling := by
  cases c <;> trivial

theorem Cmd.Accounting.quiet {c : Cmd} (h : c.Accounting) : c.Quiet := by
  cases c with
  | metric m => cases m <;> trivial
  | _ => trivial

theorem Cmd.Publishing.quiet {c : Cmd} (h : c.Publishing) : c.Quiet := by
  cases c with
  | metric m => cases m <;> trivial
  | _ => trivial

theorem Cmd.Auditing.quiet {c : Cmd} (h : c.Auditing) : c.Quiet := by
  cases c <;> trivial

theorem Cmd.Quiet.trailing {c : Cmd} (h : c.Quiet) : c.Trailing := by
  cases c with
  | metric m => cases m <;> trivial
  | _ => trivial

theorem Cmd.Yielding.trailing {c : Cmd} (h : c.Yielding) : c.Trailing := by
  cases c <;> trivial

theorem Cmd.Trailing.unfed {c : Cmd} (h : c.Trailing) : c.Unfed := by
  cases c <;> trivial

theorem Cmd.Quiet.unfed {c : Cmd} (h : c.Quiet) : c.Unfed := by
  cases c <;> trivial

theorem Cmd.Settling.not_auditing {c : Cmd} (h : c.Settling) : ¬ c.Auditing := by
  cases c <;> first | exact id | exact h.elim

theorem Cmd.Auditing.unrecorded {c : Cmd} (h : c.Auditing) : c.Unrecorded := by
  cases c <;> trivial

theorem Cmd.Streaming.unrecorded {c : Cmd} (h : c.Streaming) : c.Unrecorded := by
  cases c <;> trivial

theorem Cmd.Auditing.unfed {c : Cmd} (h : c.Auditing) : c.Unfed := by
  cases c <;> trivial

theorem Cmd.Settling.unframed {c : Cmd} (h : c.Settling) : c.Unframed := by
  cases c <;> trivial

theorem Cmd.Auditing.unframed {c : Cmd} (h : c.Auditing) : c.Unframed := by
  cases c <;> trivial

theorem calls_of_unrecorded {t : List Ev} (h : ∀ e ∈ t, e.cmd.Unrecorded) : calls t = [] := by
  refine List.filterMap_eq_nil_iff.mpr fun e he => ?_
  have hc := h e he
  obtain ⟨c, r⟩ := e
  cases c <;> first | rfl | exact hc.elim

/-- Settling counts no leak: `BUDGET_RESERVATION_LEAKED` is not one of its metrics. -/
theorem leaked_of_accounting {t : List Ev} (h : ∀ e ∈ t, e.cmd.Accounting) (l : Ledger) :
    tally (leaked l) t = 0 := by
  refine tally_eq_zero fun e he => ?_
  have hc := h e he
  obtain ⟨c, r⟩ := e
  cases c with
  | metric m => cases m <;> first | rfl | exact hc.elim
  | _ => rfl

/-! ## Chunks -/

/-- The chunk an event delivered. -/
def received? : Ev → Option StreamChunk
  | ⟨.anext (.chunk c), .ok ()⟩ => some c
  | _ => none

/-- The chunks a trace delivered, in order. -/
def received (t : List Ev) : List StreamChunk := t.filterMap received?

@[simp] theorem received_nil : received [] = [] := rfl

@[simp] theorem received_append (t t' : List Ev) : received (t ++ t') = received t ++ received t' :=
  List.filterMap_append

theorem received_of_unfed {t : List Ev} (h : ∀ e ∈ t, e.cmd.Unfed) : received t = [] := by
  refine List.filterMap_eq_nil_iff.mpr fun e he => ?_
  have hc := h e he
  obtain ⟨c, r⟩ := e
  cases c <;> first | rfl | exact hc.elim

/-! ## Frames -/

/-- The frame an event handed to the caller. -/
def frame? : Ev → Option Frame
  | ⟨.yield f, _⟩ => some f
  | _ => none

/-- The frames the caller was handed, in order. -/
def frames (t : List Ev) : List Frame := t.filterMap frame?

@[simp] theorem frames_nil : frames [] = [] := rfl

theorem frames_cons (e : Ev) (t : List Ev) : frames (e :: t) = (frame? e).toList ++ frames t := by
  cases h : frame? e <;> simp [frames, h]

@[simp] theorem frames_append (t t' : List Ev) : frames (t ++ t') = frames t ++ frames t' :=
  List.filterMap_append

theorem frames_of_unframed {t : List Ev} (h : ∀ e ∈ t, e.cmd.Unframed) : frames t = [] := by
  refine List.filterMap_eq_nil_iff.mpr fun e he => ?_
  have hc := h e he
  obtain ⟨c, r⟩ := e
  cases c <;> first | rfl | exact hc.elim

/-! ## Statements -/

theorem only_metric {m : Metric} (h : B (.metric m)) : (metric m : Py σ Unit).Only B :=
  .bind (.perform h) fun _ => .ofExcept

theorem only_pricing (h : B .pricing) : (pricing : Py σ Unit).Only B :=
  .bind (.perform h) fun _ => .ofExcept

theorem only_log {c : Call} (h : B (.log c)) : (log c : Py σ Unit).Only B := .perform h

theorem only_time (h : B .time) : (time : Py σ ℚ).Only B := .perform h

theorem only_incrbyfloat {k : LedgerKey} {d : ℚ} (h : B (.incrbyfloat k d)) :
    (incrbyfloat k d : Py σ ℚ).Only B :=
  .bind (.perform h) fun _ => .ofExcept

theorem only_incrbyfloatExpire {k : LedgerKey} {d : ℚ} {n : ℕ} (h : B (.incrbyfloatExpire k d n)) :
    (incrbyfloatExpire k d n : Py σ ℚ).Only B :=
  .bind (.perform h) fun _ => .ofExcept

theorem only_throw {e : PyError} : (throw e : Py σ α).Only B := .raise

theorem only_tryExcept {m : Py σ α} {h : PyError → Py σ α} (hm : m.Only B)
    (hh : ∀ e, (h e).Only B) : (tryExcept m h).Only B := by
  refine .attempt hm fun e c hc => ?_
  cases e with
  | exception e =>
    obtain rfl := Option.some.inj hc
    exact hh e
  | _ => cases hc

theorem along_tryExcept {A : Ev → Prop} {P : List Ev → Prop} (hP : Coro.Composes P) {m : Py σ α}
    {h : PyError → Py σ α} (hm : Coro.Along A P m) (hh : ∀ e, Coro.Along A P (h e)) :
    Coro.Along A P (tryExcept m h) := by
  refine .attempt hP hm fun e c hc => ?_
  cases e with
  | exception e =>
    obtain rfl := Option.some.inj hc
    exact hh e
  | _ => cases hc

theorem only_tryExceptElse {m : Py σ α} {h : PyError → Py σ β} {k : α → Py σ β} (hm : m.Only B)
    (hh : ∀ e, (h e).Only B) (hk : ∀ a, (k a).Only B) : (tryExceptElse m h k).Only B := by
  refine .attemptElse hm (fun e c hc => ?_) hk
  cases e with
  | exception e =>
    obtain rfl := Option.some.inj hc
    exact hh e
  | _ => cases hc

end LlmGateway
