import LlmGateway.Gateway.Command
import LlmGateway.Coroutine.Stages
import Mathlib.Algebra.Order.BigOperators.Group.List
import Mathlib.Algebra.Order.Field.Rat

/-!
# What a trace did

The amounts a trace moved the ledgers by, the failures in it, and the calls recorded in it. All but
the last are tallies, so they add up along a trace.

`Healthy` is the standing condition on the environment: the metrics registry and the price table do
not raise. Redis, the database, the providers and the caller stay arbitrary.
-/

namespace LlmGateway

open Coroutine

/-- Whether a sent command took effect. -/
def Sent.applied {β : Type} : Sent β → Bool
  | .ok _ => true
  | .failed _ a => a

/-- The exception a sent command raised on this side. -/
def Sent.raised {β : Type} : Sent β → Option Exc
  | .ok _ => none
  | .failed e _ => some e

/-! ## Ledger movements -/

/-- The increment an event asked of the ledger `k`. -/
def asked (k : LedgerKey) : Ev → ℚ
  | ⟨.incrbyfloat k' d, _⟩ => if k' = k then d else 0
  | ⟨.incrbyfloatExpire k' d _, _⟩ => if k' = k then d else 0
  | _ => 0

/-- Whether an event took effect. -/
def landed : Ev → Bool
  | ⟨.incrbyfloat _ _, r⟩ => Sent.applied r
  | ⟨.incrbyfloatExpire _ _ _, r⟩ => Sent.applied r
  | _ => true

/-- The exception a Redis command raised on this side. -/
def raised : Ev → Option Exc
  | ⟨.incrbyfloat _ _, r⟩ => Sent.raised r
  | ⟨.incrbyfloatExpire _ _ _, r⟩ => Sent.raised r
  | ⟨.get _, r⟩ => Sent.raised r
  | _ => none

/-- Whether a Redis command raised on this side. -/
def failed (e : Ev) : Bool := (raised e).isSome

/-- The amount an event moved the ledger `k` by. -/
def moved (k : LedgerKey) (e : Ev) : ℚ := if landed e then asked k e else 0

/-- The amount an event asked of the ledger `k` in vain. -/
def missed (k : LedgerKey) (e : Ev) : ℚ := if landed e then 0 else asked k e

/-- What an interrupted claim or hand-back leaves on the ledger `k`: the claim if it took effect,
the amount to be handed back if that did not. -/
def stranded (k : LedgerKey) (e : Ev) : ℚ :=
  if failed e then if 0 < asked k e then moved k e else - missed k e else 0

/-- The number of Redis commands that raised. -/
def fault (e : Ev) : ℕ := if failed e then 1 else 0

/-- The amount an event added to `BUDGET_RESERVATION_LEAKED`. -/
def leaked (l : Ledger) : Ev → ℚ
  | ⟨.metric (.budgetReservationLeaked l' v), _⟩ => if l' = l then v else 0
  | _ => 0

/-- The metric label of a ledger. -/
def LedgerKey.ledger : LedgerKey → Ledger
  | .provider _ => .provider
  | .key _ _ => .key

/-- The amount of a hand-back that ended in an `Exception`. -/
def excused (l : Ledger) : Ev → ℚ
  | ⟨.incrbyfloat k d, .failed (.exception _) _⟩ => if k.ledger = l ∧ d < 0 then -d else 0
  | ⟨.incrbyfloatExpire k d _, .failed (.exception _) _⟩ => if k.ledger = l ∧ d < 0 then -d else 0
  | _ => 0

/-! ### One increment -/

section Increment

variable {k k' : LedgerKey} {d v : ℚ} {e : Exc} {a : Bool} {n : ℕ}

/-- What a lost increment leaves on its ledger. -/
def strandedBy (d : ℚ) (a : Bool) : ℚ :=
  if 0 < d then if a then d else 0 else if a then 0 else -d

@[simp] theorem moved_incrbyfloat_ok :
    moved k ⟨.incrbyfloat k' d, .ok v⟩ = if k' = k then d else 0 := rfl

@[simp] theorem moved_incrbyfloat_failed :
    moved k ⟨.incrbyfloat k' d, .failed e a⟩ = if k' = k then if a then d else 0 else 0 := by
  by_cases h : k' = k <;> simp [moved, asked, landed, Sent.applied, h]

@[simp] theorem moved_incrbyfloatExpire_ok :
    moved k ⟨.incrbyfloatExpire k' d n, .ok v⟩ = if k' = k then d else 0 := rfl

@[simp] theorem moved_incrbyfloatExpire_failed :
    moved k ⟨.incrbyfloatExpire k' d n, .failed e a⟩ = if k' = k then if a then d else 0 else 0 := by
  by_cases h : k' = k <;> simp [moved, asked, landed, Sent.applied, h]

@[simp] theorem stranded_incrbyfloat_ok : stranded k ⟨.incrbyfloat k' d, .ok v⟩ = 0 := rfl

@[simp] theorem stranded_incrbyfloatExpire_ok :
    stranded k ⟨.incrbyfloatExpire k' d n, .ok v⟩ = 0 := rfl

@[simp] theorem stranded_incrbyfloat_failed :
    stranded k ⟨.incrbyfloat k' d, .failed e a⟩ = if k' = k then strandedBy d a else 0 := by
  by_cases h : k' = k <;> cases a <;>
    simp [stranded, failed, raised, Sent.raised, asked, moved, missed, landed, Sent.applied,
      strandedBy, h]

@[simp] theorem stranded_incrbyfloatExpire_failed :
    stranded k ⟨.incrbyfloatExpire k' d n, .failed e a⟩ = if k' = k then strandedBy d a else 0 := by
  by_cases h : k' = k <;> cases a <;>
    simp [stranded, failed, raised, Sent.raised, asked, moved, missed, landed, Sent.applied,
      strandedBy, h]

@[simp] theorem moved_time {now : ℚ} : moved k ⟨.time, now⟩ = 0 := rfl

@[simp] theorem stranded_time {now : ℚ} : stranded k ⟨.time, now⟩ = 0 := rfl

@[simp] theorem moved_metric {m : Metric} {r : Except PyError Unit} :
    moved k ⟨.metric m, r⟩ = 0 := rfl

@[simp] theorem stranded_metric {m : Metric} {r : Except PyError Unit} :
    stranded k ⟨.metric m, r⟩ = 0 := rfl

end Increment

/-- An event that touches no ledger and raises nothing. -/
structure Still (e : Ev) : Prop where
  asked : ∀ k, asked k e = 0
  failed : failed e = false

theorem Still.moved {e : Ev} (h : Still e) (k : LedgerKey) : LlmGateway.moved k e = 0 := by
  rw [LlmGateway.moved, h.asked, ite_self]

/-- A quantity none of the events of a trace has is absent from the trace. -/
theorem tally_eq_zero {f : Ev → ℚ} {t : List Ev} (h : ∀ e ∈ t, f e = 0) : tally f t = 0 :=
  List.sum_eq_zero fun x hx => by
    obtain ⟨e, he, rfl⟩ := List.mem_map.mp hx
    exact h e he

theorem tally_asked_of_still {t : List Ev} (h : ∀ e ∈ t, Still e) (k : LedgerKey) :
    tally (LlmGateway.asked k) t = 0 :=
  tally_eq_zero fun e he => (h e he).asked k

theorem tally_moved_of_still {t : List Ev} (h : ∀ e ∈ t, Still e) (k : LedgerKey) :
    tally (LlmGateway.moved k) t = 0 :=
  tally_eq_zero fun e he => (h e he).moved k

theorem Still.stranded {e : Ev} (h : Still e) (k : LedgerKey) : LlmGateway.stranded k e = 0 := by
  simp [LlmGateway.stranded, h.failed]

theorem tally_stranded_of_still {t : List Ev} (h : ∀ e ∈ t, Still e) (k : LedgerKey) :
    tally (LlmGateway.stranded k) t = 0 :=
  tally_eq_zero fun e he => (h e he).stranded k

theorem still_of_sync {e : Ev} (h : suspends e.cmd = false) : Still e := by
  obtain ⟨c, r⟩ := e
  cases c <;> first | exact ⟨fun _ => rfl, rfl⟩ | simp [suspends] at h

/-! ## Failures -/

theorem landed_of_not_failed {e : Ev} (h : failed e = false) : landed e = true := by
  obtain ⟨c, r⟩ := e
  cases c with
  | incrbyfloat | incrbyfloatExpire =>
    cases r with
    | ok v => rfl
    | failed e a => cases h
  | _ => rfl

theorem tally_moved_of_not_failed {t : List Ev} (h : ∀ e ∈ t, failed e = false) (k : LedgerKey) :
    tally (moved k) t = tally (asked k) t :=
  congrArg List.sum (List.map_congr_left fun e he => by
    rw [moved, if_pos (landed_of_not_failed (h e he))])

theorem stranded_of_not_failed {e : Ev} (h : failed e = false) (k : LedgerKey) :
    stranded k e = 0 := by
  simp [stranded, h]

theorem tally_stranded_of_not_failed {t : List Ev} (h : ∀ e ∈ t, failed e = false)
    (k : LedgerKey) : tally (stranded k) t = 0 :=
  tally_eq_zero fun e he => stranded_of_not_failed (h e he) k

theorem excused_of_not_failed {e : Ev} (h : failed e = false) (l : Ledger) : excused l e = 0 := by
  obtain ⟨c, r⟩ := e
  cases c with
  | incrbyfloat | incrbyfloatExpire =>
    cases r with
    | ok v => rfl
    | failed e a => cases h
  | _ => rfl

/-- A failed command, with the increment it asked for: `d` on the ledger `k`, which is 0 if it only
read. -/
structure Lost (e : Ev) (k : LedgerKey) (d : ℚ) (a : Bool) (x : Exc) : Prop where
  asked : ∀ k', asked k' e = if k = k' then d else 0
  landed : d ≠ 0 → landed e = a
  raised : raised e = some x
  stranded : ∀ k', stranded k' e = if k = k' then strandedBy d a else 0
  excused : ∀ l, excused l e = if x.isException = true ∧ k.ledger = l ∧ d < 0 then -d else 0

theorem Lost.failed {e : Ev} {k : LedgerKey} {d : ℚ} {a : Bool} {x : Exc} (h : Lost e k d a x) :
    LlmGateway.failed e = true := by
  rw [LlmGateway.failed, h.raised]
  rfl

theorem lost_incrbyfloat {k : LedgerKey} {d : ℚ} {x : Exc} {a : Bool} :
    Lost ⟨.incrbyfloat k d, .failed x a⟩ k d a x where
  asked _ := rfl
  landed _ := rfl
  raised := rfl
  stranded _ := stranded_incrbyfloat_failed
  excused _ := by cases x <;> simp [LlmGateway.excused, Exc.isException]

theorem lost_incrbyfloatExpire {k : LedgerKey} {d : ℚ} {n : ℕ} {x : Exc} {a : Bool} :
    Lost ⟨.incrbyfloatExpire k d n, .failed x a⟩ k d a x where
  asked _ := rfl
  landed _ := rfl
  raised := rfl
  stranded _ := stranded_incrbyfloatExpire_failed
  excused _ := by cases x <;> simp [LlmGateway.excused, Exc.isException]

theorem lost_get {k : LedgerKey} {x : Exc} {a : Bool} : Lost ⟨.get k, .failed x a⟩ k 0 true x where
  asked _ := (ite_self 0).symm
  landed h := absurd rfl h
  raised := rfl
  stranded _ := by simp [LlmGateway.stranded, LlmGateway.asked, missed, strandedBy]
  excused _ := by simp [LlmGateway.excused]

theorem exists_lost {e : Ev} (h : failed e = true) : ∃ k d a x, Lost e k d a x := by
  obtain ⟨c, r⟩ := e
  cases c with
  | incrbyfloat k d =>
    cases r with
    | ok v => cases h
    | failed x a => exact ⟨k, d, a, x, lost_incrbyfloat⟩
  | incrbyfloatExpire k d n =>
    cases r with
    | ok v => cases h
    | failed x a => exact ⟨k, d, a, x, lost_incrbyfloatExpire⟩
  | get k =>
    cases r with
    | ok v => cases h
    | failed x a => exact ⟨k, 0, true, x, lost_get (a := a)⟩
  | _ => cases h

/-- At most one command of a trace failed: none did, or all that depends on failures is at one. -/
theorem failure_cases {t : List Ev} (h : tally fault t ≤ 1) :
    (∀ e ∈ t, failed e = false) ∨ ∃ f ∈ t, failed f = true ∧
      (∀ e ∈ t, failed e = true → e = f) ∧
      ∀ g : Ev → ℚ, (∀ e, failed e = false → g e = 0) → tally g t = g f := by
  induction t with
  | nil => exact .inl (by simp)
  | cons e t ih =>
    rw [tally_cons] at h
    cases he : failed e with
    | false =>
      rcases ih (by omega) with hnone | ⟨f, hf, hfail, huniq, htally⟩
      · exact .inl (List.forall_mem_cons.mpr ⟨he, hnone⟩)
      · refine .inr ⟨f, .tail _ hf, hfail, List.forall_mem_cons.mpr ⟨?_, huniq⟩, fun g hg => ?_⟩
        · intro h
          rw [he] at h
          cases h
        · rw [tally_cons, hg e he, zero_add, htally g hg]
    | true =>
      have hzero : tally fault t = 0 := by
        simp only [fault, he, if_true] at h
        omega
      have hnone : ∀ e ∈ t, failed e = false := by
        intro e he
        by_contra hne
        have hone : fault e = 1 := by rw [fault, if_pos (by simpa using hne)]
        have hle : fault e ≤ tally fault t :=
          List.single_le_sum (by simp) _ (List.mem_map_of_mem he)
        omega
      refine .inr ⟨e, .head _, he, List.forall_mem_cons.mpr ⟨fun _ => rfl, ?_⟩, fun g hg => ?_⟩
      · intro e' he' h
        rw [hnone e' he'] at h
        cases h
      · rw [tally_cons, tally_eq_zero fun e he => hg e (hnone e he), add_zero]

/-! ## Calls -/

/-- The call an event records. -/
def call? : Ev → Option Call
  | ⟨.log c, _⟩ => some c
  | _ => none

/-- The calls recorded in a trace, in order. -/
def calls (t : List Ev) : List Call := t.filterMap call?

@[simp] theorem calls_nil : calls [] = [] := rfl

theorem calls_cons (e : Ev) (t : List Ev) : calls (e :: t) = (call? e).toList ++ calls t := by
  cases h : call? e <;> simp [calls, h]

@[simp] theorem calls_append (t t' : List Ev) : calls (t ++ t') = calls t ++ calls t' :=
  List.filterMap_append

/-- An event that asks nothing of a ledger, counts no leak and records no call. It may have raised.
-/
structure Idle (e : Ev) : Prop where
  asked : ∀ k, asked k e = 0
  leaked : ∀ l, leaked l e = 0
  excused : ∀ l, excused l e = 0
  call : call? e = none

theorem Idle.moved {e : Ev} (h : Idle e) (k : LedgerKey) : LlmGateway.moved k e = 0 := by
  rw [LlmGateway.moved, h.asked, ite_self]

theorem Idle.stranded {e : Ev} (h : Idle e) (k : LedgerKey) : LlmGateway.stranded k e = 0 := by
  simp [LlmGateway.stranded, LlmGateway.missed, h.asked]

theorem calls_of_idle {t : List Ev} (h : ∀ e ∈ t, Idle e) : calls t = [] :=
  List.filterMap_eq_nil_iff.mpr fun e he => (h e he).call

/-- A trace that asks nothing of the callers' ledgers. -/
def Keyless (t : List Ev) : Prop := ∀ e ∈ t, ∀ h P, asked (.key h P) e = 0

theorem Keyless.moved {t : List Ev} (h : Keyless t) {e : Ev} (he : e ∈ t) (h' : String) (P : ℤ) :
    LlmGateway.moved (.key h' P) e = 0 := by
  rw [LlmGateway.moved, h e he, ite_self]

theorem Keyless.tally_moved {t : List Ev} (h : Keyless t) (h' : String) (P : ℤ) :
    tally (LlmGateway.moved (.key h' P)) t = 0 :=
  tally_eq_zero fun _ he => h.moved he h' P

/-- A trace that records no call, counts no leak and asks nothing of the callers' ledgers. -/
structure Silent (t : List Ev) : Prop where
  calls : calls t = []
  leaked : ∀ l, tally (leaked l) t = 0
  keyless : Keyless t

theorem Silent.nil : Silent [] := ⟨rfl, fun _ => rfl, by simp [Keyless]⟩

theorem Silent.cons {e : Ev} {t : List Ev} (hc : call? e = none)
    (hl : ∀ l, LlmGateway.leaked l e = 0) (hk : ∀ h P, asked (.key h P) e = 0) (h : Silent t) :
    Silent (e :: t) where
  calls := by simp [calls_cons, hc, h.calls]
  leaked l := by rw [tally_cons, hl, h.leaked, add_zero]
  keyless := List.forall_mem_cons.mpr ⟨hk, h.keyless⟩

/-- A trace that begins with the record of a call, if it is not empty. -/
def Headed (t : List Ev) : Prop := t = [] ∨ ∃ c t', t = ⟨.log c, ()⟩ :: t'

theorem Headed.append {t t' : List Ev} (h : Headed t) (h' : Headed t') : Headed (t ++ t') := by
  rcases h with rfl | ⟨c, t, rfl⟩
  · exact h'
  · exact .inr ⟨c, t ++ t', rfl⟩

/-! ## Healthy environments -/

/-- Metrics and pricing do not raise. -/
def Healthy : Ev → Prop
  | ⟨.metric _, r⟩ => r = .ok ()
  | ⟨.pricing, r⟩ => r = .ok ()
  | _ => True

/-- Healthy, and no Redis command fails. -/
def Sound (e : Ev) : Prop := Healthy e ∧ failed e = false

variable {σ α β : Type} {s : σ}

@[simp] theorem wp_throw {A : Ev → Prop} {e : PyError} {Q : List Ev → Except Exc α → σ → Prop} :
    (throw e).wp A s Q ↔ Q [] (.error (.exception e)) s := Iff.rfl

/-- The rule for `try: m  except Exception: pass`. -/
theorem wp_tryPass {A : Ev → Prop} {m : Py σ Unit} {R Q : List Ev → Except Exc Unit → σ → Prop}
    (hm : m.wp A s R) (hok : ∀ t s', R t (.ok ()) s' → Q t (.ok ()) s')
    (hcaught : ∀ t e s', R t (.error (.exception e)) s' → Q t (.ok ()) s')
    (hpast : ∀ t x s', R t (.error x) s' → x.isException = false → Q t (.error x) s') :
    (tryExcept m fun _ => pure ()).wp A s Q := by
  rw [tryExcept, Coro.wp_attempt]
  refine Coro.wp_mono hm fun t r s' _ hR => ?_
  match r with
  | .ok () => exact hok t s' hR
  | .error (.exception e) =>
    refine Coro.wp_pure.mpr ?_
    rw [List.append_nil]
    exact hcaught t e s' hR
  | .error .cancelled | .error .generatorExit | .error .interrupt => exact hpast t _ s' hR rfl

theorem wp_log_iff {A : Ev → Prop} {c : Call} {Q : List Ev → Except Exc Unit → σ → Prop} :
    (log c).wp A s Q ↔ (A ⟨.log c, ()⟩ → Q [⟨.log c, ()⟩] (.ok ()) s) :=
  ⟨fun h => h (), fun h _ => h⟩

theorem wp_time_iff {A : Ev → Prop} {Q : List Ev → Except Exc ℚ → σ → Prop} :
    time.wp A s Q ↔ ∀ now : ℚ, A ⟨.time, now⟩ → Q [⟨.time, now⟩] (.ok now) s := Iff.rfl

theorem wp_incrbyfloat_iff {A : Ev → Prop} {k : LedgerKey} {d : ℚ}
    {Q : List Ev → Except Exc ℚ → σ → Prop} :
    (incrbyfloat k d).wp A s Q ↔ ∀ r : Sent ℚ, A ⟨.incrbyfloat k d, r⟩ →
      Q [⟨.incrbyfloat k d, r⟩] r.toExcept s := Iff.rfl

theorem wp_incrbyfloatExpire_iff {A : Ev → Prop} {k : LedgerKey} {d : ℚ} {n : ℕ}
    {Q : List Ev → Except Exc ℚ → σ → Prop} :
    (incrbyfloatExpire k d n).wp A s Q ↔ ∀ r : Sent ℚ, A ⟨.incrbyfloatExpire k d n, r⟩ →
      Q [⟨.incrbyfloatExpire k d n, r⟩] r.toExcept s := Iff.rfl

theorem wp_get_iff {A : Ev → Prop} {k : LedgerKey} {Q : List Ev → Except Exc ℚ → σ → Prop} :
    (get k).wp A s Q ↔ ∀ r : Sent ℚ, A ⟨.get k, r⟩ → Q [⟨.get k, r⟩] r.toExcept s := Iff.rfl

theorem wp_metric_iff {A : Ev → Prop} {m : Metric} {Q : List Ev → Except Exc Unit → σ → Prop} :
    (metric m).wp A s Q ↔ ∀ r : Except PyError Unit, A ⟨.metric m, r⟩ →
      Q [⟨.metric m, r⟩] (r.mapError .exception) s := Iff.rfl

theorem wp_pricing_iff {A : Ev → Prop} {Q : List Ev → Except Exc Unit → σ → Prop} :
    pricing.wp A s Q ↔ ∀ r : Except PyError Unit, A ⟨.pricing, r⟩ →
      Q [⟨.pricing, r⟩] (r.mapError .exception) s := Iff.rfl

@[simp] theorem wp_metric {m : Metric} {Q : List Ev → Except Exc Unit → σ → Prop} :
    (metric m).wp Healthy s Q ↔ Q [⟨.metric m, .ok ()⟩] (.ok ()) s := by
  rw [wp_metric_iff]
  exact ⟨fun h => h _ rfl, by rintro h _ rfl; exact h⟩

@[simp] theorem wp_pricing {Q : List Ev → Except Exc Unit → σ → Prop} :
    pricing.wp Healthy s Q ↔ Q [⟨.pricing, .ok ()⟩] (.ok ()) s := by
  rw [wp_pricing_iff]
  exact ⟨fun h => h _ rfl, by rintro h _ rfl; exact h⟩

@[simp] theorem wp_log {c : Call} {Q : List Ev → Except Exc Unit → σ → Prop} :
    (log c).wp Healthy s Q ↔ Q [⟨.log c, ()⟩] (.ok ()) s :=
  ⟨fun h => h () trivial, fun h _ _ => h⟩

@[simp] theorem wp_time {Q : List Ev → Except Exc ℚ → σ → Prop} :
    time.wp Healthy s Q ↔ ∀ now : ℚ, Q [⟨.time, now⟩] (.ok now) s :=
  ⟨fun h now => h now trivial, fun h now _ => h now⟩

@[simp] theorem wp_incrbyfloat {k : LedgerKey} {d : ℚ} {Q : List Ev → Except Exc ℚ → σ → Prop} :
    (incrbyfloat k d).wp Healthy s Q ↔
      ∀ r : Sent ℚ, Q [⟨.incrbyfloat k d, r⟩] r.toExcept s :=
  ⟨fun h r => h r trivial, fun h r _ => h r⟩

@[simp] theorem wp_incrbyfloatExpire {k : LedgerKey} {d : ℚ} {n : ℕ}
    {Q : List Ev → Except Exc ℚ → σ → Prop} :
    (incrbyfloatExpire k d n).wp Healthy s Q ↔
      ∀ r : Sent ℚ, Q [⟨.incrbyfloatExpire k d n, r⟩] r.toExcept s :=
  ⟨fun h r => h r trivial, fun h r _ => h r⟩

@[simp] theorem wp_get {k : LedgerKey} {Q : List Ev → Except Exc ℚ → σ → Prop} :
    (get k).wp Healthy s Q ↔ ∀ r : Sent ℚ, Q [⟨.get k, r⟩] r.toExcept s :=
  ⟨fun h r => h r trivial, fun h r _ => h r⟩

/-! ## Stages -/

section Stages

variable {A : Ev → Prop}

theorem stages_metric_iff {m : Metric} {Q : List Ev → Option (Except Exc Unit × σ) → Prop} :
    (metric m).stages A s Q ↔ ∀ r : Except PyError Unit, A ⟨.metric m, r⟩ →
      Q [⟨.metric m, r⟩] (some (r.mapError .exception, s)) :=
  ⟨fun h => h.2, fun h => ⟨nofun, h⟩⟩

theorem stages_log_iff {c : Call} {Q : List Ev → Option (Except Exc Unit × σ) → Prop} :
    (log c).stages A s Q ↔ (A ⟨.log c, ()⟩ → Q [⟨.log c, ()⟩] (some (.ok (), s))) :=
  ⟨fun h => h.2 (), fun h => ⟨nofun, fun _ => h⟩⟩

theorem stages_incrbyfloat_iff {k : LedgerKey} {d : ℚ}
    {Q : List Ev → Option (Except Exc ℚ × σ) → Prop} :
    (incrbyfloat k d).stages A s Q ↔ Q [] none ∧ ∀ r : Sent ℚ, A ⟨.incrbyfloat k d, r⟩ →
      Q [⟨.incrbyfloat k d, r⟩] (some (r.toExcept, s)) :=
  ⟨fun h => ⟨h.1 rfl, h.2⟩, fun h => ⟨fun _ => h.1, h.2⟩⟩

theorem stages_incrbyfloatExpire_iff {k : LedgerKey} {d : ℚ} {n : ℕ}
    {Q : List Ev → Option (Except Exc ℚ × σ) → Prop} :
    (incrbyfloatExpire k d n).stages A s Q ↔ Q [] none ∧
      ∀ r : Sent ℚ, A ⟨.incrbyfloatExpire k d n, r⟩ →
        Q [⟨.incrbyfloatExpire k d n, r⟩] (some (r.toExcept, s)) :=
  ⟨fun h => ⟨h.1 rfl, h.2⟩, fun h => ⟨fun _ => h.1, h.2⟩⟩

theorem stages_time_iff {Q : List Ev → Option (Except Exc ℚ × σ) → Prop} :
    time.stages A s Q ↔ ∀ now : ℚ, A ⟨.time, now⟩ → Q [⟨.time, now⟩] (some (.ok now, s)) :=
  ⟨fun h => h.2, fun h => ⟨nofun, h⟩⟩

end Stages

end LlmGateway
