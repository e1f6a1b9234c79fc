import LlmGateway.Gateway.Redis
import Mathlib.Algebra.BigOperators.Fin

/-!
# Redis with expiry

The ledgers together with the time: a clock that never goes back, and for each ledger the instant at
which Redis deletes it. An increment that carries an `EXPIRE` sets that instant anew. A deleted
ledger reads as 0, and the next increment creates it again.
-/

namespace LlmGateway

open Coroutine

/-- The ledgers, when each of them expires, and the time. -/
structure TimedLedgers where
  clock : ℚ
  value : LedgerKey → ℚ
  expiry : LedgerKey → Option ℚ

namespace TimedLedgers

/-- The ledger has been deleted by the instant `now`. -/
def expired (L : TimedLedgers) (now : ℚ) (k : LedgerKey) : Bool :=
  (L.expiry k).any (· ≤ now)

/-- What the ledger reads at the instant `now`, if nothing touches it until then. -/
def read (L : TimedLedgers) (now : ℚ) (k : LedgerKey) : ℚ :=
  if L.expired now k then 0 else L.value k

/-- An increment at the instant `now`, after which the ledger expires at `deadline`. -/
def increase (L : TimedLedgers) (now : ℚ) (k : LedgerKey) (d : ℚ) (deadline : Option ℚ) :
    TimedLedgers where
  clock := now
  value := Function.update L.value k (L.read now k + d)
  expiry := Function.update L.expiry k deadline

/-- The state after an event at the instant `now`. Redis executes `MULTI`, `INCRBYFLOAT`, `EXPIRE`,
`EXEC` as one. -/
def after (L : TimedLedgers) (now : ℚ) : Ev → TimedLedgers
  | ⟨.incrbyfloatExpire k d seconds, r⟩ =>
    if Sent.applied r then L.increase now k d (some (now + seconds)) else { L with clock := now }
  | ⟨.incrbyfloat k d, r⟩ =>
    if Sent.applied r then
      L.increase now k d (if L.expired now k then none else L.expiry k)
    else { L with clock := now }
  | _ => { L with clock := now }

/-- A reply that tells the time or a total tells the one of the state it leaves. -/
def Tells (L : TimedLedgers) : Ev → Prop
  | ⟨.time, now⟩ => now = L.clock
  | ⟨.incrbyfloat k _, .ok total⟩ => total = L.value k
  | ⟨.incrbyfloatExpire k _ _, .ok total⟩ => total = L.value k
  | ⟨.get k, .ok total⟩ => total = L.read L.clock k
  | _ => True

end TimedLedgers

/-- Redis with expiry, when the environment gives only replies satisfying `A`. -/
def expiringRedis (A : Ev → Prop) : World gateway where
  State := TimedLedgers
  answers L e L' := A e ∧ ∃ now, L.clock ≤ now ∧ L' = L.after now e ∧ L'.Tells e

variable {A : Ev → Prop} {L L' : TimedLedgers} {e : Ev} {t : List Ev} {k : LedgerKey} {now now' : ℚ}

theorem expiringRedis_admits : ∀ L e L', (expiringRedis A).answers L e L' → A e :=
  fun _ _ _ h => h.1

namespace TimedLedgers

@[simp] theorem clock_after : (L.after now e).clock = now := by
  unfold after
  split <;> first | rfl | (split <;> rfl)

/-- The clock never goes back. -/
theorem clock_le_of_evolves {L L' : (expiringRedis A).State} (h : (expiringRedis A).Evolves L t L') :
    TimedLedgers.clock L ≤ TimedLedgers.clock L' := by
  induction h with
  | nil => exact le_rfl
  | cons h _ ih =>
    obtain ⟨-, now, hle, rfl, -⟩ := h
    exact hle.trans (clock_after.symm.trans_le ih)

/-- A time that was read is not after the clock. -/
theorem reading_le_of_evolves {L L' : (expiringRedis A).State}
    (h : (expiringRedis A).Evolves L t L')
    (hmem : (⟨.time, now⟩ : Ev) ∈ t) : now ≤ TimedLedgers.clock L' := by
  induction h with
  | nil => cases hmem
  | cons h ht ih =>
    rcases List.mem_cons.mp hmem with rfl | hmem
    · obtain ⟨-, now', -, rfl, htells⟩ := h
      exact htells.trans_le (clock_le_of_evolves ht)
    · exact ih hmem

/-- The event is an increment of the ledger `k`. -/
def Touches (k : LedgerKey) : Ev → Prop
  | ⟨.incrbyfloat k' _, _⟩ => k' = k
  | ⟨.incrbyfloatExpire k' _ _, _⟩ => k' = k
  | _ => False

theorem moved_of_not_touches (h : ¬ Touches k e) : moved k e = 0 := by
  obtain ⟨c, r⟩ := e
  cases c <;> simp_all [Touches, moved, asked]

theorem read_increase_of_ne {k' : LedgerKey} {d : ℚ} {deadline : Option ℚ} (h : k' ≠ k) :
    (L.increase now k' d deadline).read now' k = L.read now' k := by
  have hexpiry : (L.increase now k' d deadline).expiry k = L.expiry k :=
    Function.update_of_ne h.symm _ _
  have hvalue : (L.increase now k' d deadline).value k = L.value k :=
    Function.update_of_ne h.symm _ _
  rw [read, read, expired, expired, hexpiry, hvalue]

/-- Events that do not touch a ledger leave what it reads alone. -/
theorem read_after_of_not_touches (h : ¬ Touches k e) :
    (L.after now e).read now' k = L.read now' k := by
  unfold after
  split
  · split
    · exact read_increase_of_ne h
    · rfl
  · split
    · exact read_increase_of_ne h
    · rfl
  · rfl

/-- After an increment that has taken effect, the ledger reads its total for so many seconds. -/
theorem read_after_increment {d : ℚ} {n : ℕ} {r : Sent ℚ} (hr : r.applied = true)
    (hnow : now' < now + n) :
    (L.after now ⟨.incrbyfloatExpire k d n, r⟩).read now' k = L.read now k + d := by
  have hlive : ¬ now + n ≤ now' := not_le.mpr hnow
  simp [after, hr, read, expired, increase, hlive]

theorem read_after_lost {d : ℚ} {n : ℕ} {r : Sent ℚ} (hr : r.applied = false) :
    (L.after now ⟨.incrbyfloatExpire k d n, r⟩).read now' k = L.read now' k := by
  rw [after, if_neg (by simp [hr])]
  rfl

/-- The ledger reads what it stands at, or nothing. -/
theorem read_eq_or (L : TimedLedgers) (now : ℚ) (k : LedgerKey) :
    L.read now k = L.value k ∨ L.read now k = 0 := by
  unfold read
  split
  · exact .inr rfl
  · exact .inl rfl

theorem value_of_not_touches {L L' : (expiringRedis A).State}
    (h : (expiringRedis A).Evolves L t L') (ht : ∀ e ∈ t, ¬ Touches k e) :
    TimedLedgers.value L' k = TimedLedgers.value L k := by
  induction h with
  | nil => rfl
  | @cons L L₁ L₂ e t h _ ih =>
    obtain ⟨-, now, -, rfl, -⟩ := h
    rw [ih fun e he => ht e (.tail _ he)]
    have he := ht e (.head _)
    unfold after
    split
    · split
      · exact Function.update_of_ne (Ne.symm he) _ _
      · rfl
    · split
      · exact Function.update_of_ne (Ne.symm he) _ _
      · rfl
    · rfl

theorem read_of_not_touches {L L' : (expiringRedis A).State}
    (h : (expiringRedis A).Evolves L t L') (ht : ∀ e ∈ t, ¬ Touches k e) :
    TimedLedgers.read L' now k = TimedLedgers.read L now k := by
  induction h with
  | nil => rfl
  | cons h _ ih =>
    obtain ⟨-, _, -, rfl, -⟩ := h
    rw [ih fun e he => ht e (.tail _ he)]
    exact read_after_of_not_touches (ht _ (.head _))

theorem not_touches_of_sync (h : suspends e.cmd = false) : ¬ Touches k e := by
  obtain ⟨c, r⟩ := e
  cases c <;> first | exact id | cases h

/-- After a claim and events that leave the ledgers alone, the ledger stands at the total the claim
was told. -/
theorem value_of_claim {d total : ℚ} {n : ℕ}
    (h : (expiringRedis A).Evolves L (⟨.incrbyfloatExpire k d n, .ok total⟩ :: t) L')
    (ht : ∀ e ∈ t, ¬ Touches k e) : L'.value k = total := by
  obtain ⟨L₁, ⟨-, now, -, rfl, htells⟩, hrest⟩ := World.Evolves.cons_iff.mp h
  rw [value_of_not_touches hrest ht]
  exact htells.symm

/-! ## An environment in which time passes -/

/-- Answer every command a second later, the ledger commands from the ledgers, the clock by the time
and all others by `other`. -/
def answer (other : (c : Cmd) → Reply c) (L : TimedLedgers) : (c : Cmd) → Reply c × TimedLedgers
  | .time => (L.clock + 1, L.after (L.clock + 1) ⟨.time, L.clock + 1⟩)
  | .get k => (.ok (L.read (L.clock + 1) k), L.after (L.clock + 1) ⟨.get k, .ok 0⟩)
  | .incrbyfloat k d =>
    (.ok (L.read (L.clock + 1) k + d), L.after (L.clock + 1) ⟨.incrbyfloat k d, .ok 0⟩)
  | .incrbyfloatExpire k d n =>
    (.ok (L.read (L.clock + 1) k + d), L.after (L.clock + 1) ⟨.incrbyfloatExpire k d n, .ok 0⟩)
  | c => (other c, L.after (L.clock + 1) ⟨c, other c⟩)

theorem expiringRedis_answer {other : (c : Cmd) → Reply c}
    (hA : ∀ L c, A ⟨c, (answer other L c).1⟩) (L : TimedLedgers) (c : Cmd) :
    (expiringRedis A).answers L ⟨c, (answer other L c).1⟩ (answer other L c).2 := by
  refine ⟨hA L c, L.clock + 1, by simp, ?_, ?_⟩
  · cases c <;> rfl
  · cases c <;> first | rfl | trivial | simp [answer, Tells, after, increase, Sent.applied]

end TimedLedgers

end LlmGateway
