import LlmGateway.Gateway.Observe
import Mathlib.Logic.Function.Basic

/-!
# Redis as the shared state

The world a pool of requests runs in: the two ledgers, moved by every increment that takes effect,
and reporting the totals they stand at. `A` says which replies the environment may give, so it is
where a result states which failures it allows.
-/

namespace LlmGateway

open Coroutine

/-- The values of all ledgers. -/
abbrev Ledgers : Type := LedgerKey → ℚ

/-- A reply that carries a total carries the one the ledger stands at. -/
def Reports (L : Ledgers) : Ev → Prop
  | ⟨.incrbyfloat k _, .ok total⟩ => total = L k
  | ⟨.incrbyfloatExpire k _ _, .ok total⟩ => total = L k
  | ⟨.get k, .ok total⟩ => total = L k
  | _ => True

/-- Redis, when the environment gives only replies satisfying `A`. -/
def redis (A : Ev → Prop) : World gateway where
  State := Ledgers
  answers L e L' := A e ∧ (∀ k, L' k = L k + moved k e) ∧ Reports L' e

variable {A : Ev → Prop} {L L' : Ledgers} {t : List Ev}

theorem redis_admits : ∀ L e L', (redis A).answers L e L' → A e := fun _ _ _ h => h.1

theorem redis_moves (k : LedgerKey) : ∀ L e L', (redis A).answers L e L' →
    L' k = L k + moved k e := fun _ _ _ h => h.2.1 k

/-- A ledger has moved by what the events moved it by. -/
theorem evolves_moved (h : (redis A).Evolves L t L') (k : LedgerKey) :
    L' k = L k + tally (moved k) t :=
  World.Evolves.tally (W := redis A) (redis_moves k) h

/-- After a claim and events that leave the ledgers alone, the ledger stands at the total the claim
was told. -/
theorem evolves_claim {k : LedgerKey} {d total : ℚ}
    (h : (redis A).Evolves L (⟨.incrbyfloat k d, .ok total⟩ :: t) L')
    (ht : ∀ e ∈ t, Still e) : L' k = total := by
  obtain ⟨L₁, he, hrest⟩ := World.Evolves.cons_iff.mp h
  rw [evolves_moved hrest, tally_moved_of_still ht, add_zero]
  exact he.2.2.symm

/-- Events that leave the ledgers alone leave the state what it is. -/
theorem evolves_still (h : (redis A).Evolves L t L') (ht : ∀ e ∈ t, ∀ k, moved k e = 0) :
    L' = L := by
  funext k
  rw [evolves_moved h, tally_eq_zero fun e he => ht e he k, add_zero]

/-- An answered increment tells the total it leaves. -/
theorem evolves_incrbyfloat {k : LedgerKey} {d total : ℚ}
    (h : (redis A).Evolves L (⟨.incrbyfloat k d, .ok total⟩ :: t) L') :
    total = L k + d ∧ (redis A).Evolves (Function.update L k (L k + d)) t L' := by
  obtain ⟨L₁, he, hrest⟩ := World.Evolves.cons_iff.mp h
  obtain rfl : L₁ = Function.update L k (L k + d) := by
    funext k'
    rw [he.2.1]
    by_cases hk : k' = k
    · subst hk
      simp [moved, asked, landed, Sent.applied]
    · simp [moved, asked, landed, hk, Ne.symm hk]
  exact ⟨he.2.2.trans (Function.update_self _ _ _), hrest⟩

theorem evolves_incrbyfloatExpire {k : LedgerKey} {d total : ℚ} {n : ℕ}
    (h : (redis A).Evolves L (⟨.incrbyfloatExpire k d n, .ok total⟩ :: t) L') : total = L k + d := by
  obtain ⟨L₁, he, -⟩ := World.Evolves.cons_iff.mp h
  have hmoved := he.2.1 k
  rw [moved_incrbyfloatExpire_ok, if_pos rfl] at hmoved
  exact he.2.2.trans hmoved

/-! ## An environment in which nothing fails -/

/-- A success for every command that is not one of the ledgers'. -/
def calm : (c : Cmd) → Reply c
  | .time => (0 : ℚ)
  | .pricing => .ok ()
  | .metric _ => .ok ()
  | .log _ => ()
  | .get _ => .ok 0
  | .incrbyfloat _ _ => .ok 0
  | .incrbyfloatExpire _ _ _ => .ok 0
  | .openSession => .ok ()
  | .selectTeam _ => .ok none
  | .commitAudit _ => .ok ()
  | .closeSession => .ok ()
  | .sleep => .ok ()
  | .allowRequest _ => true
  | .recordSuccess _ => ()
  | .recordFailure _ => ()
  | .circuitState _ => .closed
  | .providerChat _ _ _ _ => .ok ⟨.str "", .int 0, .int 0⟩
  | .providerStream _ _ _ _ => .empty
  | .anext _ => .ok ()
  | .start => true
  | .yield _ => .ok ()
  | .yieldChunk _ => .ok ()

/-- Answer the ledger commands from the ledgers and all others by `other`. -/
def answer (other : (c : Cmd) → Reply c) (L : Ledgers) : (c : Cmd) → Reply c × Ledgers
  | .incrbyfloat k d => (.ok (L k + d), Function.update L k (L k + d))
  | .incrbyfloatExpire k d _ => (.ok (L k + d), Function.update L k (L k + d))
  | .get k => (.ok (L k), L)
  | c => (other c, L)

theorem redis_answer {other : (c : Cmd) → Reply c}
    (hA : ∀ L c, A ⟨c, (answer other L c).1⟩) (L : Ledgers) (c : Cmd) :
    (redis A).answers L ⟨c, (answer other L c).1⟩ (answer other L c).2 := by
  refine ⟨hA L c, fun k => ?_, ?_⟩
  · cases c with
    | incrbyfloat k' d | incrbyfloatExpire k' d _ =>
      by_cases h : k' = k
      · subst h
        simp [answer, moved, asked, landed, Sent.applied]
      · simp [answer, moved, asked, landed, Sent.applied, h, Ne.symm h]
    | _ => simp [answer, moved, asked, landed]
  · cases c <;> simp [answer, Reports]

theorem healthy_calm (c : Cmd) : Healthy ⟨c, calm c⟩ := by
  cases c with
  | metric | pricing => rfl
  | _ => trivial

section Answer

variable {other : (c : Cmd) → Reply c} (L : Ledgers) (c : Cmd)

theorem raised_answer : raised ⟨c, (answer other L c).1⟩ = none := by cases c <;> rfl

theorem healthy_answer (h : ∀ c, Healthy ⟨c, other c⟩) : Healthy ⟨c, (answer other L c).1⟩ := by
  cases c with
  | metric | pricing => exact h _
  | _ => trivial

theorem sound_answer (h : ∀ c, Healthy ⟨c, other c⟩) : Sound ⟨c, (answer other L c).1⟩ := by
  refine ⟨healthy_answer L c h, ?_⟩
  rw [failed, raised_answer]
  rfl

end Answer

end LlmGateway
