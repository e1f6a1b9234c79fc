import LlmGateway.Coroutine.Coro
import Mathlib.Algebra.BigOperators.Group.Finset.Basic
import Mathlib.Algebra.Order.Monoid.Defs
import Mathlib.Data.Fintype.Basic
import Mathlib.Logic.Relation

/-!
# Interleaved programs over a shared state

A pool runs one program for each index over one shared state, on an event loop: a program keeps
control until it suspends. One step of the pool answers the command a program is suspended at and
runs it up to its next suspension.

Each program keeps the trace it has run through. The two facts the rest rests on are that this trace
is a run of the program (`Reaches.run`), and that a quantity every answered command moves by a known
amount has moved by the tallies of all the traces, whatever the order was (`Reaches.tally`).
-/

namespace Coroutine

open scoped BigOperators

variable {I : Interface} {α ι : Type}

/-- Who answers the commands: a shared state, and what answering one does to it. -/
structure World (I : Interface) where
  State : Type
  answers : State → Event I → State → Prop

/-- The shared state after a list of events. -/
inductive World.Evolves (W : World I) : W.State → List (Event I) → W.State → Prop
  | nil (w : W.State) : Evolves W w [] w
  | cons {w w' w'' : W.State} {e : Event I} {t : List (Event I)} (h : W.answers w e w')
      (ht : Evolves W w' t w'') : Evolves W w (e :: t) w''

theorem World.Evolves.nil_iff {W : World I} {w w' : W.State} : W.Evolves w [] w' ↔ w' = w := by
  constructor
  · rintro ⟨⟩
    rfl
  · rintro rfl
    exact .nil _

theorem World.Evolves.cons_iff {W : World I} {w w' : W.State} {e : Event I} {t : List (Event I)} :
    W.Evolves w (e :: t) w' ↔ ∃ v, W.answers w e v ∧ W.Evolves v t w' := by
  constructor
  · rintro ⟨⟩
    exact ⟨_, ‹_›, ‹_›⟩
  · rintro ⟨v, he, ht⟩
    exact .cons he ht

theorem World.Evolves.append_iff {W : World I} {w w' : W.State} {t t' : List (Event I)} :
    W.Evolves w (t ++ t') w' ↔ ∃ v, W.Evolves w t v ∧ W.Evolves v t' w' := by
  induction t generalizing w with
  | nil => simp [nil_iff]
  | cons e t ih =>
    simp only [List.cons_append, cons_iff, ih]
    constructor
    · rintro ⟨v, he, u, ht, ht'⟩
      exact ⟨u, ⟨v, he, ht⟩, ht'⟩
    · rintro ⟨u, ⟨v, he, ht⟩, ht'⟩
      exact ⟨v, he, u, ht, ht'⟩

/-- An observation every answer moves by `f` has moved by the tally of the events. -/
theorem World.Evolves.tally {W : World I} {M : Type} [AddMonoid M] {g : W.State → M}
    {f : Event I → M} (hf : ∀ w e w', W.answers w e w' → g w' = g w + f e) {w w' : W.State}
    {t : List (Event I)} (h : W.Evolves w t w') : g w' = g w + Coroutine.tally f t := by
  induction h with
  | nil => simp
  | cons he _ ih => rw [ih, hf _ _ _ he, tally_cons, add_assoc]

/-- What every answer meets, every event meets. -/
theorem World.Evolves.forall_mem {W : World I} {A : Event I → Prop}
    (hA : ∀ w e w', W.answers w e w' → A e) {w w' : W.State} {t : List (Event I)}
    (h : W.Evolves w t w') : ∀ e ∈ t, A e := by
  induction h with
  | nil => simp
  | cons he _ ih => exact List.forall_mem_cons.mpr ⟨hA _ _ _ he, ih⟩

/-! ## Slices -/

/-- Finished, or about to suspend. -/
def Prog.Quiescent : Prog I α → Prop
  | .ret _ => True
  | .call c _ => I.suspends c = true

/-- The events of a program from a point where it has control up to its next suspension. -/
inductive Burst : Prog I α → List (Event I) → Prog I α → Prop
  | stop {q : Prog I α} (h : q.Quiescent) : Burst q [] q
  | step {c : I.Cmd} {k : I.Reply c → Prog I α} (hc : I.suspends c = false) (r : I.Reply c)
      {t : List (Event I)} {q : Prog I α} (h : Burst (k r) t q) : Burst (.call c k) (⟨c, r⟩ :: t) q

/-- One turn of a program on the event loop: it starts, or the command it waits for is answered, and
it runs to its next suspension. -/
inductive Slice : Prog I α → List (Event I) → Prog I α → Prop
  | start {c : I.Cmd} {k : I.Reply c → Prog I α} (hc : I.suspends c = false) {t : List (Event I)}
      {q : Prog I α} (h : Burst (.call c k) t q) : Slice (.call c k) t q
  | resume {c : I.Cmd} {k : I.Reply c → Prog I α} (hc : I.suspends c = true) (r : I.Reply c)
      {t : List (Event I)} {q : Prog I α} (h : Burst (k r) t q) : Slice (.call c k) (⟨c, r⟩ :: t) q

theorem Burst.run {p q : Prog I α} {t : List (Event I)} (h : Burst p t q) : Prog.Run p t q := by
  induction h with
  | stop _ => exact .nil _
  | step _ r _ ih => exact .cons r ih

theorem Slice.run {p q : Prog I α} {t : List (Event I)} (h : Slice p t q) : Prog.Run p t q := by
  cases h with
  | start _ h => exact h.run
  | resume _ r h => exact .cons r h.run

/-! ## Pools -/

/-- A shared state, the programs as they stand, and the trace each has run through. -/
structure Pool (W : World I) (ι α : Type) where
  world : W.State
  prog : ι → Prog I α
  hist : ι → List (Event I)

namespace Pool

variable {W : World I}

/-- Nothing has run yet. -/
def start (w : W.State) (p : ι → Prog I α) : Pool W ι α := ⟨w, p, fun _ => []⟩

variable [DecidableEq ι]

/-- The pool after program `i` ran through `t` to `q`, leaving the shared state `w`. -/
def turn (P : Pool W ι α) (i : ι) (t : List (Event I)) (q : Prog I α) (w : W.State) : Pool W ι α :=
  ⟨w, Function.update P.prog i q, Function.update P.hist i (P.hist i ++ t)⟩

/-- One turn of one program. -/
inductive Step : Pool W ι α → Pool W ι α → Prop
  | turn {P : Pool W ι α} {i : ι} {t : List (Event I)} {q : Prog I α} {w : W.State}
      (hs : Slice (P.prog i) t q) (hw : W.Evolves P.world t w) : Step P (P.turn i t q w)

/-- `P'` is reached from `P` by turns in some order. -/
abbrev Reaches (P P' : Pool W ι α) : Prop := Relation.ReflTransGen Step P P'

/-- One turn of a program that `C` lets take it. -/
inductive StepWhen (C : Pool W ι α → ι → Prop) : Pool W ι α → Pool W ι α → Prop
  | turn {P : Pool W ι α} {i : ι} {t : List (Event I)} {q : Prog I α} {w : W.State} (hC : C P i)
      (hs : Slice (P.prog i) t q) (hw : W.Evolves P.world t w) : StepWhen C P (P.turn i t q w)

/-- `P'` is reached from `P` by turns that `C` allows. -/
abbrev ReachesWhen (C : Pool W ι α → ι → Prop) (P P' : Pool W ι α) : Prop :=
  Relation.ReflTransGen (StepWhen C) P P'

variable {w₀ : W.State} {p : ι → Prog I α} {P : Pool W ι α}

/-- What holds at the start and survives every turn holds in every reachable pool. -/
theorem Reaches.invariant {J : Pool W ι α → Prop} (h : Reaches (start w₀ p) P)
    (hstart : J (start w₀ p))
    (hturn : ∀ (P : Pool W ι α) i t q w, J P → Slice (P.prog i) t q → W.Evolves P.world t w →
      J (P.turn i t q w)) : J P := by
  induction h with
  | refl => exact hstart
  | tail _ hs ih =>
    obtain ⟨hs, hw⟩ := hs
    exact hturn _ _ _ _ _ ih hs hw

/-- The rule of invariants, from any pool on. -/
theorem Reaches.preserved {J : Pool W ι α → Prop} {P' : Pool W ι α} (h : Reaches P P') (hP : J P)
    (hturn : ∀ (P : Pool W ι α) i t q w, J P → Slice (P.prog i) t q → W.Evolves P.world t w →
      J (P.turn i t q w)) : J P' := by
  induction h with
  | refl => exact hP
  | tail _ hs ih =>
    obtain ⟨hs, hw⟩ := hs
    exact hturn _ _ _ _ _ ih hs hw

theorem ReachesWhen.reaches {C : Pool W ι α → ι → Prop} {P P' : Pool W ι α}
    (h : ReachesWhen C P P') : Reaches P P' := by
  induction h with
  | refl => exact .refl
  | tail _ hs ih =>
    obtain ⟨-, hs, hw⟩ := hs
    exact ih.tail (.turn hs hw)

/-- The rule of invariants, with what allowed the turn and with how its pool was reached. -/
theorem ReachesWhen.invariant {C : Pool W ι α → ι → Prop} {J : Pool W ι α → Prop}
    (h : ReachesWhen C (start w₀ p) P) (hstart : J (start w₀ p))
    (hturn : ∀ (P : Pool W ι α) i t q w, Reaches (start w₀ p) P → J P → C P i →
      Slice (P.prog i) t q → W.Evolves P.world t w → J (P.turn i t q w)) : J P := by
  induction h with
  | refl => exact hstart
  | tail h hs ih =>
    obtain ⟨hC, hs, hw⟩ := hs
    exact hturn _ _ _ _ _ (ReachesWhen.reaches h) ih hC hs hw

/-- The trace of a program is a run of it, up to where it stands. -/
theorem Reaches.run (h : Reaches (start w₀ p) P) (i : ι) :
    Prog.Run (p i) (P.hist i) (P.prog i) := by
  refine h.invariant (J := fun P => ∀ i, Prog.Run (p i) (P.hist i) (P.prog i))
    (fun i => .nil _) ?_ i
  intro P j t q w ih hs _ i
  by_cases hij : i = j
  · subst hij
    simpa [turn] using (ih i).trans hs.run
  · simpa [turn, hij] using ih i

/-- A condition every answer meets is met by every event of every trace. -/
theorem Reaches.forall_hist {A : Event I → Prop} (h : Reaches (start w₀ p) P)
    (hA : ∀ w e w', W.answers w e w' → A e) (i : ι) : ∀ e ∈ P.hist i, A e := by
  refine h.invariant (J := fun P => ∀ i, ∀ e ∈ P.hist i, A e) (by simp [start]) ?_ i
  intro P j t q w ih _ hw i
  by_cases hij : i = j
  · subst hij
    intro e he
    rcases List.mem_append.mp (by simpa [turn] using he) with he | he
    · exact ih i e he
    · exact hw.forall_mem hA e he
  · simpa [turn, hij] using ih i

/-- A weakest precondition of a program holds of its trace once it has finished. -/
theorem Reaches.wp_apply {A : Event I → Prop} {Q : List (Event I) → α → Prop} {i : ι} {a : α}
    (h : Reaches (start w₀ p) P) (hA : ∀ w e w', W.answers w e w' → A e) (hwp : (p i).wp A Q)
    (ha : P.prog i = .ret a) : Q (P.hist i) a := by
  have hrun := h.run i
  rw [ha] at hrun
  exact Prog.wp_iff.mp hwp _ _ hrun (h.forall_hist hA i)

/-- A turn adds the tally of its events to those of all the traces. -/
theorem sum_tally_turn {M : Type} [AddCommMonoid M] [Fintype ι] (f : Event I → M) (i : ι)
    (t : List (Event I)) (q : Prog I α) (w : W.State) :
    ∑ j, Coroutine.tally f ((P.turn i t q w).hist j)
      = (∑ j, Coroutine.tally f (P.hist j)) + Coroutine.tally f t := by
  show ∑ j, Coroutine.tally f (Function.update P.hist i (P.hist i ++ t) j) = _
  rw [← Finset.add_sum_erase _ _ (Finset.mem_univ i),
    ← Finset.add_sum_erase (a := i) _ (fun j => Coroutine.tally f (P.hist j)) (Finset.mem_univ i),
    Function.update_self, tally_append, add_right_comm]
  refine congrArg (· + _) (congrArg _ (Finset.sum_congr rfl fun j hj => ?_))
  rw [Function.update_of_ne (Finset.ne_of_mem_erase hj)]

/-- An observation every answer moves by `f` has moved by the tallies of all the traces. -/
theorem Reaches.tally {M : Type} [AddCommMonoid M] [Fintype ι] {g : W.State → M} {f : Event I → M}
    (h : Reaches (start w₀ p) P) (hf : ∀ w e w', W.answers w e w' → g w' = g w + f e) :
    g P.world = g w₀ + ∑ i, tally f (P.hist i) := by
  refine h.invariant (J := fun P => g P.world = g w₀ + ∑ i, Coroutine.tally f (P.hist i))
    (by simp [start]) ?_
  intro P j t q w ih _ hw
  rw [sum_tally_turn]
  show g w = _
  rw [hw.tally hf, ih, add_assoc]

/-- An observation every answer raises by at least `f` has risen by at least what the tallies of all
the traces have. -/
theorem Reaches.tally_le {M : Type} [AddCommMonoid M] [PartialOrder M] [IsOrderedAddMonoid M]
    [Fintype ι] {g : W.State → M} {f : Event I → M} {P' : Pool W ι α} (h : Reaches P P')
    (hf : ∀ w e w', W.answers w e w' → g w + f e ≤ g w') :
    g P.world + ∑ i, Coroutine.tally f (P'.hist i) ≤
      g P'.world + ∑ i, Coroutine.tally f (P.hist i) := by
  have hevolves : ∀ {w t w'}, W.Evolves w t w' → g w + Coroutine.tally f t ≤ g w' := by
    intro w t w' h
    induction h with
    | nil w => simp
    | cons he _ ih =>
      rw [tally_cons, ← add_assoc]
      exact (add_le_add_left (hf _ _ _ he) _).trans ih
  refine h.preserved (J := fun Q => g P.world + ∑ i, Coroutine.tally f (Q.hist i) ≤
    g Q.world + ∑ i, Coroutine.tally f (P.hist i)) le_rfl ?_
  intro Q j t q w ih _ hw
  rw [sum_tally_turn, ← add_assoc]
  calc
    _ ≤ g Q.world + ∑ i, Coroutine.tally f (P.hist i) + Coroutine.tally f t := add_le_add_left ih _
    _ = g Q.world + Coroutine.tally f t + ∑ i, Coroutine.tally f (P.hist i) := add_right_comm _ _ _
    _ ≤ g w + ∑ i, Coroutine.tally f (P.hist i) := add_le_add_left (hevolves hw) _

/-- Traces only grow. -/
theorem Reaches.hist_extends {P' : Pool W ι α} (h : Reaches P P') (i : ι) :
    P.hist i <+: P'.hist i := by
  refine h.preserved (J := fun Q => P.hist i <+: Q.hist i) (List.prefix_refl _) ?_
  intro Q j t q w ih _ _
  by_cases hij : i = j
  · subst hij
    exact ih.trans (by simp [turn])
  · simpa [turn, hij] using ih

/-! ## Executing a schedule -/

/-- The programs of a small pool are written as numerals. -/
instance neZeroOne : @NeZero ℕ Zero.ofOfNat0 1 := ⟨Nat.succ_ne_zero 0⟩

@[inherit_doc neZeroOne]
instance neZeroTwo : @NeZero ℕ Zero.ofOfNat0 2 := ⟨Nat.succ_ne_zero 1⟩

end Pool

/-- Answer the commands of `p` by the handler `env` up to the next suspension. -/
def Prog.burst {σ : Type} (env : σ → (c : I.Cmd) → I.Reply c × σ) :
    Prog I α → σ → List (Event I) × Prog I α × σ
  | .ret a, s => ([], .ret a, s)
  | .call c k, s =>
    if I.suspends c then ([], .call c k, s)
    else
      let o := burst env (k (env s c).1) (env s c).2
      (⟨c, (env s c).1⟩ :: o.1, o.2)

namespace Pool

variable {W : World I} {env : W.State → (c : I.Cmd) → I.Reply c × W.State}

/-- Driving a program by a handler the world agrees with is a way for the world to evolve. -/
theorem evolves_drive (henv : ∀ w c, W.answers w ⟨c, (env w c).1⟩ (env w c).2) (p : Prog I α)
    (w : W.State) : W.Evolves w (p.drive env w).1 (p.drive env w).2.2 := by
  induction p generalizing w with
  | ret a => exact .nil _
  | call c k ih => exact .cons (henv w c) (ih _ _)

theorem burst_spec (henv : ∀ w c, W.answers w ⟨c, (env w c).1⟩ (env w c).2) (p : Prog I α)
    (w : W.State) :
    Burst p (p.burst env w).1 (p.burst env w).2.1 ∧
      W.Evolves w (p.burst env w).1 (p.burst env w).2.2 := by
  induction p generalizing w with
  | ret a => exact ⟨.stop trivial, .nil _⟩
  | call c k ih =>
    by_cases hc : I.suspends c = true
    · simp only [Prog.burst, if_pos hc]
      exact ⟨.stop hc, .nil _⟩
    · simp only [Prog.burst, if_neg hc]
      obtain ⟨hb, hw⟩ := ih (env w c).1 (env w c).2
      exact ⟨.step (by simpa using hc) _ hb, .cons (henv w c) hw⟩

variable [DecidableEq ι]

/-- The turn program `i` takes when `env` answers. -/
def advance (env : W.State → (c : I.Cmd) → I.Reply c × W.State) (P : Pool W ι α) (i : ι) :
    Pool W ι α :=
  match P.prog i with
  | .ret _ => P
  | .call c k =>
    let o := (k (env P.world c).1).burst env (env P.world c).2
    P.turn i (⟨c, (env P.world c).1⟩ :: o.1) o.2.1 o.2.2

/-- The pool after turns of the programs listed. -/
def schedule (env : W.State → (c : I.Cmd) → I.Reply c × W.State) (P : Pool W ι α) (l : List ι) :
    Pool W ι α :=
  l.foldl (advance env) P

theorem reachesWhen_advance (henv : ∀ w c, W.answers w ⟨c, (env w c).1⟩ (env w c).2)
    {C : Pool W ι α → ι → Prop} (P : Pool W ι α) (i : ι) (hC : C P i) :
    P.ReachesWhen C (P.advance env i) := by
  unfold advance
  split
  · exact .refl
  · next c k hp =>
    obtain ⟨hb, hw⟩ := burst_spec henv (k (env P.world c).1) (env P.world c).2
    refine .single (.turn hC ?_ (.cons (henv _ c) hw))
    rw [hp]
    by_cases hc : I.suspends c = true
    · exact .resume hc _ hb
    · have hc' : I.suspends c = false := by simpa using hc
      exact .start hc' (.step hc' _ hb)

theorem reaches_advance (henv : ∀ w c, W.answers w ⟨c, (env w c).1⟩ (env w c).2)
    (P : Pool W ι α) (i : ι) : P.Reaches (P.advance env i) :=
  (reachesWhen_advance (C := fun _ _ => True) henv P i trivial).reaches

/-- Executing a schedule is one way to run a pool. -/
theorem reaches_schedule (henv : ∀ w c, W.answers w ⟨c, (env w c).1⟩ (env w c).2)
    (P : Pool W ι α) (l : List ι) : P.Reaches (P.schedule env l) := by
  induction l generalizing P with
  | nil => exact .refl
  | cons i l ih => exact (reaches_advance henv P i).trans (ih _)

end Pool

end Coroutine
