import LlmGateway.Coroutine.Pool

/-!
# Where a program can be suspended

`Prog.wp` speaks of complete runs. An invariant of a pool has to hold between turns, when most
programs are suspended half way. `Prog.stages A p Q` says that `Q` holds at every point where an
admitted run of `p` is suspended or has ended: `Q t none` at a suspension, `Q t (some a)` at the
end.

The rules are those of `wp` with one more case.
-/

namespace Coroutine

variable {I : Interface} {α β ι ε σ τ : Type}

namespace Prog

/-- The value of a finished program. -/
def value? : Prog I α → Option α
  | .ret a => some a
  | .call _ _ => none

/-- `Q` holds at every suspension and at the end of every admitted run. -/
def stages (A : Event I → Prop) : Prog I α → (List (Event I) → Option α → Prop) → Prop
  | .ret a, Q => Q [] (some a)
  | .call c k, Q => (I.suspends c = true → Q [] none) ∧
    ∀ r, A ⟨c, r⟩ → (k r).stages A fun t o => Q (⟨c, r⟩ :: t) o

variable {A : Event I → Prop}

theorem stages_iff {p : Prog I α} {Q : List (Event I) → Option α → Prop} :
    p.stages A Q ↔
      ∀ t q, Run p t q → q.Quiescent → (∀ e ∈ t, A e) → Q t q.value? := by
  induction p generalizing Q with
  | ret a =>
    simp only [stages, run_ret_iff]
    constructor
    · rintro h t q ⟨rfl, rfl⟩ - -
      exact h
    · intro h
      exact h [] (.ret a) ⟨rfl, rfl⟩ trivial (by simp)
  | call c k ih =>
    simp only [stages, ih]
    constructor
    · rintro ⟨hsusp, hrest⟩ t q hrun hq hA
      cases hrun with
      | nil => exact hsusp hq
      | cons r hrun =>
        rw [List.forall_mem_cons] at hA
        exact hrest r hA.1 _ q hrun hq hA.2
    · intro h
      refine ⟨fun hc => h [] (.call c k) (.nil _) hc (by simp), fun r hr t q hrun hq hA => ?_⟩
      exact h (⟨c, r⟩ :: t) q (.cons r hrun) hq (List.forall_mem_cons.mpr ⟨hr, hA⟩)

theorem stages_mono {p : Prog I α} {Q Q' : List (Event I) → Option α → Prop} (h : p.stages A Q)
    (hQ : ∀ t o, (∀ e ∈ t, A e) → Q t o → Q' t o) : p.stages A Q' := by
  rw [stages_iff] at h ⊢
  exact fun t q hrun hq hA => hQ t _ hA (h t q hrun hq hA)

/-- Fewer admitted answers leave fewer stages to check. -/
theorem stages_anti {B : Event I → Prop} {p : Prog I α} {Q : List (Event I) → Option α → Prop}
    (h : p.stages A Q) (hBA : ∀ e, B e → A e) : p.stages B Q := by
  rw [stages_iff] at h ⊢
  exact fun t q hrun hq hB => h t q hrun hq fun e he => hBA e (hB e he)

theorem stages_bind {p : Prog I α} {f : α → Prog I β} {Q : List (Event I) → Option β → Prop} :
    (p.bind f).stages A Q ↔ p.stages A fun t o =>
      match o with
      | none => Q t none
      | some a => (f a).stages A fun t' o' => Q (t ++ t') o' := by
  induction p generalizing Q with
  | ret a => exact Iff.rfl
  | call c k ih => simp only [bind, stages, ih, List.cons_append]

end Prog

/-! ## Pools -/

theorem Burst.quiescent {p q : Prog I α} {t : List (Event I)} (h : Burst p t q) : q.Quiescent := by
  induction h with
  | stop h => exact h
  | step _ _ _ ih => exact ih

theorem Slice.quiescent {p q : Prog I α} {t : List (Event I)} (h : Slice p t q) : q.Quiescent := by
  cases h with
  | start _ h => exact h.quiescent
  | resume _ _ h => exact h.quiescent

theorem Burst.sync {p q : Prog I α} {t : List (Event I)} (h : Burst p t q) :
    ∀ e ∈ t, I.suspends e.cmd = false := by
  induction h with
  | stop _ => simp
  | step hc _ _ ih => exact List.forall_mem_cons.mpr ⟨hc, ih⟩

/-- Only the first event of a slice can be one the program waited for. -/
theorem Slice.sync_tail {p q : Prog I α} {t : List (Event I)} (h : Slice p t q) :
    ∃ e t', t = e :: t' ∧ ∀ e ∈ t', I.suspends e.cmd = false := by
  cases h with
  | start hc h =>
    cases h with
    | stop h => exact absurd (hc.symm.trans h) (by simp)
    | step _ r h => exact ⟨_, _, rfl, h.sync⟩
  | resume _ r h => exact ⟨_, _, rfl, h.sync⟩

/-- A program that takes a turn has not finished. -/
theorem Slice.value?_eq_none {p q : Prog I α} {t : List (Event I)} (h : Slice p t q) :
    p.value? = none := by
  cases h with
  | start | resume => rfl

/-- Where every command suspends, a turn answers the one that is waited for. -/
theorem Slice.eq_call {p q : Prog I α} {t : List (Event I)} (hI : ∀ c, I.suspends c = true)
    (h : Slice p t q) : ∃ c k r, p = .call c k ∧ t = [⟨c, r⟩] ∧ q = k r := by
  have hburst {p q : Prog I α} {t : List (Event I)} (h : Burst p t q) : t = [] ∧ q = p := by
    cases h with
    | stop _ => exact ⟨rfl, rfl⟩
    | step hc _ _ => exact absurd (hc.symm.trans (hI _)) Bool.false_ne_true
  cases h with
  | start hc _ => exact absurd (hc.symm.trans (hI _)) Bool.false_ne_true
  | resume _ r h =>
    obtain ⟨rfl, rfl⟩ := hburst h
    exact ⟨_, _, r, rfl, rfl, rfl⟩

namespace Pool

variable {W : World I} [DecidableEq ι] {w₀ : W.State} {p : ι → Prog I α} {P : Pool W ι α}

/-- Between turns every program has not started yet, is suspended, or has ended. -/
theorem Reaches.started (h : Reaches (start w₀ p) P) (i : ι) :
    (P.hist i = [] ∧ P.prog i = p i) ∨ (P.prog i).Quiescent := by
  refine h.invariant
    (J := fun P => ∀ i, (P.hist i = [] ∧ P.prog i = p i) ∨ (P.prog i).Quiescent)
    (fun i => .inl ⟨rfl, rfl⟩) ?_ i
  intro P j t q w ih hs _ i
  by_cases hij : i = j
  · subst hij
    exact .inr (by simpa [turn] using hs.quiescent)
  · simpa [turn, hij] using ih i

/-- What `stages` says about a program holds between the turns of a pool. -/
theorem Reaches.stages {A : Event I → Prop} {Q : List (Event I) → Option α → Prop} {i : ι}
    (h : Reaches (start w₀ p) P) (hA : ∀ w e w', W.answers w e w' → A e)
    (hst : (p i).stages A Q) (h0 : Q [] none) : Q (P.hist i) (P.prog i).value? := by
  have hall := Prog.stages_iff.mp hst _ _ (h.run i)
  rcases h.started i with ⟨hnil, hp⟩ | hq
  · rw [hnil, hp]
    cases hpi : p i with
    | ret a =>
      rw [hpi] at hst
      exact hst
    | call c k => exact h0
  · exact hall hq (h.forall_hist hA i)

end Pool

/-! ## Function bodies -/

namespace Coro

/-- `Q` holds at every suspension and at the end of every admitted run of `m` from `s`. -/
def stages (A : Event I → Prop) (m : Coro I ε σ α) (s : σ)
    (Q : List (Event I) → Option (Except ε α × σ) → Prop) : Prop :=
  (m s).stages A Q

variable {A : Event I → Prop} {s : σ}

theorem stages_mono {m : Coro I ε σ α} {Q Q' : List (Event I) → Option (Except ε α × σ) → Prop}
    (h : m.stages A s Q) (hQ : ∀ t o, (∀ e ∈ t, A e) → Q t o → Q' t o) : m.stages A s Q' :=
  Prog.stages_mono h hQ

@[simp] theorem stages_pure {a : α} {Q : List (Event I) → Option (Except ε α × σ) → Prop} :
    (pure a : Coro I ε σ α).stages A s Q ↔ Q [] (some (.ok a, s)) := Iff.rfl

@[simp] theorem stages_raise {e : ε} {Q : List (Event I) → Option (Except ε α × σ) → Prop} :
    (raise e : Coro I ε σ α).stages A s Q ↔ Q [] (some (.error e, s)) := Iff.rfl

@[simp] theorem stages_bind {m : Coro I ε σ α} {f : α → Coro I ε σ β}
    {Q : List (Event I) → Option (Except ε β × σ) → Prop} :
    (m >>= f).stages A s Q ↔ m.stages A s fun t o =>
      match o with
      | none => Q t none
      | some (.ok a, s') => (f a).stages A s' fun t' o' => Q (t ++ t') o'
      | some (.error e, s') => Q t (some (.error e, s')) := by
  rw [stages, show (m >>= f) s = (m s).bind (onOk f) from rfl, Prog.stages_bind, stages]
  refine iff_of_eq (congrArg _ ?_)
  funext t o
  rcases o with _ | ⟨e | a, s'⟩
  · rfl
  · simp [onOk, Prog.stages]
  · rfl

@[simp] theorem stages_attemptElse {m : Coro I ε σ α} {h : ε → Option (Coro I ε σ β)}
    {k : α → Coro I ε σ β} {Q : List (Event I) → Option (Except ε β × σ) → Prop} :
    (m.attemptElse h k).stages A s Q ↔ m.stages A s fun t o =>
      match o with
      | none => Q t none
      | some (.ok a, s') => (k a).stages A s' fun t' o' => Q (t ++ t') o'
      | some (.error e, s') =>
        match h e with
        | some c => c.stages A s' fun t' o' => Q (t ++ t') o'
        | none => Q t (some (.error e, s')) := by
  rw [stages, attemptElse, Prog.stages_bind, stages]
  refine iff_of_eq (congrArg _ ?_)
  funext t o
  rcases o with _ | ⟨e | a, s'⟩
  · rfl
  · cases he : h e with
    | none => simp [he, Prog.stages]
    | some c => simp [he, stages]
  · rfl

@[simp] theorem stages_ite {c : Prop} [Decidable c] {m m' : Coro I ε σ α}
    {Q : List (Event I) → Option (Except ε α × σ) → Prop} :
    (if c then m else m').stages A s Q ↔ (c → m.stages A s Q) ∧ (¬ c → m'.stages A s Q) := by
  split <;> simp_all

end Coro

end Coroutine
