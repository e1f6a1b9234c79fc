import Mathlib.Algebra.BigOperators.Group.List.Basic

/-!
# Command trees and their runs

A program is a tree: it has returned, or it waits for the reply to one command. Nothing is assumed
about who answers, so a statement about every run of a tree is a statement about every environment.

`Prog.Run p t q` says that `p` turns into `q` when its commands are answered as in the trace `t`.
`Prog.wp A p Q` is the weakest precondition of `Q` when every answer satisfies `A`. `wp_iff`
connects the two.
-/

namespace Coroutine

/-- The commands a program can issue, the type of the reply to each, and which of them suspend the
program. The others are answered without giving up control. -/
structure Interface where
  Cmd : Type
  Reply : Cmd → Type
  suspends : Cmd → Bool

variable {I : Interface} {α β : Type}

/-- A program over `I`: finished, or waiting for the reply to a command. -/
inductive Prog (I : Interface) (α : Type) where
  | ret (a : α)
  | call (c : I.Cmd) (k : I.Reply c → Prog I α)

/-- A command with the reply it got. -/
structure Event (I : Interface) where
  cmd : I.Cmd
  reply : I.Reply cmd

namespace Prog

/-- Run `f` on the value `p` returns. -/
def bind : Prog I α → (α → Prog I β) → Prog I β
  | .ret a, f => f a
  | .call c k, f => .call c fun r => (k r).bind f

/-! ## Runs -/

/-- `Run p t q`: answering the commands of `p` as recorded in `t` leaves the program `q`. -/
inductive Run : Prog I α → List (Event I) → Prog I α → Prop
  | nil (p : Prog I α) : Run p [] p
  | cons {c : I.Cmd} {k : I.Reply c → Prog I α} (r : I.Reply c) {t : List (Event I)}
      {q : Prog I α} (h : Run (k r) t q) : Run (.call c k) (⟨c, r⟩ :: t) q

/-- `p` runs to completion through `t` and returns `a`. -/
abbrev Returns (p : Prog I α) (t : List (Event I)) (a : α) : Prop := Run p t (.ret a)

theorem run_ret_iff {a : α} {t : List (Event I)} {q : Prog I α} :
    Run (.ret a) t q ↔ t = [] ∧ q = .ret a := by
  constructor
  · rintro ⟨⟩
    exact ⟨rfl, rfl⟩
  · rintro ⟨rfl, rfl⟩
    exact .nil _

/-- A finished program has no further command. -/
theorem Returns.ret_iff {a b : α} {t : List (Event I)} :
    Returns (.ret a : Prog I α) t b ↔ t = [] ∧ b = a := by
  rw [Returns, run_ret_iff, Prog.ret.injEq]

theorem Returns.call_iff {c : I.Cmd} {k : I.Reply c → Prog I α} {t : List (Event I)} {a : α} :
    Returns (.call c k) t a ↔ ∃ r t', t = ⟨c, r⟩ :: t' ∧ Returns (k r) t' a := by
  constructor
  · rintro ⟨⟩
    exact ⟨_, _, rfl, ‹_›⟩
  · rintro ⟨r, t', rfl, h⟩
    exact .cons r h

/-- Runs compose. -/
theorem Run.trans {p q s : Prog I α} {t t' : List (Event I)} (h : Run p t q) (h' : Run q t' s) :
    Run p (t ++ t') s := by
  induction h with
  | nil p => exact h'
  | cons r _ ih => exact .cons r (ih h')

/-- A complete run of a sequence is one of its first part, followed by one of the rest. -/
theorem Returns.bind_iff {p : Prog I α} {f : α → Prog I β} {t : List (Event I)} {b : β} :
    Returns (p.bind f) t b ↔
      ∃ t₁ a t₂, t = t₁ ++ t₂ ∧ Returns p t₁ a ∧ Returns (f a) t₂ b := by
  induction p generalizing t with
  | ret a =>
    simp only [bind, Returns.ret_iff]
    constructor
    · intro h
      exact ⟨[], a, t, rfl, ⟨rfl, rfl⟩, h⟩
    · rintro ⟨_, _, t₂, rfl, ⟨rfl, rfl⟩, h⟩
      exact h
  | call c k ih =>
    simp only [bind, Returns.call_iff, ih]
    constructor
    · rintro ⟨r, _, rfl, t₁, a, t₂, rfl, h₁, h₂⟩
      exact ⟨⟨c, r⟩ :: t₁, a, t₂, rfl, ⟨r, t₁, rfl, h₁⟩, h₂⟩
    · rintro ⟨_, a, t₂, rfl, ⟨r, t₁, rfl, h₁⟩, h₂⟩
      exact ⟨r, t₁ ++ t₂, rfl, t₁, a, t₂, rfl, h₁, h₂⟩

theorem bind_assoc {γ : Type} (p : Prog I α) (f : α → Prog I β) (g : β → Prog I γ) :
    (p.bind f).bind g = p.bind fun a => (f a).bind g := by
  induction p with
  | ret a => rfl
  | call c k ih => simp only [bind, ih]

/-- A run of a sequence that begins with a complete run of its first part goes on with the rest. -/
theorem Returns.resume {p : Prog I α} {f : α → Prog I β} {t t' : List (Event I)} {a : α} {b : β}
    (h : Returns p t a) (hb : Returns (p.bind f) (t ++ t') b) : Returns (f a) t' b := by
  induction p generalizing t with
  | ret a' =>
    obtain ⟨rfl, rfl⟩ := Returns.ret_iff.mp h
    exact hb
  | call c k ih =>
    obtain ⟨r, t, rfl, hk⟩ := Returns.call_iff.mp h
    rw [bind, List.cons_append, Returns.call_iff] at hb
    obtain ⟨r', t'', heq, hb⟩ := hb
    cases heq
    exact ih r hk hb

/-- Answer every command of `p` by the handler `env`, threading its state: the trace, the value
returned and the last state of the handler. -/
def drive {σ : Type} (env : σ → (c : I.Cmd) → I.Reply c × σ) :
    Prog I α → σ → List (Event I) × α × σ
  | .ret a, s => ([], a, s)
  | .call c k, s =>
    let o := drive env (k (env s c).1) (env s c).2
    (⟨c, (env s c).1⟩ :: o.1, o.2)

/-- Driving a program is one of its complete runs. -/
theorem returns_drive {σ : Type} (env : σ → (c : I.Cmd) → I.Reply c × σ) (p : Prog I α) (s : σ) :
    Returns p (drive env p s).1 (drive env p s).2.1 := by
  induction p generalizing s with
  | ret a => exact .nil _
  | call c k ih => exact .cons _ (ih _ _)

/-- Driving a sequence drives its first part and then the rest. -/
theorem drive_bind {σ : Type} (env : σ → (c : I.Cmd) → I.Reply c × σ) (p : Prog I α)
    (f : α → Prog I β) (s : σ) :
    (p.bind f).drive env s =
      ((drive env p s).1 ++ (drive env (f (drive env p s).2.1) (drive env p s).2.2).1,
        (drive env (f (drive env p s).2.1) (drive env p s).2.2).2) := by
  induction p generalizing s with
  | ret a => rfl
  | call c k ih => rw [bind, drive, ih, drive, List.cons_append]

/-- A run that stops short can go on to an end. -/
theorem Run.exists_returns [h : ∀ c, Nonempty (I.Reply c)] {p q : Prog I α} {t : List (Event I)}
    (hrun : Run p t q) : ∃ t' a, Returns p (t ++ t') a := by
  have hend : ∃ t' a, Returns q t' a := by
    clear hrun
    induction q with
    | ret a => exact ⟨[], a, .nil _⟩
    | call c k ih =>
      obtain ⟨r⟩ := h c
      obtain ⟨t', a, hr⟩ := ih r
      exact ⟨⟨c, r⟩ :: t', a, .cons r hr⟩
  obtain ⟨t', a, hr⟩ := hend
  exact ⟨t', a, hrun.trans hr⟩

/-- Every event of a driven run is one of the handler's answers. -/
theorem forall_drive {σ : Type} {env : σ → (c : I.Cmd) → I.Reply c × σ} {A : Event I → Prop}
    (h : ∀ s c, A ⟨c, (env s c).1⟩) (p : Prog I α) (s : σ) : ∀ e ∈ (drive env p s).1, A e := by
  induction p generalizing s with
  | ret a => simp [drive]
  | call c k ih => exact List.forall_mem_cons.mpr ⟨h s c, ih _ _⟩

/-! ## Weakest preconditions -/

/-- `Q` holds of the trace and the value of every complete run all of whose events satisfy `A`. -/
def wp (A : Event I → Prop) : Prog I α → (List (Event I) → α → Prop) → Prop
  | .ret a, Q => Q [] a
  | .call c k, Q => ∀ r, A ⟨c, r⟩ → (k r).wp A fun t a => Q (⟨c, r⟩ :: t) a

variable {A B : Event I → Prop}

/-- A weakest precondition says exactly that every admitted complete run satisfies `Q`. -/
theorem wp_iff {p : Prog I α} {Q : List (Event I) → α → Prop} :
    p.wp A Q ↔ ∀ t a, Returns p t a → (∀ e ∈ t, A e) → Q t a := by
  induction p generalizing Q with
  | ret b =>
    simp only [wp, Returns.ret_iff]
    constructor
    · rintro h t a ⟨rfl, rfl⟩ -
      exact h
    · intro h
      exact h [] b ⟨rfl, rfl⟩ (by simp)
  | call c k ih =>
    simp only [wp, ih, Returns.call_iff]
    constructor
    · rintro h t a ⟨r, t', rfl, hr⟩ hA
      rw [List.forall_mem_cons] at hA
      exact h r hA.1 t' a hr hA.2
    · intro h r hr t a ht hA
      exact h (⟨c, r⟩ :: t) a ⟨r, t, rfl, ht⟩ (List.forall_mem_cons.mpr ⟨hr, hA⟩)

theorem wp_mono {p : Prog I α} {Q Q' : List (Event I) → α → Prop} (h : p.wp A Q)
    (hQ : ∀ t a, (∀ e ∈ t, A e) → Q t a → Q' t a) : p.wp A Q' := by
  rw [wp_iff] at h ⊢
  exact fun t a ht hA => hQ t a hA (h t a ht hA)

/-- Fewer admitted answers leave fewer runs to check. -/
theorem wp_anti {p : Prog I α} {Q : List (Event I) → α → Prop} (h : p.wp A Q)
    (hBA : ∀ e, B e → A e) : p.wp B Q := by
  rw [wp_iff] at h ⊢
  exact fun t a ht hB => h t a ht fun e he => hBA e (hB e he)

theorem wp_bind {p : Prog I α} {f : α → Prog I β} {Q : List (Event I) → β → Prop} :
    (p.bind f).wp A Q ↔ p.wp A fun t a => (f a).wp A fun t' b => Q (t ++ t') b := by
  induction p generalizing Q with
  | ret a => exact Iff.rfl
  | call c k ih => simp only [bind, wp, ih, List.cons_append]

end Prog

/-! ## Tallies

A tally adds up a quantity over the events of a trace.
-/

section Tally

variable {M : Type} [AddMonoid M]

/-- The sum of `f` over the events of `t`. -/
def tally (f : Event I → M) (t : List (Event I)) : M := (t.map f).sum

@[simp] theorem tally_nil (f : Event I → M) : tally f [] = 0 := rfl

@[simp] theorem tally_cons (f : Event I → M) (e : Event I) (t : List (Event I)) :
    tally f (e :: t) = f e + tally f t := by
  simp [tally]

@[simp] theorem tally_append (f : Event I → M) (t t' : List (Event I)) :
    tally f (t ++ t') = tally f t + tally f t' := by
  simp [tally]

end Tally

end Coroutine
