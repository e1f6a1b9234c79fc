import LlmGateway.Coroutine.Pool

/-!
# What a program leaves wherever it stops

A program may stop for good at any command: its caller goes away, or the process dies.
`Prog.throughout W N p w Q` says that, run over the world `W` from `w`, the program `p` leaves a
state with `N` wherever it stops, and one with `Q` if it returns.

The rules are those of `wp`, with the state of the world in place of the trace.
-/

namespace Coroutine

variable {I : Interface} {α β ε σ : Type}

namespace Prog

/-- `N` holds of the world at every point of every run of `p` from `w`, and `Q` at the end. -/
def throughout (W : World I) (N : W.State → Prop) :
    Prog I α → W.State → (W.State → α → Prop) → Prop
  | .ret a, w, Q => N w ∧ Q w a
  | .call c k, w, Q => N w ∧ ∀ r w', W.answers w ⟨c, r⟩ w' → (k r).throughout W N w' Q

variable {W : World I} {N : W.State → Prop} {w : W.State}

theorem throughout.here {p : Prog I α} {Q : W.State → α → Prop} (h : p.throughout W N w Q) :
    N w := by
  cases p with
  | ret a => exact h.1
  | call c k => exact h.1

/-- Every run of `p`, however far it has come, has left `N`. -/
theorem throughout.of_run {p q : Prog I α} {Q : W.State → α → Prop} {t : List (Event I)}
    {w' : W.State} (h : p.throughout W N w Q) (hrun : Run p t q) (hw : W.Evolves w t w') :
    N w' := by
  induction hrun generalizing w with
  | nil p =>
    obtain rfl := World.Evolves.nil_iff.mp hw
    exact h.here
  | cons r _ ih =>
    obtain ⟨v, hanswer, hw⟩ := World.Evolves.cons_iff.mp hw
    exact ih (h.2 r v hanswer) hw

theorem throughout_mono {p : Prog I α} {Q Q' : W.State → α → Prop} (h : p.throughout W N w Q)
    (hQ : ∀ w' a, N w' → Q w' a → Q' w' a) : p.throughout W N w Q' := by
  induction p generalizing w with
  | ret a => exact ⟨h.1, hQ w a h.1 h.2⟩
  | call c k ih => exact ⟨h.1, fun r w' hanswer => ih r (h.2 r w' hanswer)⟩

theorem throughout_bind {p : Prog I α} {f : α → Prog I β} {Q : W.State → β → Prop} :
    (p.bind f).throughout W N w Q ↔
      p.throughout W N w fun w' a => (f a).throughout W N w' Q := by
  induction p generalizing w with
  | ret a => exact ⟨fun h => ⟨h.here, h⟩, And.right⟩
  | call c k ih => simp only [bind, throughout, ih]

end Prog

namespace Coro

/-- `N` holds of the world at every point of every run of `m` from `w` and the locals `s`, and `Q`
at the end. -/
def throughout (W : World I) (N : W.State → Prop) (m : Coro I ε σ α) (w : W.State) (s : σ)
    (Q : W.State → Except ε α → σ → Prop) : Prop :=
  (m s).throughout W N w fun w' x => Q w' x.1 x.2

variable {W : World I} {N : W.State → Prop} {w : W.State} {s : σ}

theorem throughout_mono {m : Coro I ε σ α} {Q Q' : W.State → Except ε α → σ → Prop}
    (h : m.throughout W N w s Q) (hQ : ∀ w' r s', N w' → Q w' r s' → Q' w' r s') :
    m.throughout W N w s Q' :=
  Prog.throughout_mono h fun w' x => hQ w' x.1 x.2

theorem throughout_perform {c : I.Cmd} {Q : W.State → Except ε (I.Reply c) → σ → Prop} :
    (perform c : Coro I ε σ (I.Reply c)).throughout W N w s Q ↔
      N w ∧ ∀ r w', W.answers w ⟨c, r⟩ w' → N w' ∧ Q w' (.ok r) s := Iff.rfl

theorem throughout_bind {m : Coro I ε σ α} {f : α → Coro I ε σ β}
    {Q : W.State → Except ε β → σ → Prop} :
    (m >>= f).throughout W N w s Q ↔ m.throughout W N w s fun w' r s' =>
      match r with
      | .ok a => (f a).throughout W N w' s' Q
      | .error e => N w' ∧ Q w' (.error e) s' := by
  rw [throughout, show (m >>= f) s = (m s).bind (onOk f) from rfl, Prog.throughout_bind,
    throughout]
  refine iff_of_eq (congrArg _ ?_)
  funext w' x
  obtain ⟨_ | a, s'⟩ := x
  · rfl
  · rfl

end Coro

end Coroutine
