import LlmGateway.Coroutine.Coro

/-!
# The commands a program can issue

`Only B p` says that whatever the replies are, `p` issues only commands satisfying `B`. It is a
property of the text of a program, so it is established once along its combinators, and every trace
of the program inherits it.

`Along A P m` is the same for a property of whole traces that holds of two traces put together if it
holds of each.
-/

namespace Coroutine

variable {I : Interface} {ε σ τ α β : Type} {B B' : I.Cmd → Prop}

namespace Prog

/-- Every command `p` can issue satisfies `B`. -/
def Only (B : I.Cmd → Prop) : Prog I α → Prop
  | .ret _ => True
  | .call c k => B c ∧ ∀ r, (k r).Only B

theorem Only.mono {p : Prog I α} (h : p.Only B) (hB : ∀ c, B c → B' c) : p.Only B' := by
  induction p with
  | ret a => trivial
  | call c k ih => exact ⟨hB c h.1, fun r => ih r (h.2 r)⟩

theorem Only.bind {p : Prog I α} {f : α → Prog I β} (h : p.Only B) (hf : ∀ a, (f a).Only B) :
    (p.bind f).Only B := by
  induction p with
  | ret a => exact hf a
  | call c k ih => exact ⟨h.1, fun r => ih r (h.2 r)⟩

/-- The events of a run are among the commands its program can issue. -/
theorem Only.forall_mem {p q : Prog I α} {t : List (Event I)} (h : p.Only B) (hr : Run p t q) :
    ∀ e ∈ t, B e.cmd := by
  induction hr with
  | nil p => simp
  | cons r _ ih => exact List.forall_mem_cons.mpr ⟨h.1, ih (h.2 r)⟩

end Prog

namespace Coro

/-- Every command `m` can issue satisfies `B`. -/
def Only (B : I.Cmd → Prop) (m : Coro I ε σ α) : Prop := ∀ s, (m s).Only B

namespace Only

theorem mono {m : Coro I ε σ α} (h : m.Only B) (hB : ∀ c, B c → B' c) : m.Only B' :=
  fun s => (h s).mono hB

theorem pure {a : α} : (Pure.pure a : Coro I ε σ α).Only B := fun _ => trivial

theorem raise {e : ε} : (Coro.raise e : Coro I ε σ α).Only B := fun _ => trivial

theorem ofExcept {x : Except ε α} : (Coro.ofExcept x : Coro I ε σ α).Only B := fun _ => trivial

theorem locals : (Coro.locals : Coro I ε σ σ).Only B := fun _ => trivial

theorem update {f : σ → σ} : (Coro.update f : Coro I ε σ Unit).Only B := fun _ => trivial

theorem perform {c : I.Cmd} (h : B c) : (Coro.perform c : Coro I ε σ (I.Reply c)).Only B :=
  fun _ => ⟨h, fun _ => trivial⟩

theorem bind {m : Coro I ε σ α} {f : α → Coro I ε σ β} (h : m.Only B) (hf : ∀ a, (f a).Only B) :
    (m >>= f).Only B := by
  intro s
  refine (h s).bind fun x => ?_
  rcases x with ⟨e | a, s'⟩
  · trivial
  · exact hf a s'

theorem attemptElse {m : Coro I ε σ α} {h : ε → Option (Coro I ε σ β)} {k : α → Coro I ε σ β}
    (hm : m.Only B) (hh : ∀ e c, h e = some c → c.Only B) (hk : ∀ a, (k a).Only B) :
    (m.attemptElse h k).Only B := by
  intro s
  refine (hm s).bind fun x => ?_
  rcases x with ⟨e | a, s'⟩
  · cases he : h e with
    | none => simp only [he, Prog.Only]
    | some c =>
      simp only [he]
      exact hh e c he s'
  · exact hk a s'

theorem attempt {m : Coro I ε σ α} {h : ε → Option (Coro I ε σ α)} (hm : m.Only B)
    (hh : ∀ e c, h e = some c → c.Only B) : (m.attempt h).Only B :=
  hm.attemptElse hh fun _ => .pure

theorem ensure {m : Coro I ε σ α} {fin : Coro I ε σ Unit} (hm : m.Only B) (hfin : fin.Only B) :
    (m.ensure fin).Only B := by
  intro s
  refine (hm s).bind fun x => (hfin x.2).bind fun y => ?_
  rcases y with ⟨e | ⟨⟩, s'⟩ <;> trivial

theorem scope {s₀ : τ} {m : Coro I ε τ α} (h : m.Only B) : (Coro.scope s₀ m : Coro I ε σ α).Only B :=
  fun _ => (h s₀).bind fun _ => trivial

theorem ite {c : Prop} [Decidable c] {m m' : Coro I ε σ α} (h : c → m.Only B)
    (h' : ¬ c → m'.Only B) : (if c then m else m').Only B := by
  split
  · exact h ‹_›
  · exact h' ‹_›

/-- A footprint as a weakest precondition. -/
theorem wp {A : Event I → Prop} {m : Coro I ε σ α} {s : σ} (h : m.Only B) :
    m.wp A s fun t _ _ => ∀ e ∈ t, B e.cmd :=
  wp_iff.mpr fun _ _ _ hr _ => (h s).forall_mem hr

end Only

/-! ## Properties of traces that are put together -/

/-- `P` holds of the empty trace, and of two traces put together if it holds of each. -/
structure Composes (P : List (Event I) → Prop) : Prop where
  nil : P []
  append : ∀ t t', P t → P t' → P (t ++ t')

/-- `P` holds of every admitted run of `m`. -/
def Along (A : Event I → Prop) (P : List (Event I) → Prop) (m : Coro I ε σ α) : Prop :=
  ∀ s, m.wp A s fun t _ _ => P t

namespace Along

variable {A : Event I → Prop} {P : List (Event I) → Prop}

theorem pure (hP : Composes P) {a : α} : Along A P (Pure.pure a : Coro I ε σ α) := fun _ => hP.nil

theorem raise (hP : Composes P) {e : ε} : Along A P (Coro.raise e : Coro I ε σ α) := fun _ => hP.nil

theorem ofExcept (hP : Composes P) {x : Except ε α} :
    Along A P (Coro.ofExcept x : Coro I ε σ α) := fun _ => hP.nil

theorem locals (hP : Composes P) : Along A P (Coro.locals : Coro I ε σ σ) := fun _ => hP.nil

theorem update (hP : Composes P) {f : σ → σ} : Along A P (Coro.update f : Coro I ε σ Unit) :=
  fun _ => hP.nil

theorem perform {c : I.Cmd} (h : ∀ r, A ⟨c, r⟩ → P [⟨c, r⟩]) :
    Along A P (Coro.perform c : Coro I ε σ (I.Reply c)) := fun _ => h

/-- A body none of whose commands matter to `P`. -/
theorem of_only {m : Coro I ε σ α} (h : m.Only B)
    (hP : ∀ t : List (Event I), (∀ e ∈ t, B e.cmd) → P t) : Along A P m := fun _ =>
  Coro.wp_mono h.wp fun t _ _ _ ht => hP t ht

theorem bind (hP : Composes P) {m : Coro I ε σ α} {f : α → Coro I ε σ β} (h : Along A P m)
    (hf : ∀ a, Along A P (f a)) : Along A P (m >>= f) := by
  intro s
  rw [Coro.wp_bind]
  refine Coro.wp_mono (h s) fun t r s' _ ht => ?_
  match r with
  | .error e => exact ht
  | .ok a => exact Coro.wp_mono (hf a s') fun t' _ _ _ ht' => hP.append t t' ht ht'

theorem attemptElse (hP : Composes P) {m : Coro I ε σ α} {h : ε → Option (Coro I ε σ β)}
    {k : α → Coro I ε σ β} (hm : Along A P m) (hh : ∀ e c, h e = some c → Along A P c)
    (hk : ∀ a, Along A P (k a)) : Along A P (m.attemptElse h k) := by
  intro s
  rw [Coro.wp_attemptElse]
  refine Coro.wp_mono (hm s) fun t r s' _ ht => ?_
  match r with
  | .ok a => exact Coro.wp_mono (hk a s') fun t' _ _ _ ht' => hP.append t t' ht ht'
  | .error e =>
    dsimp only
    split
    · next c hc => exact Coro.wp_mono (hh e c hc s') fun t' _ _ _ ht' => hP.append t t' ht ht'
    · exact ht

theorem attempt (hP : Composes P) {m : Coro I ε σ α} {h : ε → Option (Coro I ε σ α)}
    (hm : Along A P m) (hh : ∀ e c, h e = some c → Along A P c) : Along A P (m.attempt h) :=
  hm.attemptElse hP hh fun _ => .pure hP

theorem ensure (hP : Composes P) {m : Coro I ε σ α} {fin : Coro I ε σ Unit} (hm : Along A P m)
    (hfin : Along A P fin) : Along A P (m.ensure fin) := by
  intro s
  rw [Coro.wp_ensure]
  refine Coro.wp_mono (hm s) fun t r s' _ ht => ?_
  refine Coro.wp_mono (hfin s') fun t' r' _ _ ht' => ?_
  match r' with
  | .ok () => exact hP.append t t' ht ht'
  | .error e => exact hP.append t t' ht ht'

theorem scope {s₀ : τ} {m : Coro I ε τ α} (h : Along A P m) :
    Along A P (Coro.scope s₀ m : Coro I ε σ α) := fun _ => Coro.wp_scope.mpr (h s₀)

theorem ite {c : Prop} [Decidable c] {m m' : Coro I ε σ α} (h : c → Along A P m)
    (h' : ¬ c → Along A P m') : Along A P (if c then m else m') := by
  split
  · exact h ‹_›
  · exact h' ‹_›

end Along

end Coro

end Coroutine
