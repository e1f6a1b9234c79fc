import LlmGateway.Coroutine.Prog

/-!
# Coroutines with exceptions and local variables

`Coro I ε σ α` is a function body: it issues commands of `I`, may raise `ε`, and has local variables
`σ`. The locals survive a raise, as the variables of a function are still there in its `except` and
`finally` clauses.

`Coro.wp` is the weakest precondition of a body. The rules below compute it for every combinator,
so a proof about a function peels off one statement at a time.
-/

namespace Coroutine

variable {I : Interface} {ε σ τ α β : Type}

/-- A function body with locals `σ`: from the current locals, a program ending in a result or an
exception, together with the locals at that point. -/
def Coro (I : Interface) (ε σ α : Type) : Type := σ → Prog I (Except ε α × σ)

namespace Coro

/-- The continuation of a body after an exception is left alone. -/
def onOk (f : α → Coro I ε σ β) : Except ε α × σ → Prog I (Except ε β × σ)
  | (.ok a, s) => f a s
  | (.error e, s) => .ret (.error e, s)

instance : Monad (Coro I ε σ) where
  pure a := fun s => .ret (.ok a, s)
  bind m f := fun s => (m s).bind (onOk f)

/-- Issue a command and return its reply. -/
def perform (c : I.Cmd) : Coro I ε σ (I.Reply c) := fun s => .call c fun r => .ret (.ok r, s)

/-- `raise e`. -/
def raise (e : ε) : Coro I ε σ α := fun s => .ret (.error e, s)

/-- Return a computed value or raise the exception its computation ended in. -/
def ofExcept (x : Except ε α) : Coro I ε σ α := fun s => .ret (x, s)

/-- Read the locals. -/
def locals : Coro I ε σ σ := fun s => .ret (.ok s, s)

/-- Assign to the locals. -/
def update (f : σ → σ) : Coro I ε σ Unit := fun s => .ret (.ok (), f s)

/-- `try: m  except: h  else: k`, where `h e = none` means that no clause catches `e`. What `h` and
`k` raise is not caught. -/
def attemptElse (m : Coro I ε σ α) (h : ε → Option (Coro I ε σ β)) (k : α → Coro I ε σ β) :
    Coro I ε σ β := fun s =>
  (m s).bind fun
    | (.ok a, s') => k a s'
    | (.error e, s') =>
      match h e with
      | some c => c s'
      | none => .ret (.error e, s')

/-- `try: m  except: h`. -/
def attempt (m : Coro I ε σ α) (h : ε → Option (Coro I ε σ α)) : Coro I ε σ α :=
  m.attemptElse h pure

/-- `try: m  finally: fin`. What `fin` raises replaces the outcome of `m`. -/
def ensure (m : Coro I ε σ α) (fin : Coro I ε σ Unit) : Coro I ε σ α := fun s =>
  (m s).bind fun x => (fin x.2).bind fun
    | (.ok (), s') => .ret (x.1, s')
    | (.error e, s') => .ret (.error e, s')

/-- Call a function whose own locals start as `s₀`. -/
def scope (s₀ : τ) (m : Coro I ε τ α) : Coro I ε σ α := fun s =>
  (m s₀).bind fun x => .ret (x.1, s)

/-! ## Runs of a body -/

/-- Started with locals `s`, the body `m` runs through `t` and ends in `r` with locals `s'`. -/
abbrev Runs (m : Coro I ε σ α) (s : σ) (t : List (Event I)) (r : Except ε α) (s' : σ) : Prop :=
  Prog.Returns (m s) t (r, s')

/-- Driving a body is one of its runs. -/
theorem runs_drive {ω : Type} (env : ω → (c : I.Cmd) → I.Reply c × ω) (m : Coro I ε σ α) (s : σ)
    (w : ω) : Runs m s (Prog.drive env (m s) w).1 (Prog.drive env (m s) w).2.1.1
      (Prog.drive env (m s) w).2.1.2 :=
  Prog.returns_drive env (m s) w

/-- A run of a sequence is a run of its first part that raises, or one that returns followed by a
run of the rest. -/
theorem Runs.bind_cases {m : Coro I ε σ α} {f : α → Coro I ε σ β} {s s' : σ} {t : List (Event I)}
    {r : Except ε β} (h : Runs (m >>= f) s t r s') :
    (∃ e, r = .error e ∧ Runs m s t (.error e) s') ∨
      ∃ t₁ a s₁ t₂, t = t₁ ++ t₂ ∧ Runs m s t₁ (.ok a) s₁ ∧ Runs (f a) s₁ t₂ r s' := by
  obtain ⟨t₁, ⟨o, s₁⟩, t₂, rfl, h₁, h₂⟩ := Prog.Returns.bind_iff.mp h
  match o with
  | .ok a => exact .inr ⟨t₁, a, s₁, t₂, rfl, h₁, h₂⟩
  | .error e =>
    obtain ⟨rfl, heq⟩ := Prog.Returns.ret_iff.mp h₂
    obtain ⟨rfl, rfl⟩ := Prod.mk.inj heq
    exact .inl ⟨e, rfl, by rwa [List.append_nil]⟩

/-! ## Weakest preconditions -/

/-- `Q` holds of the trace, the outcome and the last locals of every admitted run from `s`. -/
def wp (A : Event I → Prop) (m : Coro I ε σ α) (s : σ)
    (Q : List (Event I) → Except ε α → σ → Prop) : Prop :=
  (m s).wp A fun t x => Q t x.1 x.2

variable {A B : Event I → Prop} {s : σ}

theorem wp_iff {m : Coro I ε σ α} {Q : List (Event I) → Except ε α → σ → Prop} :
    m.wp A s Q ↔ ∀ t r s', Runs m s t r s' → (∀ e ∈ t, A e) → Q t r s' := by
  rw [wp, Prog.wp_iff]
  exact ⟨fun h t r s' => h t (r, s'), fun h t x => h t x.1 x.2⟩

/-- What a weakest precondition says about one run. -/
theorem wp.apply {m : Coro I ε σ α} {Q : List (Event I) → Except ε α → σ → Prop} {t : List (Event I)}
    {r : Except ε α} {s' : σ} (h : m.wp A s Q) (hr : Runs m s t r s') (hA : ∀ e ∈ t, A e) :
    Q t r s' :=
  wp_iff.mp h t r s' hr hA

theorem wp_mono {m : Coro I ε σ α} {Q Q' : List (Event I) → Except ε α → σ → Prop}
    (h : m.wp A s Q) (hQ : ∀ t r s', (∀ e ∈ t, A e) → Q t r s' → Q' t r s') : m.wp A s Q' :=
  Prog.wp_mono h fun t x => hQ t x.1 x.2

theorem wp_anti {m : Coro I ε σ α} {Q : List (Event I) → Except ε α → σ → Prop}
    (h : m.wp A s Q) (hBA : ∀ e, B e → A e) : m.wp B s Q :=
  Prog.wp_anti h hBA

theorem wp_and {m : Coro I ε σ α} {Q Q' : List (Event I) → Except ε α → σ → Prop}
    (h : m.wp A s Q) (h' : m.wp A s Q') : m.wp A s fun t r s' => Q t r s' ∧ Q' t r s' :=
  wp_iff.mpr fun _ _ _ hr hA => ⟨h.apply hr hA, h'.apply hr hA⟩

/-- A condition on the locals a body starts with can be assumed. -/
theorem wp_imp {P : Prop} {m : Coro I ε σ α} {Q : List (Event I) → Except ε α → σ → Prop}
    (h : P → m.wp A s Q) : m.wp A s fun t r s' => P → Q t r s' :=
  wp_iff.mpr fun _ _ _ hr hA hP => (h hP).apply hr hA

@[simp] theorem wp_pure {a : α} {Q : List (Event I) → Except ε α → σ → Prop} :
    (pure a : Coro I ε σ α).wp A s Q ↔ Q [] (.ok a) s := Iff.rfl

@[simp] theorem wp_raise {e : ε} {Q : List (Event I) → Except ε α → σ → Prop} :
    (raise e : Coro I ε σ α).wp A s Q ↔ Q [] (.error e) s := Iff.rfl

@[simp] theorem wp_ofExcept {x : Except ε α} {Q : List (Event I) → Except ε α → σ → Prop} :
    (ofExcept x : Coro I ε σ α).wp A s Q ↔ Q [] x s := Iff.rfl

@[simp] theorem wp_locals {Q : List (Event I) → Except ε σ → σ → Prop} :
    (locals : Coro I ε σ σ).wp A s Q ↔ Q [] (.ok s) s := Iff.rfl

@[simp] theorem wp_update {f : σ → σ} {Q : List (Event I) → Except ε Unit → σ → Prop} :
    (update f : Coro I ε σ Unit).wp A s Q ↔ Q [] (.ok ()) (f s) := Iff.rfl

@[simp] theorem wp_perform {c : I.Cmd} {Q : List (Event I) → Except ε (I.Reply c) → σ → Prop} :
    (perform c : Coro I ε σ (I.Reply c)).wp A s Q ↔ ∀ r, A ⟨c, r⟩ → Q [⟨c, r⟩] (.ok r) s := Iff.rfl

@[simp] theorem wp_bind {m : Coro I ε σ α} {f : α → Coro I ε σ β}
    {Q : List (Event I) → Except ε β → σ → Prop} :
    (m >>= f).wp A s Q ↔ m.wp A s fun t r s' =>
      match r with
      | .ok a => (f a).wp A s' fun t' r' s'' => Q (t ++ t') r' s''
      | .error e => Q t (.error e) s' := by
  rw [wp, show (m >>= f) s = (m s).bind (onOk f) from rfl, Prog.wp_bind, wp]
  refine iff_of_eq (congrArg _ ?_)
  funext t x
  rcases x with ⟨r | a, s'⟩
  · simp [onOk, Prog.wp]
  · rfl

@[simp] theorem wp_attemptElse {m : Coro I ε σ α} {h : ε → Option (Coro I ε σ β)}
    {k : α → Coro I ε σ β} {Q : List (Event I) → Except ε β → σ → Prop} :
    (m.attemptElse h k).wp A s Q ↔ m.wp A s fun t r s' =>
      match r with
      | .ok a => (k a).wp A s' fun t' r' s'' => Q (t ++ t') r' s''
      | .error e =>
        match h e with
        | some c => c.wp A s' fun t' r' s'' => Q (t ++ t') r' s''
        | none => Q t (.error e) s' := by
  rw [wp, attemptElse, Prog.wp_bind, wp]
  refine iff_of_eq (congrArg _ ?_)
  funext t x
  rcases x with ⟨e | a, s'⟩
  · cases he : h e with
    | none => simp [he, Prog.wp]
    | some c => simp [he, wp]
  · rfl

@[simp] theorem wp_attempt {m : Coro I ε σ α} {h : ε → Option (Coro I ε σ α)}
    {Q : List (Event I) → Except ε α → σ → Prop} :
    (m.attempt h).wp A s Q ↔ m.wp A s fun t r s' =>
      match r with
      | .ok a => Q t (.ok a) s'
      | .error e =>
        match h e with
        | some c => c.wp A s' fun t' r' s'' => Q (t ++ t') r' s''
        | none => Q t (.error e) s' := by
  simp only [attempt, wp_attemptElse, wp_pure, List.append_nil]

@[simp] theorem wp_ensure {m : Coro I ε σ α} {fin : Coro I ε σ Unit}
    {Q : List (Event I) → Except ε α → σ → Prop} :
    (m.ensure fin).wp A s Q ↔ m.wp A s fun t r s' => fin.wp A s' fun t' r' s'' =>
      match r' with
      | .ok () => Q (t ++ t') r s''
      | .error e => Q (t ++ t') (.error e) s'' := by
  rw [wp, ensure, Prog.wp_bind, wp]
  refine iff_of_eq (congrArg _ ?_)
  funext t x
  rw [Prog.wp_bind, wp]
  refine congrArg _ ?_
  funext t' y
  rcases y with ⟨e | ⟨⟩, s'⟩ <;> simp [Prog.wp]

@[simp] theorem wp_scope {s₀ : τ} {m : Coro I ε τ α} {Q : List (Event I) → Except ε α → σ → Prop} :
    (scope s₀ m : Coro I ε σ α).wp A s Q ↔ m.wp A s₀ fun t r _ => Q t r s := by
  rw [wp, scope, Prog.wp_bind, wp]
  simp [Prog.wp]

theorem wp_true {m : Coro I ε σ α} : m.wp A s fun _ _ _ => True :=
  wp_iff.mpr fun _ _ _ _ _ => trivial

@[simp] theorem wp_ite {c : Prop} [Decidable c] {m m' : Coro I ε σ α}
    {Q : List (Event I) → Except ε α → σ → Prop} :
    (if c then m else m').wp A s Q ↔ (c → m.wp A s Q) ∧ (¬ c → m'.wp A s Q) := by
  split <;> simp_all

/-! ## Bodies that never return -/

/-- Every run of `m` ends in an exception. -/
def Raises (m : Coro I ε σ α) : Prop := ∀ A s, m.wp A s fun _ r _ => ∃ e, r = .error e

theorem Raises.raise {e : ε} : (Coro.raise e : Coro I ε σ α).Raises := fun _ _ => ⟨e, rfl⟩

theorem Raises.bind {m : Coro I ε σ α} {f : α → Coro I ε σ β} (h : ∀ a, (f a).Raises) :
    (m >>= f).Raises := by
  intro A s
  rw [wp_bind]
  refine wp_mono wp_true fun t r s' _ _ => ?_
  cases r with
  | error e => exact ⟨e, rfl⟩
  | ok a => exact h a A s'

/-! ## Bodies that leave the locals alone -/

/-- Every run of `m` ends with the locals it started with. -/
def Keeps (m : Coro I ε σ α) : Prop := ∀ A s, m.wp A s fun _ _ s' => s' = s

namespace Keeps

theorem pure {a : α} : (Pure.pure a : Coro I ε σ α).Keeps := fun _ _ => rfl

theorem raise {e : ε} : (Coro.raise e : Coro I ε σ α).Keeps := fun _ _ => rfl

theorem ofExcept {x : Except ε α} : (Coro.ofExcept x : Coro I ε σ α).Keeps := fun _ _ => rfl

theorem locals : (Coro.locals : Coro I ε σ σ).Keeps := fun _ _ => rfl

theorem perform {c : I.Cmd} : (Coro.perform c : Coro I ε σ (I.Reply c)).Keeps :=
  fun _ _ _ _ => rfl

theorem bind {m : Coro I ε σ α} {f : α → Coro I ε σ β} (h : m.Keeps) (hf : ∀ a, (f a).Keeps) :
    (m >>= f).Keeps := by
  intro A s
  rw [wp_bind]
  refine wp_mono (h A s) fun t r s' _ hs => ?_
  subst hs
  cases r with
  | error e => rfl
  | ok a => exact hf a A s'

theorem attemptElse {m : Coro I ε σ α} {h : ε → Option (Coro I ε σ β)} {k : α → Coro I ε σ β}
    (hm : m.Keeps) (hh : ∀ e c, h e = some c → c.Keeps) (hk : ∀ a, (k a).Keeps) :
    (m.attemptElse h k).Keeps := by
  intro A s
  rw [wp_attemptElse]
  refine wp_mono (hm A s) fun t r s' _ hs => ?_
  subst hs
  cases r with
  | ok a => exact hk a A s'
  | error e =>
    dsimp only
    split
    · next c hc => exact hh e c hc A s'
    · rfl

theorem attempt {m : Coro I ε σ α} {h : ε → Option (Coro I ε σ α)} (hm : m.Keeps)
    (hh : ∀ e c, h e = some c → c.Keeps) : (m.attempt h).Keeps :=
  hm.attemptElse hh fun _ => .pure

theorem ite {c : Prop} [Decidable c] {m m' : Coro I ε σ α} (h : m.Keeps) (h' : m'.Keeps) :
    (if c then m else m').Keeps := by
  split
  · exact h
  · exact h'

end Keeps

end Coro

end Coroutine
