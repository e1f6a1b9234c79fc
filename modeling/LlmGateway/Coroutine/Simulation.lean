import LlmGateway.Coroutine.Footprint
import Mathlib.Data.Option.Basic

/-!
# Programs that do the same as far as one can see

`Prog.Similar A V R p q` says that `p` and `q` issue the same commands but for those not in `V`, as
long as the replies satisfy `A` and both are given the same replies, and that their values are
related by `R`. Either side may issue commands outside `V` on its own.

An observer of the commands in `V` cannot tell two similar programs apart: `Similar.observe` says
that an environment which answers from what it has observed has observed the same of both.
-/

namespace Coroutine

variable {I : Interface} {ε σ τ α β γ δ : Type} {A : Event I → Prop} {V : I.Cmd → Prop}

namespace Prog

/-- The same visible commands, and related values. -/
inductive Similar (A : Event I → Prop) (V : I.Cmd → Prop) (R : α → β → Prop) :
    Prog I α → Prog I β → Prop
  | ret {a : α} {b : β} (h : R a b) : Similar A V R (.ret a) (.ret b)
  | both {c : I.Cmd} {k : I.Reply c → Prog I α} {k' : I.Reply c → Prog I β}
      (h : ∀ r, A ⟨c, r⟩ → Similar A V R (k r) (k' r)) : Similar A V R (.call c k) (.call c k')
  | left {c : I.Cmd} {k : I.Reply c → Prog I α} {q : Prog I β} (hc : ¬ V c)
      (h : ∀ r, A ⟨c, r⟩ → Similar A V R (k r) q) : Similar A V R (.call c k) q
  | right {c : I.Cmd} {p : Prog I α} {k : I.Reply c → Prog I β} (hc : ¬ V c)
      (h : ∀ r, A ⟨c, r⟩ → Similar A V R p (k r)) : Similar A V R p (.call c k)

namespace Similar

variable {R : α → β → Prop} {p : Prog I α} {q : Prog I β}

theorem refl {R : α → α → Prop} (h : ∀ a, R a a) (p : Prog I α) : p.Similar A V R p := by
  induction p with
  | ret a => exact .ret (h a)
  | call c k ih => exact .both fun r _ => ih r

/-- What follows two similar programs is similar if it is from related values. -/
theorem bind {S : γ → δ → Prop} {f : α → Prog I γ} {g : β → Prog I δ} (h : p.Similar A V R q)
    (hf : ∀ a b, R a b → (f a).Similar A V S (g b)) :
    (p.bind f).Similar A V S (q.bind g) := by
  induction h with
  | ret h => exact hf _ _ h
  | both _ ih => exact .both ih
  | left hc _ ih => exact .left hc ih
  | right hc _ ih => exact .right hc ih

/-- Two programs that issue nothing visible are similar if their values are related. -/
theorem silent (hp : p.Only fun c => ¬ V c) (hq : q.Only fun c => ¬ V c)
    (h : p.wp A fun _ a => q.wp A fun _ b => R a b) : p.Similar A V R q := by
  induction p with
  | ret a =>
    have hq' : q.wp A fun _ b => R a b := h
    clear h
    induction q with
    | ret b => exact .ret hq'
    | call c k ih => exact .right hq.1 fun r hr => ih r (hq.2 r) (hq' r hr)
  | call c k ih => exact .left hp.1 fun r hr => ih r (hp.2 r) (h r hr)

/-- A complete run of one side goes with one of the other that has the same visible events, if what
is not visible can be answered. -/
theorem returns [DecidablePred V] (h : p.Similar A V R q)
    (hA : ∀ c, ¬ V c → ∃ r, A ⟨c, r⟩) {t : List (Event I)} {a : α} (hp : Returns p t a)
    (ht : ∀ e ∈ t, A e) :
    ∃ t' b, Returns q t' b ∧ (∀ e ∈ t', A e) ∧
      t'.filter (fun e => V e.cmd) = t.filter (fun e => V e.cmd) ∧ R a b := by
  induction h generalizing t with
  | @ret a' b hR =>
    obtain ⟨rfl, rfl⟩ := Returns.ret_iff.mp hp
    exact ⟨[], b, .nil _, by simp, rfl, hR⟩
  | @both c k k' h ih =>
    obtain ⟨r, t, rfl, hk⟩ := Returns.call_iff.mp hp
    obtain ⟨hr, ht⟩ := List.forall_mem_cons.mp ht
    obtain ⟨t', b, hrun, ht', hfilter, hR⟩ := ih r hr hk ht
    refine ⟨⟨c, r⟩ :: t', b, .cons r hrun, List.forall_mem_cons.mpr ⟨hr, ht'⟩, ?_, hR⟩
    rw [List.filter_cons, List.filter_cons, hfilter]
  | @left c k q hc h ih =>
    obtain ⟨r, t, rfl, hk⟩ := Returns.call_iff.mp hp
    obtain ⟨hr, ht⟩ := List.forall_mem_cons.mp ht
    obtain ⟨t', b, hrun, ht', hfilter, hR⟩ := ih r hr hk ht
    exact ⟨t', b, hrun, ht', by rwa [List.filter_cons_of_neg (by simpa using hc)], hR⟩
  | @right c p k hc h ih =>
    obtain ⟨r, hr⟩ := hA c hc
    obtain ⟨t', b, hrun, ht', hfilter, hR⟩ := ih r hr hp ht
    refine ⟨⟨c, r⟩ :: t', b, .cons r hrun, List.forall_mem_cons.mpr ⟨hr, ht'⟩, ?_, hR⟩
    rwa [List.filter_cons_of_neg (by simpa using hc)]

end Similar

/-! ## Observers -/

/-- Answer from the visible events so far, and add the event if it is visible. -/
def observer (V : I.Cmd → Prop) [DecidablePred V]
    (reply : List (Event I) → (c : I.Cmd) → I.Reply c) (seen : List (Event I)) (c : I.Cmd) :
    I.Reply c × List (Event I) :=
  (reply seen c, if V c then seen ++ [⟨c, reply seen c⟩] else seen)

/-- What an observer has seen of a program that has ended. -/
def observe (V : I.Cmd → Prop) [DecidablePred V]
    (reply : List (Event I) → (c : I.Cmd) → I.Reply c) (p : Prog I α) : List (Event I) :=
  (p.drive (observer V reply) []).2.2

theorem Similar.observe [DecidablePred V] {R : α → β → Prop} {p : Prog I α} {q : Prog I β}
    {reply : List (Event I) → (c : I.Cmd) → I.Reply c} (h : p.Similar A V R q)
    (hA : ∀ seen c, A ⟨c, reply seen c⟩) : p.observe V reply = q.observe V reply := by
  suffices hall : ∀ seen, (p.drive (observer V reply) seen).2.2
      = (q.drive (observer V reply) seen).2.2 from hall []
  induction h with
  | ret _ => exact fun _ => rfl
  | both _ ih => exact fun seen => ih _ (hA _ _) _
  | left hc _ ih =>
    intro seen
    rw [drive]
    simpa [observer, hc] using ih _ (hA seen _) seen
  | right hc _ ih =>
    intro seen
    rw [drive]
    simpa [observer, hc] using ih _ (hA seen _) seen

end Prog

/-! ## Function bodies -/

namespace Coro

/-- From locals related by `S`, the bodies issue the same visible commands and end alike, with
locals related by `S`. -/
def Similar (A : Event I → Prop) (V : I.Cmd → Prop) (S : σ → τ → Prop) (m : Coro I ε σ α)
    (m' : Coro I ε τ α) : Prop :=
  ∀ s s', S s s' → (m s).Similar A V (fun x y => x.1 = y.1 ∧ S x.2 y.2) (m' s')

namespace Similar

variable {S : σ → τ → Prop}

theorem pure {a : α} : Similar (ε := ε) A V S (Pure.pure a) (Pure.pure a) :=
  fun _ _ hs => .ret ⟨rfl, hs⟩

theorem raise {e : ε} : Similar (α := α) A V S (Coro.raise e) (Coro.raise e) :=
  fun _ _ hs => .ret ⟨rfl, hs⟩

theorem ofExcept {x : Except ε α} : Similar A V S (Coro.ofExcept x) (Coro.ofExcept x) :=
  fun _ _ hs => .ret ⟨rfl, hs⟩

theorem update {f : σ → σ} {g : τ → τ} (h : ∀ s s', S s s' → S (f s) (g s')) :
    Similar (ε := ε) A V S (Coro.update f) (Coro.update g) :=
  fun _ _ hs => .ret ⟨rfl, h _ _ hs⟩

theorem perform {c : I.Cmd} : Similar (ε := ε) A V S (Coro.perform c) (Coro.perform c) :=
  fun _ _ hs => .both fun _ _ => .ret ⟨rfl, hs⟩

theorem bind {m : Coro I ε σ α} {m' : Coro I ε τ α} {f : α → Coro I ε σ β}
    {f' : α → Coro I ε τ β} (h : Similar A V S m m') (hf : ∀ a, Similar A V S (f a) (f' a)) :
    Similar A V S (m >>= f) (m' >>= f') := by
  intro s s' hs
  refine (h s s' hs).bind ?_
  rintro ⟨r, u⟩ ⟨r', u'⟩ ⟨hr, hu⟩
  obtain rfl : r = r' := hr
  cases r with
  | error e => exact .ret ⟨rfl, hu⟩
  | ok a => exact hf a u u' hu

/-- A sequence whose first parts are similar, for any relation of what the bodies end in. -/
theorem bind_to {m : Coro I ε σ α} {m' : Coro I ε τ α} {f : α → Coro I ε σ β}
    {f' : α → Coro I ε τ γ} {R : Except ε β × σ → Except ε γ × τ → Prop}
    (h : Similar A V S m m') (hraise : ∀ e u u', S u u' → R (.error e, u) (.error e, u'))
    (hf : ∀ a u u', S u u' → (f a u).Similar A V R (f' a u')) (s : σ) (s' : τ) (hs : S s s') :
    ((m >>= f) s).Similar A V R ((m' >>= f') s') := by
  refine (h s s' hs).bind ?_
  rintro ⟨r, u⟩ ⟨r', u'⟩ ⟨hr, hu⟩
  obtain rfl : r = r' := hr
  cases r with
  | error e => exact .ret (hraise e u u' hu)
  | ok a => exact hf a u u' hu

/-- A body that reads its locals goes on as what related locals tell it. -/
theorem locals_bind {f : σ → Coro I ε σ β} {f' : τ → Coro I ε τ β}
    (h : ∀ s s', S s s' → Similar A V S (f s) (f' s')) :
    Similar A V S (Coro.locals >>= f) (Coro.locals >>= f') :=
  fun s s' hs => h s s' hs s s' hs

theorem attemptElse {m : Coro I ε σ α} {m' : Coro I ε τ α} {h : ε → Option (Coro I ε σ β)}
    {h' : ε → Option (Coro I ε τ β)} {k : α → Coro I ε σ β} {k' : α → Coro I ε τ β}
    (hm : Similar A V S m m') (hh : ∀ e, Option.Rel (Similar A V S) (h e) (h' e))
    (hk : ∀ a, Similar A V S (k a) (k' a)) :
    Similar A V S (m.attemptElse h k) (m'.attemptElse h' k') := by
  intro s s' hs
  refine (hm s s' hs).bind ?_
  rintro ⟨r, u⟩ ⟨r', u'⟩ ⟨hr, hu⟩
  obtain rfl : r = r' := hr
  cases r with
  | ok a => exact hk a u u' hu
  | error e =>
    have hclause := hh e
    dsimp only
    cases he : h e <;> cases he' : h' e <;> rw [he, he'] at hclause <;> cases hclause
    · exact .ret ⟨rfl, hu⟩
    · next hc => exact hc u u' hu

theorem attempt {m : Coro I ε σ α} {m' : Coro I ε τ α} {h : ε → Option (Coro I ε σ α)}
    {h' : ε → Option (Coro I ε τ α)} (hm : Similar A V S m m')
    (hh : ∀ e, Option.Rel (Similar A V S) (h e) (h' e)) :
    Similar A V S (m.attempt h) (m'.attempt h') :=
  hm.attemptElse hh fun _ => .pure

theorem ensure {m : Coro I ε σ α} {m' : Coro I ε τ α} {fin : Coro I ε σ Unit}
    {fin' : Coro I ε τ Unit} (hm : Similar A V S m m') (hfin : Similar A V S fin fin') :
    Similar A V S (m.ensure fin) (m'.ensure fin') := by
  intro s s' hs
  refine (hm s s' hs).bind ?_
  rintro ⟨r, u⟩ ⟨r', u'⟩ ⟨hr, hu⟩
  refine (hfin u u' hu).bind ?_
  rintro ⟨x, v⟩ ⟨x', v'⟩ ⟨hx, hv⟩
  obtain rfl : x = x' := hx
  cases x with
  | error e => exact .ret ⟨rfl, hv⟩
  | ok a => exact .ret ⟨hr, hv⟩

/-- A called function does not see the locals of its caller. -/
theorem scope {υ : Type} {s₀ : υ} {m : Coro I ε υ α} :
    Similar A V S (Coro.scope s₀ m) (Coro.scope s₀ m) :=
  fun _ _ hs => (Prog.Similar.refl (R := Eq) (fun _ => rfl) (m s₀)).bind fun _ _ h =>
    .ret ⟨congrArg Prod.fst h, hs⟩

theorem ite {c : Prop} [Decidable c] {m n : Coro I ε σ α} {m' n' : Coro I ε τ α}
    (h : c → Similar A V S m m') (h' : ¬ c → Similar A V S n n') :
    Similar A V S (if c then m else n) (if c then m' else n') := by
  split
  · exact h ‹_›
  · exact h' ‹_›

theorem silent {m : Coro I ε σ α} {m' : Coro I ε τ α} (hm : m.Only fun c => ¬ V c)
    (hm' : m'.Only fun c => ¬ V c)
    (h : ∀ s s', S s s' → m.wp A s fun _ r u => m'.wp A s' fun _ r' u' => r = r' ∧ S u u') :
    Similar A V S m m' :=
  fun s s' hs => .silent (hm s) (hm' s') (h s s' hs)

end Similar

end Coro

end Coroutine
