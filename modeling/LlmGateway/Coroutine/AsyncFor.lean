import LlmGateway.Coroutine.Coro

/-!
# Loops over a generator

`forEach em body p` is `async for x in p: body x` as one program: the generator `p` runs up to the
next value it hands on, the body runs on that value, and the generator goes on. `em` says which
commands hand on a value.

`Runs.forEach_cases` takes a run of such a loop apart. What the generator did and what the body did
are merged in its trace, and the body ran in a plain loop over the values that were handed on. So a
statement about loops over lists is one about loops over generators.

`Covers` lets a statement of that form climb out of the function the loop stands in.
-/

namespace Coroutine

variable {I : Interface} {ε σ τ α β ι X : Type}

/-! ## Merged traces -/

/-- `t` is `l` and `r` merged: both are in it, in order, and nothing else is. -/
inductive Merge : List α → List α → List α → Prop
  | nil : Merge [] [] []
  | left {a : α} {t l r : List α} (h : Merge t l r) : Merge (a :: t) (a :: l) r
  | right {a : α} {t l r : List α} (h : Merge t l r) : Merge (a :: t) l (a :: r)

namespace Merge

variable {t t' l l' r r' : List α}

theorem of_left : (l : List α) → Merge l l []
  | [] => .nil
  | _ :: l => .left (of_left l)

theorem append (h : Merge t l r) (h' : Merge t' l' r') : Merge (t ++ t') (l ++ l') (r ++ r') := by
  induction h with
  | nil => exact h'
  | left _ ih => exact .left ih
  | right _ ih => exact .right ih

theorem mem_iff (h : Merge t l r) {a : α} : a ∈ t ↔ a ∈ l ∨ a ∈ r := by
  induction h with
  | nil => simp
  | left _ ih => rw [List.mem_cons, List.mem_cons, ih, or_assoc]
  | right _ ih => rw [List.mem_cons, List.mem_cons, ih, or_left_comm]

/-- What is read off one side only is what is read off the whole. -/
theorem filterMap_left {f : α → Option β} (h : Merge t l r) (hr : ∀ a ∈ r, f a = none) :
    t.filterMap f = l.filterMap f := by
  induction h with
  | nil => rfl
  | left _ ih => rw [List.filterMap_cons, List.filterMap_cons, ih hr]
  | right _ ih =>
    obtain ⟨ha, hr⟩ := List.forall_mem_cons.mp hr
    rw [List.filterMap_cons_none ha, ih hr]

theorem filterMap_right {f : α → Option β} (h : Merge t l r) (hl : ∀ a ∈ l, f a = none) :
    t.filterMap f = r.filterMap f := by
  induction h with
  | nil => rfl
  | left _ ih =>
    obtain ⟨ha, hl⟩ := List.forall_mem_cons.mp hl
    rw [List.filterMap_cons_none ha, ih hl]
  | right _ ih => rw [List.filterMap_cons, List.filterMap_cons, ih hl]

theorem tally {M : Type} [AddCommMonoid M] {f : Event I → M} {t l r : List (Event I)}
    (h : Merge t l r) : tally f t = Coroutine.tally f l + Coroutine.tally f r := by
  induction h with
  | nil => simp
  | left _ ih => rw [tally_cons, tally_cons, ih, add_assoc]
  | right _ ih => rw [tally_cons, tally_cons, ih, add_left_comm]

end Merge

/-! ## What entries rest on -/

/-- Each entry of a list is allowed by what those before it have put down: `f` is what an entry puts
down, and `bs` what was there before. -/
def Backed (f : α → List β) (B : List β → α → Prop) : List β → List α → Prop
  | _, [] => True
  | bs, a :: t => B bs a ∧ Backed f B (bs ++ f a) t

section Backed

variable {f : α → List β} {B : List β → α → Prop} {bs bs' : List β} {t t' l r : List α}

theorem backed_append :
    Backed f B bs (t ++ t') ↔ Backed f B bs t ∧ Backed f B (bs ++ t.flatMap f) t' := by
  induction t generalizing bs with
  | nil => simp [Backed]
  | cons a t ih =>
    rw [List.cons_append, Backed, Backed, ih, and_assoc, List.flatMap_cons, List.append_assoc]

/-- What was there before is enough for each entry. -/
theorem backed_of_forall (h : ∀ a ∈ t, ∀ bs', bs ⊆ bs' → B bs' a) : Backed f B bs t := by
  induction t generalizing bs with
  | nil => trivial
  | cons a t ih =>
    obtain ⟨ha, ht⟩ := List.forall_mem_cons.mp h
    refine ⟨ha bs (List.Subset.refl bs), ih fun b hb bs' hbs => ht b hb bs' ?_⟩
    exact List.Subset.trans (List.subset_append_left bs (f a)) hbs

theorem Backed.imp {B' : List β → α → Prop} (h : Backed f B bs t)
    (hB : ∀ bs a, B bs a → B' bs a) : Backed f B' bs t := by
  induction t generalizing bs with
  | nil => trivial
  | cons a t ih => exact ⟨hB _ _ h.1, ih h.2⟩

/-- Each entry is allowed by what the part of the list before it has put down. -/
theorem Backed.of_split {t₁ t₂ : List α} {a : α} (h : Backed f B bs (t₁ ++ a :: t₂)) :
    B (bs ++ t₁.flatMap f) a :=
  (backed_append.mp h).2.1

/-- Entries that put nothing down and are always allowed can be merged in or left out. -/
theorem Merge.backed_iff (h : Merge t l r) (hr : ∀ a ∈ r, f a = [] ∧ ∀ bs, B bs a) :
    Backed f B bs t ↔ Backed f B bs l := by
  induction h generalizing bs with
  | nil => exact Iff.rfl
  | left _ ih => exact and_congr_right fun _ => ih hr
  | right _ ih =>
    obtain ⟨⟨hnil, ha⟩, hr⟩ := List.forall_mem_cons.mp hr
    rw [Backed, hnil, List.append_nil, and_iff_right (ha bs), ih hr]

end Backed

/-! ## Generators -/

/-- The commands of `I` with which a generator hands on a value, and the reply that lets it go on.
-/
abbrev Emission (I : Interface) (X : Type) : Type := (c : I.Cmd) → Option (X × I.Reply c)

/-- `p` hands on the values `xs` and is then at `q`; `t` is what it did besides. -/
inductive Generates (em : Emission I X) : Prog I α → List (Event I) → List X → Prog I α → Prop
  | nil (p : Prog I α) : Generates em p [] [] p
  | call {c : I.Cmd} {k : I.Reply c → Prog I α} {t : List (Event I)} {xs : List X} {q : Prog I α}
      (hc : em c = none) (r : I.Reply c) (h : Generates em (k r) t xs q) :
      Generates em (.call c k) (⟨c, r⟩ :: t) xs q
  | emit {c : I.Cmd} {k : I.Reply c → Prog I α} {t : List (Event I)} {x : X} {r : I.Reply c}
      {xs : List X} {q : Prog I α} (hc : em c = some (x, r)) (h : Generates em (k r) t xs q) :
      Generates em (.call c k) t (x :: xs) q

/-- The value an event handed on. -/
def Emission.value? (em : Emission I X) (e : Event I) : Option X := (em e.cmd).map Prod.fst

namespace Generates

variable {em : Emission I X} {p q : Prog I α} {t : List (Event I)} {xs : List X}

/-- What a generator hands on and what it does besides make up one of its runs. -/
theorem run (h : Generates em p t xs q) :
    ∃ t', Prog.Run p t' q ∧ t'.filterMap em.value? = xs ∧
      ∃ u, Merge t' t u ∧ ∀ e ∈ u, ∃ x, em e.cmd = some (x, e.reply) := by
  induction h with
  | nil p => exact ⟨[], .nil p, rfl, [], .nil, by simp⟩
  | @call c k t xs q hc r _ ih =>
    obtain ⟨t', hrun, hxs, u, hmerge, hu⟩ := ih
    have hnone : em.value? ⟨c, r⟩ = none := by rw [Emission.value?, hc, Option.map_none]
    exact ⟨_, .cons r hrun, by rw [List.filterMap_cons_none hnone, hxs], u, .left hmerge, hu⟩
  | @emit c k t x r xs q hc _ ih =>
    obtain ⟨t', hrun, hxs, u, hmerge, hu⟩ := ih
    have hsome : em.value? ⟨c, r⟩ = some x := by rw [Emission.value?, hc, Option.map_some]
    exact ⟨_, .cons r hrun, by rw [List.filterMap_cons_some hsome, hxs], ⟨c, r⟩ :: u,
      .right hmerge, List.forall_mem_cons.mpr ⟨⟨x, hc⟩, hu⟩⟩

end Generates

/-! ## Loops -/

namespace Coro

/-- `async for x in p: body x`. What `p` raises leaves the loop, and a generator that the body has
raised in is not asked again. -/
def forEach (em : Emission I X) (body : X → Coro I ε σ Unit) :
    Prog I (Except ε Unit × τ) → Coro I ε σ Unit
  | .ret x => ofExcept x.1
  | .call c k =>
    match em c with
    | some (x, r) => do
      body x
      forEach em body (k r)
    | none => do
      let r ← perform c
      forEach em body (k r)

/-- The same loop over a list, ended by `ending`. -/
def forList (body : X → Coro I ε σ Unit) (ending : Except ε Unit) : List X → Coro I ε σ Unit
  | [] => ofExcept ending
  | x :: xs => do
    body x
    forList body ending xs

theorem Runs.bind_ok {m : Coro I ε σ α} {f : α → Coro I ε σ β} {s s₁ s' : σ}
    {t t' : List (Event I)} {a : α} {r : Except ε β} (h : Runs m s t (.ok a) s₁)
    (hf : Runs (f a) s₁ t' r s') : Runs (m >>= f) s (t ++ t') r s' :=
  Prog.Returns.bind_iff.mpr ⟨t, (.ok a, s₁), t', rfl, h, hf⟩

theorem Runs.bind_error {m : Coro I ε σ α} {f : α → Coro I ε σ β} {s s' : σ}
    {t : List (Event I)} {e : ε} (h : Runs m s t (.error e) s') :
    Runs (m >>= f) s t (.error e) s' :=
  Prog.Returns.bind_iff.mpr ⟨t, (.error e, s'), [], (List.append_nil t).symm, h, .nil _⟩

/-- A run of a loop over a generator is a run of the generator merged with one of the loop over the
values it handed on. That loop ends as the generator did, or the body raised in it before. -/
theorem Runs.forEach_cases {em : Emission I X} {body : X → Coro I ε σ Unit}
    {p : Prog I (Except ε Unit × τ)} {s s' : σ} {t : List (Event I)} {r : Except ε Unit}
    (h : Runs (forEach em body p) s t r s') :
    ∃ tb tg xs q, Merge t tb tg ∧ Generates em p tg xs q ∧
      ((∃ ending u, q = .ret (ending, u) ∧ Runs (forList body ending xs) s tb r s') ∨
        (∃ e, r = .error e) ∧ ∀ ending, Runs (forList body ending xs) s tb r s') := by
  induction p generalizing s t with
  | ret x =>
    obtain ⟨rfl, hr⟩ := Prog.Returns.ret_iff.mp h
    obtain ⟨rfl, rfl⟩ := Prod.mk.inj hr
    exact ⟨[], [], [], _, .nil, .nil _, .inl ⟨x.1, x.2, rfl, .nil _⟩⟩
  | call c k ih =>
    rw [forEach] at h
    rcases hc : em c with _ | ⟨x, r₀⟩
    · rw [hc] at h
      obtain ⟨r', t', rfl, hrest⟩ := Prog.Returns.call_iff.mp h
      obtain ⟨tb, tg, xs, q, hmerge, hgen, hloop⟩ := ih r' hrest
      exact ⟨tb, ⟨c, r'⟩ :: tg, xs, q, .right hmerge, .call hc r' hgen, hloop⟩
    · rw [hc] at h
      rcases h.bind_cases with ⟨e, rfl, hbody⟩ | ⟨t₁, ⟨⟩, s₁, t₂, rfl, hbody, hrest⟩
      -- the generator stays where it is
      · exact ⟨t, [], [x], k r₀, .of_left t, .emit hc (.nil _),
          .inr ⟨⟨e, rfl⟩, fun _ => hbody.bind_error⟩⟩
      · obtain ⟨tb, tg, xs, q, hmerge, hgen, hloop⟩ := ih r₀ hrest
        refine ⟨t₁ ++ tb, tg, x :: xs, q, (Merge.of_left t₁).append hmerge, .emit hc hgen, ?_⟩
        rcases hloop with ⟨ending, u, rfl, hloop⟩ | ⟨hr, hloop⟩
        · exact .inl ⟨ending, u, rfl, hbody.bind_ok hloop⟩
        · exact .inr ⟨hr, fun ending => hbody.bind_ok (hloop ending)⟩

end Coro

/-! ## Runs that are covered -/

/-- A relation of traces, for a choice `i`, that what goes before and after does not disturb. -/
structure Framed (R : ι → List (Event I) → List (Event I) → Prop) : Prop where
  refl : ∃ i, ∀ t, R i t t
  prepend : ∀ i t t' u, R i t t' → R i (u ++ t) (u ++ t')
  append : ∀ i t t' u, R i t t' → R i (t ++ u) (t' ++ u)

variable {R : ι → List (Event I) → List (Event I) → Prop}

namespace Prog

/-- Every complete run of `p` goes with one of a member of the family `P` that returns the same; `R`
relates the two traces. -/
def Covers (R : ι → List (Event I) → List (Event I) → Prop) (p : Prog I α) (P : ι → Prog I α) :
    Prop :=
  ∀ t a, Returns p t a → ∃ i t', Returns (P i) t' a ∧ R i t t'

namespace Covers

theorem refl (hR : Framed R) (p : Prog I α) : Covers R p fun _ => p := by
  intro t a h
  obtain ⟨i, hi⟩ := hR.refl
  exact ⟨i, t, h, hi t⟩

/-- What follows is the same on both sides. -/
theorem bind (hR : Framed R) {p : Prog I α} {P : ι → Prog I α} (h : Covers R p P)
    (f : α → Prog I β) : Covers R (p.bind f) fun i => (P i).bind f := by
  intro t b hb
  obtain ⟨t₁, a, t₂, rfl, h₁, h₂⟩ := Returns.bind_iff.mp hb
  obtain ⟨i, t', hP, hi⟩ := h t₁ a h₁
  exact ⟨i, t' ++ t₂, Returns.bind_iff.mpr ⟨t', a, t₂, rfl, hP, h₂⟩, hR.append i _ _ _ hi⟩

/-- What goes before is the same on both sides. -/
theorem bind_right (hR : Framed R) {p : Prog I α} {f : α → Prog I β} {F : ι → α → Prog I β}
    (h : ∀ a, Covers R (f a) fun i => F i a) : Covers R (p.bind f) fun i => p.bind (F i) := by
  intro t b hb
  obtain ⟨t₁, a, t₂, rfl, h₁, h₂⟩ := Returns.bind_iff.mp hb
  obtain ⟨i, t', hF, hi⟩ := h a t₂ b h₂
  exact ⟨i, t₁ ++ t', Returns.bind_iff.mpr ⟨t₁, a, t', rfl, h₁, hF⟩, hR.prepend i _ _ _ hi⟩

end Covers

end Prog

namespace Coro

/-- Every run of `m` goes with one of a member of the family `M` that ends alike; `R` relates the two
traces. -/
def Covers (R : ι → List (Event I) → List (Event I) → Prop) (m : Coro I ε σ α)
    (M : ι → Coro I ε σ α) : Prop :=
  ∀ s, Prog.Covers R (m s) fun i => M i s

namespace Covers

variable {m : Coro I ε σ α} {M : ι → Coro I ε σ α}

theorem exists_run (h : Covers R m M) {s s' : σ} {t : List (Event I)} {r : Except ε α}
    (hr : Runs m s t r s') : ∃ i t', Runs (M i) s t' r s' ∧ R i t t' := h s t (r, s') hr

theorem refl (hR : Framed R) (m : Coro I ε σ α) : Covers R m fun _ => m := fun s =>
  .refl hR (m s)

theorem bind (hR : Framed R) (h : Covers R m M) (f : α → Coro I ε σ β) :
    Covers R (m >>= f) fun i => M i >>= f := fun s => (h s).bind hR _

theorem bind_right (hR : Framed R) {f : α → Coro I ε σ β} {F : ι → α → Coro I ε σ β}
    (h : ∀ a, Covers R (f a) fun i => F i a) : Covers R (m >>= f) fun i => m >>= F i := by
  refine fun s => .bind_right hR fun x => ?_
  rcases x with ⟨e | a, s'⟩
  · exact .refl hR _
  · exact h a s'

theorem attempt (hR : Framed R) (h : Covers R m M) (g : ε → Option (Coro I ε σ α)) :
    Covers R (m.attempt g) fun i => (M i).attempt g := fun s => (h s).bind hR _

theorem ensure (hR : Framed R) (h : Covers R m M) (fin : Coro I ε σ Unit) :
    Covers R (m.ensure fin) fun i => (M i).ensure fin := fun s => (h s).bind hR _

theorem ite {c : Prop} [Decidable c] {n : Coro I ε σ α} {N : ι → Coro I ε σ α}
    (h : c → Covers R m M) (h' : ¬ c → Covers R n N) :
    Covers R (if c then m else n) fun i => if c then M i else N i := by
  by_cases hc : c
  · simpa only [if_pos hc] using h hc
  · simpa only [if_neg hc] using h' hc

end Covers

end Coro

end Coroutine
