import LlmGateway.Coroutine.Footprint

/-!
# Programs over two interfaces

A program that issues the commands of two interfaces calls programs that issue those of one. What is
known of the part is known of the call: `Coro.wp_inr` turns a statement about the one into a statement
about the other.
-/

namespace Coroutine

variable {I J : Interface} {ε ε' σ τ α β : Type}

/-- The commands of both interfaces. -/
def Interface.sum (I J : Interface) : Interface where
  Cmd := I.Cmd ⊕ J.Cmd
  Reply := Sum.elim I.Reply J.Reply
  suspends := Sum.elim I.suspends J.suspends

namespace Event

/-- An event of the first interface. -/
def inl (e : Event I) : Event (I.sum J) := ⟨.inl e.cmd, e.reply⟩

/-- An event of the second interface. -/
def inr (e : Event J) : Event (I.sum J) := ⟨.inr e.cmd, e.reply⟩

/-- The event, if it is one of the second interface. -/
def right? : Event (I.sum J) → Option (Event J)
  | ⟨.inl _, _⟩ => none
  | ⟨.inr c, r⟩ => some ⟨c, r⟩

@[simp] theorem right?_inr (e : Event J) : (e.inr : Event (I.sum J)).right? = some e := rfl

@[simp] theorem right?_eq_some_iff {e : Event (I.sum J)} {e' : Event J} :
    e.right? = some e' ↔ e = e'.inr := by
  constructor
  · intro h
    obtain ⟨_ | c, r⟩ := e
    · cases h
    · cases h
      rfl
  · rintro rfl
    rfl

end Event

/-- The events of the second interface. -/
def rights (t : List (Event (I.sum J))) : List (Event J) := t.filterMap Event.right?

@[simp] theorem rights_nil : rights ([] : List (Event (I.sum J))) = [] := rfl

@[simp] theorem rights_append (t t' : List (Event (I.sum J))) :
    rights (t ++ t') = rights t ++ rights t' := List.filterMap_append ..

@[simp] theorem rights_map_inr (t : List (Event J)) :
    rights (t.map Event.inr : List (Event (I.sum J))) = t := by
  rw [rights, List.filterMap_map]
  exact List.filterMap_some

@[simp] theorem mem_rights {t : List (Event (I.sum J))} {e : Event J} :
    e ∈ rights t ↔ e.inr ∈ t := by
  simp [rights]

namespace Prog

/-- A program of the second interface. -/
def inr : Prog J α → Prog (I.sum J) α
  | .ret a => .ret a
  | .call c k => .call (I := I.sum J) (.inr c) fun r => (k r).inr

theorem wp_inr {A : Event (I.sum J) → Prop} {p : Prog J α}
    {Q : List (Event (I.sum J)) → α → Prop} :
    (p.inr : Prog (I.sum J) α).wp A Q ↔ p.wp (fun e => A e.inr) fun t a => Q (t.map Event.inr) a := by
  induction p generalizing Q with
  | ret a => exact Iff.rfl
  | call c k ih => exact forall_congr' fun r => imp_congr_right fun _ => ih r

end Prog

namespace Coro

/-- Call a function of the second interface. What it raises is renamed by `f`. -/
def inr (f : ε → ε') (m : Coro J ε σ α) : Coro (I.sum J) ε' σ α := fun s =>
  (m s).inr.bind fun x => .ret (x.1.mapError f, x.2)

theorem wp_inr {A : Event (I.sum J) → Prop} {f : ε → ε'} {m : Coro J ε σ α} {s : σ}
    {Q : List (Event (I.sum J)) → Except ε' α → σ → Prop} :
    (m.inr f : Coro (I.sum J) ε' σ α).wp A s Q ↔
      m.wp (fun e => A e.inr) s fun t r s' => Q (t.map Event.inr) (r.mapError f) s' := by
  rw [wp, inr, Prog.wp_bind, Prog.wp_inr, wp]
  simp only [Prog.wp, List.append_nil]

end Coro

end Coroutine
