import LlmGateway.Budget.ProviderBudget
import LlmGateway.Gateway.Redis

/-!
# The calls on a provider's ledger, turn by turn

`reserve`, `settle` and `record_unreserved` on one billable provider, while no Redis command fails.
Each Redis command and what the call derives from its reply are one turn on the event loop: a
refused `reserve` takes two, for its claim and for its hand-back.

`Stage` says which traces a call has between turns and `Turn` what a turn adds to one.
-/

namespace LlmGateway.ProviderBudget

open Coroutine

/-- A call on the ledger of a provider. -/
inductive Use where
  | reserve (worstCaseUsd : ℚ)
  | settle (reservedUsd actualUsd : ℚ)
  | recordUnreserved (actualUsd : ℚ)

/-- The call, made. -/
def Use.run (capUsd : ℚ) (provider : String) : Use → Py Unit Unit
  | .reserve w => ProviderBudget.reserve capUsd provider w
  | .settle r a => ProviderBudget.settle capUsd provider r a
  | .recordUnreserved a => ProviderBudget.recordUnreserved capUsd provider a

/-- The call claims nothing. -/
def Use.Charges : Use → Prop
  | .reserve _ => False
  | _ => True

/-- What a finished call gave. -/
abbrev Given : Type := Option (Except Exc Unit × Unit)

/-- The refusal of a claim that was told `total`. -/
def refusal (capUsd : ℚ) (provider : String) (w total : ℚ) : Exc :=
  .exception (.providerBudgetExhausted provider (total - w) capUsd)

/-- An answered increment and the publication of a total. -/
def writing (capUsd : ℚ) (provider : String) (d total shown : ℚ) : List Ev :=
  ⟨.incrbyfloat (key provider) d, .ok total⟩ :: published capUsd provider shown

/-- What a call has done, and given, between turns. -/
inductive Stage (capUsd : ℚ) (provider : String) : Use → List Ev → Given → Prop
  | start (u : Use) : Stage capUsd provider u [] none
  | exempt {w : ℚ} (hw : w ≤ 0) : Stage capUsd provider (.reserve w) [] (some (.ok (), ()))
  | claimed {w total : ℚ} (hw : 0 < w) (h : capUsd < total) :
      Stage capUsd provider (.reserve w) [⟨.incrbyfloat (key provider) w, .ok total⟩] none
  | admitted {w total : ℚ} (hw : 0 < w) (h : total ≤ capUsd) :
      Stage capUsd provider (.reserve w) (writing capUsd provider w total total)
        (some (.ok (), ()))
  | refused {w total total' : ℚ} (hw : 0 < w) (h : capUsd < total) :
      Stage capUsd provider (.reserve w)
        (⟨.incrbyfloat (key provider) w, .ok total⟩ ::
          writing capUsd provider (-w) total' (total - w))
        (some (.error (refusal capUsd provider w total), ()))
  | logged {u : Use} {c : Call} (o : Given) (hu : u.Charges) :
      Stage capUsd provider u [⟨.log c, ()⟩] o
  | charged {u : Use} {c : Call} {d total : ℚ} (hu : u.Charges) :
      Stage capUsd provider u (⟨.log c, ()⟩ :: writing capUsd provider d total total)
        (some (.ok (), ()))

/-- What a turn adds to the trace of a call, and what the call has given after it. -/
inductive Turn (capUsd : ℚ) (provider : String) : Use → List Ev → List Ev → Given → Prop
  | log {u : Use} (c : Call) (o : Given) (hu : u.Charges) :
      Turn capUsd provider u [] [⟨.log c, ()⟩] o
  | accept {w total : ℚ} (hw : 0 < w) (h : total ≤ capUsd) :
      Turn capUsd provider (.reserve w) [] (writing capUsd provider w total total)
        (some (.ok (), ()))
  | claim {w total : ℚ} (hw : 0 < w) (h : capUsd < total) :
      Turn capUsd provider (.reserve w) [] [⟨.incrbyfloat (key provider) w, .ok total⟩] none
  | handBack {w total total' : ℚ} (hw : 0 < w) (h : capUsd < total) :
      Turn capUsd provider (.reserve w) [⟨.incrbyfloat (key provider) w, .ok total⟩]
        (writing capUsd provider (-w) total' (total - w))
        (some (.error (refusal capUsd provider w total), ()))
  | charge {u : Use} {c : Call} {d total : ℚ} (hu : u.Charges) :
      Turn capUsd provider u [⟨.log c, ()⟩] (writing capUsd provider d total total)
        (some (.ok (), ()))

variable {capUsd : ℚ} {provider : String}

theorem healthy_of_sound (e : Ev) (h : Sound e) : Healthy e := h.1

theorem stages_reserve (hp : provider ∉ FREE_PROVIDERS) (w : ℚ) :
    (reserve capUsd provider w).stages Sound () (Stage capUsd provider (.reserve w)) := by
  by_cases hw : w ≤ 0
  · rw [reserve, if_pos (.inr hw)]
    exact .exempt hw
  rw [not_le] at hw
  rw [reserve, if_neg (by simp [hp, hw]), Coro.stages_bind, stages_incrbyfloat_iff]
  refine ⟨.start _, fun r hr => ?_⟩
  cases r with
  | failed e a => cases hr.2
  | ok total =>
    dsimp only [Sent.toExcept]
    rw [Coro.stages_ite]
    refine ⟨fun hle => stages_publish healthy_of_sound (.admitted hw hle), fun hle => ?_⟩
    rw [not_le] at hle
    rw [Coro.stages_bind, tryExceptElse, Coro.stages_attemptElse, stages_incrbyfloat_iff]
    refine ⟨.claimed hw hle, fun r hr => ?_⟩
    cases r with
    | failed e a => cases hr.2
    | ok total' =>
      refine stages_publish healthy_of_sound (Coro.stages_raise.mpr ?_)
      rw [List.append_nil]
      exact .refused hw hle

theorem stages_charge {u : Use} (hu : u.Charges) (c : Call) (d : ℚ) :
    (incrbyfloat (key provider) d >>= publish capUsd provider : Py Unit Unit).stages Sound ()
      fun t o => Stage capUsd provider u (⟨.log c, ()⟩ :: t) o := by
  rw [Coro.stages_bind, stages_incrbyfloat_iff]
  refine ⟨.logged none hu, fun r hr => ?_⟩
  cases r with
  | failed e a => cases hr.2
  | ok total => exact stages_publish healthy_of_sound (.charged hu)

theorem stages_use (hp : provider ∉ FREE_PROVIDERS) (u : Use) :
    (u.run capUsd provider).stages Sound () (Stage capUsd provider u) := by
  cases u with
  | reserve w => exact stages_reserve hp w
  | settle r a =>
    rw [Use.run, settle, Coro.stages_bind, stages_log_iff]
    intro _
    dsimp only
    rw [if_neg hp, Coro.stages_ite]
    exact ⟨fun _ => .logged _ trivial, fun _ => stages_charge (by trivial) _ _⟩
  | recordUnreserved a =>
    rw [Use.run, recordUnreserved, Coro.stages_bind, stages_log_iff]
    intro _
    dsimp only
    rw [Coro.stages_ite]
    exact ⟨fun _ => .logged _ trivial, fun _ => stages_charge (by trivial) _ _⟩

/-! ## The turns -/

/-- A call takes one of the turns listed. -/
theorem turn_of_slice {u : Use} {p q : Prog gateway (Except Exc Unit × Unit)} {h t : List Ev}
    (hbefore : Stage capUsd provider u h p.value?)
    (hafter : Stage capUsd provider u (h ++ t) q.value?) (hs : Slice p t q) :
    Turn capUsd provider u h t q.value? := by
  obtain ⟨e, t', rfl, hsync⟩ := hs.sync_tail
  rw [hs.value?_eq_none] at hbefore
  generalize q.value? = o at hafter ⊢
  generalize hh : h ++ e :: t' = h' at hafter
  cases hbefore with
  | start u =>
    rw [List.nil_append] at hh
    cases hafter with
    | start | exempt => cases hh
    | claimed hw hle =>
      rw [hh]
      exact .claim hw hle
    | admitted hw hle =>
      rw [hh]
      exact .accept hw hle
    | logged o hu =>
      rw [hh]
      exact .log _ _ hu
    -- what is waited for is not part of the turn that waits for it
    | refused | charged =>
      obtain ⟨-, rfl⟩ := List.cons_eq_cons.mp hh
      exact absurd (hsync _ List.mem_cons_self) (by simp [suspends])
  | claimed hw hle =>
    rw [List.singleton_append] at hh
    cases hafter with
    | start | exempt | claimed => cases hh
    | admitted _ hle' =>
      obtain ⟨hclaim, -⟩ := List.cons_eq_cons.mp hh
      cases hclaim
      exact absurd hle' hle.not_ge
    | refused =>
      obtain ⟨hclaim, hrest⟩ := List.cons_eq_cons.mp hh
      cases hclaim
      rw [hrest]
      exact .handBack hw hle
    | logged _ hu | charged hu => cases hu
  | logged _ hu =>
    rw [List.singleton_append] at hh
    cases hafter with
    | start | exempt | claimed | admitted | refused | logged => cases hh
    | charged hu =>
      obtain ⟨-, hrest⟩ := List.cons_eq_cons.mp hh
      rw [hrest]
      exact .charge hu

section Pool

variable {ι : Type} [DecidableEq ι] {W : World gateway} {w₀ w : W.State} {uses : ι → Use}
  {P : Pool W ι (Except Exc Unit × Unit)}

/-- The calls, not started. -/
def opening (W : World gateway) (capUsd : ℚ) (provider : String) (uses : ι → Use) (w₀ : W.State) :
    Pool W ι (Except Exc Unit × Unit) :=
  Pool.start w₀ fun i => (uses i).run capUsd provider ()

theorem reaches_stage (hp : provider ∉ FREE_PROVIDERS)
    (hW : ∀ w e w', W.answers w e w' → Sound e)
    (h : (opening W capUsd provider uses w₀).Reaches P) (i : ι) :
    Stage capUsd provider (uses i) (P.hist i) (P.prog i).value? :=
  h.stages hW (stages_use hp _) (.start _)

theorem reaches_turn (hp : provider ∉ FREE_PROVIDERS)
    (hW : ∀ w e w', W.answers w e w' → Sound e)
    (h : (opening W capUsd provider uses w₀).Reaches P) {i : ι} {t : List Ev}
    {q : Prog gateway (Except Exc Unit × Unit)} (hs : Slice (P.prog i) t q)
    (hw : W.Evolves P.world t w) :
    Turn capUsd provider (uses i) (P.hist i) t q.value? := by
  refine turn_of_slice (reaches_stage hp hW h i) ?_ hs
  simpa [Pool.turn] using reaches_stage hp hW (h.tail (.turn hs hw)) i

end Pool

end LlmGateway.ProviderBudget
