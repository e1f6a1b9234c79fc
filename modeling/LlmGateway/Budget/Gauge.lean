import LlmGateway.Budget.Turns

/-!
# The gauges of a provider's ledger

Every write publishes a total on two gauges, and the alerts read those. While nothing fails, a total
that was just read is the one the ledger stands at. The exception is a refused claim: what its
hand-back publishes was computed from the reply to the claim, and by then others may have written.
-/

namespace LlmGateway

open Coroutine ProviderBudget

/-- The series of the two gauges that have been set. -/
structure Gauges where
  spent : String → Option ℚ
  remaining : String → Option ℚ

/-- The gauges after an event. -/
def Gauges.after (g : Gauges) : Ev → Gauges
  | ⟨.metric (.providerBudgetSpent p v), .ok _⟩ =>
    { g with spent := Function.update g.spent p (some v) }
  | ⟨.metric (.providerBudgetRemaining p v), .ok _⟩ =>
    { g with remaining := Function.update g.remaining p (some v) }
  | _ => g

/-- Redis, and the metrics registry of one process, while nothing fails. -/
def monitored : World gateway where
  State := Ledgers × Gauges
  answers S e S' := (redis Sound).answers S.1 e S'.1 ∧ S'.2 = S.2.after e

/-- The gauges show what the ledger of the provider stands at. -/
def Shows (capUsd : ℚ) (provider : String) (S : Ledgers × Gauges) : Prop :=
  S.2.spent provider = some (S.1 (key provider)) ∧
    S.2.remaining provider = some (max 0 (capUsd - S.1 (key provider)))

variable {capUsd : ℚ} {provider : String} {S S' : Ledgers × Gauges} {t : List Ev}

theorem monitored_sound : ∀ S e S', monitored.answers S e S' → Sound e :=
  fun _ _ _ h => redis_admits _ _ _ h.1

theorem evolves_monitored {S S' : monitored.State} (h : monitored.Evolves S t S') :
    (redis Sound).Evolves S.1 t S'.1 ∧ S'.2 = t.foldl Gauges.after S.2 := by
  induction t generalizing S with
  | nil =>
    obtain rfl := World.Evolves.nil_iff.mp h
    exact ⟨.nil _, rfl⟩
  | cons e t ih =>
    obtain ⟨S₁, ⟨hledger, hgauges⟩, hrest⟩ := World.Evolves.cons_iff.mp h
    obtain ⟨hledger', hgauges'⟩ := ih hrest
    exact ⟨.cons hledger hledger', by rw [hgauges', hgauges, List.foldl_cons]⟩

theorem foldl_published (hp : provider ∉ FREE_PROVIDERS) {g : Gauges} {shown : ℚ} :
    (published capUsd provider shown).foldl Gauges.after g =
      { spent := Function.update g.spent provider (some shown),
        remaining := Function.update g.remaining provider (some (max 0 (capUsd - shown))) } := by
  rw [published, if_neg hp]
  rfl

/-- After a write the gauges show the total that was published, and the ledger stands at the one
that was replied. -/
theorem evolves_writing (hp : provider ∉ FREE_PROVIDERS) {S S' : monitored.State}
    {d total shown : ℚ}
    (h : monitored.Evolves S (writing capUsd provider d total shown) S') (hshown : shown = total) :
    Shows capUsd provider S' := by
  obtain ⟨hledger, hgauges⟩ := evolves_monitored h
  have htotal : S'.1 (key provider) = total := evolves_claim hledger (published_still shown)
  have hafter : S'.2 = (published capUsd provider shown).foldl Gauges.after S.2 := hgauges
  rw [foldl_published hp, hshown, ← htotal] at hafter
  unfold Shows
  rw [hafter]
  exact ⟨Function.update_self _ _ _, Function.update_self _ _ _⟩

/-- The total a claim was told that has not been handed back yet. -/
def claimTold : List Ev → Option ℚ
  | [⟨.incrbyfloat _ _, .ok total⟩] => some total
  | _ => none

/-- Whether an event writes the ledger. -/
def writes : Ev → Bool
  | ⟨.incrbyfloat _ _, _⟩ => true
  | _ => false

section Pool

variable {ι : Type} [DecidableEq ι] {uses : ι → Use} {S₀ : monitored.State}
  {P : Pool monitored ι (Except Exc Unit × Unit)}

/-- When it is for a hand-back, the ledger still stands at the total its claim was told. -/
def Unmoved (provider : String) (P : Pool monitored ι (Except Exc Unit × Unit)) (i : ι) :
    Prop :=
  ∀ total ∈ claimTold (P.hist i), Prod.fst P.world (key provider) = total

/-- No call is in progress. -/
def AtRest (P : Pool monitored ι (Except Exc Unit × Unit)) : Prop :=
  ∀ i, P.hist i = [] ∨ (P.prog i).value?.isSome

/-- The gauges are right, as soon as something has been written and nothing is to be handed back. -/
def Followed (capUsd : ℚ) (provider : String) (P : Pool monitored ι (Except Exc Unit × Unit)) :
    Prop :=
  (∀ i, ∀ e ∈ P.hist i, writes e = false) ∨ (∃ i, claimTold (P.hist i) ≠ none) ∨
    Shows capUsd provider P.world

theorem followed_turn (hp : provider ∉ FREE_PROVIDERS) {i : ι} {q : Prog gateway _}
    {S : monitored.State} (hJ : Followed capUsd provider P) (hC : Unmoved provider P i)
    {u : Use} {o : Given} (hturn : Turn capUsd provider u (P.hist i) t o)
    (hw : monitored.Evolves P.world t S) : Followed capUsd provider (P.turn i t q S) := by
  have hhist : (P.turn i t q S).hist i = P.hist i ++ t := Function.update_self _ _ _
  have hother : ∀ j, j ≠ i → (P.turn i t q S).hist j = P.hist j := fun j hj =>
    Function.update_of_ne hj _ _
  generalize hbefore : P.hist i = h at hturn hhist
  cases hturn with
  | accept | charge => exact .inr (.inr (evolves_writing hp hw rfl))
  | claim =>
    refine .inr (.inl ⟨i, ?_⟩)
    rw [hhist]
    exact Option.some_ne_none _
  | @handBack w total total' =>
    have htold : Prod.fst P.world (key provider) = total := hC total (by rw [hbefore]; rfl)
    have hreply : total' = Prod.fst P.world (key provider) + -w :=
      (evolves_incrbyfloat (evolves_monitored hw).1).1
    refine .inr (.inr (evolves_writing hp hw ?_))
    rw [hreply, htold, sub_eq_add_neg]
  | log c =>
    -- nothing is written and nothing published
    have hworld : S = P.world := by
      obtain ⟨hledger, hgauges⟩ := evolves_monitored hw
      exact Prod.ext (evolves_still hledger (by simp [moved, asked])) hgauges
    rcases hJ with hnone | ⟨j, hclaim⟩ | hshows
    · refine .inl fun j e he => ?_
      by_cases hj : j = i
      · subst hj
        rw [hhist] at he
        obtain rfl := List.mem_singleton.mp he
        rfl
      · rw [hother j hj] at he
        exact hnone j e he
    · refine .inr (.inl ⟨j, ?_⟩)
      rw [hother j]
      · exact hclaim
      · rintro rfl
        rw [hbefore] at hclaim
        exact hclaim rfl
    · exact .inr (.inr (hworld ▸ hshows))

/-- A finished call has nothing to hand back. -/
theorem claimTold_of_finished (hp : provider ∉ FREE_PROVIDERS) {u : Use} {o : Given}
    (h : Stage capUsd provider u t o) (ho : o.isSome) : claimTold t = none := by
  cases h with
  | start | claimed => cases ho
  | exempt => rfl
  | admitted => simp [writing, published, hp, claimTold]
  | refused => rfl
  | logged => rfl
  | charged => rfl

end Pool

/-! ## Two calls -/

/-- Nothing fails. -/
def reporting (S : Ledgers × Gauges) (c : Cmd) : Reply c × (Ledgers × Gauges) :=
  ((answer calm S.1 c).1, (answer calm S.1 c).2, S.2.after ⟨c, (answer calm S.1 c).1⟩)

theorem answers_reporting (S : Ledgers × Gauges) (c : Cmd) :
    monitored.answers S ⟨c, (reporting S c).1⟩ (reporting S c).2 := by
  exact ⟨redis_answer (fun L c => sound_answer L c healthy_calm) S.1 c, rfl⟩

/-- A claim of 2 and a charge of 1. -/
def claimAndCharge : Fin 2 → Use
  | 0 => .reserve 2
  | 1 => .recordUnreserved 1

/-- Both are called when 3 of a cap of 4 are spent. -/
def nearlySpent : Pool monitored (Fin 2) (Except Exc Unit × Unit) :=
  opening monitored 4 "openai" claimAndCharge (fun _ => 3, ⟨fun _ => none, fun _ => none⟩)

end LlmGateway
