import LlmGateway.Budget.Turns
import Mathlib.Algebra.BigOperators.Group.Finset.Piecewise
import Mathlib.Algebra.Order.Floor.Ring
import Mathlib.Data.Rat.Floor
import Mathlib.Tactic.Linarith

/-!
# Equal claims

Any number of callers claim the same amount, and nobody settles. A refused caller keeps the ledger
above its true value until its hand-back lands, so another caller may be refused on account of it.
That never costs anybody a slot: by the time the first caller is refused, all the slots are taken.
-/

namespace LlmGateway.EqualClaims

open Coroutine ProviderBudget

/-- The call returned. -/
def granted : Given → Bool
  | some (.ok _, _) => true
  | _ => false

variable {capUsd : ℚ} {provider : String} {w : ℚ} {t : List Ev} {o : Given}

/-! ## One caller -/

/-- What a caller has moved the ledger by. -/
theorem le_moved (hw : 0 < w) (h : Stage capUsd provider (.reserve w) t o) :
    (if granted o = true then w else 0) ≤ tally (moved (key provider)) t := by
  cases h with
  | start => simp [granted]
  | exempt hle => exact absurd hle hw.not_ge
  | claimed => simp [granted, hw.le]
  | admitted => simp [granted, writing]
  | refused => simp [granted, writing]
  | logged _ hu | charged hu => cases hu

/-- A caller that has not been turned away has moved the ledger by its claim, or not at all; so has
one that has finished. -/
theorem moved_eq (hw : 0 < w) (h : Stage capUsd provider (.reserve w) t o)
    (hsettled : t = [] ∨ granted o = true ∨ o.isSome) :
    tally (moved (key provider)) t = if granted o = true then w else 0 := by
  cases h with
  | start => simp [granted]
  | exempt hle => exact absurd hle hw.not_ge
  | claimed => simp [granted] at hsettled
  | admitted => simp [granted, writing]
  | refused => simp [granted, writing]
  | logged _ hu | charged hu => cases hu

theorem refused_of_not_granted (h : Stage capUsd provider (.reserve w) t o) (ho : o.isSome)
    (hnot : granted o = false) :
    t ≠ [] ∧
      ∃ spent, o = some (.error (.exception (.providerBudgetExhausted provider spent capUsd)), ()) := by
  cases h with
  | start | claimed => cases ho
  | exempt | admitted => cases hnot
  | refused => exact ⟨List.cons_ne_nil _ _, _, rfl⟩
  | logged _ hu | charged hu => cases hu

/-! ## Any number of callers -/

section Pool

variable {ι : Type} [DecidableEq ι] [Fintype ι] {L₀ : Ledgers}
  {L : (redis Sound).State} {P : Pool (redis Sound) ι (Except Exc Unit × Unit)} {i : ι}
  {q : Prog gateway (Except Exc Unit × Unit)}

/-- How many callers have been admitted. -/
def admissions (P : Pool (redis Sound) ι (Except Exc Unit × Unit)) : ℕ :=
  (Finset.univ.filter fun i => granted (P.prog i).value? = true).card

/-- The caller was told that it is over the cap. -/
def TurnedAway (P : Pool (redis Sound) ι (Except Exc Unit × Unit)) (i : ι) : Prop :=
  P.hist i ≠ [] ∧ granted (P.prog i).value? = false

/-- The callers, not started. -/
abbrev claims (capUsd : ℚ) (provider : String) (ι : Type) (w : ℚ) (L₀ : Ledgers) :
    Pool (redis Sound) ι (Except Exc Unit × Unit) :=
  opening (redis Sound) capUsd provider (fun _ : ι => .reserve w) L₀

omit [DecidableEq ι] in
theorem sum_granted :
    ∑ i, (if granted (P.prog i).value? = true then w else 0) = w * admissions P := by
  rw [← Finset.sum_filter, Finset.sum_const, admissions, nsmul_eq_mul, mul_comm]

theorem admissions_le_ledger (hp : provider ∉ FREE_PROVIDERS) (hw : 0 < w)
    (h : (claims capUsd provider ι w L₀).Reaches P) :
    L₀ (key provider) + w * admissions P ≤ P.world (key provider) := by
  rw [Pool.Reaches.tally (g := fun L : Ledgers => L (key provider)) h (redis_moves _),
    ← sum_granted]
  exact (add_le_add_iff_left _).mpr
    (Finset.sum_le_sum fun i _ => le_moved hw (reaches_stage hp redis_admits h i))

theorem ledger_eq (hp : provider ∉ FREE_PROVIDERS) (hw : 0 < w)
    (h : (claims capUsd provider ι w L₀).Reaches P)
    (hsettled : ∀ i, ¬ TurnedAway P i ∨ (P.prog i).value?.isSome) :
    P.world (key provider) = L₀ (key provider) + w * admissions P := by
  rw [Pool.Reaches.tally (g := fun L : Ledgers => L (key provider)) h (redis_moves _),
    ← sum_granted]
  refine congrArg _ (Finset.sum_congr rfl fun i _ => ?_)
  refine moved_eq hw (reaches_stage hp redis_admits h i) ?_
  rcases hsettled i with hnot | hdone
  · by_cases hnil : P.hist i = []
    · exact .inl hnil
    · exact .inr (.inl (by simpa [TurnedAway, hnil] using hnot))
  · exact .inr (.inr hdone)

/-- A turn after which a caller has been admitted that was not before makes one more. -/
theorem admissions_turn (hbefore : granted (P.prog i).value? = false) :
    admissions (P.turn i t q L) = admissions P + if granted q.value? = true then 1 else 0 := by
  have hprog : (P.turn i t q L).prog i = q := Function.update_self _ _ _
  have hother : ∀ j, j ≠ i → (P.turn i t q L).prog j = P.prog j := fun j hj =>
    Function.update_of_ne hj _ _
  by_cases hq : granted q.value? = true
  · have hinsert : (Finset.univ.filter fun j => granted ((P.turn i t q L).prog j).value? = true) =
        insert i (Finset.univ.filter fun j => granted (P.prog j).value? = true) := by
      ext j
      by_cases hj : j = i
      · subst hj
        simp [hprog, hq]
      · simp [hother j hj, hj]
    rw [admissions, hinsert, Finset.card_insert_of_notMem (by simp [hbefore]), if_pos hq, admissions]
  · rw [if_neg hq, add_zero]
    refine congrArg Finset.card (Finset.filter_congr fun j _ => ?_)
    by_cases hj : j = i
    · subst hj
      simp [hprog, hq, hbefore]
    · rw [hother j hj]

/-- How many callers fit. -/
def slots (capUsd s₀ w : ℚ) : ℕ := ⌊(capUsd - s₀) / w⌋₊

theorem le_slots {s₀ : ℚ} {n : ℕ} (hw : 0 < w) (h : s₀ + w * n ≤ capUsd) :
    n ≤ slots capUsd s₀ w := by
  refine Nat.le_floor ((le_div_iff₀ hw).mpr ?_)
  linarith

theorem slots_le {s₀ : ℚ} {n : ℕ} (hw : 0 < w) (h : capUsd < s₀ + w * (n + 1)) :
    slots capUsd s₀ w ≤ n := by
  refine Nat.lt_add_one_iff.mp ((Nat.floor_lt' n.succ_ne_zero).mpr ((div_lt_iff₀ hw).mpr ?_))
  push_cast
  linarith

/-- No more callers are admitted than fit, and once one is turned away as many are. -/
structure Filled (capUsd s₀ w : ℚ) (P : Pool (redis Sound) ι (Except Exc Unit × Unit)) : Prop where
  le : admissions P ≤ slots capUsd s₀ w
  eq : (∃ i, TurnedAway P i) → admissions P = slots capUsd s₀ w

theorem filled_turn (hp : provider ∉ FREE_PROVIDERS) (hw : 0 < w)
    (h : (claims capUsd provider ι w L₀).Reaches P)
    (hfilled : Filled capUsd (L₀ (key provider)) w P) (hs : Slice (P.prog i) t q)
    (hL : (redis Sound).Evolves P.world t L) :
    Filled capUsd (L₀ (key provider)) w (P.turn i t q L) := by
  have hturn := reaches_turn hp redis_admits h hs hL
  have hunfinished : granted (P.prog i).value? = false := by rw [hs.value?_eq_none]; rfl
  have hadmissions := admissions_turn (t := t) (q := q) (L := L) hunfinished
  have hhist : (P.turn i t q L).hist i = P.hist i ++ t := Function.update_self _ _ _
  have hother : ∀ j, j ≠ i → TurnedAway (P.turn i t q L) j → TurnedAway P j := by
    intro j hj h
    simpa [TurnedAway, Pool.turn, hj] using h
  have hself : (P.turn i t q L).prog i = q := Function.update_self _ _ _
  generalize hq : q.value? = o at hturn hadmissions
  generalize hi : P.hist i = before at hturn
  cases hturn with
  | log _ _ hu | charge hu => cases hu
  | @accept _ total _ hle =>
    have htotal : total = P.world (key provider) + w := (evolves_incrbyfloat hL).1
    have hslots : admissions P + 1 ≤ slots capUsd (L₀ (key provider)) w := by
      refine le_slots hw ?_
      push_cast
      linarith [admissions_le_ledger hp hw h]
    have hone : admissions (P.turn i _ q L) = admissions P + 1 := hadmissions
    refine ⟨hone.trans_le hslots, ?_⟩
    rintro ⟨j, hj⟩
    -- whoever was turned away found the slots taken
    have hne : j ≠ i := by
      rintro rfl
      have hnot := hj.2
      rw [hself, hq] at hnot
      cases hnot
    have := hfilled.eq ⟨j, hother j hne hj⟩
    omega
  | @claim _ total _ hlt =>
    have htotal : total = P.world (key provider) + w := (evolves_incrbyfloat hL).1
    have hsame : admissions (P.turn i _ q L) = admissions P := hadmissions
    refine ⟨hsame.trans_le hfilled.le, fun _ => hsame.trans ?_⟩
    by_cases haway : ∃ j, TurnedAway P j
    · exact hfilled.eq haway
    -- the first to be turned away: every claim on the ledger was admitted
    · have hall := ledger_eq hp hw h fun j => .inl fun hj => haway ⟨j, hj⟩
      rw [hall] at htotal
      exact le_antisymm hfilled.le (slots_le hw (by linarith))
  | handBack =>
    have haway : TurnedAway P i := ⟨by simp [hi], hunfinished⟩
    have hsame : admissions (P.turn i _ q L) = admissions P := hadmissions
    exact ⟨hsame.trans_le hfilled.le, fun _ => hsame.trans (hfilled.eq ⟨i, haway⟩)⟩

theorem filled (hp : provider ∉ FREE_PROVIDERS) (hw : 0 < w)
    (h : (claims capUsd provider ι w L₀).Reaches P) :
    Filled capUsd (L₀ (key provider)) w P := by
  suffices hinv : (claims capUsd provider ι w L₀).Reaches P ∧
      Filled capUsd (L₀ (key provider)) w P from hinv.2
  refine h.invariant (J := fun P => (claims capUsd provider ι w L₀).Reaches P ∧
    Filled capUsd (L₀ (key provider)) w P) ⟨.refl, ?_, ?_⟩ ?_
  · have hstart : ∀ i, granted ((claims capUsd provider ι w L₀).prog i).value? = false := by
      intro i
      show granted (reserve capUsd provider w ()).value? = false
      rw [reserve, if_neg (by simp [hp, hw])]
      rfl
    have hzero : admissions (claims capUsd provider ι w L₀) = 0 :=
      Finset.card_eq_zero.mpr (Finset.filter_eq_empty_iff.mpr fun i _ => by rw [hstart i]; simp)
    exact hzero.trans_le (Nat.zero_le _)
  · rintro ⟨i, hne, -⟩
    exact absurd rfl hne
  · rintro P i t q L ⟨hreach, hfilled⟩ hs hL
    exact ⟨hreach.tail (.turn hs hL), filled_turn hp hw hreach hfilled hs hL⟩

/-- Of any number of equal claims exactly as many are admitted as fit, whatever the order of the
commands, and the ledger is left with theirs. -/
theorem admitted_eq_min (hp : provider ∉ FREE_PROVIDERS) (hw : 0 < w)
    (h : (claims capUsd provider ι w L₀).Reaches P) (hdone : ∀ i, (P.prog i).value?.isSome) :
    (admissions P : ℤ) =
        min (Fintype.card ι : ℤ) (max 0 ⌊(capUsd - L₀ (key provider)) / w⌋) ∧
      (∀ i, granted (P.prog i).value? = true ∨
        ∃ spent, (P.prog i).value? =
          some (.error (.exception (.providerBudgetExhausted provider spent capUsd)), ())) ∧
      P.world (key provider) = L₀ (key provider) + w * admissions P := by
  have hfilled := filled hp hw h
  have hslots : (slots capUsd (L₀ (key provider)) w : ℤ) =
      max 0 ⌊(capUsd - L₀ (key provider)) / w⌋ := by
    rw [slots, ← Int.floor_toNat, Int.ofNat_toNat, max_comm]
  have hrefused := fun i => refused_of_not_granted (reaches_stage hp redis_admits h i) (hdone i)
  refine ⟨?_, fun i => ?_, ledger_eq hp hw h fun i => .inr (hdone i)⟩
  · rw [← hslots, ← Nat.cast_min, Nat.cast_inj]
    by_cases haway : ∃ i, TurnedAway P i
    · have hle : admissions P ≤ Fintype.card ι := Finset.card_filter_le _ _
      have heq := hfilled.eq haway
      omega
    · have hall : admissions P = Fintype.card ι :=
        congrArg Finset.card (Finset.filter_true_of_mem fun i _ => by
          by_contra hnot
          rw [Bool.not_eq_true] at hnot
          exact haway ⟨i, (hrefused i hnot).1, hnot⟩)
      have hle := hfilled.le
      omega
  · cases hgranted : granted (P.prog i).value? with
    | true => exact .inl rfl
    | false =>
      exact .inr (hrefused i hgranted).2

end Pool

/-! ## Four callers -/

/-- Four claims of 2 on a ledger at 1 under a cap of 6. The last two are refused before either of
them has handed its claim back. -/
def fourClaims : Pool (redis Sound) (Fin 4) (Except Exc Unit × Unit) :=
  (claims 6 "openai" (Fin 4) 2 fun _ => 1).schedule (answer calm) [0, 1, 2, 3, 3, 2]

theorem reaches_fourClaims : (claims 6 "openai" (Fin 4) 2 fun _ => 1).Reaches fourClaims :=
  Pool.reaches_schedule (redis_answer fun L c => sound_answer L c healthy_calm) _ _

theorem admitted_eq_min_four :
    (admissions fourClaims : ℤ) = min 4 (max 0 ⌊((6 : ℚ) - 1) / 2⌋) ∧
      (∀ i, granted (fourClaims.prog i).value? = true ∨
        ∃ spent, (fourClaims.prog i).value? =
          some (.error (.exception (.providerBudgetExhausted "openai" spent 6)), ())) ∧
      fourClaims.world (key "openai") = 1 + 2 * admissions fourClaims := by
  have hdone : ∀ i, (fourClaims.prog i).value?.isSome := by decide +kernel
  obtain ⟨hcount, hrest⟩ := admitted_eq_min (by decide) two_pos reaches_fourClaims hdone
  exact ⟨hcount, hrest⟩

end LlmGateway.EqualClaims
