import LlmGateway.Main.ReserveRun
import LlmGateway.Gateway.Redis
import Mathlib.Tactic.Linarith
import Mathlib.Tactic.Ring

/-!
# `_reserve_chain` as a transaction

A single command of `_reserve_chain` is interrupted, before or after Redis has applied it, and every
other command goes through. Whether the ledgers are back where they were when the function raises
depends on that command alone, unless the clock crosses into the next period between the claim on
the caller's share and its hand-back.

What goes wrong is a claim that took effect although its reply never arrived, since only recorded
claims are handed back, and a hand-back cut short by a cancellation, since the clause that counts it
as leaked catches `Exception` only.
-/

namespace LlmGateway.AllOrNothing

open Coroutine

/-! ## The property -/

/-- One command was interrupted, by an `Exception` or a `CancelledError`, before the unwinding. -/
structure InterruptedOnce (t : List Ev) : Prop where
  once : tally fault t ≤ 1
  kind : ∀ e ∈ t, ∀ x, raised e = some x → x.isException = true ∨ x = .cancelled
  early : ∀ pre e post, t = pre ++ e :: post → failed e = true → calls pre = []

/-- The amount `w` is that of an over-cap claim whose hand-back ended in an `Exception`, and it was
added to `BUDGET_RESERVATION_LEAKED`. -/
def LeftOver (t : List Ev) (l : Ledger) (w : ℚ) : Prop :=
  0 < w ∧ tally (leaked l) t = w ∧
    ∃ e ∈ t, ∃ k x, k.ledger = l ∧ asked k e = -w ∧ raised e = some (.exception x)

/-- Every ledger is back where it was, but for a counted left-over. -/
def Restored (L : Ledgers) (t : List Ev) (L' : Ledgers) : Prop :=
  ∀ k, L' k = L k ∨ LeftOver t k.ledger (L' k - L k)

/-! ## The condition -/

/-- A claim that took effect without a reply, or a hand-back that a cancellation kept from taking
effect. -/
def Strands (e : Ev) : Prop :=
  ∃ k, (0 < asked k e ∧ landed e = true) ∨
    (asked k e < 0 ∧ landed e = false ∧ ∀ x, raised e ≠ some (.exception x))

/-- The increments of a caller's share that took effect fall in one period. -/
def OnePeriod (t : List Ev) : Prop :=
  ∀ e ∈ t, ∀ e' ∈ t, ∀ h P h' P', moved (.key h P) e ≠ 0 → moved (.key h' P') e' ≠ 0 → P = P'

/-- Nothing the unwinding cannot repair has happened. -/
def Recoverable (t : List Ev) : Prop := (∀ e ∈ t, failed e = true → ¬ Strands e) ∧ OnePeriod t

variable {t : List Ev} {k : LedgerKey} {d : ℚ} {a : Bool} {x : Exc} {f : Ev}

theorem strands_iff (h : Lost f k d a x) :
    Strands f ↔ (0 < d ∧ a = true) ∨ (d < 0 ∧ a = false ∧ x.isException = false) := by
  have hraised : (∀ y, raised f ≠ some (.exception y)) ↔ x.isException = false := by
    rw [h.raised]
    cases x <;> simp [Exc.isException]
  have hself : asked k f = d := by rw [h.asked, if_pos rfl]
  constructor
  · rintro ⟨k', hk'⟩
    have hk : k = k' := by
      by_contra hne
      rw [h.asked, if_neg hne] at hk'
      simp at hk'
    subst hk
    rw [hself, hraised] at hk'
    rcases hk' with ⟨hd, hl⟩ | ⟨hd, hl, hx⟩
    · exact .inl ⟨hd, by rw [← h.landed hd.ne', hl]⟩
    · exact .inr ⟨hd, by rw [← h.landed hd.ne, hl], hx⟩
  · rintro (⟨hd, ha⟩ | ⟨hd, ha, hx⟩)
    · exact ⟨k, .inl ⟨by rwa [hself], by rw [h.landed hd.ne', ha]⟩⟩
    · exact ⟨k, .inr ⟨by rwa [hself], by rw [h.landed hd.ne, ha], hraised.mpr hx⟩⟩

/-! ## One ledger -/

/-- A ledger that has moved by `w` is as it should be. -/
def Kept (t : List Ev) (l : Ledger) (w : ℚ) : Prop := w = 0 ∨ LeftOver t l w

theorem kept_zero {l : Ledger} : Kept t l 0 := .inl rfl

/-- A left-over takes an interrupted hand-back of its own amount. -/
theorem not_leftOver (huniq : ∀ e ∈ t, failed e = true → e = f) (h : Lost f k d a x) {l : Ledger}
    {w : ℚ} (hne : d ≠ -w ∨ x.isException = false) : ¬ LeftOver t l w := by
  rintro ⟨hw, -, e, he, k', y, -, hask, hy⟩
  obtain rfl := huniq e he (by rw [failed, hy]; rfl)
  rw [h.raised] at hy
  obtain rfl := Option.some.inj hy
  rcases hne with hne | hx
  · rw [h.asked] at hask
    split at hask
    · exact hne hask
    · linarith
  · cases hx

/-- A ledger that moved by what an interrupted command stranded is as it should be exactly when the
command strands nothing. -/
theorem kept_stranded_iff (hf : f ∈ t) (huniq : ∀ e ∈ t, failed e = true → e = f)
    (h : Lost f k d a x) (hleaked : tally (leaked k.ledger) t = excused k.ledger f) :
    Kept t k.ledger (strandedBy d a) ↔ ¬ Strands f := by
  rw [strands_iff h]
  rw [h.excused] at hleaked
  -- a hand-back strands its amount unless it took effect, a claim if it did
  rcases lt_trichotomy d 0 with hd | rfl | hd
  · cases a with
    | true => simp [strandedBy, not_lt.mpr hd.le, kept_zero]
    | false =>
      have hby : strandedBy d false = -d := by simp [strandedBy, not_lt.mpr hd.le]
      cases hx : x.isException with
      | true =>
        simp only [hd, not_lt.mpr hd.le, false_and, and_false, or_self, not_false_iff, iff_true,
          Bool.true_eq_false]
        rw [hby]
        -- an `Exception`: the amount stays on the ledger, and was counted
        refine .inr ⟨neg_pos.mpr hd, by simpa [hx, hd] using hleaked, f, hf, k, ?_⟩
        cases x with
        | exception y => exact ⟨y, rfl, by rw [h.asked, if_pos rfl, neg_neg], h.raised⟩
        | _ => cases hx
      | false =>
        simp only [hd, true_and, or_true, not_true, iff_false]
        rw [hby]
        rintro (h0 | hleft)
        · linarith
        · exact not_leftOver huniq h (.inr hx) hleft
  · simp [strandedBy, kept_zero]
  · cases a with
    | false => simp [strandedBy, hd, kept_zero, not_lt.mpr hd.le]
    | true =>
      simp only [hd, and_self, true_or, not_true, iff_false]
      rintro (h0 | hleft)
      · simp [strandedBy, hd] at h0
        linarith
      · refine not_leftOver huniq h (.inl ?_) hleft
        simp only [strandedBy, hd, if_true]
        linarith

/-! ## The caller's share -/

section Share

variable {h : String} {P₁ P₂ : ℤ} {w₁ w₂ : ℚ} {e₁ e₂ : Ev}

/-- The increments of the caller's share: `w₁` in the period `P₁` by the event `e₁`, and `w₂` in
`P₂` by `e₂`. -/
structure Share (t : List Ev) (h : String) (P₁ P₂ : ℤ) (w₁ w₂ : ℚ) (e₁ e₂ : Ev) : Prop where
  mem₁ : e₁ ∈ t
  mem₂ : e₂ ∈ t
  moved₁ : ∀ h' P, moved (.key h' P) e₁ = if h = h' ∧ P₁ = P then w₁ else 0
  moved₂ : ∀ h' P, moved (.key h' P) e₂ = if h = h' ∧ P₂ = P then w₂ else 0
  others : ∀ e ∈ t, e = e₁ ∨ e = e₂ ∨ ∀ h' P, moved (.key h' P) e = 0
  tally : ∀ h' P, tally (moved (.key h' P)) t
    = (if h = h' ∧ P₁ = P then w₁ else 0) + if h = h' ∧ P₂ = P then w₂ else 0

theorem Share.onePeriod (hs : Share t h P₁ P₂ w₁ w₂ e₁ e₂) (hor : w₂ = 0 ∨ P₁ = P₂) :
    OnePeriod t := by
  have hperiod : ∀ e ∈ t, ∀ h' P, moved (.key h' P) e ≠ 0 → P = P₁ := by
    intro e he h' P hne
    rcases hs.others e he with rfl | rfl | hzero
    · rw [hs.moved₁, ne_eq, ite_eq_right_iff, not_forall] at hne
      exact hne.1.2.symm
    · rw [hs.moved₂, ne_eq, ite_eq_right_iff, not_forall] at hne
      obtain ⟨⟨-, rfl⟩, hw₂⟩ := hne
      exact (hor.resolve_left hw₂).symm
    · exact absurd (hzero h' P) hne
  intro e he e' he' h' P h'' P' hne hne'
  rw [hperiod e he h' P hne, hperiod e' he' h'' P' hne']

theorem Share.onePeriod_iff (hs : Share t h P₁ P₂ w₁ (-w₁) e₁ e₂) (hw : 0 < w₁) :
    OnePeriod t ↔ P₁ = P₂ := by
  refine ⟨fun hone => hone e₁ hs.mem₁ e₂ hs.mem₂ h P₁ h P₂ ?_ ?_, fun heq => hs.onePeriod (.inr heq)⟩
  · simpa [hs.moved₁] using hw.ne'
  · simpa [hs.moved₂] using hw.ne'

theorem Share.kept_iff_of_single (hs : Share t h P₁ P₂ w₁ 0 e₁ e₂) :
    (∀ h' P, Kept t .key (Coroutine.tally (moved (.key h' P)) t)) ↔ Kept t .key w₁ := by
  constructor
  · intro hall
    simpa [hs.tally] using hall h P₁
  · intro hkept h' P
    rw [hs.tally]
    by_cases hk : h = h' ∧ P₁ = P
    · simpa [hk] using hkept
    · simp [hk, kept_zero]

theorem Share.kept_iff_of_taken_back (hs : Share t h P₁ P₂ w₁ (-w₁) e₁ e₂) (hw : 0 < w₁) :
    (∀ h' P, Kept t .key (Coroutine.tally (moved (.key h' P)) t)) ↔ P₁ = P₂ := by
  constructor
  · intro hall
    by_contra hne
    -- the period of the hand-back is left below where it was
    rcases hall h P₂ with h0 | ⟨hpos, -⟩
    · simp [hs.tally, hne] at h0
      linarith
    · simp only [hs.tally, hne, and_false, if_false, true_and, if_true] at hpos
      linarith
  · rintro rfl h' P
    rw [hs.tally]
    by_cases hk : h = h' ∧ P₁ = P <;> simp [hk, kept_zero]

/-- What a run that raised did to the caller's share. -/
inductive KeyPart (t : List Ev) : Prop
  | untouched (hk : Keyless t)
  | takenBack {h : String} {P₁ P₂ : ℤ} {w : ℚ} {e₁ e₂ : Ev} (hw : 0 < w)
      (hs : Share t h P₁ P₂ w (-w) e₁ e₂)
      (hf : ∀ e ∈ t, failed e = true → ∀ h P, asked (.key h P) e = 0)
  | lostClaim {h : String} {P₁ P₂ : ℤ} {w : ℚ} {e₁ e₂ : Ev} {a : Bool} {x : Exc} (hw : 0 < w)
      (hs : Share t h P₁ P₂ (strandedBy w a) 0 e₁ e₂) (hl : Lost e₁ (.key h P₁) w a x)
  | lostBack {h : String} {P₁ P₂ : ℤ} {w : ℚ} {e₁ e₂ : Ev} {a : Bool} {x : Exc} (hw : 0 < w)
      (hs : Share t h P₁ P₂ w (if a then -w else 0) e₁ e₂) (hl : Lost e₂ (.key h P₂) (-w) a x)

variable {settings : Settings} {apiKey : String} {w : ℚ} {t₁ t₂ tk : List Ev} {e : Exc}

theorem Share.surround {tk : List Ev} (hs : Share tk h P₁ P₂ w₁ w₂ e₁ e₂) (h₁ : Keyless t₁)
    (h₂ : Keyless t₂) : Share (t₁ ++ (tk ++ t₂)) h P₁ P₂ w₁ w₂ e₁ e₂ where
  mem₁ := by simp [hs.mem₁]
  mem₂ := by simp [hs.mem₂]
  moved₁ := hs.moved₁
  moved₂ := hs.moved₂
  others e he := by
    rcases List.mem_append.mp he with he | he
    · exact .inr (.inr (h₁.moved he))
    · rcases List.mem_append.mp he with he | he
      · exact hs.others e he
      · exact .inr (.inr (h₂.moved he))
  tally h' P := by
    rw [tally_append, tally_append, h₁.tally_moved, h₂.tally_moved, hs.tally, zero_add, add_zero]

/-- The increment `apply` asks for. -/
def increment (settings : Settings) (apiKey : String) (d now : ℚ) (r : Sent ℚ) : Ev :=
  ⟨.incrbyfloatExpire (BudgetTracker.keyAt settings.hashKey apiKey now) d
    BudgetTracker.SECONDS_PER_MONTH, r⟩

theorem share_claim (hw : 0 < w) {now : ℚ} {x : Exc} {a : Bool} :
    Share (BudgetTracker.applied settings.hashKey apiKey w now (.failed x a))
      (settings.hashKey apiKey) (BudgetTracker.period now) 0 (strandedBy w a) 0
      (increment settings apiKey w now (.failed x a)) ⟨.time, now⟩ := by
  constructor <;> simp [BudgetTracker.applied, BudgetTracker.keyAt, strandedBy, hw, increment]

theorem share_handBack {now total now' : ℚ} {r : Sent ℚ} :
    Share (BudgetTracker.applied settings.hashKey apiKey w now (.ok total) ++
        BudgetTracker.applied settings.hashKey apiKey (-w) now' r)
      (settings.hashKey apiKey) (BudgetTracker.period now) (BudgetTracker.period now') w
      (if r.applied then -w else 0) (increment settings apiKey w now (.ok total))
      (increment settings apiKey (-w) now' r) := by
  constructor <;> rcases r with v | ⟨x, _ | _⟩ <;>
    simp [BudgetTracker.applied, BudgetTracker.keyAt, increment, Sent.applied]

theorem keyPart_of_reserveRun (h₁ : Keyless t₁) (h₂ : Keyless t₂)
    (hk : BudgetTracker.ReserveRun settings.hashKey settings.monthlyBudgetUsdPerKey apiKey w tk
      (.error e)) : KeyPart (t₁ ++ (tk ++ t₂)) := by
  cases hk with
  | unanswered hw now x a =>
    exact .lostClaim hw ((share_claim hw).surround h₁ h₂) lost_incrbyfloatExpire
  | refused hw now total now' total' h =>
    refine .takenBack hw (share_handBack.surround h₁ h₂) fun e he hfail h P => ?_
    rcases List.mem_append.mp he with he | he
    · exact h₁ e he h P
    · rcases List.mem_append.mp he with he | he
      · simp only [BudgetTracker.applied, List.cons_append, List.nil_append, List.mem_cons,
          List.not_mem_nil, or_false] at he
        rcases he with rfl | rfl | rfl | rfl <;> cases hfail
      · exact h₂ e he h P
  | leaked hw now total now' h x a =>
    have hmetric : Keyless ([⟨.metric (.budgetReservationLeaked .key w), .ok ()⟩] ++ t₂) :=
      List.forall_mem_cons.mpr ⟨fun _ _ => rfl, h₂⟩
    rw [← List.append_assoc (BudgetTracker.applied _ _ w _ _), List.append_assoc]
    exact .lostBack hw (share_handBack.surround h₁ hmetric) lost_incrbyfloatExpire
  | interrupted hw now total now' h x hx a =>
    exact .lostBack hw (share_handBack.surround h₁ h₂) lost_incrbyfloatExpire

theorem keyPart_of_keyRun (h₁ : Keyless t₁) (h₂ : Keyless t₂)
    (hk : KeyRun settings apiKey w tk (.error e)) : KeyPart (t₁ ++ (tk ++ t₂)) := by
  cases hk with
  | claim h => exact keyPart_of_reserveRun h₁ h₂ h
  | refused reason h =>
    have hmetric : Keyless ([⟨.metric (.requestsRefused reason), .ok ()⟩] ++ t₂) :=
      List.forall_mem_cons.mpr ⟨fun _ _ => rfl, h₂⟩
    rw [List.append_assoc]
    exact keyPart_of_reserveRun h₁ hmetric h

end Share

/-! ## The whole run -/

/-- What a run that raised did: the providers' ledgers moved by what was stranded, and the leaks
counted are those of hand-backs that ended in an `Exception`. -/
structure Unwound (t : List Ev) : Prop where
  provider : ∀ p, tally (moved (.provider p)) t = tally (stranded (.provider p)) t
  leaked : ∀ l, tally (leaked l) t = tally (excused l) t
  key : KeyPart t

/-- The unwinding comes after the interruption, so nothing fails in it. -/
theorem not_failed_of_headed {t₁ t₂ : List Ev} (hearly : ∀ pre e post, t₁ ++ t₂ = pre ++ e :: post →
    failed e = true → calls pre = []) (h : Headed t₂) : ∀ e ∈ t₂, failed e = false := by
  rcases h with rfl | ⟨c, t', rfl⟩
  · simp
  · refine List.forall_mem_cons.mpr ⟨rfl, fun e he => ?_⟩
    by_contra hfail
    obtain ⟨a, b, rfl⟩ := List.append_of_mem he
    have hcalls := hearly (t₁ ++ ⟨.log c, ()⟩ :: a) e b (by simp) (by simpa using hfail)
    simp [calls_cons, call?] at hcalls

variable {settings : Settings} {apiKey : String} {e : Exc}

theorem unwound_of_run (hrun : ChainRun settings apiKey t (.error e)) (hint : InterruptedOnce t) :
    Unwound t := by
  cases hrun with
  | unwound hbody hu hc hrec =>
    rename_i t₁ t₂ s' e₁ cs
    have hquiet := not_failed_of_headed hint.early hrec.headed
    have hu' : ∀ k, tally (asked k) t₂ = settlement s'.reservations "" 0 k :=
      hu.resolve_left (not_interrupted hquiet)
    have hback : ∀ k, tally (moved k) t₂ = - s'.recorded k := fun k => by
      rw [tally_moved_of_not_failed hquiet, hu']
      linarith [recorded_add_settlement hbody.recorded.2 k]
    refine ⟨fun p => ?_, fun l => ?_, ?_⟩
    · rw [tally_append, tally_append, hback, hbody.provider, tally_stranded_of_not_failed hquiet]
      ring
    · rw [tally_append, tally_append, hbody.leaked_eq, hrec.leaked,
        tally_eq_zero fun e he => excused_of_not_failed (hquiet e he) l]
    · cases hbody with
      | stopped h => exact .untouched (List.forall_mem_append.mpr ⟨h.keyless, hrec.keyless⟩)
      | share h hk =>
        rw [List.append_assoc]
        exact keyPart_of_keyRun h.keyless hrec.keyless hk

/-- An event that asks something of one of the ledgers of a label. -/
def On (l : Ledger) (e : Ev) : Prop := ∃ k : LedgerKey, k.ledger = l ∧ asked k e ≠ 0

theorem Strands.on {e : Ev} (h : Strands e) : On .provider e ∨ On .key e := by
  obtain ⟨k, hk⟩ := h
  have hne : asked k e ≠ 0 := hk.elim (fun h => h.1.ne') fun h => h.1.ne
  cases k with
  | provider p => exact .inl ⟨_, rfl, hne⟩
  | key h P => exact .inr ⟨_, rfl, hne⟩

/-- With one failed command, what holds of every failed command is about that one. -/
theorem forall_failed_iff {f : Ev} {l : Ledger} (hf : f ∈ t) (hfail : failed f = true)
    (huniq : ∀ e ∈ t, failed e = true → e = f) (hon : Strands f → On l f) :
    (∀ e ∈ t, failed e = true → On l e → ¬ Strands e) ↔ ¬ Strands f := by
  constructor
  · exact fun h hs => h f hf hfail (hon hs) hs
  · intro h e he hfail' _
    rwa [huniq e he hfail']

theorem providers_kept_iff (hu : Unwound t) (hint : InterruptedOnce t) :
    (∀ p, Kept t .provider (tally (moved (.provider p)) t)) ↔
      ∀ e ∈ t, failed e = true → On .provider e → ¬ Strands e := by
  rcases failure_cases hint.once with hnone | ⟨f, hf, hfail, huniq, htally⟩
  · refine ⟨fun _ e he hfail => absurd hfail (by simp [hnone e he]), fun _ p => ?_⟩
    rw [hu.provider, tally_stranded_of_not_failed hnone]
    exact kept_zero
  -- the one failed command is on a single ledger, and only that one can be off
  obtain ⟨k, d, a, x, hl⟩ := exists_lost hfail
  have hstranded : ∀ p, tally (moved (.provider p)) t
      = if k = .provider p then strandedBy d a else 0 := fun p => by
    rw [hu.provider, htally _ fun e he => stranded_of_not_failed he _, hl.stranded]
  have hleaked : tally (leaked k.ledger) t = excused k.ledger f := by
    rw [hu.leaked, htally _ fun e he => excused_of_not_failed he _]
  cases k with
  | key h P =>
    refine ⟨fun _ e he hfail hon => ?_, fun _ p => ?_⟩
    · obtain ⟨k, hk, hne⟩ := hon
      rw [huniq e he hfail, hl.asked] at hne
      cases k with
      | provider p => simp at hne
      | key h' P' => cases hk
    · rw [hstranded]
      exact kept_zero
  | provider q =>
    have hon : Strands f → On .provider f := fun hs => by
      refine ⟨.provider q, rfl, ?_⟩
      rw [hl.asked, if_pos rfl]
      rcases (strands_iff hl).mp hs with h | h
      · exact h.1.ne'
      · exact h.1.ne
    rw [forall_failed_iff hf hfail huniq hon, ← kept_stranded_iff hf huniq hl hleaked]
    constructor
    · intro h
      have hq := h q
      rwa [hstranded, if_pos rfl] at hq
    · intro h p
      rw [hstranded]
      split
      · exact h
      · exact kept_zero

theorem on_of_lost {f : Ev} {k : LedgerKey} {d : ℚ} {a : Bool} {x : Exc} (h : Lost f k d a x)
    (hd : d ≠ 0) : On k.ledger f :=
  ⟨k, rfl, by rwa [h.asked, if_pos rfl]⟩

theorem keys_kept_iff (hu : Unwound t) (hint : InterruptedOnce t) :
    (∀ h P, Kept t .key (tally (moved (.key h P)) t)) ↔
      (∀ e ∈ t, failed e = true → On .key e → ¬ Strands e) ∧ OnePeriod t := by
  have huniq : ∀ f ∈ t, failed f = true → ∀ e ∈ t, failed e = true → e = f := by
    intro f hf hfail e he hfail'
    rcases failure_cases hint.once with hnone | ⟨g, -, -, huniq, -⟩
    · exact absurd hfail (by simp [hnone f hf])
    · rw [huniq e he hfail', huniq f hf hfail]
  have hleaked : ∀ f ∈ t, failed f = true → tally (leaked .key) t = excused .key f := by
    intro f hf hfail
    rcases failure_cases hint.once with hnone | ⟨g, -, -, huniq, htally⟩
    · exact absurd hfail (by simp [hnone f hf])
    · rw [hu.leaked, htally _ fun e he => excused_of_not_failed he _, huniq f hf hfail]
  -- the caller's share was not touched, was claimed and handed back, or lost one of the two
  cases hu.key with
  | untouched hk =>
    refine ⟨fun _ => ⟨fun e he _ hon => ?_, fun e he _ _ h P _ _ hne _ => ?_⟩, fun _ h P => ?_⟩
    · obtain ⟨k, hkey, hne⟩ := hon
      cases k with
      | provider p => cases hkey
      | key h P => exact absurd (hk e he h P) hne
    · exact absurd (hk.moved he h P) hne
    · rw [hk.tally_moved]
      exact kept_zero
  | takenBack hw hs hf =>
    rw [hs.kept_iff_of_taken_back hw, hs.onePeriod_iff hw, and_iff_right]
    rintro e he hfail ⟨k, hkey, hne⟩
    cases k with
    | provider p => cases hkey
    | key h P => exact absurd (hf e he hfail h P) hne
  | lostClaim hw hs hl =>
    rw [hs.kept_iff_of_single, and_iff_left (hs.onePeriod (.inl rfl)),
      forall_failed_iff (l := .key) hs.mem₁ hl.failed (huniq _ hs.mem₁ hl.failed)
        fun _ => on_of_lost hl hw.ne']
    exact kept_stranded_iff hs.mem₁ (huniq _ hs.mem₁ hl.failed) hl (hleaked _ hs.mem₁ hl.failed)
  | lostBack hw hs hl =>
    rename_i h P₁ P₂ w e₁ e₂ a x
    rw [forall_failed_iff (l := .key) hs.mem₂ hl.failed (huniq _ hs.mem₂ hl.failed)
      fun _ => on_of_lost hl (neg_ne_zero.mpr hw.ne')]
    cases a with
    | true =>
      have hno : ¬ Strands e₂ := by simp [strands_iff hl, not_lt.mpr hw.le]
      rw [and_iff_right hno]
      exact (hs.kept_iff_of_taken_back hw).trans (hs.onePeriod_iff hw).symm
    | false =>
      rw [and_iff_left (hs.onePeriod (.inl rfl)), ← kept_stranded_iff hs.mem₂
        (huniq _ hs.mem₂ hl.failed) hl (hleaked _ hs.mem₂ hl.failed)]
      have hby : strandedBy (-w) false = w := by simp [strandedBy, not_lt.mpr hw.le]
      rw [hby]
      exact Share.kept_iff_of_single hs

/-- Whether the ledgers are restored depends on the interrupted command alone. -/
theorem kept_iff (hu : Unwound t) (hint : InterruptedOnce t) :
    (∀ k : LedgerKey, Kept t k.ledger (tally (moved k) t)) ↔ Recoverable t := by
  have hsplit : (∀ k : LedgerKey, Kept t k.ledger (tally (moved k) t)) ↔
      (∀ p, Kept t .provider (tally (moved (.provider p)) t)) ∧
        ∀ h P, Kept t .key (tally (moved (.key h P)) t) :=
    ⟨fun h => ⟨fun p => h (.provider p), fun h' P => h (.key h' P)⟩, fun h k => by
      cases k with
      | provider p => exact h.1 p
      | key h' P => exact h.2 h' P⟩
  rw [hsplit, providers_kept_iff hu hint, keys_kept_iff hu hint, Recoverable, ← and_assoc]
  refine and_congr_left fun _ => ⟨fun h e he hfail hs => ?_, fun h => ⟨?_, ?_⟩⟩
  · exact hs.on.elim (fun hon => h.1 e he hfail hon hs) fun hon => h.2 e he hfail hon hs
  · exact fun e he hfail _ => h e he hfail
  · exact fun e he hfail _ => h e he hfail

variable {L L' : Ledgers} {chainName requestId : String} {messages : List ChatMessage}
  {params : Option SamplingParams}

/-- Redis applies every claim, but the client has gone before the reply arrives. -/
def lateReply (L : Ledgers) : (c : Cmd) → Reply c × Ledgers
  | .incrbyfloat k d =>
    (if 0 < d then .failed .cancelled true else .ok (L k + d), Function.update L k (L k + d))
  | c => answer calm L c

theorem redis_lateReply (L : Ledgers) (c : Cmd) :
    (redis Healthy).answers L ⟨c, (lateReply L c).1⟩ (lateReply L c).2 := by
  have hanswer := redis_answer (fun L c => healthy_answer L c healthy_calm) L c
  cases c with
  | incrbyfloat k d =>
    unfold lateReply
    by_cases hd : 0 < d
    · refine ⟨trivial, fun k' => ?_, ?_⟩
      · by_cases hk : k = k'
        · subst hk
          simp [hd]
        · simp [hd, hk, Ne.symm hk]
      · simp [hd, Reports]
    · simpa [hd, answer] using hanswer
  | _ => exact hanswer

/-- The request in flight when that happens, on empty ledgers. -/
def abandoned : List Ev × (Except Exc (OrderedDict String ℚ × Finset String) × Unit) × Ledgers :=
  Prog.drive lateReply
    ((reserveChain { hashKey := id } "default" [⟨"user", "hi!"⟩] none "r" "k" : Py Unit _) ())
    fun _ => 0

theorem runs_abandoned : Coro.Runs
    (reserveChain { hashKey := id } "default" [⟨"user", "hi!"⟩] none "r" "k" : Py Unit _) ()
    abandoned.1 abandoned.2.1.1 () :=
  Prog.returns_drive _ _ _

theorem evolves_abandoned : (redis Healthy).Evolves (fun _ => 0) abandoned.1 abandoned.2.2 :=
  Pool.evolves_drive redis_lateReply _ _

/-- The exception the run ends in. -/
def cancelled? {α : Type} : Except Exc α → Bool
  | .error .cancelled => true
  | _ => false

theorem abandoned_outcome : abandoned.2.1.1 = .error .cancelled := by
  have h : cancelled? abandoned.2.1.1 = true := by decide +kernel
  unfold cancelled? at h
  split at h
  · assumption
  · cases h

theorem interruptedOnce_abandoned : InterruptedOnce abandoned.1 where
  once := by decide +kernel
  kind e he x hx := by
    have hall : (abandoned.1.all fun e => (raised e).all fun x => cancelled? (.error x : Except Exc Unit))
        = true := by decide +kernel
    have hc := List.all_eq_true.mp hall e he
    rw [hx, Option.all_some] at hc
    unfold cancelled? at hc
    split at hc
    · next h => exact .inr (Except.error.inj h)
    · cases hc
  early pre e post heq _ := by
    have hnil : calls abandoned.1 = [] := List.isEmpty_iff.mp (by decide +kernel)
    rw [heq, calls_append, List.append_eq_nil_iff] at hnil
    exact hnil.1

theorem abandoned_left : abandoned.2.2 (.provider "openai") ≠ 0 ∧
    tally (leaked .provider) abandoned.1 = 0 := by decide +kernel

end LlmGateway.AllOrNothing
