import LlmGateway.Gateway.Command
import Mathlib.Algebra.Order.Group.Defs
import Mathlib.Data.List.Flatten

/-!
# The circuit breaker

Mirrors `CircuitBreaker` of `app/routing/circuit_breaker.py`. A method that reads the clock takes
the reading as an argument; `allowRequest` takes two, for the check of the cooldown and for the
claim of the trial.

The second half compares a breaker with the history of its calls. The fields turn out to be three
facts about that history: how many failures there are since the last success, when the last failure
was, and when a request was last admitted after it.
-/

namespace LlmGateway

/-- `CircuitBreaker`, with the settings it was made with. -/
structure CircuitBreaker (K : Type) where
  failureThreshold : ℕ
  cooldown : K
  failureCount : ℕ
  state : CircuitState
  openedAt : Option K
  trialStartedAt : Option K
  deriving DecidableEq

namespace CircuitBreaker

variable {K : Type}

/-- `CircuitBreaker.__init__`. -/
def new (failureThreshold : ℕ) (cooldown : K) : CircuitBreaker K where
  failureThreshold := failureThreshold
  cooldown := cooldown
  failureCount := 0
  state := .closed
  openedAt := none
  trialStartedAt := none

/-- `CircuitBreaker.record_success`. -/
def recordSuccess (b : CircuitBreaker K) : CircuitBreaker K :=
  { b with failureCount := 0, state := .closed, openedAt := none, trialStartedAt := none }

/-- `CircuitBreaker.record_failure`, when the clock reads `t`. -/
def recordFailure (b : CircuitBreaker K) (t : K) : CircuitBreaker K :=
  if b.state = .halfOpen ∨ b.failureThreshold ≤ b.failureCount + 1 then
    { b with
      failureCount := b.failureCount + 1, state := .open, openedAt := some t,
      trialStartedAt := none }
  else { b with failureCount := b.failureCount + 1, trialStartedAt := none }

section Clock

variable [LinearOrder K] [Sub K]

/-- `_update_state`, when the clock reads `t`. -/
def updateState (b : CircuitBreaker K) (t : K) : CircuitBreaker K :=
  match b.state, b.openedAt with
  | .open, some openedAt =>
    if b.cooldown ≤ t - openedAt then { b with state := .halfOpen } else b
  | _, _ => b

/-- `CircuitBreaker.allow_request`, when the clock reads `t` and then `now`. -/
def allowRequest (b : CircuitBreaker K) (t now : K) : Bool × CircuitBreaker K :=
  let b := b.updateState t
  match b.state with
  | .open => (false, b)
  | .halfOpen =>
    -- a claim that is a cooldown old no longer holds the trial
    if ∃ claimed ∈ b.trialStartedAt, now - claimed < b.cooldown then (false, b)
    else (true, { b with trialStartedAt := some now })
  | .closed => (true, b)

/-- The property `state`, when the clock reads `t`. -/
def readState (b : CircuitBreaker K) (t : K) : CircuitState × CircuitBreaker K :=
  ((b.updateState t).state, b.updateState t)

variable {b : CircuitBreaker K} {t now : K}

theorem allowRequest_of_closed (h : (b.updateState t).state = .closed) :
    b.allowRequest t now = (true, b.updateState t) := by
  simp [allowRequest, h]

theorem allowRequest_of_open (h : (b.updateState t).state = .open) :
    b.allowRequest t now = (false, b.updateState t) := by
  simp [allowRequest, h]

theorem allowRequest_of_halfOpen (h : (b.updateState t).state = .halfOpen) :
    b.allowRequest t now =
      if ∃ claimed ∈ (b.updateState t).trialStartedAt, now - claimed < (b.updateState t).cooldown
      then (false, b.updateState t)
      else (true, { b.updateState t with trialStartedAt := some now }) := by
  simp [allowRequest, h]

end Clock

/-! ## Sequences of calls -/

/-- A call of a breaker, with the readings of the clock it takes. -/
inductive Op (K : Type) where
  | allowRequest (t now : K)
  | state (t : K)
  | recordSuccess
  | recordFailure (t : K)

/-- The readings of the clock a call takes, the latest first. -/
def Op.readings : Op K → List K
  | .allowRequest t now => [now, t]
  | .state t => [t]
  | .recordSuccess => []
  | .recordFailure t => [t]

/-- The calls listed, the latest first, read a clock that never goes back. -/
def Timely [LE K] (calls : List (Op K)) : Prop :=
  (calls.flatMap Op.readings).Pairwise (· ≥ ·)

/-- What a call told or was told. -/
inductive Entry (K : Type) where
  | admitted (now : K)
  | refused
  | read
  | success
  | failure (t : K)

section Clock

variable [LinearOrder K] [Sub K]

/-- The breaker after one more call. -/
def step (b : CircuitBreaker K) : Op K → CircuitBreaker K
  | .allowRequest t now => (b.allowRequest t now).2
  | .state t => (b.readState t).2
  | .recordSuccess => b.recordSuccess
  | .recordFailure t => b.recordFailure t

/-- A new breaker after the calls listed, the latest first. -/
def after (n : ℕ) (cooldown : K) : List (Op K) → CircuitBreaker K
  | [] => new n cooldown
  | call :: earlier => (after n cooldown earlier).step call

/-- The entry a call of `b` makes in the history. -/
def entry (b : CircuitBreaker K) : Op K → Entry K
  | .allowRequest t now => if (b.allowRequest t now).1 = true then .admitted now else .refused
  | .state _ => .read
  | .recordSuccess => .success
  | .recordFailure t => .failure t

/-- The history of the calls listed, the latest first. -/
def history (n : ℕ) (cooldown : K) : List (Op K) → List (Entry K)
  | [] => []
  | call :: earlier => (after n cooldown earlier).entry call :: history n cooldown earlier

end Clock

/-! ## What a history says -/

/-- How many failures have been recorded since the last success. -/
def streak : List (Entry K) → ℕ
  | [] => 0
  | .success :: _ => 0
  | .failure _ :: h => streak h + 1
  | _ :: h => streak h

/-- When the last failure was recorded. -/
def lastFailure : List (Entry K) → Option K
  | [] => none
  | .failure t :: _ => some t
  | _ :: h => lastFailure h

/-- When requests have been admitted since the last failure. -/
def admittedSince : List (Entry K) → List K
  | [] => []
  | .failure _ :: _ => []
  | .admitted now :: h => now :: admittedSince h
  | _ :: h => admittedSince h

theorem lastFailure_of_streak {h : List (Entry K)} (hpos : 0 < streak h) :
    ∃ t, lastFailure h = some t := by
  induction h with
  | nil => exact absurd hpos (lt_irrefl 0)
  | cons e h ih =>
    cases e with
    | failure t => exact ⟨t, rfl⟩
    | success => exact absurd hpos (lt_irrefl 0)
    | admitted now => exact ih hpos
    | refused => exact ih hpos
    | read => exact ih hpos

/-- When a request was admitted or a failure recorded. -/
def Entry.instant? : Entry K → Option K
  | .admitted now => some now
  | .failure t => some t
  | _ => none

theorem admittedSince_sublist (h : List (Entry K)) :
    (admittedSince h).Sublist (h.filterMap Entry.instant?) := by
  induction h with
  | nil => exact .slnil
  | cons e h ih =>
    cases e with
    | failure t => exact List.nil_sublist _
    | admitted now => exact ih.cons_cons now
    | success => exact ih
    | refused => exact ih
    | read => exact ih

/-- An admission that is not since the last failure was no later than it. -/
theorem mem_admittedSince_or [LinearOrder K] {h : List (Entry K)} {a : K}
    (ha : .admitted a ∈ h) (hr : (h.filterMap Entry.instant?).Pairwise (· ≥ ·)) :
    a ∈ admittedSince h ∨ ∃ f ∈ lastFailure h, a ≤ f := by
  induction h with
  | nil => cases ha
  | cons e h ih =>
    rcases List.mem_cons.mp ha with rfl | hmem
    · exact .inl (.head _)
    cases e with
    | failure f =>
      obtain ⟨hlater, -⟩ := List.pairwise_cons.mp hr
      exact .inr ⟨f, rfl, hlater a (List.mem_filterMap.mpr ⟨_, hmem, rfl⟩)⟩
    | admitted now =>
      obtain ⟨-, hrest⟩ := List.pairwise_cons.mp hr
      exact (ih hmem hrest).imp (List.mem_cons_of_mem _) id
    | success => exact ih hmem hr
    | refused => exact ih hmem hr
    | read => exact ih hmem hr

section Refinement

variable [LinearOrder K] [Sub K] {n : ℕ} {cooldown : K} {calls : List (Op K)} {t now : K}

/-- The instants of a history are among the readings of the clock. -/
theorem instants_sublist (calls : List (Op K)) :
    ((history n cooldown calls).filterMap Entry.instant?).Sublist
      (calls.flatMap Op.readings) := by
  induction calls with
  | nil => exact .slnil
  | cons call earlier ih =>
    cases call with
    | recordSuccess => exact ih
    | recordFailure t => exact ih.cons_cons t
    | state t => exact ih.cons t
    | allowRequest t now =>
      rw [history, entry]
      split
      · exact (ih.cons t).cons_cons now
      · exact (ih.cons t).cons now

/-- The fields of a breaker in terms of its history `h` and the readings `ts` of the clock. -/
structure Tracks (n : ℕ) (cooldown : K) (b : CircuitBreaker K) (h : List (Entry K))
    (ts : List K) : Prop where
  threshold_eq : b.failureThreshold = n
  cooldown_eq : b.cooldown = cooldown
  count_eq : b.failureCount = streak h
  closed_iff : b.state = .closed ↔ streak h < n
  opened_eq : b.state ≠ .closed → b.openedAt = lastFailure h
  trial_eq : b.state ≠ .closed → b.trialStartedAt = (admittedSince h).head?
  /-- an open breaker has admitted no request since it opened -/
  untried : b.state = .open → admittedSince h = []
  /-- a half-open breaker has cooled down -/
  cooled : b.state = .halfOpen → ∀ f ∈ lastFailure h, ∃ s ∈ ts, cooldown ≤ s - f

namespace Tracks

variable {b : CircuitBreaker K} {h : List (Entry K)} {ts : List K}

theorem initial (hn : 1 ≤ n) : Tracks n cooldown (new n cooldown) [] [] where
  threshold_eq := rfl
  cooldown_eq := rfl
  count_eq := rfl
  closed_iff := iff_of_true rfl hn
  opened_eq := fun hs => absurd rfl hs
  trial_eq := fun hs => absurd rfl hs
  untried := nofun
  cooled := nofun

theorem updateState (hb : Tracks n cooldown b h ts) :
    Tracks n cooldown (b.updateState t) h (t :: ts) := by
  have hlater : Tracks n cooldown b h (t :: ts) :=
    { hb with cooled := fun hs f hf =>
        (hb.cooled hs f hf).imp fun _ hx => ⟨List.mem_cons_of_mem t hx.1, hx.2⟩ }
  unfold CircuitBreaker.updateState
  split
  · next openedAt hstate hopened =>
    split
    · next hcool =>
      have hclosed : b.state ≠ .closed := by simp [hstate]
      exact
        { hlater with
          closed_iff := iff_of_false nofun fun hlt => hclosed (hb.closed_iff.mpr hlt)
          opened_eq := fun _ => hb.opened_eq hclosed
          trial_eq := fun _ => hb.trial_eq hclosed
          untried := nofun
          cooled := fun _ f hf => by
            rw [hb.opened_eq hclosed] at hopened
            obtain rfl : openedAt = f := Option.some.inj (hopened.symm.trans hf)
            exact ⟨t, .head _, hb.cooldown_eq ▸ hcool⟩ }
    · exact hlater
  · exact hlater

theorem recordSuccess (hn : 1 ≤ n) (hb : Tracks n cooldown b h ts) :
    Tracks n cooldown b.recordSuccess (.success :: h) ts where
  threshold_eq := hb.threshold_eq
  cooldown_eq := hb.cooldown_eq
  count_eq := rfl
  closed_iff := iff_of_true rfl hn
  opened_eq := fun hs => absurd rfl hs
  trial_eq := fun hs => absurd rfl hs
  untried := nofun
  cooled := nofun

theorem recordFailure (hb : Tracks n cooldown b h ts) :
    Tracks n cooldown (b.recordFailure t) (.failure t :: h) (t :: ts) := by
  have hcount : b.failureCount + 1 = streak (.failure t :: h) := by rw [hb.count_eq]; rfl
  unfold CircuitBreaker.recordFailure
  split
  · next hopen =>
    have hreached : n ≤ streak (.failure t :: h) := by
      rcases hopen with hhalf | hge
      · have hlt : ¬ streak h < n := fun hlt => by
          rw [← hb.closed_iff, hhalf] at hlt
          cases hlt
        exact (not_lt.mp hlt).trans (Nat.le_succ _)
      · rwa [hb.threshold_eq, hcount] at hge
    exact
      { threshold_eq := hb.threshold_eq
        cooldown_eq := hb.cooldown_eq
        count_eq := hcount
        closed_iff := iff_of_false nofun (not_lt.mpr hreached)
        opened_eq := fun _ => rfl
        trial_eq := fun _ => rfl
        untried := fun _ => rfl
        cooled := nofun }
  · next hopen =>
    rw [not_or, hb.threshold_eq, hcount, not_le] at hopen
    have hclosed : b.state = .closed :=
      hb.closed_iff.mpr ((Nat.lt_succ_self _).trans hopen.2)
    exact
      { threshold_eq := hb.threshold_eq
        cooldown_eq := hb.cooldown_eq
        count_eq := hcount
        closed_iff := iff_of_true hclosed hopen.2
        opened_eq := fun hs => absurd hclosed hs
        trial_eq := fun hs => absurd hclosed hs
        untried := fun hs => absurd (hs.symm.trans hclosed) nofun
        cooled := fun hs => absurd (hs.symm.trans hclosed) nofun }

/-- An entry that is neither a report nor an admission leaves the rest as it was. -/
theorem skip {e : Entry K} (he : e = .refused ∨ e = .read) {ts' : List K}
    (hts : ∀ s ∈ ts, s ∈ ts') (hb : Tracks n cooldown b h ts) :
    Tracks n cooldown b (e :: h) ts' := by
  have hcool : b.state = .halfOpen → ∀ f ∈ lastFailure h, ∃ s ∈ ts', cooldown ≤ s - f :=
    fun hs f hf => (hb.cooled hs f hf).imp fun _ hx => ⟨hts _ hx.1, hx.2⟩
  rcases he with rfl | rfl
  · exact { hb with cooled := hcool }
  · exact { hb with cooled := hcool }

theorem allowRequest (hb : Tracks n cooldown b h ts) :
    Tracks n cooldown (b.allowRequest t now).2 (b.entry (.allowRequest t now) :: h)
      (now :: t :: ts) := by
  have hc : Tracks n cooldown (b.updateState t) h (t :: ts) := hb.updateState
  have hlater : ∀ s ∈ t :: ts, s ∈ now :: t :: ts := fun _ => List.mem_cons_of_mem now
  match hstate : (b.updateState t).state with
  | .open =>
    rw [entry, allowRequest_of_open hstate]
    exact hc.skip (.inl rfl) hlater
  | .halfOpen =>
    rw [entry, allowRequest_of_halfOpen hstate]
    split
    · exact hc.skip (.inl rfl) hlater
    · exact
        { hc with
          trial_eq := fun _ => rfl
          untried := fun hs => absurd (hs.symm.trans hstate) nofun
          cooled := fun hs f hf => (hc.cooled hs f hf).imp fun _ hx => ⟨hlater _ hx.1, hx.2⟩ }
  | .closed =>
    rw [entry, allowRequest_of_closed hstate]
    exact
      { hc with
        trial_eq := fun hs => absurd hstate hs
        untried := fun hs => absurd (hs.symm.trans hstate) nofun
        cooled := fun hs => absurd (hs.symm.trans hstate) nofun }

/-- A breaker keeps track of its history. -/
theorem after (hn : 1 ≤ n) (calls : List (Op K)) :
    Tracks n cooldown (after n cooldown calls) (history n cooldown calls)
      (calls.flatMap Op.readings) := by
  induction calls with
  | nil => exact .initial hn
  | cons call earlier ih =>
    cases call with
    | allowRequest t now => exact ih.allowRequest
    | state t => exact ih.updateState.skip (.inr rfl) fun _ hs => hs
    | recordSuccess => exact ih.recordSuccess hn
    | recordFailure t => exact ih.recordFailure

end Tracks

end Refinement

/-! ## The specification -/

section Specification

variable [AddCommGroup K] [LinearOrder K] [IsOrderedAddMonoid K] {n : ℕ} {cooldown : K}
  {calls : List (Op K)} {t now : K}

/-- The last failure of a history is a cooldown ago. -/
def Cool (cooldown : K) (h : List (Entry K)) (t : K) : Prop :=
  ∀ f ∈ lastFailure h, cooldown ≤ t - f

/-- No request has been admitted within the last cooldown since the last failure of a history. -/
def Untaken (cooldown : K) (h : List (Entry K)) (now : K) : Prop :=
  ∀ a ∈ admittedSince h, cooldown ≤ now - a

/-- The latest admission is the only one that can hold the trial. -/
theorem untaken_iff {h : List (Entry K)} (hsorted : (admittedSince h).Pairwise (· ≥ ·)) :
    Untaken cooldown h now ↔ ¬ ∃ a ∈ (admittedSince h).head?, now - a < cooldown := by
  unfold Untaken
  cases hs : admittedSince h with
  | nil => simp
  | cons a rest =>
    rw [hs, List.pairwise_cons] at hsorted
    rw [List.forall_mem_cons]
    constructor
    · rintro ⟨hfirst, -⟩ ⟨_, ⟨⟩, hlt⟩
      exact not_lt.mpr hfirst hlt
    · intro hnone
      have hfirst : cooldown ≤ now - a := not_lt.mp fun hlt => hnone ⟨a, rfl, hlt⟩
      exact ⟨hfirst, fun x hx => hfirst.trans (sub_le_sub_left (hsorted.1 x hx) now)⟩

namespace Tracks

variable {b : CircuitBreaker K} {h : List (Entry K)} {ts : List K}

theorem updateState_halfOpen_iff (hn : 1 ≤ n) (hb : Tracks n cooldown b h ts)
    (hts : ∀ s ∈ ts, s ≤ t) :
    (b.updateState t).state = .halfOpen ↔ n ≤ streak h ∧ Cool cooldown h t := by
  constructor
  · intro hhalf
    refine ⟨not_lt.mp fun hlt => ?_, fun f hf => ?_⟩
    · rw [← (hb.updateState (t := t)).closed_iff, hhalf] at hlt
      cases hlt
    · obtain ⟨s, hs, hle⟩ := hb.updateState.cooled hhalf f hf
      have hst : s ≤ t := (List.mem_cons.mp hs).elim le_of_eq (hts s)
      exact hle.trans (sub_le_sub_right hst f)
  · rintro ⟨hge, hcool⟩
    obtain ⟨f, hf⟩ := lastFailure_of_streak (hn.trans hge)
    have hclosed : b.state ≠ .closed := fun hs => not_lt.mpr hge (hb.closed_iff.mp hs)
    have hopened : b.openedAt = some f := (hb.opened_eq hclosed).trans hf
    have hle : b.cooldown ≤ t - f := hb.cooldown_eq ▸ hcool f hf
    match hstate : b.state with
    | .closed => exact absurd hstate hclosed
    | .halfOpen => simp [CircuitBreaker.updateState, hstate]
    | .open => simp [CircuitBreaker.updateState, hstate, hopened, hle]

/-- `allow_request` answers what the history says. -/
theorem allowRequest_iff (hn : 1 ≤ n) (hb : Tracks n cooldown b h ts) (hts : ∀ s ∈ ts, s ≤ t)
    (hsorted : (admittedSince h).Pairwise (· ≥ ·)) :
    (b.allowRequest t now).1 = true ↔
      streak h < n ∨ Cool cooldown h t ∧ Untaken cooldown h now := by
  have hc : Tracks n cooldown (b.updateState t) h (t :: ts) := hb.updateState
  match hstate : (b.updateState t).state with
  | .closed =>
    rw [allowRequest_of_closed hstate]
    exact iff_of_true rfl (.inl (hc.closed_iff.mp hstate))
  | .open =>
    have hge : ¬ streak h < n := fun hlt => by
      rw [← hc.closed_iff, hstate] at hlt
      cases hlt
    have hwarm : ¬ Cool cooldown h t := fun hcool => by
      have hhalf := (hb.updateState_halfOpen_iff hn hts).mpr ⟨not_lt.mp hge, hcool⟩
      cases hstate.symm.trans hhalf
    rw [allowRequest_of_open hstate]
    exact iff_of_false nofun fun hor => hor.elim hge fun hand => hwarm hand.1
  | .halfOpen =>
    obtain ⟨hge, hcool⟩ := (hb.updateState_halfOpen_iff hn hts).mp hstate
    have hclosed : (b.updateState t).state ≠ .closed := fun hs => by cases hstate.symm.trans hs
    rw [allowRequest_of_halfOpen hstate, hc.trial_eq hclosed, hc.cooldown_eq]
    have hheld : Untaken cooldown h now ↔
        ¬ ∃ a ∈ (admittedSince h).head?, now - a < cooldown := untaken_iff hsorted
    split
    · next hclaim =>
      refine iff_of_false nofun fun hor => hor.elim (not_lt.mpr hge) fun hand => ?_
      exact hheld.mp hand.2 hclaim
    · next hclaim => exact iff_of_true rfl (.inr ⟨hcool, hheld.mpr hclaim⟩)

end Tracks

/-! ## Breakers and their histories -/

omit [AddCommGroup K] [IsOrderedAddMonoid K] in
/-- A clock that never goes back, as one call of `allow_request` sees it. -/
theorem Timely.allowRequest (h : Timely (.allowRequest t now :: calls)) :
    t ≤ now ∧ (∀ s ∈ calls.flatMap Op.readings, s ≤ t) ∧ Timely calls := by
  obtain ⟨hnow, hrest⟩ := List.pairwise_cons.mp h
  obtain ⟨ht, hcalls⟩ := List.pairwise_cons.mp hrest
  exact ⟨hnow t (.head _), ht, hcalls⟩

omit [AddCommGroup K] [IsOrderedAddMonoid K] in
theorem Timely.of_append {later : List (Op K)} (h : Timely (later ++ calls)) : Timely calls := by
  rw [Timely, List.flatMap_append] at h
  exact (List.pairwise_append.mp h).2.1

omit [IsOrderedAddMonoid K] in
theorem sorted_instants (h : Timely calls) :
    ((history n cooldown calls).filterMap Entry.instant?).Pairwise (· ≥ ·) :=
  h.sublist (instants_sublist calls)

theorem allowRequest_after_iff (hn : 1 ≤ n) (h : Timely (.allowRequest t now :: calls)) :
    ((after n cooldown calls).allowRequest t now).1 = true ↔
      streak (history n cooldown calls) < n ∨
        Cool cooldown (history n cooldown calls) t ∧
          Untaken cooldown (history n cooldown calls) now := by
  obtain ⟨-, hts, hcalls⟩ := h.allowRequest
  exact (Tracks.after hn calls).allowRequest_iff hn hts
    ((sorted_instants hcalls).sublist (admittedSince_sublist _))

/-- While a breaker is not closed, it admits a request only a cooldown after every earlier one. -/
theorem cooldown_le_of_admitted (hn : 1 ≤ n) (h : Timely (.allowRequest t now :: calls))
    (hstate : (after n cooldown calls).state ≠ .closed)
    (hallow : ((after n cooldown calls).allowRequest t now).1 = true) {a : K}
    (ha : .admitted a ∈ history n cooldown calls) : cooldown ≤ now - a := by
  obtain ⟨hnow, -, hcalls⟩ := h.allowRequest
  rcases (allowRequest_after_iff hn h).mp hallow with hlt | ⟨hcool, huntaken⟩
  · exact absurd ((Tracks.after hn calls).closed_iff.mpr hlt) hstate
  rcases mem_admittedSince_or ha (sorted_instants hcalls) with hsince | ⟨f, hf, haf⟩
  · exact huntaken a hsince
  · calc cooldown ≤ t - f := hcool f hf
      _ ≤ now - f := sub_le_sub_right hnow f
      _ ≤ now - a := sub_le_sub_left haf now

omit [AddCommGroup K] [LinearOrder K] [IsOrderedAddMonoid K] in
theorem lastFailure_mem {h : List (Entry K)} {f : K} (hf : f ∈ lastFailure h) : .failure f ∈ h := by
  induction h with
  | nil => cases hf
  | cons e h ih =>
    cases e with
    | failure t =>
      obtain rfl : t = f := Option.some.inj hf
      exact .head _
    | admitted now => exact .tail _ (ih hf)
    | success => exact .tail _ (ih hf)
    | refused => exact .tail _ (ih hf)
    | read => exact .tail _ (ih hf)

/-- A breaker admits a request once every admission and every failure is a cooldown ago. -/
theorem allowRequest_of_quiet (hn : 1 ≤ n) (h : Timely (.allowRequest t now :: calls))
    (hquiet : ∀ x ∈ (history n cooldown calls).filterMap Entry.instant?, cooldown ≤ t - x) :
    ((after n cooldown calls).allowRequest t now).1 = true := by
  refine (allowRequest_after_iff hn h).mpr (.inr ⟨fun f hf => ?_, fun a ha => ?_⟩)
  · exact hquiet f (List.mem_filterMap.mpr ⟨_, lastFailure_mem hf, rfl⟩)
  · exact (hquiet a ((admittedSince_sublist _).subset ha)).trans
      (sub_le_sub_right h.allowRequest.1 a)

/-! ## Reads -/

/-- The calls without the reads of the state. -/
def unread (calls : List (Op K)) : List (Op K) :=
  calls.filter fun
    | .state _ => false
    | _ => true

/-- A history without the reads of the state. -/
def told (h : List (Entry K)) : List (Entry K) :=
  h.filter fun
    | .read => false
    | _ => true

omit [AddCommGroup K] [LinearOrder K] [IsOrderedAddMonoid K] in
/-- What a history says does not depend on the reads in it. -/
theorem facts_told (h : List (Entry K)) :
    streak (told h) = streak h ∧ lastFailure (told h) = lastFailure h ∧
      admittedSince (told h) = admittedSince h := by
  induction h with
  | nil => exact ⟨rfl, rfl, rfl⟩
  | cons e h ih =>
    obtain ⟨hstreak, hlast, hadmitted⟩ := ih
    cases e with
    | read => exact ⟨hstreak, hlast, hadmitted⟩
    | refused => exact ⟨hstreak, hlast, hadmitted⟩
    | success => exact ⟨rfl, hlast, hadmitted⟩
    | failure t => exact ⟨congrArg (· + 1) hstreak, rfl, rfl⟩
    | admitted now => exact ⟨hstreak, hlast, congrArg (now :: ·) hadmitted⟩

omit [AddCommGroup K] [IsOrderedAddMonoid K] in
theorem Timely.unread (h : Timely calls) : Timely (unread calls) :=
  h.sublist (List.filter_sublist.flatMap _)

/-- Two breakers that track the same but for reads are in the same state whenever they are read. -/
theorem Tracks.updateState_eq {b b' : CircuitBreaker K} {h : List (Entry K)} {ts ts' : List K}
    (hn : 1 ≤ n) (hb : Tracks n cooldown b h ts) (hb' : Tracks n cooldown b' (told h) ts')
    (hts : ∀ s ∈ ts, s ≤ t) (hts' : ∀ s ∈ ts', s ≤ t) :
    (b.updateState t).state = (b'.updateState t).state := by
  obtain ⟨hstreak, hlast, -⟩ := facts_told h
  have hclosed := (hb.updateState (t := t)).closed_iff
  have hclosed' := (hb'.updateState (t := t)).closed_iff
  have hhalf := hb.updateState_halfOpen_iff hn hts
  have hhalf' := hb'.updateState_halfOpen_iff hn hts'
  rw [hstreak] at hclosed' hhalf'
  rw [Cool, hlast] at hhalf'
  have hc := hclosed.trans hclosed'.symm
  have hh := hhalf.trans hhalf'.symm
  match hs : (b.updateState t).state, hs' : (b'.updateState t).state with
  | .closed, .closed | .halfOpen, .halfOpen | .open, .open => rfl
  | .closed, .halfOpen | .closed, .open | .halfOpen, .closed | .open, .closed => simp [hs, hs'] at hc
  | .halfOpen, .open | .open, .halfOpen => simp [hs, hs'] at hh

/-- A breaker with the history of another but for the reads gives the same answer. -/
theorem allowRequest_eq (hn : 1 ≤ n) {calls' : List (Op K)}
    (h : Timely (.allowRequest t now :: calls)) (h' : Timely (.allowRequest t now :: calls'))
    (htold : history n cooldown calls' = told (history n cooldown calls)) :
    ((after n cooldown calls').allowRequest t now).1 =
      ((after n cooldown calls).allowRequest t now).1 := by
  obtain ⟨hstreak, hlast, hadmitted⟩ := facts_told (history n cooldown calls)
  have hiff : ((after n cooldown calls').allowRequest t now).1 = true ↔ _ :=
    allowRequest_after_iff hn h'
  rw [htold, hstreak, Cool, hlast, Untaken, hadmitted] at hiff
  exact Bool.eq_iff_iff.mpr (hiff.trans (allowRequest_after_iff hn h).symm)

/-- Without the reads the history is the same but for the reads. -/
theorem history_unread (hn : 1 ≤ n) (h : Timely calls) :
    history n cooldown (unread calls) = told (history n cooldown calls) := by
  induction calls with
  | nil => rfl
  | cons call earlier ih =>
    cases call with
    | recordSuccess => exact congrArg (.success :: ·) (ih h)
    | recordFailure t => exact congrArg (.failure t :: ·) (ih (List.pairwise_cons.mp h).2)
    | state t => exact ih (List.pairwise_cons.mp h).2
    | allowRequest t now =>
      have hrest := ih h.allowRequest.2.2
      have hsame := allowRequest_eq hn h h.unread hrest
      show entry _ _ :: history n cooldown (unread earlier) = told (entry _ _ :: _)
      rw [entry, entry, hsame, hrest]
      split <;> rfl

/-- The breaker against the history of its calls. `allow_request` admits exactly when there have
been fewer failures than the threshold since the last success, or the last failure is a cooldown ago
and no request has been admitted since it within the last cooldown. The reads of the state in
between change neither its answer nor what a further read gives. So two admissions of a breaker that
is not closed are a cooldown apart, and a breaker that has not admitted or counted a failure for a
cooldown admits. -/
theorem allowRequest_matches_history (hn : 1 ≤ n) (h : Timely (.allowRequest t now :: calls)) :
    (((after n cooldown calls).allowRequest t now).1 = true ↔
      streak (history n cooldown calls) < n ∨
        Cool cooldown (history n cooldown calls) t ∧
          Untaken cooldown (history n cooldown calls) now) ∧
    ((after n cooldown (unread calls)).allowRequest t now).1 =
      ((after n cooldown calls).allowRequest t now).1 ∧
    ((after n cooldown (unread calls)).readState t).1 = ((after n cooldown calls).readState t).1 ∧
    ((after n cooldown calls).state ≠ .closed →
      ((after n cooldown calls).allowRequest t now).1 = true →
        ∀ a, .admitted a ∈ history n cooldown calls → cooldown ≤ now - a) ∧
    ((∀ x ∈ (history n cooldown calls).filterMap Entry.instant?, cooldown ≤ t - x) →
      ((after n cooldown calls).allowRequest t now).1 = true) := by
  obtain ⟨-, hts, hcalls⟩ := h.allowRequest
  have hhistory : history n cooldown (unread calls) = _ := history_unread hn hcalls
  have hunread : Tracks n cooldown _ _ _ := Tracks.after hn (unread calls)
  rw [hhistory] at hunread
  have hts' : ∀ s ∈ (unread calls).flatMap Op.readings, s ≤ t := h.unread.allowRequest.2.1
  exact ⟨allowRequest_after_iff hn h, allowRequest_eq hn h h.unread hhistory,
    ((Tracks.after hn calls).updateState_eq hn hunread hts hts').symm,
    fun hstate hallow _ ha => cooldown_le_of_admitted hn h hstate hallow ha,
    allowRequest_of_quiet hn h⟩

/-- Two failures open the breaker, a trial is admitted at 31 and does not report, and the next one
is at 61. -/
theorem allowRequest_matches_history_second_trial :
    ((after 2 (30 : ℤ)
      [.allowRequest 31 31, .state 20, .recordFailure 1, .recordFailure 0]).allowRequest 61 61).1
        = true :=
  (allowRequest_matches_history (by decide) (by unfold Timely; decide)).2.2.2.2 (by decide)

end Specification

end CircuitBreaker

end LlmGateway
