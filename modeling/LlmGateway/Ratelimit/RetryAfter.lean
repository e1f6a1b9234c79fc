import LlmGateway.Ratelimit.BucketExpiry
import LlmGateway.Ratelimit.ClockSkew
import LlmGateway.Ratelimit.Dependency

/-!
# What a refused check leaves behind

A refused check takes nothing and refills the bucket up to its instant. The refill that comes later
makes up the rest, so a client that polls is told the same as one that waits, and a client that waits
as long as `Retry-After` says finds a token.
-/

namespace LlmGateway

variable {K : Type} {bucket : Option (Bucket K)} {b : Bucket K} {e f : Execution K}
  {es fs : List (Execution K)} {u v w x : K}

/-- A check of a run, and whether it has been inserted into it. -/
structure Visit (K : Type) where
  execution : Execution K
  inserted : Bool

/-- The run without the checks that have been inserted. -/
def own (vs : List (Visit K)) : List (Execution K) :=
  (vs.filter fun v => !v.inserted).map Visit.execution

theorem own_cons (v : Visit K) (vs : List (Visit K)) :
    own (v :: vs) = if v.inserted = true then own vs else v.execution :: own vs := by
  cases h : v.inserted <;> simp [own, h]

namespace TokenBucketLimiter

/-- The replies to the executions, when they are made one after the other. -/
def replies (script : Execution K → Option (Bucket K) → (Bool × K) × Bucket K) :
    Option (Bucket K) → List (Execution K) → List (Bool × K)
  | _, [] => []
  | bucket, e :: es => (script e bucket).1 :: replies script (some (script e bucket).2) es

section Script

variable {script : Execution K → Option (Bucket K) → (Bool × K) × Bucket K}

theorem replies_cons :
    replies script bucket (e :: es) =
      (script e bucket).1 :: replies script (some (script e bucket).2) es := rfl

/-- Each check that has been inserted is refused. -/
def InsertedRefused (script : Execution K → Option (Bucket K) → (Bool × K) × Bucket K)
    (bucket : Option (Bucket K)) (vs : List (Visit K)) : Prop :=
  ∀ p ∈ vs.zip (replies script bucket (vs.map Visit.execution)),
    p.1.inserted = true → p.2.1 = false

/-- The replies to the checks that have not been inserted. -/
def ownReplies (script : Execution K → Option (Bucket K) → (Bool × K) × Bucket K)
    (bucket : Option (Bucket K)) (vs : List (Visit K)) : List (Bool × K) :=
  ((vs.zip (replies script bucket (vs.map Visit.execution))).filter fun p => !p.1.inserted).map
    Prod.snd

theorem insertedRefused_cons {v : Visit K} {vs : List (Visit K)} :
    InsertedRefused script bucket (v :: vs) ↔
      (v.inserted = true → (script v.execution bucket).1.1 = false) ∧
        InsertedRefused script (some (script v.execution bucket).2) vs := by
  simp only [InsertedRefused, List.map_cons, replies_cons, List.zip_cons_cons, List.forall_mem_cons]

theorem ownReplies_cons {v : Visit K} {vs : List (Visit K)} :
    ownReplies script bucket (v :: vs) =
      if v.inserted = true then ownReplies script (some (script v.execution bucket).2) vs
      else (script v.execution bucket).1 ::
        ownReplies script (some (script v.execution bucket).2) vs := by
  cases h : v.inserted <;> simp [ownReplies, replies_cons, h]

end Script

variable [Field K] [LinearOrder K] {l : TokenBucketLimiter K}

/-- From the instant `u` on, the two buckets refill to the same. -/
def AgreeFrom (l : TokenBucketLimiter K) (u : K) (bucket bucket' : Option (Bucket K)) : Prop :=
  ∀ w, u ≤ w → l.refilled w bucket = l.refilled w bucket'

section Ordered

variable [IsStrictOrderedRing K]

/-- A refill in two parts is one refill: what the first loses at the top, the second would too. -/
theorem min_add_min_add {cap y z : K} (hz : 0 ≤ z) : min cap (min cap y + z) = min cap (y + z) := by
  rcases le_total cap y with h | h
  · rw [min_eq_left h, min_eq_left (by linarith), min_eq_left (by linarith)]
  · rw [min_eq_right h]

/-- A bucket that is refilled at `v`, and nothing else, is the bucket it was from then on. -/
theorem agreeFrom_refilled {deadline : Option K} (hv : b.updatedAt ≤ v) :
    l.AgreeFrom v (some ⟨l.refilled v (some b), v, deadline⟩) (some b) := by
  intro w hw
  have hrefill : 0 ≤ (w - v) * l.refillRate :=
    mul_nonneg (sub_nonneg.mpr hw) l.refillRate_nonneg
  simp only [refilled_some]
  rw [max_eq_right (sub_nonneg.mpr hv), max_eq_right (sub_nonneg.mpr hw),
    max_eq_right (sub_nonneg.mpr (hv.trans hw)), min_add_min_add hrefill]
  congr 1
  ring

end Ordered

variable [FloorRing K]

theorem check_fst : (l.check e bucket).1 = take (l.refilled e.now (Bucket.read e.time bucket))
    e.requested := rfl

theorem check_snd : (l.check e bucket).2 =
    ⟨(take (l.refilled e.now (Bucket.read e.time bucket)) e.requested).2, e.now,
      some (e.time + l.ttlSeconds)⟩ := rfl

theorem check_congr {bucket' : Option (Bucket K)}
    (h : l.refilled e.now (Bucket.read e.time bucket) =
      l.refilled e.now (Bucket.read e.time bucket')) : l.check e bucket = l.check e bucket' := by
  rw [check, check, h]

/-- A refused check leaves what it found. -/
theorem check_snd_of_refused (h : (l.check e bucket).1.1 = false) :
    (l.check e bucket).2 =
      ⟨l.refilled e.now (Bucket.read e.time bucket), e.now, some (e.time + l.ttlSeconds)⟩ := by
  rw [check_fst, take] at h
  rw [check_snd, take]
  split at h
  · cases h
  · rw [if_neg (by assumption)]

/-- A fresh key has a token, so it refuses no check of cost 1. -/
theorem check_none [IsStrictOrderedRing K] (hcost : e.requested = 1) :
    (l.check e none).1.1 = true := by
  have hone : (1 : ℤ) ≤ (l.capacity : K) := by exact_mod_cast one_le_capacity (l := l)
  rw [check_fst, Bucket.read, Option.filter_none, refilled_none, hcost, take_of_le hone]

/-- Checks of cost 1, at clocks that never go back, none of which finds its bucket expired. -/
structure Steady (l : TokenBucketLimiter K) (es : List (Execution K)) : Prop where
  unexpired : l.Unexpired es
  cost : ∀ e ∈ es, e.requested = 1
  now : (es.map Execution.now).IsChain (· ≤ ·)

theorem Steady.tail (h : l.Steady (e :: es)) : l.Steady es where
  unexpired := h.unexpired.tail
  cost f hf := h.cost f (List.mem_cons_of_mem e hf)
  now := h.now.tail

theorem Steady.right (h : l.Steady (es ++ fs)) : l.Steady fs where
  unexpired := h.unexpired.right_of_append
  cost f hf := h.cost f (List.mem_append_right es hf)
  now := by
    have hnow := h.now
    rw [List.map_append] at hnow
    exact hnow.right_of_append

theorem Steady.time_lt (h : l.Steady (e :: f :: es)) : f.time < e.time + l.ttlSeconds :=
  (List.isChain_cons_cons.mp h.unexpired).1

theorem Steady.now_le (h : l.Steady (e :: f :: es)) : e.now ≤ f.now :=
  (List.isChain_cons_cons.mp h.now).1

theorem Steady.now_le_last {mid : List (Execution K)} (h : l.Steady (e :: (mid ++ [f]))) :
    e.now ≤ f.now := by
  have hpair := List.isChain_iff_pairwise.mp h.now
  rw [List.map_cons, List.pairwise_cons] at hpair
  exact hpair.1 _ (List.mem_map_of_mem (by simp))

/-- The next check finds what the one before left. -/
theorem Steady.read (h : l.Steady (e :: f :: es)) :
    Bucket.read f.time (some (l.check e bucket).2) = some (l.check e bucket).2 :=
  read_of_lt rfl h.time_lt

variable [IsStrictOrderedRing K]

/-! ## The tokens -/

/-- Whatever the clocks read, the tokens stay between 0 and the capacity. -/
theorem tokens_mem_final (hcost : ∀ e ∈ es, e.requested = 1)
    (hbucket : ∀ b ∈ bucket, 0 ≤ b.tokens ∧ b.tokens ≤ l.capacity) :
    ∀ b ∈ final l.check bucket es, 0 ≤ b.tokens ∧ b.tokens ≤ l.capacity := by
  induction es generalizing bucket with
  | nil => exact hbucket
  | cons e es ih =>
    have he : 0 ≤ e.requested := by simp [hcost e List.mem_cons_self]
    refine ih (fun f hf => hcost f (List.mem_cons_of_mem e hf)) ?_
    rintro _ ⟨⟩
    exact ⟨check_tokens_nonneg fun b hb => (hbucket b hb).1, check_tokens_le he⟩

/-! ## Polling -/

/-- A refused check leaves a bucket that is from then on as good as the one it found. -/
theorem agreeFrom_of_refused (h : l.Steady (e :: f :: es))
    (hrefused : (l.check f (some (l.check e bucket).2)).1.1 = false) :
    l.AgreeFrom f.now (some (l.check f (some (l.check e bucket).2)).2)
      (some (l.check e bucket).2) := by
  rw [check_snd_of_refused hrefused, h.read]
  exact agreeFrom_refilled h.now_le

/-- Of two runs that go on from buckets that agree, one of them with checks inserted that are
refused, the other replies are the same. -/
theorem ownReplies_eq {bucket' : Option (Bucket K)} {e' : Execution K} {vs : List (Visit K)}
    (hagree : l.AgreeFrom e.now (some (l.check e bucket).2) (some (l.check e' bucket').2))
    (hsteady : l.Steady (e :: vs.map Visit.execution)) (hlive : l.Unexpired (e' :: own vs))
    (hrefused : InsertedRefused l.check (some (l.check e bucket).2) vs) :
    ownReplies l.check (some (l.check e bucket).2) vs =
      replies l.check (some (l.check e' bucket').2) (own vs) := by
  induction vs generalizing e e' bucket bucket' with
  | nil => rfl
  | cons v vs ih =>
    obtain ⟨hv, hrest⟩ := insertedRefused_cons.mp hrefused
    rw [List.map_cons] at hsteady
    rw [ownReplies_cons, own_cons]
    rw [own_cons] at hlive
    by_cases hinserted : v.inserted = true
    · rw [if_pos hinserted] at hlive ⊢
      rw [if_pos hinserted]
      have hpoll := agreeFrom_of_refused hsteady (hv hinserted)
      refine ih (fun w hw => ?_) hsteady.tail hlive hrest
      exact (hpoll w hw).trans (hagree w (hsteady.now_le.trans hw))
    · rw [if_neg hinserted] at hlive ⊢
      rw [if_neg hinserted, replies_cons]
      obtain ⟨hlt, hchain⟩ := List.isChain_cons_cons.mp hlive
      -- both runs find the same tokens, and leave the same bucket
      have hsame : l.check v.execution (some (l.check e bucket).2) =
          l.check v.execution (some (l.check e' bucket').2) := by
        refine check_congr ?_
        rw [hsteady.read, read_of_lt rfl hlt]
        exact hagree _ hsteady.now_le
      rw [hsame] at hrest ⊢
      exact congrArg _ (ih (fun _ _ => rfl) hsteady.tail hchain hrest)

/-- Inserting checks that are refused changes no other reply. -/
theorem ownReplies_of_insertedRefused {vs : List (Visit K)}
    (hsteady : l.Steady (vs.map Visit.execution)) (hlive : l.Unexpired (own vs))
    (hrefused : InsertedRefused l.check none vs) :
    ownReplies l.check none vs = replies l.check none (own vs) := by
  cases vs with
  | nil => rfl
  | cons v vs =>
    obtain ⟨hv, hrest⟩ := insertedRefused_cons.mp hrefused
    have hfirst := check_none (l := l) (hsteady.cost v.execution List.mem_cons_self)
    have hinserted : ¬ v.inserted = true := fun h => by
      rw [hv h] at hfirst
      cases hfirst
    rw [own_cons, if_neg hinserted] at hlive ⊢
    rw [ownReplies_cons, if_neg hinserted, replies_cons]
    exact congrArg _ (ownReplies_eq (fun _ _ => rfl) hsteady hlive hrest)

/-! ## Waiting -/

/-- After refused checks the bucket refills to what it would have without them. -/
theorem refilled_final_of_refused {mid : List (Execution K)}
    (hsteady : l.Steady (e :: (mid ++ [f])))
    (hrefused : ∀ a ∈ answers l.check (some (l.check e bucket).2) mid, a = false) :
    l.refilled f.now (Bucket.read f.time (final l.check (some (l.check e bucket).2) mid)) =
      l.refilled f.now (some (l.check e bucket).2) := by
  induction mid generalizing e bucket with
  | nil => rw [final, hsteady.read]
  | cons p mid ih =>
    rw [answers_cons, List.forall_mem_cons] at hrefused
    rw [final, ih hsteady.tail hrefused.2]
    exact agreeFrom_of_refused hsteady hrefused.1 _ hsteady.tail.now_le_last

/-- A check that comes `Retry-After` seconds after a refused one is allowed, if none has been since. -/
theorem check_of_retryAfter {mid : List (Execution K)} (hrate : 0 < l.refillRate)
    (hbucket : ∀ b ∈ bucket, 0 ≤ b.tokens) (hsteady : l.Steady (e :: (mid ++ [f])))
    (hrefused : ∀ a ∈ answers l.check (some (l.check e bucket).2) mid, a = false)
    (hwait : e.now + l.retryAfterSeconds ≤ f.now) :
    (l.check f (final l.check (some (l.check e bucket).2) mid)).1.1 = true := by
  have hcost : f.requested = 1 := hsteady.cost f (by simp)
  have hone : (1 : K) ≤ l.refilled f.now (some (l.check e bucket).2) :=
    one_le_refilled hrate (check_tokens_nonneg hbucket) hwait
  rw [check_fst, refilled_final_of_refused hsteady hrefused, hcost, take_of_le (by simpa using hone)]

/-- With a rate above 0, the tokens stay between 0 and the capacity whatever the clocks read. When
these never go back, checks that are refused change no reply to another check, and a check that
comes `Retry-After` seconds after a refused one is allowed, if none has been since. -/
theorem retryAfter_suffices (l : TokenBucketLimiter K) (hrate : 0 < l.refillRate) :
    (∀ es : List (Execution K), (∀ e ∈ es, e.requested = 1) →
      ∀ b ∈ final l.check none es, 0 ≤ b.tokens ∧ b.tokens ≤ l.capacity) ∧
    (∀ vs : List (Visit K), l.Steady (vs.map Visit.execution) → l.Unexpired (own vs) →
      InsertedRefused l.check none vs →
        ownReplies l.check none vs = replies l.check none (own vs)) ∧
    ∀ es e mid f, l.Steady (es ++ e :: (mid ++ [f])) →
      (l.check e (final l.check none es)).1.1 = false →
      (∀ a ∈ answers l.check (final l.check none (es ++ [e])) mid, a = false) →
      e.now + l.retryAfterSeconds ≤ f.now →
        (l.check f (final l.check none (es ++ e :: mid))).1.1 = true := by
  have htokens : ∀ es : List (Execution K), (∀ e ∈ es, e.requested = 1) →
      ∀ b ∈ final l.check none es, 0 ≤ b.tokens ∧ b.tokens ≤ l.capacity :=
    fun es hcost => tokens_mem_final hcost (by simp)
  refine ⟨htokens, fun vs => ownReplies_of_insertedRefused, ?_⟩
  intro es e mid f hsteady _ hrefused hwait
  rw [final_append] at hrefused ⊢
  have hbefore := htokens es fun g hg => hsteady.cost g (List.mem_append_left _ hg)
  exact check_of_retryAfter hrate (fun b hb => (hbefore b hb).1) hsteady.right hrefused hwait

/-- A single token, and another every four seconds. -/
def everyFourSeconds : TokenBucketLimiter ℚ := ⟨1, 1 / 4, by decide, by norm_num⟩

/-- Checks after one and two seconds are refused, and the one after five is allowed. -/
theorem retryAfter_suffices_everyFourSeconds :
    ownReplies everyFourSeconds.check none
          [⟨⟨0, 0, 1⟩, false⟩, ⟨⟨1, 1, 1⟩, true⟩, ⟨⟨5, 5, 1⟩, false⟩] =
        replies everyFourSeconds.check none [⟨0, 0, 1⟩, ⟨5, 5, 1⟩] ∧
      (everyFourSeconds.check ⟨5, 5, 1⟩
        (final everyFourSeconds.check none [⟨0, 0, 1⟩, ⟨1, 1, 1⟩, ⟨2, 2, 1⟩])).1.1 = true := by
  obtain ⟨-, hpoll, hwait⟩ := retryAfter_suffices everyFourSeconds (by decide +kernel)
  refine ⟨hpoll _ ⟨?_, ?_, ?_⟩ ?_ ?_, hwait [⟨0, 0, 1⟩] ⟨1, 1, 1⟩ [⟨2, 2, 1⟩] _ ⟨?_, ?_, ?_⟩ ?_ ?_ ?_⟩
  all_goals
    try unfold Unexpired
    try unfold InsertedRefused
    decide +kernel

end TokenBucketLimiter

end LlmGateway
