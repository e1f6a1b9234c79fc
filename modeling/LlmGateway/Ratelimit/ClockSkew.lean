import LlmGateway.Ratelimit.TokenBucket
import Mathlib.Algebra.Order.Archimedean.Basic
import Mathlib.Data.List.Chain
import Mathlib.Data.Rat.Floor

/-!
# The rate limit, when replicas read clocks of their own

Every check brings the time its replica reads, and the bucket is credited with the seconds since the
last one. As long as the readings never go back, no more checks are allowed between two instants
than the capacity and the refill of that time.
-/

namespace LlmGateway

variable {K : Type} {bucket : Option (Bucket K)} {b : Bucket K} {e f : Execution K}
  {es fs : List (Execution K)} {now time x : K} {requested : ℤ}

/-- How far a clock moves forward between the readings, in all. -/
def forward [LinearOrder K] [AddGroup K] : List K → K
  | t :: u :: ts => max 0 (u - t) + forward (u :: ts)
  | _ => 0

namespace TokenBucketLimiter

/-- Two replicas make `k` checks each in turn, the first with the clock `t` and the second with `u`,
while no time passes at Redis. -/
def bounces [Zero K] (t u : K) (k : ℕ) : List (Execution K) :=
  (List.replicate k [⟨0, t, 1⟩, ⟨0, u, 1⟩]).flatten

theorem bounces_add [Zero K] {t u : K} {j k : ℕ} :
    bounces t u (j + k) = bounces t u j ++ bounces t u k := by
  rw [bounces, List.replicate_add, List.flatten_append, bounces, bounces]

theorem mem_bounces [Zero K] {t u : K} {k : ℕ} (h : e ∈ bounces t u k) :
    e.time = 0 ∧ e.requested = 1 ∧ (e.now = t ∨ e.now = u) := by
  obtain ⟨pair, hpair, he⟩ := List.mem_flatten.mp h
  rw [List.eq_of_mem_replicate hpair] at he
  simp only [List.mem_cons, List.not_mem_nil, or_false] at he
  rcases he with rfl | rfl
  · exact ⟨rfl, rfl, .inl rfl⟩
  · exact ⟨rfl, rfl, .inr rfl⟩

variable [Field K] [LinearOrder K] {l : TokenBucketLimiter K}

section Ordered

variable [IsStrictOrderedRing K]

/-- A clock that never goes back moves forward by no more than the window. -/
theorem forward_le_of_isChain {t b : K} {ts : List K} (hchain : (t :: ts).IsChain (· ≤ ·))
    (hle : ∀ u ∈ t :: ts, u ≤ b) : forward (t :: ts) ≤ b - t := by
  induction ts generalizing t with
  | nil => exact sub_nonneg.mpr (hle t (List.mem_singleton_self t))
  | cons u ts ih =>
    obtain ⟨htu, hchain⟩ := List.isChain_cons_cons.mp hchain
    have hrest := ih hchain fun v hv => hle v (List.mem_cons_of_mem t hv)
    rw [forward, max_eq_right (sub_nonneg.mpr htu)]
    linarith

/-- A token that is taken is one that was there. -/
theorem allowed_add_tokens_le :
    (if (take x 1).1 = true then 1 else 0) + max 0 (take x 1).2 ≤ max 0 x := by
  by_cases h : ((1 : ℤ) : K) ≤ x
  · rw [take_of_le h]
    push_cast at h ⊢
    rw [if_pos rfl, max_eq_right (by linarith), max_eq_right (by linarith)]
    linarith
  · rw [take_of_lt (not_le.mp h)]
    simp

end Ordered

variable [FloorRing K]

theorem final_bounce {t u : K} :
    final l.check bucket (bounces t u 1) =
      some (l.check ⟨0, u, 1⟩ (some (l.check ⟨0, t, 1⟩ bucket).2)).2 := rfl

/-- No execution finds that the bucket the one before left has expired. -/
def Unexpired (l : TokenBucketLimiter K) (es : List (Execution K)) : Prop :=
  es.IsChain fun e f => f.time < e.time + (l.ttlSeconds : K)

variable [IsStrictOrderedRing K]

/-- What an execution takes and leaves it has found. -/
theorem check_allowed_add_tokens_le (bucket : Option (Bucket K)) (hcost : e.requested = 1) :
    (if (l.check e bucket).1.1 = true then 1 else 0) + max 0 (l.check e bucket).2.tokens ≤
      max 0 (l.refilled e.now (Bucket.read e.time bucket)) := by
  have htaken := allowed_add_tokens_le (x := l.refilled e.now (Bucket.read e.time bucket))
  rw [← hcost] at htaken
  exact htaken

/-- The executions after `e` take the tokens it left and those added since. -/
theorem count_after_le (bucket : Option (Bucket K)) (hlive : l.Unexpired (e :: es))
    (hcost : ∀ f ∈ es, f.requested = 1) :
    ((answers l.check (some (l.check e bucket).2) es).count true : K) ≤
      max 0 (l.check e bucket).2.tokens +
        forward ((e :: es).map Execution.now) * l.refillRate := by
  induction es generalizing e bucket with
  | nil => simp [answers, forward]
  | cons f es ih =>
    obtain ⟨hlt, hchain⟩ := List.isChain_cons_cons.mp hlive
    have hrest := ih (some (l.check e bucket).2) hchain
      fun g hg => hcost g (List.mem_cons_of_mem f hg)
    have htaken := check_allowed_add_tokens_le (l := l) (some (l.check e bucket).2)
      (hcost f List.mem_cons_self)
    rw [read_of_lt rfl hlt] at htaken
    have hadded : max 0 (l.refilled f.now (some (l.check e bucket).2)) ≤
        max 0 (l.check e bucket).2.tokens + max 0 (f.now - e.now) * l.refillRate := refilled_le
    have hforward : forward ((e :: f :: es).map Execution.now) =
        max 0 (f.now - e.now) + forward ((f :: es).map Execution.now) := rfl
    rw [count_answers_cons, hforward, add_mul]
    push_cast
    linarith

/-- The tokens ever taken are those of a full bucket and those added since. -/
theorem count_le (bucket : Option (Bucket K)) (hlive : l.Unexpired es)
    (hcost : ∀ e ∈ es, e.requested = 1) :
    ((answers l.check bucket es).count true : K) ≤
      l.capacity + forward (es.map Execution.now) * l.refillRate := by
  cases es with
  | nil => simp [answers, forward]
  | cons e es =>
    have hrest := count_after_le bucket hlive
      fun f hf => hcost f (List.mem_cons_of_mem e hf)
    have htaken := check_allowed_add_tokens_le (l := l) bucket (hcost e List.mem_cons_self)
    have hfull : max 0 (l.refilled e.now (Bucket.read e.time bucket)) ≤ l.capacity :=
      max_le (Nat.cast_nonneg _) refilled_le_capacity
    rw [count_answers_cons]
    push_cast
    linarith

/-! ## Replicas whose clocks differ

The script leaves the caller's `now` as the instant of the last refill. When it is behind the one
found there, the next caller with the clock that is ahead is credited the same seconds again.
-/

section Bounce

variable {t u : K}

/-- The second replica was the last to check, and left some number of tokens. -/
def Bounced (l : TokenBucketLimiter K) (u : K) (bucket : Option (Bucket K)) : Prop :=
  ∃ tokens : K, 0 ≤ tokens ∧ tokens ≤ l.capacity ∧
    bucket = some ⟨tokens, u, some ((0 : K) + l.ttlSeconds)⟩

theorem bounced_of_bounce (h : ∀ b ∈ bucket, 0 ≤ b.tokens) :
    l.Bounced u (final l.check bucket (bounces t u 1)) := by
  have hfirst : ∀ b ∈ some (l.check ⟨0, t, 1⟩ bucket).2, 0 ≤ b.tokens := fun b hb =>
    Option.some.inj hb ▸ check_tokens_nonneg h
  exact ⟨_, check_tokens_nonneg hfirst, check_tokens_le zero_le_one, final_bounce⟩

theorem Bounced.bounces {k : ℕ} (h : l.Bounced u bucket) :
    l.Bounced u (final l.check bucket (bounces t u k)) := by
  induction k generalizing bucket with
  | zero => exact h
  | succ k ih =>
    obtain ⟨tokens, hnonneg, -, hbucket⟩ := h
    have htokens : ∀ b ∈ bucket, 0 ≤ b.tokens := by
      simpa only [hbucket, Option.mem_some, forall_eq'] using hnonneg
    rw [add_comm, bounces_add, final_append]
    exact ih (bounced_of_bounce htokens)

/-- One more check each: one of them is allowed, or the tokens have grown. -/
theorem allowed_or_grown_of_bounce {tokens : K} (htu : t < u) (hle : tokens ≤ l.capacity)
    (hbucket : bucket = some ⟨tokens, u, some ((0 : K) + l.ttlSeconds)⟩) :
    0 < (answers l.check bucket (bounces t u 1)).count true ∨
      tokens + (u - t) * l.refillRate < 1 ∧ final l.check bucket (bounces t u 1) =
        some ⟨tokens + (u - t) * l.refillRate, u, some ((0 : K) + l.ttlSeconds)⟩ := by
  have hlive : (0 : K) < 0 + l.ttlSeconds := by linarith [ttlSeconds_pos (l := l)]
  -- the first clock is behind, so nothing is added
  have hfirst : l.refilled t (Bucket.read 0 bucket) = tokens := by
    rw [hbucket, read_of_lt rfl hlive, refilled_some, max_eq_left (by linarith), zero_mul, add_zero]
    exact min_eq_right hle
  by_cases hallowed : ((1 : ℤ) : K) ≤ tokens
  · left
    have : (l.check ⟨0, t, 1⟩ bucket).1.1 = true := by
      rw [check, hfirst, take_of_le hallowed]
    rw [bounces, List.replicate_one, List.flatten_singleton, count_answers_cons, if_pos this]
    omega
  have hstep : (l.check ⟨0, t, 1⟩ bucket).2 = ⟨tokens, t, some (0 + l.ttlSeconds)⟩ := by
    rw [check, hfirst, take_of_lt (not_le.mp hallowed)]
  have hsecond : l.refilled u (Bucket.read 0 (some (l.check ⟨0, t, 1⟩ bucket).2)) =
      min (l.capacity : K) (tokens + (u - t) * l.refillRate) := by
    rw [hstep, read_of_lt rfl hlive, refilled_some, max_eq_right (by linarith)]
  by_cases hallowed : ((1 : ℤ) : K) ≤ min (l.capacity : K) (tokens + (u - t) * l.refillRate)
  · left
    have : (l.check ⟨0, u, 1⟩ (some (l.check ⟨0, t, 1⟩ bucket).2)).1.1 = true := by
      rw [check, hsecond, take_of_le hallowed]
    rw [bounces, List.replicate_one, List.flatten_singleton, count_answers_cons,
      count_answers_cons, if_pos this]
    omega
  · right
    have hfew : tokens + (u - t) * l.refillRate < 1 := by
      push_cast at hallowed
      exact lt_of_not_ge fun hge => hallowed (le_min one_le_capacity hge)
    have hmin : min (l.capacity : K) (tokens + (u - t) * l.refillRate) =
        tokens + (u - t) * l.refillRate := min_eq_right (hfew.le.trans one_le_capacity)
    rw [final_bounce, check, hsecond, take_of_lt (not_le.mp hallowed), hmin]
    exact ⟨hfew, rfl⟩

/-- The tokens grow by the same amount each time, so sooner or later one is taken. -/
theorem count_bounces_pos {tokens : K} {k : ℕ} (htu : t < u) (hle : tokens ≤ l.capacity)
    (hgrown : 1 ≤ tokens + k * ((u - t) * l.refillRate))
    (hbucket : bucket = some ⟨tokens, u, some ((0 : K) + l.ttlSeconds)⟩) :
    0 < (answers l.check bucket (bounces t u (1 + k))).count true := by
  have hadded : 0 ≤ (u - t) * l.refillRate :=
    mul_nonneg (sub_nonneg.mpr htu.le) l.refillRate_nonneg
  induction k generalizing tokens bucket with
  | zero =>
    refine (allowed_or_grown_of_bounce htu hle hbucket).resolve_right fun ⟨hfew, _⟩ => ?_
    push_cast at hgrown
    linarith
  | succ k ih =>
    rw [bounces_add, answers_append, List.count_append]
    rcases allowed_or_grown_of_bounce htu hle hbucket with hallowed | ⟨hfew, hfinal⟩
    · omega
    · have hrest := ih (hfew.le.trans one_le_capacity)
        (by push_cast at hgrown; linarith) hfinal
      rw [add_comm k 1]
      omega

/-- However many executions are asked for, two clocks that differ get them allowed. -/
theorem exists_le_count (hrate : 0 < l.refillRate) (htu : t < u) (n : ℕ)
    (hbounced : l.Bounced u bucket) :
    ∃ k, n ≤ (answers l.check bucket (bounces t u k)).count true := by
  have hadded : 0 < (u - t) * l.refillRate := mul_pos (sub_pos.mpr htu) hrate
  induction n generalizing bucket with
  | zero => exact ⟨0, Nat.zero_le _⟩
  | succ n ih =>
    obtain ⟨tokens, hnonneg, hle, hbucket⟩ := id hbounced
    obtain ⟨j, hj⟩ := exists_nat_ge (1 / ((u - t) * l.refillRate))
    have hpos := count_bounces_pos (k := j) htu hle
      (by linarith [(div_le_iff₀ hadded).mp hj]) hbucket
    obtain ⟨k, hk⟩ := ih (hbounced.bounces (t := t) (k := 1 + j))
    refine ⟨1 + j + k, ?_⟩
    rw [bounces_add, answers_append, List.count_append]
    omega

end Bounce

/-- Checks of cost 1 at clocks between `a` and `b`, none of which finds its bucket expired. -/
structure UnitChecks (l : TokenBucketLimiter K) (a b : K) (es : List (Execution K)) : Prop where
  unexpired : l.Unexpired es
  cost : ∀ e ∈ es, e.requested = 1
  now : ∀ e ∈ es, a ≤ e.now ∧ e.now ≤ b

/-- No more checks are allowed than a full bucket and the refill from `a` to `b` pay for. -/
def Limited (l : TokenBucketLimiter K) (a b : K) (bucket : Option (Bucket K))
    (es : List (Execution K)) : Prop :=
  ((answers l.check bucket es).count true : K) ≤ l.capacity + l.refillRate * (b - a)

theorem UnitChecks.limited {a b : K} (hchecks : l.UnitChecks a b es) (hab : a ≤ b)
    (h : l.refillRate = 0 ∨ (es.map Execution.now).IsChain (· ≤ ·)) : l.Limited a b bucket es := by
  have hcount := count_le bucket hchecks.unexpired hchecks.cost
  rcases h with hrate | hchain
  · rw [Limited, hrate, zero_mul, add_zero]
    rwa [hrate, mul_zero, add_zero] at hcount
  · have hforward : forward (es.map Execution.now) ≤ b - a := by
      cases es with
      | nil => exact sub_nonneg.mpr hab
      | cons e es =>
        have hlast : forward ((e :: es).map Execution.now) ≤ b - e.now :=
          forward_le_of_isChain hchain (List.forall_mem_map.mpr fun f hf => (hchecks.now f hf).2)
        linarith [(hchecks.now e List.mem_cons_self).1]
    have hrefill := mul_le_mul_of_nonneg_right hforward l.refillRate_nonneg
    rw [Limited, mul_comm]
    linarith

theorem unitChecks_bounces {a b : K} {k : ℕ} (hab : a ≤ b) : l.UnitChecks a b (bounces a b k) where
  unexpired := by
    refine (List.pairwise_of_forall_mem_list fun e he f hf => ?_).isChain
    rw [(mem_bounces he).1, (mem_bounces hf).1, zero_add]
    exact ttlSeconds_pos
  cost e he := (mem_bounces he).2.1
  now e he := by
    rcases (mem_bounces he).2.2 with h | h <;> rw [h]
    · exact ⟨le_rfl, hab⟩
    · exact ⟨hab, le_rfl⟩

/-- With a rate above 0 and two clocks that differ there is no bound at all. -/
theorem exists_not_limited {a b : K} (hrate : 0 < l.refillRate) (hab : a < b) :
    ∃ k, ¬ l.Limited a b none (bounces a b k) := by
  obtain ⟨n, hn⟩ := exists_nat_gt (l.capacity + l.refillRate * (b - a))
  have hfresh : l.Bounced b (final l.check none (bounces a b 1)) := bounced_of_bounce (by simp)
  obtain ⟨k, hk⟩ := exists_le_count hrate hab n hfresh
  refine ⟨1 + k, fun hlimited => ?_⟩
  have hcount : n ≤ (answers l.check none (bounces a b (1 + k))).count true := by
    rw [bounces_add, answers_append, List.count_append]
    omega
  have hcast : (n : K) ≤ (answers l.check none (bounces a b (1 + k))).count true :=
    Nat.cast_le.mpr hcount
  exact (hn.trans_le (hcast.trans hlimited)).false

/-- Checks are limited when the clocks they are made at never go back. When the clocks may come in
any order, they are limited only with a rate of 0 or with a single reading. -/
theorem limited_iff (l : TokenBucketLimiter K) {a b : K} (hab : a ≤ b) :
    (∀ bucket es, l.UnitChecks a b es →
      (l.refillRate = 0 ∨ (es.map Execution.now).IsChain (· ≤ ·)) → l.Limited a b bucket es) ∧
    ((∀ es, l.UnitChecks a b es → l.Limited a b none es) ↔ l.refillRate = 0 ∨ a = b) := by
  refine ⟨fun bucket es hchecks h => hchecks.limited hab h, fun h => ?_, ?_⟩
  · by_contra! hne
    have hrate := lt_of_le_of_ne l.refillRate_nonneg hne.1.symm
    obtain ⟨k, hk⟩ := exists_not_limited hrate (lt_of_le_of_ne hab hne.2)
    exact hk (h _ (unitChecks_bounces hab))
  · rintro (hrate | rfl) es hchecks
    · exact hchecks.limited hab (.inl hrate)
    · have hsame : ∀ t ∈ es.map Execution.now, t = a :=
        List.forall_mem_map.mpr fun e he => le_antisymm (hchecks.now e he).2 (hchecks.now e he).1
      refine hchecks.limited hab (.inr
        (List.pairwise_of_forall_mem_list fun t ht u hu => ?_).isChain)
      rw [hsame t ht, hsame u hu]

/-- A single token, and a second that adds one: two replicas whose clocks are a second apart get
three checks out of it. -/
theorem not_limited_two_clocks :
    ¬ ∀ (l : TokenBucketLimiter ℚ) (a b : ℚ) (es : List (Execution ℚ)), a ≤ b →
      l.UnitChecks a b es → l.Limited a b none es := by
  intro h
  have hlimited := h ⟨1, 1, one_pos, zero_le_one⟩ 0 1 (bounces 0 1 2) zero_le_one
    (unitChecks_bounces zero_le_one)
  revert hlimited
  unfold Limited
  decide +kernel

/-- One replica, with a bucket of 2 that gains a token every 2 seconds. -/
theorem limited_iff_one_replica :
    (0 : ℚ) ≤ 4 ∧
      Limited ⟨2, 1 / 2, by decide, by norm_num⟩ (0 : ℚ) 4 none
        [⟨0, 0, 1⟩, ⟨1, 1, 1⟩, ⟨1, 1, 1⟩, ⟨4, 4, 1⟩] := by
  refine ⟨by norm_num, (limited_iff _ (by norm_num)).1 _ _ ⟨?_, ?_, ?_⟩ (.inr ?_)⟩
  · unfold Unexpired
    decide +kernel
  · decide +kernel
  · decide +kernel
  · decide +kernel

end TokenBucketLimiter

end LlmGateway
