import LlmGateway.Ratelimit.TokenBucket
import Mathlib.Data.List.Chain
import Mathlib.Data.Rat.Floor

/-!
# The expiry of a bucket

The script sets the key to expire after the time its bucket takes to refill, and a minute. The same
script without the `EXPIRE` gives the same answers, as long as there is a refill: where the rate is 0
the key is kept for an hour, and then the allowance is handed out again.
-/

namespace LlmGateway

variable {K : Type} {bucket : Option (Bucket K)} {b : Bucket K} {e f : Execution K}
  {es fs : List (Execution K)} {now time x : K} {requested : ℤ}

namespace TokenBucketLimiter

variable [Field K] [LinearOrder K] {l : TokenBucketLimiter K}

/-- `check`, with the `EXPIRE` removed from the script. -/
def checkWithoutExpire (l : TokenBucketLimiter K) (e : Execution K) (bucket : Option (Bucket K)) :
    (Bool × K) × Bucket K :=
  let found := Bucket.read e.time bucket
  let reply := take (l.refilled e.now found) e.requested
  (reply, { tokens := reply.2, updatedAt := e.now, deadline := found.bind Bucket.deadline })

section Ordered

variable [IsStrictOrderedRing K]

theorem take_natCast {n : ℕ} : take (n : K) 1 = (decide (0 < n), ((n - 1 : ℕ) : K)) := by
  cases n with
  | zero => exact take_of_lt (by simp)
  | succ n =>
    rw [take_of_le (by push_cast; linarith [Nat.cast_nonneg (α := K) n])]
    simp

/-- A first check of cost 1 leaves one less than the capacity. -/
theorem left_eq (h : e.requested = 1) :
    (take (l.capacity : K) e.requested).2 = ((l.capacity - 1 : ℕ) : K) := by
  rw [h, take_natCast]

end Ordered

theorem answers_checkWithoutExpire_cons {found : K}
    (hbucket : ∀ b ∈ bucket, b.deadline = none) (hfound : l.refilled f.now bucket = found) :
    answers l.checkWithoutExpire bucket (f :: es) =
      (take found f.requested).1 ::
        answers l.checkWithoutExpire (some ⟨(take found f.requested).2, f.now, none⟩) es := by
  cases bucket with
  | none => rw [answers_cons, checkWithoutExpire, ← hfound]; rfl
  | some b =>
    have hnone : b.deadline = none := hbucket b rfl
    rw [answers_cons, checkWithoutExpire, read_of_none hnone, hfound, Option.bind_some, hnone]

variable [FloorRing K]

/-- What the script finds, without a refill, after `m` tokens were left at the instant `u`. -/
def foundAfter (l : TokenBucketLimiter K) (m : ℕ) (u time : K) : ℕ :=
  if time < u + l.ttlSeconds then m else l.capacity

theorem foundAfter_le {m : ℕ} (u time : K) (hm : m ≤ l.capacity) :
    l.foundAfter m u time ≤ l.capacity := by
  unfold foundAfter
  split
  · exact hm
  · exact le_rfl

theorem le_foundAfter {m : ℕ} (u time : K) (hm : m ≤ l.capacity) : m ≤ l.foundAfter m u time := by
  unfold foundAfter
  split
  · exact le_rfl
  · exact hm

theorem ttlSeconds_of_not_pos (hrate : ¬ 0 < l.refillRate) : (l.ttlSeconds : K) = 3600 := by
  rw [ttlSeconds, if_neg hrate]
  norm_num

/-- Every replica reads the clock of Redis. -/
def Synchronous (es : List (Execution K)) : Prop := ∀ e ∈ es, e.now = e.time

/-- The answers on a fresh key are the same with the `EXPIRE` and without it. -/
def Unobservable (l : TokenBucketLimiter K) (es : List (Execution K)) : Prop :=
  answers l.check none es = answers l.checkWithoutExpire none es

/-- No two checks in a row are an hour apart. -/
def NeverIdle (times : List K) : Prop := times.IsChain fun t u => u < t + 3600

/-- On a fresh key the first check finds the whole capacity. -/
theorem unobservable_cons {left : K} (hleft : (take (l.capacity : K) e.requested).2 = left) :
    l.Unobservable (e :: es) ↔
      answers l.check (some ⟨left, e.now, some (e.time + l.ttlSeconds)⟩) es =
        answers l.checkWithoutExpire (some ⟨left, e.now, none⟩) es := by
  rw [Unobservable, answers_check_cons refilled_none,
    answers_checkWithoutExpire_cons (by simp) refilled_none, hleft, List.cons_eq_cons]
  exact and_iff_right rfl

theorem neverIdle_iff (hrate : ¬ 0 < l.refillRate) {times : List K} :
    NeverIdle times ↔ times.IsChain fun t v => v < t + (l.ttlSeconds : K) := by
  rw [ttlSeconds_of_not_pos hrate, NeverIdle]

variable [IsStrictOrderedRing K]

section Expiry

variable {u tokens : K}

/-- In the time a refilling bucket is kept, it would have become full. -/
theorem capacity_le_of_ttlSeconds_le {elapsed : K} (hrate : 0 < l.refillRate)
    (h : l.ttlSeconds ≤ elapsed) : l.capacity ≤ elapsed * l.refillRate := by
  have hceil : (l.capacity : K) / l.refillRate ≤ ⌈(l.capacity : K) / l.refillRate⌉ :=
    Int.le_ceil _
  have hdiv : (l.capacity : K) / l.refillRate ≤ elapsed := by
    rw [ttlSeconds, if_pos hrate] at h
    push_cast at h
    linarith
  exact (div_le_iff₀ hrate).mp hdiv

/-- Whether or not the bucket has expired, the same tokens are found. -/
theorem refilled_read (htokens : 0 ≤ tokens) (hsync : f.now = f.time)
    (h : 0 < l.refillRate ∨ f.time < u + l.ttlSeconds) :
    l.refilled f.now (Bucket.read f.time (some ⟨tokens, u, some (u + l.ttlSeconds)⟩)) =
      l.refilled f.now (some ⟨tokens, u, none⟩) := by
  by_cases hlive : f.time < u + l.ttlSeconds
  · rw [read_of_lt rfl hlive, refilled_some, refilled_some]
  · have hidle : (l.ttlSeconds : K) ≤ f.now - u := by linarith
    have hfull := capacity_le_of_ttlSeconds_le (h.resolve_right hlive) hidle
    have helapsed : 0 ≤ f.now - u := ttlSeconds_pos.le.trans hidle
    rw [read_of_le rfl (not_lt.mp hlive), refilled_none, refilled_some]
    refine (min_eq_left ?_).symm
    rw [max_eq_right helapsed]
    linarith

/-- From buckets that differ only in the deadline, the answers are the same. -/
theorem answers_eq (htokens : 0 ≤ tokens) (hsync : Synchronous es)
    (h : 0 < l.refillRate ∨
      (u :: es.map Execution.time).IsChain fun t v => v < t + (l.ttlSeconds : K)) :
    answers l.check (some ⟨tokens, u, some (u + l.ttlSeconds)⟩) es =
      answers l.checkWithoutExpire (some ⟨tokens, u, none⟩) es := by
  induction es generalizing tokens u with
  | nil => rfl
  | cons f es ih =>
    have hf : f.now = f.time := hsync f List.mem_cons_self
    have hnext := h.imp_right List.isChain_cons_cons.mp
    have hfound := refilled_read htokens hf (hnext.imp_right And.left)
    have hnonneg : 0 ≤ l.refilled f.now (some ⟨tokens, u, none⟩) :=
      refilled_nonneg fun b hb => Option.mem_some.mp hb ▸ htokens
    have hrest := ih (take_nonneg f.requested hnonneg)
      (fun g hg => hsync g (List.mem_cons_of_mem f hg)) (hnext.imp_right And.right)
    rw [answers_check_cons hfound,
      answers_checkWithoutExpire_cons (fun b hb => Option.mem_some.mp hb ▸ rfl) rfl]
    exact congrArg _ (hf.symm ▸ hrest)

theorem unobservable_of (hsync : Synchronous es)
    (h : 0 < l.refillRate ∨ (es.map Execution.time).IsChain fun t v => v < t + (l.ttlSeconds : K)) :
    l.Unobservable es := by
  cases es with
  | nil => rfl
  | cons e es =>
    have he : e.now = e.time := hsync e List.mem_cons_self
    have hnonneg : (0 : K) ≤ l.refilled e.now none := refilled_nonneg (by simp)
    have hrest := answers_eq (take_nonneg e.requested hnonneg)
      (fun g hg => hsync g (List.mem_cons_of_mem e hg)) h
    rw [Unobservable, answers_check_cons rfl, answers_checkWithoutExpire_cons (by simp) rfl]
    exact congrArg _ (he.symm ▸ hrest)

end Expiry

/-! ## A fixed allowance

With a rate of 0 the bucket never refills, so its expiry hands out the allowance again.
-/

section FixedAllowance

variable {m n : ℕ} {u v w : K}

theorem refilled_of_not_pos (hrate : ¬ 0 < l.refillRate) (hm : m ≤ l.capacity)
    {deadline : Option K} : l.refilled now (some ⟨m, w, deadline⟩) = m := by
  have hzero : l.refillRate = 0 := le_antisymm (not_lt.mp hrate) l.refillRate_nonneg
  rw [refilled_some, hzero, mul_zero, add_zero]
  exact min_eq_right (Nat.cast_le.mpr hm)

theorem answers_check_of_not_pos (hrate : ¬ 0 < l.refillRate) (hm : m ≤ l.capacity)
    (hunit : f.requested = 1) :
    answers l.check (some ⟨m, w, some (u + l.ttlSeconds)⟩) (f :: es) =
      decide (0 < l.foundAfter m u f.time) ::
        answers l.check
          (some ⟨(l.foundAfter m u f.time - 1 : ℕ), f.now, some (f.time + l.ttlSeconds)⟩) es := by
  have hfound : l.refilled f.now (Bucket.read f.time (some ⟨m, w, some (u + l.ttlSeconds)⟩)) =
      l.foundAfter m u f.time := by
    by_cases hlive : f.time < u + l.ttlSeconds
    · rw [read_of_lt rfl hlive, refilled_of_not_pos hrate hm, foundAfter, if_pos hlive]
    · rw [read_of_le rfl (not_lt.mp hlive), refilled_none, foundAfter, if_neg hlive]
  rw [answers_check_cons hfound, hunit, take_natCast]

theorem answers_checkWithoutExpire_of_not_pos (hrate : ¬ 0 < l.refillRate) (hn : n ≤ l.capacity)
    (hunit : f.requested = 1) :
    answers l.checkWithoutExpire (some ⟨n, v, none⟩) (f :: es) =
      decide (0 < n) ::
        answers l.checkWithoutExpire (some ⟨(n - 1 : ℕ), f.now, none⟩) es := by
  rw [answers_checkWithoutExpire_cons (fun b hb => Option.mem_some.mp hb ▸ rfl)
    (refilled_of_not_pos hrate hn), hunit, take_natCast]

/-- While enough is left for all that come, every one of them is allowed. -/
theorem answers_eq_of_length_le (hrate : ¬ 0 < l.refillRate) (hunit : ∀ e ∈ es, e.requested = 1)
    (hlength : es.length ≤ n) (hnm : n ≤ m) (hm : m ≤ l.capacity) :
    answers l.check (some ⟨m, w, some (u + l.ttlSeconds)⟩) es =
      answers l.checkWithoutExpire (some ⟨n, v, none⟩) es := by
  induction es generalizing m n u v w with
  | nil => rfl
  | cons f es ih =>
    rw [List.length_cons] at hlength
    have hf : f.requested = 1 := hunit f List.mem_cons_self
    have hcap := foundAfter_le u f.time hm
    have hfound := le_foundAfter u f.time hm
    have hrest := ih (m := l.foundAfter m u f.time - 1) (n := n - 1) (u := f.time) (v := f.now)
      (w := f.now) (fun g hg => hunit g (List.mem_cons_of_mem f hg)) (by omega) (by omega)
      (by omega)
    rw [answers_check_of_not_pos hrate hm hf,
      answers_checkWithoutExpire_of_not_pos hrate (hnm.trans hm) hf, hrest]
    congr 1
    exact decide_eq_decide.mpr ⟨fun _ => by omega, fun _ => by omega⟩

/-- Once more is left with the `EXPIRE` than without it, or will be, the answers differ as soon as
the smaller allowance is used up. -/
theorem answers_ne (hrate : ¬ 0 < l.refillRate) (hunit : ∀ e ∈ es, e.requested = 1)
    (hlength : n < es.length) (hnm : n ≤ m) (hm : m ≤ l.capacity)
    (h : n < m ∨ n < l.capacity ∧
      ¬ (u :: es.map Execution.time).IsChain fun t v => v < t + (l.ttlSeconds : K)) :
    answers l.check (some ⟨m, w, some (u + l.ttlSeconds)⟩) es ≠
      answers l.checkWithoutExpire (some ⟨n, v, none⟩) es := by
  induction es generalizing m n u v w with
  | nil => exact absurd hlength (Nat.not_lt_zero n)
  | cons f es ih =>
    rw [List.length_cons] at hlength
    have hf : f.requested = 1 := hunit f List.mem_cons_self
    have hcap := foundAfter_le u f.time hm
    have hfound := le_foundAfter u f.time hm
    -- more is found, or the bucket has not expired yet and a later one will
    have hmore : n < l.foundAfter m u f.time ∨ n < l.capacity ∧
        ¬ (f.time :: es.map Execution.time).IsChain fun t v => v < t + (l.ttlSeconds : K) := by
      rcases h with h | ⟨hn, hgap⟩
      · exact .inl (h.trans_le hfound)
      · by_cases hlive : f.time < u + l.ttlSeconds
        · exact .inr ⟨hn, fun hchain => hgap (List.isChain_cons_cons.mpr ⟨hlive, hchain⟩)⟩
        · rw [foundAfter, if_neg hlive]
          exact .inl hn
    rw [answers_check_of_not_pos hrate hm hf,
      answers_checkWithoutExpire_of_not_pos hrate (hnm.trans hm) hf]
    intro heq
    obtain ⟨hanswer, hrest⟩ := List.cons_eq_cons.mp heq
    have hanswer := decide_eq_decide.mp hanswer
    refine ih (m := l.foundAfter m u f.time - 1) (n := n - 1) (u := f.time) (v := f.now)
      (w := f.now) (fun g hg => hunit g (List.mem_cons_of_mem f hg)) ?_ (by omega) (by omega) ?_
      hrest
    · rcases hmore with hmore | ⟨-, hgap⟩
      · omega
      · have hes : es ≠ [] := by
          rintro rfl
          exact hgap (List.isChain_singleton _)
        have hpos := List.length_pos_iff.mpr hes
        omega
    · rcases hmore with hmore | ⟨hn, hgap⟩
      · omega
      · exact .inr ⟨by omega, hgap⟩

end FixedAllowance

theorem Unobservable.of_neverIdle (hsync : Synchronous es)
    (h : 0 < l.refillRate ∨ NeverIdle (es.map Execution.time)) : l.Unobservable es := by
  by_cases hrate : 0 < l.refillRate
  · exact unobservable_of hsync (.inl hrate)
  · exact unobservable_of hsync (.inr ((neverIdle_iff hrate).mp (h.resolve_left hrate)))

theorem neverIdle_of_unobservable {times : List K}
    (h : ∀ es, Synchronous es → es.map Execution.time = times → l.Unobservable es) :
    0 < l.refillRate ∨ NeverIdle times := by
  by_contra! hnot
  obtain ⟨hrate, hidle⟩ := hnot
  cases times with
  | nil => exact hidle List.isChain_nil
  | cons t ts =>
    -- the first check takes everything, and the others ask for one token each
    have hunobservable := h (⟨t, t, l.capacity⟩ :: ts.map fun u => ⟨u, u, 1⟩)
      (by simp [Synchronous]) (by simp [Function.comp_def])
    have hleft : (take (l.capacity : K) l.capacity).2 = ((0 : ℕ) : K) := by
      rw [take_of_le (by simp)]
      simp
    have hgap := mt (neverIdle_iff hrate.not_gt).mpr hidle
    refine answers_ne hrate.not_gt (by simp) ?_ le_rfl (Nat.zero_le _)
      (.inr ⟨l.capacity_pos, ?_⟩) ((unobservable_cons hleft).mp hunobservable)
    · rw [List.length_map, List.length_pos_iff]
      rintro rfl
      exact hidle (List.isChain_singleton t)
    · simpa [Function.comp_def] using hgap

theorem unobservable_unit_iff (hsync : Synchronous es) (hunit : ∀ e ∈ es, e.requested = 1) :
    l.Unobservable es ↔
      0 < l.refillRate ∨ NeverIdle (es.map Execution.time) ∨ es.length ≤ l.capacity := by
  refine ⟨fun h => ?_, fun h => ?_⟩
  · by_contra! hnot
    obtain ⟨hrate, hidle, hlength⟩ := hnot
    cases es with
    | nil => exact hidle List.isChain_nil
    | cons e es =>
      have hgap := mt (neverIdle_iff hrate.not_gt).mpr hidle
      rw [List.length_cons] at hlength
      have hpos := l.capacity_pos
      exact answers_ne (n := l.capacity - 1) hrate.not_gt
        (fun f hf => hunit f (List.mem_cons_of_mem e hf)) (by omega) le_rfl
        (Nat.sub_le _ _) (.inr ⟨by omega, hgap⟩)
        ((unobservable_cons (left_eq (hunit e List.mem_cons_self))).mp h)
  · by_cases hrate : 0 < l.refillRate
    · exact .of_neverIdle hsync (.inl hrate)
    rcases h.resolve_left hrate with hidle | hlength
    · exact .of_neverIdle hsync (.inr hidle)
    cases es with
    | nil => rfl
    | cons e es =>
      rw [List.length_cons] at hlength
      refine (unobservable_cons (left_eq (hunit e List.mem_cons_self))).mpr ?_
      exact answers_eq_of_length_le hrate (fun f hf => hunit f (List.mem_cons_of_mem e hf))
        (Nat.le_sub_one_of_lt hlength) le_rfl (Nat.sub_le _ _)

/-- The expiry of a bucket that refills cannot be seen, and that of a fixed allowance can, as soon
as the key has been idle for an hour; checks of cost 1 see it when there are more of them than the
allowance. -/
theorem unobservable_iff (l : TokenBucketLimiter K) :
    (∀ times : List K,
      (∀ es, Synchronous es → es.map Execution.time = times → l.Unobservable es) ↔
        0 < l.refillRate ∨ NeverIdle times) ∧
    ∀ es, Synchronous es → (∀ e ∈ es, e.requested = 1) →
      (l.Unobservable es ↔
        0 < l.refillRate ∨ NeverIdle (es.map Execution.time) ∨ es.length ≤ l.capacity) :=
  ⟨fun _ => ⟨neverIdle_of_unobservable, fun h _ hsync htimes => .of_neverIdle hsync (htimes ▸ h)⟩,
    fun _ => unobservable_unit_iff⟩

/-- An allowance of one that never refills, asked for twice an hour apart. -/
theorem not_unobservable_after_an_hour :
    ¬ ∀ (l : TokenBucketLimiter ℚ) (es : List (Execution ℚ)), Synchronous es →
      (es.map Execution.time).IsChain (· ≤ ·) → l.Unobservable es := by
  intro h
  have hunobservable := h ⟨1, 0, one_pos, le_rfl⟩ [⟨0, 0, 1⟩, ⟨3600, 3600, 1⟩]
    (by unfold Synchronous; decide +kernel) (by decide +kernel)
  revert hunobservable
  unfold Unobservable
  decide +kernel

/-- A token a minute, and an hour between two checks. -/
theorem unobservable_iff_refilling :
    Unobservable ⟨1, 1 / 60, by decide, by norm_num⟩ [⟨(0 : ℚ), 0, 1⟩, ⟨3600, 3600, 1⟩] :=
  ((unobservable_iff _).1 [0, 3600]).mpr (.inl (by norm_num)) _
    (by unfold Synchronous; decide +kernel) rfl

end TokenBucketLimiter

end LlmGateway
