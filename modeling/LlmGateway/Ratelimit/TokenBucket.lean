import Mathlib.Algebra.Order.Floor.Ring
import Mathlib.Algebra.Order.Field.Basic
import Mathlib.Tactic.Linarith

/-!
# The token bucket

Mirrors `app/ratelimit/token_bucket.py`: the Lua script, executed on one key any number of times.
Each execution is an atomic step of Redis, so a run is a list of executions.

Two clocks are involved. `now` is read by the replica that makes the check and is sent as an
argument; `time` is the one Redis measures expiry on.
-/

namespace LlmGateway

/-- `TokenBucketLimiter`, with settings that `Settings` admits. -/
structure TokenBucketLimiter (K : Type) [Zero K] [LE K] where
  capacity : ℕ
  refillRate : K
  capacity_pos : 0 < capacity
  refillRate_nonneg : 0 ≤ refillRate

/-- What Redis keeps at a key: the hash, and when it is deleted. -/
structure Bucket (K : Type) where
  tokens : K
  updatedAt : K
  deadline : Option K

/-- One execution of the script: the time at Redis, and the caller's `now` and `requested`. -/
structure Execution (K : Type) where
  time : K
  now : K
  requested : ℤ

variable {K : Type}

/-- What `HMGET` finds at the instant `time`. -/
def Bucket.read [LinearOrder K] (time : K) (bucket : Option (Bucket K)) : Option (Bucket K) :=
  bucket.filter fun b => b.deadline.all (time < ·)

namespace TokenBucketLimiter

section Definitions

variable [Field K] [LinearOrder K]

/-- The tokens there are at `now`. -/
def refilled (l : TokenBucketLimiter K) (now : K) (bucket : Option (Bucket K)) : K :=
  let tokens := (bucket.map Bucket.tokens).getD l.capacity
  let updatedAt := (bucket.map Bucket.updatedAt).getD now
  let elapsed := max 0 (now - updatedAt)
  min l.capacity (tokens + elapsed * l.refillRate)

/-- Whether what is requested is taken, and the tokens left. -/
def take (tokens : K) (requested : ℤ) : Bool × K :=
  if requested ≤ tokens then (true, tokens - requested) else (false, tokens)

variable [FloorRing K]

/-- `ttl_seconds`. -/
def ttlSeconds (l : TokenBucketLimiter K) : ℤ :=
  if 0 < l.refillRate then ⌈l.capacity / l.refillRate⌉ + 60 else 3600

/-- `TokenBucketLimiter.check`: the reply of `_LUA_TOKEN_BUCKET`, and what it leaves at the key. -/
def check (l : TokenBucketLimiter K) (e : Execution K) (bucket : Option (Bucket K)) :
    (Bool × K) × Bucket K :=
  let reply := take (l.refilled e.now (Bucket.read e.time bucket)) e.requested
  (reply, { tokens := reply.2, updatedAt := e.now, deadline := some (e.time + l.ttlSeconds) })

end Definitions

/-- Whether each of the executions is allowed, when they are made one after the other. -/
def answers (script : Execution K → Option (Bucket K) → (Bool × K) × Bucket K) :
    Option (Bucket K) → List (Execution K) → List Bool
  | _, [] => []
  | bucket, e :: es => (script e bucket).1.1 :: answers script (some (script e bucket).2) es

/-- What is at the key after the executions. -/
def final (script : Execution K → Option (Bucket K) → (Bool × K) × Bucket K) :
    Option (Bucket K) → List (Execution K) → Option (Bucket K)
  | bucket, [] => bucket
  | bucket, e :: es => final script (some (script e bucket).2) es

variable {bucket : Option (Bucket K)} {b : Bucket K} {e f : Execution K}
  {es fs : List (Execution K)} {now time x : K} {requested : ℤ}

theorem answers_cons {script : Execution K → Option (Bucket K) → (Bool × K) × Bucket K} :
    answers script bucket (e :: es) =
      (script e bucket).1.1 :: answers script (some (script e bucket).2) es := rfl

theorem count_answers_cons {script : Execution K → Option (Bucket K) → (Bool × K) × Bucket K} :
    (answers script bucket (e :: es)).count true =
      (if (script e bucket).1.1 = true then 1 else 0) +
        (answers script (some (script e bucket).2) es).count true := by
  rw [answers_cons, List.count_cons]
  cases (script e bucket).1.1 <;> simp [add_comm]

theorem answers_append {script : Execution K → Option (Bucket K) → (Bool × K) × Bucket K} :
    answers script bucket (es ++ fs) =
      answers script bucket es ++ answers script (final script bucket es) fs := by
  induction es generalizing bucket with
  | nil => rfl
  | cons e es ih => exact congrArg _ ih

theorem final_append {script : Execution K → Option (Bucket K) → (Bool × K) × Bucket K} :
    final script bucket (es ++ fs) = final script (final script bucket es) fs := by
  induction es generalizing bucket with
  | nil => rfl
  | cons e es ih => exact ih

section Read

variable [LinearOrder K] {deadline : K}

theorem read_of_lt (hdeadline : b.deadline = some deadline) (h : time < deadline) :
    Bucket.read time (some b) = some b := by
  simp [Bucket.read, hdeadline, h]

theorem read_of_le (hdeadline : b.deadline = some deadline) (h : deadline ≤ time) :
    Bucket.read time (some b) = none := by
  simp [Bucket.read, hdeadline, h.not_gt]

theorem read_of_none (hdeadline : b.deadline = none) : Bucket.read time (some b) = some b := by
  simp [Bucket.read, hdeadline]

end Read

variable [Field K] [LinearOrder K] {l : TokenBucketLimiter K}

theorem refilled_none : l.refilled now none = l.capacity := by
  simp [refilled]

theorem refilled_some :
    l.refilled now (some b) =
      min (l.capacity : K) (b.tokens + max 0 (now - b.updatedAt) * l.refillRate) := rfl

theorem refilled_le_capacity : l.refilled now bucket ≤ l.capacity := min_le_left _ _

theorem take_of_le (h : requested ≤ x) : take x requested = (true, x - requested) := if_pos h

theorem take_of_lt (h : x < requested) : take x requested = (false, x) := if_neg h.not_ge

section Ordered

variable [IsStrictOrderedRing K]

theorem one_le_capacity : (1 : K) ≤ l.capacity := Nat.one_le_cast.mpr l.capacity_pos

/-- Tokens are never taken that are not there. -/
theorem take_nonneg (requested : ℤ) (h : 0 ≤ x) : 0 ≤ (take x requested).2 := by
  unfold take
  split
  · rename_i hle
    exact sub_nonneg.mpr hle
  · exact h

theorem take_le (h : 0 ≤ requested) : (take x requested).2 ≤ x := by
  unfold take
  split
  · exact sub_le_self x (Int.cast_nonneg h)
  · exact le_rfl

theorem refilled_nonneg (h : ∀ b ∈ bucket, 0 ≤ b.tokens) : 0 ≤ l.refilled now bucket := by
  cases bucket with
  | none =>
    rw [refilled_none]
    exact Nat.cast_nonneg _
  | some b =>
    exact le_min (Nat.cast_nonneg _) (add_nonneg (h b rfl)
      (mul_nonneg (le_max_left _ _) l.refillRate_nonneg))

/-- The refill adds no more than what the clock moved forward. -/
theorem refilled_le :
    max 0 (l.refilled now (some b)) ≤
      max 0 b.tokens + max 0 (now - b.updatedAt) * l.refillRate := by
  have hadded : 0 ≤ max 0 (now - b.updatedAt) * l.refillRate :=
    mul_nonneg (le_max_left _ _) l.refillRate_nonneg
  have htokens : b.tokens ≤ max 0 b.tokens := le_max_right _ _
  have hzero : 0 ≤ max 0 b.tokens := le_max_left _ _
  rw [refilled_some]
  refine max_le (by linarith) ((min_le_right _ _).trans ?_)
  linarith

end Ordered

variable [FloorRing K]

theorem answers_check_cons {found : K}
    (hfound : l.refilled f.now (Bucket.read f.time bucket) = found) :
    answers l.check bucket (f :: es) =
      (take found f.requested).1 ::
        answers l.check (some ⟨(take found f.requested).2, f.now, some (f.time + l.ttlSeconds)⟩)
          es := by
  rw [answers_cons, check, hfound]

variable [IsStrictOrderedRing K]

theorem ttlSeconds_pos : (0 : K) < l.ttlSeconds := by
  rw [Int.cast_pos, ttlSeconds]
  split
  · have hceil : 0 ≤ ⌈(l.capacity : K) / l.refillRate⌉ :=
      Int.ceil_nonneg (div_nonneg (Nat.cast_nonneg _) l.refillRate_nonneg)
    omega
  · norm_num

theorem check_tokens_nonneg (h : ∀ b ∈ bucket, 0 ≤ b.tokens) : 0 ≤ (l.check e bucket).2.tokens :=
  take_nonneg _ (refilled_nonneg fun b hb => h b (Option.mem_filter_iff.mp hb).1)

theorem check_tokens_le (h : 0 ≤ e.requested) : (l.check e bucket).2.tokens ≤ l.capacity :=
  (take_le h).trans refilled_le_capacity

end TokenBucketLimiter

end LlmGateway
