import LlmGateway.Ratelimit.TokenBucket
import LlmGateway.Security.Auth

/-!
# The rate-limit dependencies

Mirrors `app/ratelimit/dependency.py` from where the bucket is asked: what a route is handed when the
check is allowed, and the 429 when it is not.
-/

namespace LlmGateway

namespace TokenBucketLimiter

variable {K : Type} [Field K] [LinearOrder K] [FloorRing K]

/-- `_RETRY_AFTER_SECONDS`: about the time for one more token. -/
def retryAfterSeconds (l : TokenBucketLimiter K) : ℤ :=
  if 0 < l.refillRate then max 1 ⌈1 / l.refillRate⌉ else 60

/-- `int(x)`. -/
def truncate (x : K) : ℤ := if 0 ≤ x then ⌊x⌋ else ⌈x⌉

/-- What `enforce_rate_limit` leaves in `request.state` and in the headers of the response. -/
structure Granted where
  rateLimitLimit : ℕ
  rateLimitRemaining : ℤ
  headers : List (String × String)

/-- `enforce_rate_limit`, given the reply of the bucket. -/
def enforceRateLimit (l : TokenBucketLimiter K) (reply : Bool × K) :
    Except HttpException Granted :=
  let remaining := max 0 (truncate reply.2)
  if reply.1 = false then
    .error ⟨429, "rate limit exceeded, slow down",
      [("X-RateLimit-Limit", toString l.capacity), ("X-RateLimit-Remaining", "0"),
        ("Retry-After", toString l.retryAfterSeconds)]⟩
  else
    .ok ⟨l.capacity, remaining,
      [("X-RateLimit-Limit", toString l.capacity), ("X-RateLimit-Remaining", toString remaining)]⟩

/-- `enforce_admin_rate_limit`, given the reply of the bucket that all admin traffic shares. -/
def enforceAdminRateLimit (l : TokenBucketLimiter K) (reply : Bool × K) :
    Except HttpException Unit :=
  if reply.1 = false then
    .error ⟨429, "admin API rate limit exceeded", [("Retry-After", toString l.retryAfterSeconds)]⟩
  else .ok ()

variable {l : TokenBucketLimiter K}

/-- Whoever is refused is told how long to wait. -/
theorem retryAfter_mem_of_refused {reply : Bool × K} {e : HttpException}
    (h : l.enforceRateLimit reply = .error e ∨ l.enforceAdminRateLimit reply = .error e) :
    reply.1 = false ∧ e.statusCode = 429 ∧
      ("Retry-After", toString l.retryAfterSeconds) ∈ e.headers := by
  unfold enforceRateLimit enforceAdminRateLimit at h
  by_cases hreply : reply.1 = false
  · rw [if_pos hreply, if_pos hreply] at h
    rcases h with ⟨⟨⟩⟩ | ⟨⟨⟩⟩
    · exact ⟨hreply, rfl, by simp⟩
    · exact ⟨hreply, rfl, by simp⟩
  · rw [if_neg hreply, if_neg hreply] at h
    rcases h with h | h <;> cases h

variable [IsStrictOrderedRing K]

/-- In the seconds a client is told to wait, a token is refilled. -/
theorem one_le_retryAfterSeconds_mul (hrate : 0 < l.refillRate) :
    1 ≤ (l.retryAfterSeconds : K) * l.refillRate := by
  have hceil : 1 / l.refillRate ≤ (⌈1 / l.refillRate⌉ : K) := Int.le_ceil _
  have hle : ((⌈1 / l.refillRate⌉ : ℤ) : K) ≤ (max 1 ⌈1 / l.refillRate⌉ : ℤ) :=
    Int.cast_le.mpr (le_max_right _ _)
  rw [retryAfterSeconds, if_pos hrate]
  calc
    1 = 1 / l.refillRate * l.refillRate := (one_div_mul_cancel hrate.ne').symm
    _ ≤ _ := mul_le_mul_of_nonneg_right (hceil.trans hle) hrate.le

/-- A bucket that has refilled for so long has a token. -/
theorem one_le_refilled {b : Bucket K} {now : K} (hrate : 0 < l.refillRate) (htokens : 0 ≤ b.tokens)
    (hwait : b.updatedAt + l.retryAfterSeconds ≤ now) : 1 ≤ l.refilled now (some b) := by
  have helapsed : (l.retryAfterSeconds : K) ≤ max 0 (now - b.updatedAt) :=
    le_max_of_le_right (by linarith)
  have hrefill := mul_le_mul_of_nonneg_right helapsed hrate.le
  rw [refilled_some]
  exact le_min one_le_capacity (by linarith [one_le_retryAfterSeconds_mul hrate])

end TokenBucketLimiter

end LlmGateway
