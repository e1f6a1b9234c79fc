import LlmGateway.Coroutine.Pool
import LlmGateway.Http.Cleared
import LlmGateway.Ratelimit.ClockSkew
import Mathlib.Algebra.BigOperators.Group.Finset.Piecewise

/-!
# The stores behind the gates

Requests run on one event loop, or on several, over one table of keys and one set of buckets, which
others use as well: the admin API issues and revokes keys at any time. What the gates grant is granted
by these stores, so two promises can be made of all requests together.

A key that has been revoked serves nobody who has not been let in before: `revoked_serves_nobody`. And
no more requests of a key are served, by what is checked in any stretch of a run, than its bucket
pays for: `served_limited`.
-/

namespace LlmGateway

open Coroutine
open scoped BigOperators

/-! ## The table of keys changes -/

namespace ApiKeys

/-- The admin API has issued and revoked keys in between. -/
def Becomes (T T' : ApiKeys) : Prop :=
  Relation.ReflTransGen (fun T T' : ApiKeys => (∃ row, T.insert? row = some T') ∨
    ∃ id, T' = T.revoke id) T T'

/-- There is a row with the hash, and it is revoked. -/
def Revoked (T : ApiKeys) (keyHash : String) : Prop :=
  ∃ row ∈ T.rows, row.keyHash = keyHash ∧ row.revoked = true

variable {T T' : ApiKeys} {keyHash : String}

/-- What is revoked stays revoked. -/
theorem Revoked.becomes (h : T.Revoked keyHash) (hT : T.Becomes T') : T'.Revoked keyHash := by
  induction hT with
  | refl => exact h
  | tail _ hstep ih =>
    obtain ⟨row, hrow, hhash, hrevoked⟩ := ih
    rcases hstep with ⟨new, hnew⟩ | ⟨id, rfl⟩
    · obtain ⟨-, -, hrows⟩ := insert?_eq_some hnew
      exact ⟨row, hrows ▸ List.mem_cons_of_mem _ hrow, hhash, hrevoked⟩
    · refine ⟨row.revokeIf id, List.mem_map_of_mem hrow, ?_, ?_⟩
      · rw [ApiKeyRecord.revokeIf_keyHash, hhash]
      · exact ApiKeyRecord.revokeIf_revoked.mpr (.inl hrevoked)

/-- The rows that the gate for clients selects. -/
def selectKeys (T : ApiKeys) (keyHash : String) : List ApiKeyRecord :=
  T.rows.filter fun row => row.keyHash = keyHash ∧ row.revoked = false

/-- Hashes are unique, so a revoked key has no other row. -/
theorem Revoked.selectKeys_eq_nil (h : T.Revoked keyHash) : T.selectKeys keyHash = [] := by
  obtain ⟨row, hrow, rfl, hrevoked⟩ := h
  refine List.filter_eq_nil_iff.mpr fun other hother => ?_
  simp only [decide_eq_true_eq, not_and, Bool.not_eq_false]
  intro hhash
  rwa [List.inj_on_of_nodup_map T.keyHash_unique hother hrow hhash]

end ApiKeys

/-! ## The world -/

/-- The rows of `api_keys`, and for each hash what the script of the limiter has been executed with at
its bucket. -/
structure Stores where
  apiKeys : ApiKeys
  executions : String → List (Execution ℚ)

/-- What others do to the stores. -/
structure Stores.Drifts (w w' : Stores) : Prop where
  apiKeys : w.apiKeys.Becomes w'.apiKeys
  executions : ∀ keyHash, w.executions keyHash <+: w'.executions keyHash

/-- The script is executed once more at a bucket. -/
def Stores.execute (w : Stores) (keyHash : String) (e : Execution ℚ) : Stores :=
  { w with executions :=
      Function.update w.executions keyHash (w.executions keyHash ++ [e]) }

theorem Stores.executions_execute (w : Stores) (keyHash : String) (e : Execution ℚ) (h : String) :
    (w.execute keyHash e).executions h =
      if h = keyHash then w.executions h ++ [e] else w.executions h := by
  by_cases heq : h = keyHash
  · subst heq
    rw [if_pos rfl]
    exact Function.update_self ..
  · rw [if_neg heq]
    exact Function.update_of_ne heq ..

/-- The bucket after what has been executed at it. -/
def TokenBucketLimiter.bucketAfter (l : TokenBucketLimiter ℚ) (es : List (Execution ℚ)) :
    Option (Bucket ℚ) :=
  final l.check none es

/-- What the stores do on an event: `time` is the clock of Redis. -/
def Stores.Answers (l : TokenBucketLimiter ℚ) (w : Stores) : SiteEv → Stores → Prop
  | ⟨.inl (.selectKeys keyHash), r⟩, w' => w' = w ∧ ∀ rows, r = .ok rows →
      rows = w.apiKeys.selectKeys keyHash
  | ⟨.inl (.takeTokens keyHash now cost), .ok reply⟩, w' => ∃ time,
      w' = w.execute keyHash ⟨time, now, cost⟩ ∧
        reply = (l.check ⟨time, now, cost⟩ (l.bucketAfter (w.executions keyHash))).1
  | ⟨.inl (.takeTokens keyHash now cost), .failed _ applied⟩, w' =>
      if applied then ∃ time, w' = w.execute keyHash ⟨time, now, cost⟩ else w' = w
  | _, w' => w' = w

/-- The stores as the world of the requests. -/
def stores (l : TokenBucketLimiter ℚ) : World site where
  State := Stores
  answers w e w' := ∃ v, w.Drifts v ∧ v.Answers l e w'

/-- The stores at work: nothing fails, and nobody else is using them. -/
def operate (l : TokenBucketLimiter ℚ) (w : Stores) : (c : site.Cmd) → site.Reply c × Stores
  | .inl .uuid4 => ("0123456789abcdef0123456789abcdef", w)
  | .inl (.selectKeys keyHash) => (.ok (w.apiKeys.selectKeys keyHash), w)
  | .inl (.takeTokens keyHash now cost) =>
    (.ok (l.check ⟨now, now, cost⟩ (l.bucketAfter (w.executions keyHash))).1,
      w.execute keyHash ⟨now, now, cost⟩)
  | .inl (.respond _) => ((), w)
  | .inr c => (calm c, w)

theorem Stores.Drifts.refl (w : Stores) : w.Drifts w := ⟨.refl, fun _ => List.prefix_refl _⟩

theorem stores_operate (l : TokenBucketLimiter ℚ) (w : Stores) (c : site.Cmd) :
    (stores l).answers w ⟨c, (operate l w c).1⟩ (operate l w c).2 := by
  refine ⟨w, .refl w, ?_⟩
  rcases c with (_ | keyHash | ⟨keyHash, now, cost⟩ | response) | c
  · rfl
  · refine ⟨rfl, ?_⟩
    rintro _ ⟨⟩
    rfl
  · exact ⟨now, rfl, rfl⟩
  · rfl
  · rfl

variable {l : TokenBucketLimiter ℚ} {w w' : Stores} {e : SiteEv} {t : List SiteEv} {keyHash : String}

/-- The requests only read the table. -/
theorem Stores.Answers.apiKeys_eq (h : w.Answers l e w') : w'.apiKeys = w.apiKeys := by
  unfold Answers at h
  split at h
  · rw [h.1]
  · obtain ⟨time, rfl, -⟩ := h
    rfl
  · split at h
    · obtain ⟨time, rfl⟩ := h
      rfl
    · rw [h]
  · rw [h]

/-- A key that is revoked stays revoked, and is not found by a select. -/
theorem revoked_of_answers (h : w.apiKeys.Revoked keyHash) (he : (stores l).answers w e w') :
    w'.apiKeys.Revoked keyHash ∧
      ∀ row, e ≠ ⟨.inl (.selectKeys keyHash), (.ok [row] : Except Exc (List ApiKeyRecord))⟩ := by
  obtain ⟨v, hdrift, hanswer⟩ := he
  have hv : v.apiKeys.Revoked keyHash := h.becomes hdrift.apiKeys
  refine ⟨hanswer.apiKeys_eq ▸ hv, ?_⟩
  rintro row rfl
  have hrows := hanswer.2 _ rfl
  rw [hv.selectKeys_eq_nil] at hrows
  cases hrows

theorem revoked_of_evolves {w w' : (stores l).State} (h : (Stores.apiKeys w).Revoked keyHash)
    (ht : (stores l).Evolves w t w') :
    (Stores.apiKeys w').Revoked keyHash ∧ ∀ row,
      (⟨.inl (.selectKeys keyHash), (.ok [row] : Except Exc (List ApiKeyRecord))⟩ : SiteEv) ∉ t := by
  induction ht with
  | nil w => exact ⟨h, by simp⟩
  | cons he _ ih =>
    obtain ⟨hnext, hne⟩ := revoked_of_answers h he
    obtain ⟨hlast, hnot⟩ := ih hnext
    exact ⟨hlast, fun row => List.not_mem_cons_of_ne_of_not_mem (hne row).symm (hnot row)⟩

namespace Web

variable {ι : Type} [DecidableEq ι] {cfg : SiteSettings} {x : ι → HttpRequest} {key : String}

/-- The requests, each from its arrival on. -/
abbrev arriving (cfg : SiteSettings) (x : ι → HttpRequest) :
    ι → Prog site (Except Raised Unit × RequestState) :=
  fun i => dispatch cfg (x i) {}

abbrev Requests (cfg : SiteSettings) (ι : Type) : Type :=
  Pool (stores cfg.limiter) ι (Except Raised Unit × RequestState)

/-- A request that is not found a row for its key before the key is revoked is found none after. -/
theorem not_selected_of_reaches {P P' : Requests cfg ι} (h : Pool.Reaches P P')
    (hrevoked : P.world.apiKeys.Revoked (cfg.settings.hashKey key)) {i : ι}
    (hbefore : ∀ row, selected cfg key (.ok [row]) ∉ P.hist i) :
    P'.world.apiKeys.Revoked (cfg.settings.hashKey key) ∧
      ∀ row, selected cfg key (.ok [row]) ∉ P'.hist i := by
  refine Pool.Reaches.preserved
    (J := fun Q : Requests cfg ι => Q.world.apiKeys.Revoked (cfg.settings.hashKey key) ∧
      ∀ row, selected cfg key (.ok [row]) ∉ Q.hist i) h ⟨hrevoked, hbefore⟩ ?_
  rintro Q j t q w ⟨hQ, hhist⟩ - hw
  obtain ⟨hlast, hnot⟩ := revoked_of_evolves hQ hw
  refine ⟨hlast, fun row hmem => ?_⟩
  by_cases hij : i = j
  · subst hij
    have hmem' : selected cfg key (.ok [row]) ∈ Q.hist i ++ t := by simpa [Pool.turn] using hmem
    exact (List.mem_append.mp hmem').elim (hhist row) (hnot row)
  · exact hhist row (by simpa [Pool.turn, hij] using hmem)

/-- Once a key is revoked, a request that presents it and has not been let in by then is never served,
whatever the admin API and the other requests do and whatever fails: nothing is reserved for it, no
provider is called, no row is written and no answer is sent. -/
theorem revoked_serves_nobody {w₀ : Stores} {P P' : Requests cfg ι} {i : ι}
    (hreach : Pool.Reaches (.start w₀ (arriving cfg x)) P) (hlater : Pool.Reaches P P')
    (hkey : presentedKey (x i).headers.authorization (x i).headers.xApiKey = some key)
    (hissued : key ∉ allowedApiKeys cfg.gatewayApiKeys)
    (hrevoked : P.world.apiKeys.Revoked (cfg.settings.hashKey key))
    (hbefore : ∀ row, selected cfg key (.ok [row]) ∉ P.hist i) :
    ∀ e ∈ P'.hist i, ¬ Serving e := by
  intro e he hserving
  obtain ⟨-, hnot⟩ := not_selected_of_reaches hlater hrevoked hbefore
  obtain ⟨u, v, hsplit⟩ := List.append_of_mem he
  have hrun := Pool.Reaches.run (hreach.trans hlater) i
  rw [hsplit] at hrun
  obtain ⟨key', hcleared⟩ := (mediated_of_run hrun).cleared hserving
  obtain rfl : key = key' := Option.some.inj (hkey.symm.trans hcleared.presented)
  rcases hcleared.valid with hmem | ⟨row, hrow⟩
  · exact hissued hmem
  · refine hnot row ?_
    rw [hsplit]
    exact List.mem_append_left _ hrow

/-- Keys are only issued through the admin API. -/
def issuing : SiteSettings := { deployed with gatewayApiKeys := "" }

/-- The key that is presented has been revoked. -/
def withdrawn : Stores where
  apiKeys := ⟨[⟨1, "secret", "team", true⟩], by decide, by decide⟩
  executions _ := []

/-- A request with it takes its turns. -/
def turnedAway : Requests issuing (Fin 1) :=
  (Pool.start withdrawn (arriving issuing fun _ => sayHi)).schedule (operate issuing.limiter)
    (List.replicate 9 0)

theorem revoked_serves_nobody_late : ¬ ∃ e ∈ turnedAway.hist 0, Serving e := by
  have hkey : presentedKey sayHi.headers.authorization sayHi.headers.xApiKey = some "secret" := by
    decide +kernel
  rintro ⟨e, he, hserving⟩
  exact revoked_serves_nobody (x := fun _ => sayHi) .refl
    (Pool.reaches_schedule (stores_operate _) _ _) hkey (by decide +kernel)
    ⟨⟨1, "secret", "team", true⟩, by decide, rfl, rfl⟩ (by simp [Pool.start]) e he hserving

/-! ## Tokens -/

/-- The checks at a bucket that were allowed. -/
def allowedAt (cfg : SiteSettings) (key : String) (w : Stores) : ℕ :=
  (TokenBucketLimiter.answers cfg.limiter.check none
    (w.executions (cfg.settings.hashKey key))).count true

/-- The event tells that a token was taken for the key. -/
def grants (cfg : SiteSettings) (key : String) : SiteEv → ℕ
  | ⟨.inl (.takeTokens keyHash _ _), .ok (true, _)⟩ =>
    if keyHash = cfg.settings.hashKey key then 1 else 0
  | _ => 0

theorem allowedAt_drifts {w w' : Stores} (h : w.Drifts w') :
    allowedAt cfg key w ≤ allowedAt cfg key w' := by
  obtain ⟨es, hes⟩ := h.executions (cfg.settings.hashKey key)
  rw [allowedAt, allowedAt, ← hes, TokenBucketLimiter.answers_append, List.count_append]
  omega

/-- One more execution at some bucket. -/
theorem allowedAt_execute {w : Stores} {keyHash : String} {e : Execution ℚ} :
    allowedAt cfg key (w.execute keyHash e) = allowedAt cfg key w +
      if keyHash = cfg.settings.hashKey key ∧
        (cfg.limiter.check e (cfg.limiter.bucketAfter (w.executions keyHash))).1.1 = true
      then 1 else 0 := by
  rw [allowedAt, Stores.executions_execute]
  by_cases hkey : cfg.settings.hashKey key = keyHash
  · subst hkey
    rw [if_pos rfl, TokenBucketLimiter.answers_append, List.count_append,
      ← TokenBucketLimiter.bucketAfter, TokenBucketLimiter.count_answers_cons, ← allowedAt]
    simp [TokenBucketLimiter.answers]
  · rw [if_neg hkey, if_neg fun h => hkey h.1.symm]
    rfl

/-- A token that a request is told of has been taken from the bucket. -/
theorem allowedAt_answers {w w' : Stores} {e : SiteEv} (h : (stores cfg.limiter).answers w e w') :
    allowedAt cfg key w + grants cfg key e ≤ allowedAt cfg key w' := by
  obtain ⟨v, hdrift, hanswer⟩ := h
  have hle : allowedAt cfg key w ≤ allowedAt cfg key v := allowedAt_drifts hdrift
  rcases e with ⟨(_ | keyHash | ⟨keyHash, now, cost⟩ | response) | c, r⟩
  · rw [hanswer]
    exact hle
  · rw [hanswer.1]
    exact hle
  · rcases r with reply | ⟨x, applied⟩
    · obtain ⟨time, rfl, rfl⟩ := hanswer
      rw [allowedAt_execute]
      generalize hreply : (cfg.limiter.check ⟨time, now, cost⟩
        (cfg.limiter.bucketAfter (v.executions keyHash))).1 = reply
      obtain ⟨allowed, remaining⟩ := reply
      cases allowed with
      | false => exact hle.trans (Nat.le_add_right _ _)
      | true =>
        by_cases hkey : keyHash = cfg.settings.hashKey key
        · rw [grants, if_pos hkey, if_pos ⟨hkey, rfl⟩]
          omega
        · rw [grants, if_neg hkey]
          omega
    · cases applied with
      | false =>
        rw [show w' = v from hanswer]
        exact hle
      | true =>
        obtain ⟨time, rfl⟩ := hanswer
        rw [allowedAt_execute]
        exact hle.trans (Nat.le_add_right _ _)
  · rw [hanswer]
    exact hle
  · rw [hanswer]
    exact hle

/-- A token was taken for the key. -/
def Granted (cfg : SiteSettings) (key : String) (t : List SiteEv) : Prop :=
  ∃ e ∈ t, grants cfg key e = 1

instance (t : List SiteEv) : Decidable (Granted cfg key t) :=
  inferInstanceAs (Decidable (∃ e ∈ t, grants cfg key e = 1))

/-- A request that is served holds a token of the key it presents. -/
theorem granted_of_serving {x : HttpRequest} {s : RequestState} {t : List SiteEv} {e : SiteEv}
    {q : Prog site (Except Raised Unit × RequestState)} (hrun : Prog.Run (dispatch cfg x s) t q)
    (hkey : presentedKey x.headers.authorization x.headers.xApiKey = some key) (he : e ∈ t)
    (hserving : Serving e) : Granted cfg key t := by
  obtain ⟨u, v, rfl⟩ := List.append_of_mem he
  obtain ⟨key', hcleared⟩ := (mediated_of_run hrun).cleared hserving
  obtain rfl : key = key' := Option.some.inj (hkey.symm.trans hcleared.presented)
  obtain ⟨now, remaining, hmem⟩ := hcleared.token
  exact ⟨_, List.mem_append_left _ hmem, if_pos rfl⟩

/-! ## A stretch of a run -/

variable {P P' Q : Requests cfg ι}

/-- What the bucket of the key was checked with between two points of a run. -/
def checksBetween (key : String) (P P' : Requests cfg ι) : List (Execution ℚ) :=
  (P'.world.executions (cfg.settings.hashKey key)).drop
    (P.world.executions (cfg.settings.hashKey key)).length

theorem executions_extend {w w' : Stores} {e : SiteEv} {keyHash : String}
    (h : (stores cfg.limiter).answers w e w') : w.executions keyHash <+: w'.executions keyHash := by
  obtain ⟨v, hdrift, hanswer⟩ := h
  refine (hdrift.executions keyHash).trans ?_
  have hexecute : ∀ keyHash' f, v.executions keyHash <+: (v.execute keyHash' f).executions keyHash := by
    intro keyHash' f
    rw [Stores.executions_execute]
    split
    · exact List.prefix_append _ _
    · exact List.prefix_refl _
  unfold Stores.Answers at hanswer
  split at hanswer
  · rw [hanswer.1]
  · obtain ⟨time, rfl, -⟩ := hanswer
    exact hexecute _ _
  · split at hanswer
    · obtain ⟨time, rfl⟩ := hanswer
      exact hexecute _ _
    · rw [hanswer]
  · rw [hanswer]

theorem executions_of_reaches (h : Pool.Reaches P P') :
    P'.world.executions (cfg.settings.hashKey key) =
      P.world.executions (cfg.settings.hashKey key) ++ checksBetween key P P' := by
  have hevolves : ∀ {w t w'}, (stores cfg.limiter).Evolves w t w' →
      Stores.executions w (cfg.settings.hashKey key) <+:
        Stores.executions w' (cfg.settings.hashKey key) := by
    intro w t w' h
    induction h with
    | nil w => exact List.prefix_refl _
    | cons he _ ih => exact (executions_extend he).trans ih
  have hgrown : P.world.executions (cfg.settings.hashKey key) <+:
      P'.world.executions (cfg.settings.hashKey key) :=
    h.preserved (J := fun Q : Requests cfg ι => P.world.executions (cfg.settings.hashKey key) <+:
      Q.world.executions (cfg.settings.hashKey key)) (List.prefix_refl _)
      fun _ _ _ _ _ ih _ hw => ih.trans (hevolves hw)
  obtain ⟨es, hes⟩ := hgrown
  rw [checksBetween, ← hes, List.drop_left]

/-- The bucket the checks of a stretch find. -/
def bucketAt (key : String) (P : Requests cfg ι) : Option (Bucket ℚ) :=
  cfg.limiter.bucketAfter (P.world.executions (cfg.settings.hashKey key))

theorem allowedAt_of_reaches (h : Pool.Reaches P P') :
    allowedAt cfg key P'.world = allowedAt cfg key P.world +
      (TokenBucketLimiter.answers cfg.limiter.check (bucketAt key P)
        (checksBetween key P P')).count true := by
  unfold allowedAt
  rw [executions_of_reaches h, TokenBucketLimiter.answers_append, List.count_append]
  rfl

theorem one_add_tally_le {i : ι} (h : Pool.Reaches P P') (hbefore : ¬ Granted cfg key (P.hist i))
    (hgranted : Granted cfg key (P'.hist i)) :
    1 + tally (grants cfg key) (P.hist i) ≤ tally (grants cfg key) (P'.hist i) := by
  obtain ⟨t, ht⟩ := h.hist_extends i
  obtain ⟨e, he, hone⟩ := hgranted
  rw [← ht] at he ⊢
  have hnew : e ∈ t := (List.mem_append.mp he).resolve_left fun hold => hbefore ⟨e, hold, hone⟩
  have hle : 1 ≤ tally (grants cfg key) t := hone.symm.le.trans
    (List.le_sum_of_mem (List.mem_map_of_mem hnew))
  rw [tally_append, add_comm]
  exact Nat.add_le_add_left hle _

variable [Fintype ι] {w₀ : Stores}

/-- The requests that present the key, were allowed in the stretch from `P` to `P'`, and are served
by `Q`, if only in part. -/
def servedFrom (key : String) (x : ι → HttpRequest) (P P' Q : Requests cfg ι) : Finset ι :=
  Finset.univ.filter fun i =>
    presentedKey (x i).headers.authorization (x i).headers.xApiKey = some key ∧
      (¬ Granted cfg key (P.hist i) ∧ Granted cfg key (P'.hist i)) ∧ ∃ e ∈ Q.hist i, Serving e

/-- No more requests are allowed in a stretch than the script has allowed in it. -/
theorem card_servedFrom_le (h : Pool.Reaches P P') :
    (servedFrom key x P P' Q).card ≤ (TokenBucketLimiter.answers cfg.limiter.check (bucketAt key P)
      (checksBetween key P P')).count true := by
  have htally : allowedAt cfg key P.world + ∑ i, tally (grants cfg key) (P'.hist i) ≤
      allowedAt cfg key P'.world + ∑ i, tally (grants cfg key) (P.hist i) :=
    h.tally_le fun _ _ _ => allowedAt_answers
  have hcard : (servedFrom key x P P' Q).card + ∑ i, tally (grants cfg key) (P.hist i) ≤
      ∑ i, tally (grants cfg key) (P'.hist i) := by
    rw [servedFrom, Finset.card_filter, ← Finset.sum_add_distrib]
    refine Finset.sum_le_sum fun i _ => ?_
    split
    · next hi => exact one_add_tally_le h hi.2.1.1 hi.2.1.2
    · obtain ⟨t, ht⟩ := h.hist_extends i
      rw [← ht, tally_append, zero_add]
      exact Nat.le_add_right _ _
  rw [allowedAt_of_reaches h] at htally
  omega

/-- Whatever the order in which requests are served and whatever fails, and whatever the bucket held
before: as long as the clocks of a stretch of a run do not go back and the bucket does not expire in
it, what is checked in it from the time `a` to the time `b` serves no more requests of a key than a
full bucket and its refill pay for. And nobody is served who was not allowed. -/
theorem served_limited {a b : ℚ} (hreach : Pool.Reaches (.start w₀ (arriving cfg x)) P)
    (hstretch : Pool.Reaches P P') (hlater : Pool.Reaches P' Q) (hab : a ≤ b)
    (hchecks : cfg.limiter.UnitChecks a b (checksBetween key P P'))
    (hclock : cfg.limiter.refillRate = 0 ∨
      ((checksBetween key P P').map Execution.now).IsChain (· ≤ ·)) :
    ((servedFrom key x P P' Q).card : ℚ) ≤ cfg.limiter.capacity + cfg.limiter.refillRate * (b - a) ∧
      ∀ i, presentedKey (x i).headers.authorization (x i).headers.xApiKey = some key →
        (∃ e ∈ Q.hist i, Serving e) → Granted cfg key (Q.hist i) := by
  refine ⟨(Nat.cast_le.mpr (card_servedFrom_le hstretch)).trans (hchecks.limited hab hclock), ?_⟩
  rintro i hkey ⟨e, he, hserving⟩
  exact granted_of_serving (Pool.Reaches.run ((hreach.trans hstretch).trans hlater) i) hkey he hserving

/-- A bucket that holds a single token. -/
def throttled : SiteSettings :=
  { deployed with limiter := { deployed.limiter with capacity := 1, capacity_pos := Nat.one_pos } }

/-- Two requests arrive, and the first takes its turns before the second. -/
def firstServed : Requests throttled (Fin 2) :=
  (Pool.start (Stores.mk .empty fun _ => []) (arriving throttled fun _ => sayHi)).schedule
    (operate throttled.limiter) (List.replicate 9 0)

/-- The second takes its turns. -/
def bothAnswered : Requests throttled (Fin 2) :=
  firstServed.schedule (operate throttled.limiter) (List.replicate 9 1)

theorem served_limited_second :
    ((servedFrom "secret" (fun _ => sayHi) firstServed bothAnswered bothAnswered).card : ℚ) ≤
      throttled.limiter.capacity + throttled.limiter.refillRate * (0 - 0) := by
  refine (served_limited (Pool.reaches_schedule (stores_operate _) _ _)
    (Pool.reaches_schedule (stores_operate _) _ _) .refl le_rfl ⟨?_, ?_, ?_⟩ (.inr ?_)).1
  · unfold TokenBucketLimiter.Unexpired
    decide +kernel
  · decide +kernel
  · decide +kernel
  · decide +kernel

/-- The second is refused: the first has left it no token. -/
example : (servedFrom "secret" (fun _ => sayHi) firstServed bothAnswered bothAnswered).card = 0 := by
  decide +kernel

end Web

end LlmGateway
