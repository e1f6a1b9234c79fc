import LlmGateway.Main.ReserveRun
import LlmGateway.Main.Footprint
import LlmGateway.Gateway.Redis

/-!
# Conservation of both ledgers

Any number of requests reserve and, unless refused, settle once at their cost. As long as no command
fails, a finished request has moved each ledger by exactly its cost, whatever ran in between, and a
refused one has moved nothing. The ledgers therefore stand at what they started at and the costs.
-/

namespace LlmGateway.Conservation

open Coroutine

/-- What a request may be settled at: nothing was served, a reserved provider served it, or a free
one did. -/
inductive Served (reservations : OrderedDict String ℚ) : String → ℚ → Prop
  | nothing : Served reservations "" 0
  | reserved {provider : String} {cost : ℚ} (hmem : provider ∈ reservations) (hcost : 0 ≤ cost) :
      Served reservations provider cost
  | free {provider : String} (hfree : provider ∈ FREE_PROVIDERS) : Served reservations provider 0

/-- A request, with the outcome of the call it makes: the provider that serves it and the cost. -/
structure Request where
  chainName : String
  messages : List ChatMessage
  params : Option SamplingParams
  requestId : String
  apiKey : String
  outcome : OrderedDict String ℚ × Finset String → String × ℚ
  served : ∀ x, Served x.1 (outcome x).1 (outcome x).2

/-- Reserve and, if that returns, settle. -/
def Request.run (settings : Settings) (q : Request) : Py Unit Unit := do
  let x ← reserveChain settings q.chainName q.messages q.params q.requestId q.apiKey
  settleChain settings q.apiKey x.1 (q.outcome x).1 (q.outcome x).2

/-- Nothing fails, and the clock stays in the period `P`. -/
def Calm (P : ℤ) (e : Ev) : Prop :=
  Healthy e ∧ failed e = false ∧ BudgetTracker.InPeriod P e

/-- The provider and the cost a settlement is made at. -/
def settledAt : Call → Option (String × ℚ)
  | .settleChain _ _ provider cost => some (provider, cost)
  | _ => none

/-- The provider and the cost of every settlement in a trace. -/
def settlements (t : List Ev) : List (String × ℚ) := (calls t).filterMap settledAt

/-- What a request cost. -/
def cost (t : List Ev) : ℚ := ((settlements t).map Prod.snd).sum

/-- What a request cost the provider `p`, having been served by it. -/
def costOf (p : String) (t : List Ev) : ℚ :=
  (((settlements t).filter fun x => x.1 = p).map Prod.snd).sum

/-- The amount a finished request leaves on the ledger `k`. -/
def share (settings : Settings) (P : ℤ) (q : Request) (t : List Ev) : LedgerKey → ℚ
  | .provider p => if p ∈ FREE_PROVIDERS then 0 else costOf p t
  | .key h P' => if h = settings.hashKey q.apiKey ∧ P' = P then cost t else 0

variable {settings : Settings} {P : ℤ} {q : Request}

/-! ## One request -/

section Calm

variable {t : List Ev}

theorem moved_of_calm (h : ∀ e ∈ t, Calm P e) (k : LedgerKey) :
    tally (moved k) t = tally (asked k) t :=
  tally_moved_of_not_failed (fun e he => (h e he).2.1) k

theorem stranded_of_calm (h : ∀ e ∈ t, Calm P e) (k : LedgerKey) : tally (stranded k) t = 0 :=
  tally_stranded_of_not_failed (fun e he => (h e he).2.1) k

end Calm

/-- Settling the providers is not settling the request. -/
theorem settledAt_of_settles {reservations : OrderedDict String ℚ} {p : String} {c : ℚ}
    {cs : List Call} (h : Settles reservations p c cs) : cs.filterMap settledAt = [] := by
  have hentries : ∀ x ∈ reservations.entries.map (settleCall p c), settledAt x = none := by
    intro x hx
    obtain ⟨e, -, rfl⟩ := List.mem_map.mp hx
    rfl
  rw [List.filterMap_eq_nil_iff]
  rcases h with h | ⟨-, rfl⟩
  · exact fun x hx => hentries x (h.subset hx)
  · intro x hx
    rcases List.mem_append.mp hx with hx | hx
    · exact hentries x hx
    · obtain rfl := List.mem_singleton.mp hx
      rfl

/-- What a request that was not refused leaves on the ledgers. -/
theorem share_of_settled {t : List Ev} {p : String} {c : ℚ} (h : settlements t = [(p, c)])
    (k : LedgerKey) :
    share settings P q t k = match k with
      | .provider p' => if p' ∈ FREE_PROVIDERS then 0 else if p = p' then c else 0
      | .key h P' => if h = settings.hashKey q.apiKey ∧ P' = P then c else 0 := by
  cases k with
  | provider p' => by_cases hp : p = p' <;> simp [share, costOf, h, hp]
  | key h' P' => simp [share, cost, h]

theorem share_of_refused {t : List Ev} (h : settlements t = []) (k : LedgerKey) :
    share settings P q t k = 0 := by
  cases k <;> simp [share, costOf, cost, h]

/-- The recorded amounts and the settlement add up to the cost. -/
theorem recorded_add_settlement_of_served {s' : ReserveLocals} {p : String} {c : ℚ}
    (hfree : ∀ p ∈ FREE_PROVIDERS, p ∉ s'.reservations) (h : Served s'.reservations p c)
    (p' : String) :
    s'.recorded (.provider p') + settlement s'.reservations p c (.provider p')
      = if p' ∈ FREE_PROVIDERS then 0 else if p = p' then c else 0 := by
  rw [ReserveLocals.recorded, settlement_provider]
  by_cases hp' : p' ∈ FREE_PROVIDERS
  · simp [hp', OrderedDict.getD_of_not_mem (hfree p' hp')]
  by_cases hmem : p' ∈ s'.reservations
  · simp [hp', hmem, eq_comm]
  · rw [OrderedDict.getD_of_not_mem hmem, if_neg hp', if_neg hp', if_neg hmem, zero_add]
    cases h with
    | nothing => by_cases hp : p' = "" <;> simp [hp]
    | reserved hres hc =>
      have hne : p' ≠ p := fun h => hmem (h ▸ hres)
      simp [hne, Ne.symm hne]
    | free hp => by_cases hp : p' = p <;> simp [hp]

/-- A refused request is not settled, any other one is settled once, at its outcome. -/
def Paired (q : Request) (t : List Ev) : Except Exc Unit → Prop
  | .error _ => settlements t = []
  | .ok () => ∃ x, settlements t = [q.outcome x]

/-- What a finished request has done, whatever failed in it: `t` is the reservation, and `t'`, which
begins with the record of a call, the unwinding or the settlement. -/
structure Finished (settings : Settings) (P : ℤ) (q : Request) (t t' : List Ev)
    (r : Except Exc Unit) : Prop where
  calls : calls t = []
  headed : Headed t'
  leaked : ∀ l, tally (leaked l) (t ++ t') = tally (excused l) t
  moved : Interrupted t' ∨ ∀ k, tally (moved k) t + tally (asked k) t'
    = share settings P q (t ++ t') k + tally (stranded k) t
  paired : (∀ e ∈ t', failed e = false) → Paired q (t ++ t') r

/-- Refused: the unwinding asks back what the body recorded. -/
theorem finished_of_unwound {t t' : List Ev} {s' : ReserveLocals} {e e' : Exc} {cs : List Call}
    (hP : ∀ e ∈ t, BudgetTracker.InPeriod P e)
    (hbody : BodyRun settings q.apiKey t (.error e) s')
    (hu : Interrupted t' ∨ ∀ k, tally (asked k) t' = settlement s'.reservations "" 0 k)
    (hc : Settles s'.reservations "" 0 cs) (hrec : Records t' cs) :
    Finished settings P q t t' (.error e') := by
  have hnil : settlements (t ++ t') = [] := by
    rw [settlements, calls_append, hbody.calls_eq, List.nil_append, hrec.calls,
      settledAt_of_settles hc]
  refine ⟨hbody.calls_eq, hrec.headed, fun l => ?_, hu.imp_right fun hu k => ?_, fun _ => hnil⟩
  · rw [tally_append, hbody.leaked_eq, hrec.leaked, add_zero]
  · rw [share_of_refused hnil, hbody.moved_eq hP, hu]
    have hback := recorded_add_settlement hbody.recorded.2 k
    simp only [Except.isOk, Except.toBool, Bool.false_eq_true, false_and, if_false]
    rw [add_zero, add_right_comm, hback]

/-- Reserved: the one settlement asks for the cost less what was reserved. -/
theorem finished_of_returned {t t' : List Ev} {s' : ReserveLocals} {r : Except Exc Unit}
    (hP : ∀ e ∈ t ++ t', BudgetTracker.InPeriod P e)
    (hbody : BodyRun settings q.apiKey t (.ok ()) s') (hr : FromRedis t' r)
    (hasked : Interrupted t' ∨ ChainAsked settings q.apiKey s'.reservations
      (q.outcome (s'.reservations, s'.skip)).1 (q.outcome (s'.reservations, s'.skip)).2 t')
    (hsettled : SettledAt q.apiKey s'.reservations (q.outcome (s'.reservations, s'.skip)).1
      (q.outcome (s'.reservations, s'.skip)).2 (calls t'))
    (hhead : Headed t') (hleaked : ∀ l, tally (leaked l) t' = 0) :
    Finished settings P q t t' r := by
  have hone : settlements (t ++ t') = [q.outcome (s'.reservations, s'.skip)] := by
    obtain ⟨cs, hcs, hcalls⟩ := hsettled
    rw [settlements, calls_append, hbody.calls_eq, List.nil_append, hcalls]
    simp [settledAt, settledAt_of_settles hcs]
  obtain ⟨hP₁, hP₂⟩ := List.forall_mem_append.mp hP
  refine ⟨hbody.calls_eq, hhead, fun l => ?_, hasked.imp_right fun hasked k => ?_, fun hquiet => ?_⟩
  · rw [tally_append, hbody.leaked_eq, hleaked, add_zero]
  · rw [share_of_settled hone, hbody.moved_eq hP₁]
    cases k with
    | provider p' =>
      have hsum := recorded_add_settlement_of_served hbody.recorded.2
        (q.served (s'.reservations, s'.skip)) p'
      simp only [reduceCtorEq, and_false, if_false, hasked.provider]
      rw [add_zero, add_right_comm, hsum]
    | key h P' =>
      rw [hasked.key P hP₂]
      by_cases hk : h = settings.hashKey q.apiKey ∧ P' = P
      · simp only [ReserveLocals.recorded, hk, Except.isOk, Except.toBool, and_self, if_true,
          Rounding.fl_exact]
        ring
      · simp [ReserveLocals.recorded, hk]
  · obtain rfl := hr.ok hquiet
    exact ⟨_, hone⟩

theorem wp_finished : (q.run settings).wp (fun e => Healthy e ∧ BudgetTracker.InPeriod P e) ()
    fun t r _ => ∃ t₁ t₂, t = t₁ ++ t₂ ∧ Finished settings P q t₁ t₂ r := by
  rw [Request.run, Coro.wp_bind]
  refine Coro.wp_mono (Coro.wp_anti (wp_reserveChain _ _ _) fun e he => he.1) fun t r s' hA h => ?_
  obtain ⟨-, hrun⟩ := h
  cases hrun with
  | unwound hbody hu hc hrec =>
    have hP := fun e he => (hA e (List.mem_append_left _ he)).2
    exact ⟨_, _, rfl, finished_of_unwound hP hbody hu hc hrec⟩
  | returned hbody =>
    dsimp only
    refine Coro.wp_mono (Coro.wp_and (Coro.wp_anti wp_settleChain fun e he => he.1)
      (Coro.wp_and calls_settleChain (Coro.wp_and headed_settleChain
        (only_settleChain fun _ h => h).wp))) fun t' r' s'' hA' h' => ?_
    obtain ⟨⟨-, hr, hasked⟩, ⟨-, -, hsettled⟩, hhead, honly⟩ := h'
    have hP := List.forall_mem_append.mpr ⟨fun e he => (hA e he).2, fun e he => (hA' e he).2⟩
    exact ⟨t, t', rfl, finished_of_returned hP hbody hr hasked hsettled hhead
      (leaked_of_accounting honly)⟩

/-- A finished request in which nothing failed has moved what it cost. -/
theorem wp_run : (q.run settings).wp (Calm P) () fun t r _ =>
    (∀ k, tally (moved k) t = share settings P q t k) ∧ Paired q t r := by
  refine Coro.wp_mono (Coro.wp_anti wp_finished fun e he => ⟨he.1, he.2.2⟩) fun t r s' hA h => ?_
  obtain ⟨t₁, t₂, rfl, h⟩ := h
  obtain ⟨hA₁, hA₂⟩ := List.forall_mem_append.mp hA
  have hquiet : ∀ e ∈ t₂, failed e = false := fun e he => (hA₂ e he).2.1
  refine ⟨fun k => ?_, h.paired hquiet⟩
  have hmoved := h.moved.resolve_left (not_interrupted hquiet) k
  rw [stranded_of_calm hA₁, add_zero] at hmoved
  rw [tally_append, moved_of_calm hA₂, hmoved]

/-! ## Any number of requests -/

section Pool

variable {ι : Type} [DecidableEq ι] [Fintype ι] {requests : ι → Request} {L₀ : Ledgers}
  {Q : Pool (redis (Calm P)) ι (Except Exc Unit × Unit)}

/-- The requests, not started. -/
def opening (settings : Settings) (P : ℤ) (requests : ι → Request) (L₀ : Ledgers) :
    Pool (redis (Calm P)) ι (Except Exc Unit × Unit) :=
  Pool.start L₀ fun i => (requests i).run settings ()

/-- Not started yet, or finished. -/
def AtRest (Q : Pool (redis (Calm P)) ι (Except Exc Unit × Unit)) (i : ι) : Prop :=
  Q.hist i = [] ∨ (Q.prog i).value?.isSome

/-- Refused by `_reserve_chain`. -/
def Refused (Q : Pool (redis (Calm P)) ι (Except Exc Unit × Unit)) (i : ι) : Prop :=
  ∃ e, (Q.prog i).value? = some (.error e, ())

theorem Prog.eq_ret_of_value? {α : Type} {p : Prog gateway α} {a : α} (h : p.value? = some a) :
    p = .ret a := by
  cases p with
  | ret b => exact congrArg Prog.ret (Option.some.inj h)
  | call c k => cases h

omit [Fintype ι] in
theorem finished_spec (h : (opening settings P requests L₀).Reaches Q) {i : ι}
    {r : Except Exc Unit} (hr : (Q.prog i).value? = some (r, ())) :
    (∀ k, tally (moved k) (Q.hist i) = share settings P (requests i) (Q.hist i) k) ∧
      Paired (requests i) (Q.hist i) r :=
  Pool.Reaches.wp_apply h redis_admits wp_run (Prog.eq_ret_of_value? hr)

omit [Fintype ι] in
theorem moved_at_rest (h : (opening settings P requests L₀).Reaches Q) {i : ι} (hi : AtRest Q i)
    (k : LedgerKey) :
    tally (moved k) (Q.hist i) = share settings P (requests i) (Q.hist i) k := by
  rcases hi with hnil | hdone
  · rw [hnil, share_of_refused rfl]
    rfl
  · obtain ⟨⟨r, ⟨⟩⟩, hr⟩ := Option.isSome_iff_exists.mp hdone
    exact (finished_spec h hr).1 k

theorem ledger_at_rest (h : (opening settings P requests L₀).Reaches Q) (hrest : ∀ i, AtRest Q i)
    (k : LedgerKey) :
    Q.world k = L₀ k + ∑ i, share settings P (requests i) (Q.hist i) k := by
  rw [Pool.Reaches.tally (g := fun L : Ledgers => L k) h (redis_moves k)]
  exact congrArg _ (Finset.sum_congr rfl fun i _ => moved_at_rest h (hrest i) k)

/-- Conservation: whenever no request is in flight, the ledger of a billable provider stands at what
it started at and the costs of the requests it served, the ledger of a caller at what it started at
and the costs of its requests, and a refused request has contributed nothing. The costs are those of
the one settlement each request that was not refused has reached. -/
theorem conservation (h : (opening settings P requests L₀).Reaches Q)
    (hrest : ∀ i, AtRest Q i) :
    (∀ p, p ∉ FREE_PROVIDERS → Q.world (.provider p)
      = L₀ (.provider p) + ∑ i, costOf p (Q.hist i)) ∧
    (∀ keyHash, Q.world (.key keyHash P) = L₀ (.key keyHash P)
      + ∑ i with settings.hashKey (requests i).apiKey = keyHash, cost (Q.hist i)) ∧
    (∀ i, Refused Q i → ∀ k, tally (moved k) (Q.hist i) = 0) ∧
    ∀ i r, (Q.prog i).value? = some (r, ()) → Paired (requests i) (Q.hist i) r := by
  refine ⟨fun p hp => ?_, fun keyHash => ?_, fun i hi k => ?_, fun i r hr => (finished_spec h hr).2⟩
  · rw [ledger_at_rest h hrest]
    simp [share, hp]
  · rw [ledger_at_rest h hrest, Finset.sum_filter]
    simp [share, eq_comm]
  · obtain ⟨e, he⟩ := hi
    obtain ⟨hmoved, hnil⟩ := finished_spec h he
    rw [hmoved, share_of_refused hnil]

end Pool

/-! ## Two requests of one caller -/

/-- A request on the default chain that OpenAI serves for a tenth of a cent. -/
def prompt : Request where
  chainName := "default"
  messages := [⟨"user", "hi!"⟩]
  params := none
  requestId := "r"
  apiKey := "k"
  outcome x := if "openai" ∈ x.1 then ("openai", 1 / 1000) else ("", 0)
  served x := by
    by_cases h : "openai" ∈ x.1
    · rw [if_pos h]
      exact .reserved h (by decide +kernel)
    · rw [if_neg h]
      exact .nothing

/-- A deployment whose monthly share is three cents. -/
def tight : Settings := { hashKey := id, monthlyBudgetUsdPerKey := 3 / 100 }

/-- The second of two interleaved requests finds the share of their caller taken. -/
def twoRequests : Pool (redis (Calm 0)) (Fin 2) (Except Exc Unit × Unit) :=
  (opening tight 0 (fun _ => prompt) fun _ => 0).schedule (answer calm)
    [0, 1, 1, 0, 0, 1, 1, 0, 1, 0, 1, 0, 1, 0]

theorem period_zero : BudgetTracker.period 0 = 0 := by decide +kernel

theorem reaches_twoRequests :
    (opening tight 0 (fun _ : Fin 2 => prompt) fun _ => 0).Reaches twoRequests := by
  refine Pool.reaches_schedule (redis_answer fun L c => ?_) _ _
  have hsound : Sound ⟨c, (answer calm L c).1⟩ := sound_answer L c healthy_calm
  refine ⟨hsound.1, hsound.2, ?_⟩
  cases c with
  | time => exact period_zero
  | _ => trivial

theorem finished_twoRequests : ∀ i, (twoRequests.prog i).value?.isSome := by decide +kernel

theorem conservation_two_requests :
    settlements (twoRequests.hist 0) = [("openai", 1 / 1000)] ∧
    settlements (twoRequests.hist 1) = [] ∧
    (∀ p, p ∉ FREE_PROVIDERS → twoRequests.world (.provider p)
      = 0 + ∑ i, costOf p (twoRequests.hist i)) ∧
    (∀ keyHash, twoRequests.world (.key keyHash 0)
      = 0 + ∑ i with tight.hashKey prompt.apiKey = keyHash, cost (twoRequests.hist i)) ∧
    (∀ i, Refused twoRequests i → ∀ k, tally (moved k) (twoRequests.hist i) = 0) ∧
    ∀ i r, (twoRequests.prog i).value? = some (r, ()) → Paired prompt (twoRequests.hist i) r :=
  ⟨by decide +kernel, by decide +kernel,
    conservation reaches_twoRequests fun i => .inr (finished_twoRequests i)⟩

end LlmGateway.Conservation
