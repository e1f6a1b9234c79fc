import LlmGateway.Main.Books
import LlmGateway.Scripts.Reconcile

/-!
# Comparing the ledger with the audit log

Mirrors `reconcile` of `scripts/reconcile.py`, which reads both records of what was spent and compares
them provider by provider.

`reconcile_finds` says what it finds after any traffic in which Redis did not fail: what requests have
left adrift, and nothing else. So it never finds the ledger below the audit log.
-/

namespace LlmGateway.Reconcile

open Coroutine
open Conservation (settlements)

variable {σ : Type} {settings : Settings}

/-! ## The script -/

/-- `_audit_totals`: the number of a provider's rows, and what they add up to. A provider without rows
gets what `.get` defaults to. -/
def auditTotals (rows : List AuditLogEntry) (provider : String) : ℕ × ℚ :=
  if provider = "" then (0, 0)
  else ((rows.filter fun row => row.provider = provider).length, auditTotal provider rows)

/-- A line of the report. -/
structure Line where
  provider : String
  led : ℚ
  count : ℕ
  aud : ℚ
deriving DecidableEq

/-- What the ledger shows beyond the audit log. -/
def Line.gap (line : Line) : ℚ := line.led - line.aud

inductive Verdict where
  | ok
  /-- Stranded reservations: the ceiling refuses early. -/
  | ledgerHigh
  /-- The ceiling is larger than spend says. -/
  | ledgerLow
deriving DecidableEq

def Line.verdict (toleranceUsd : ℚ) (line : Line) : Verdict :=
  if |line.gap| ≤ toleranceUsd then .ok
  else if 0 < line.gap then .ledgerHigh
  else .ledgerLow

inductive Report where
  /-- One of the records could not be read. -/
  | unreachable
  | compared (lines : List Line)
deriving DecidableEq

/-- The largest gap, of either sign. -/
def worst (lines : List Line) : ℚ := lines.foldl (fun w line => max w |line.gap|) 0

/-- The exit code. -/
def Report.exitCode (toleranceUsd : ℚ) : Report → ℕ
  | .unreachable => 2
  | .compared lines => if toleranceUsd < worst lines then 1 else 0

/-- `reconcile`: `audit` is what `_audit_totals` returns, or raises. -/
def reconcile (settings : Settings) (audit : Except PyError (String → ℕ × ℚ)) : Py σ Report :=
  tryExceptElse
    (ProviderBudget.snapshot settings.providerLifetimeBudgetUsd settings.billableProviders)
    (fun _ => pure .unreachable)
    fun ledger =>
      match audit with
      | .error _ => pure .unreachable
      | .ok totals => pure (.compared (settings.billableProviders.map fun provider =>
          ⟨provider, (ledger.lookup provider).getD 0, (totals provider).1, (totals provider).2⟩))

/-! ## What it reads -/

/-- As long as no ledger moves, what is read is where they stand. -/
theorem evolves_reports {A : Ev → Prop} {L L' : Ledgers} {t : List Ev}
    (h : (redis A).Evolves L t L') (ht : ∀ e ∈ t, ∀ k, moved k e = 0) : ∀ e ∈ t, Reports L e := by
  induction t generalizing L with
  | nil => simp
  | cons e t ih =>
    obtain ⟨L₁, he, hrest⟩ := World.Evolves.cons_iff.mp h
    obtain ⟨hstill, hstills⟩ := List.forall_mem_cons.mp ht
    obtain rfl : L₁ = L := by
      funext k
      rw [he.2.1, hstill, add_zero]
    exact List.forall_mem_cons.mpr ⟨he.2.2, ih hrest hstills⟩

/-- Redis does not fail, and the ledgers stand at `L`. -/
def Standing (L : Ledgers) (e : Ev) : Prop := Sound e ∧ Reports L e

theorem wp_spent_reads {L : Ledgers} {capUsd : ℚ} {provider : String} {s : σ} :
    (ProviderBudget.spent capUsd provider).wp (Standing L) s fun _ r _ =>
      r = .ok (L (.provider provider)) := by
  have hpublish : ∀ total, (ProviderBudget.publish capUsd provider total).wp (Standing L) s
      fun _ r _ => r = .ok () := fun total =>
    Coro.wp_anti (ProviderBudget.wp_publish.mpr rfl) fun _ h => h.1.1
  rw [ProviderBudget.spent, Coro.wp_bind, get, Coro.wp_bind]
  refine Coro.wp_perform.mpr ?_
  rintro (total | ⟨e, a⟩) ⟨⟨-, hfailed⟩, hreports⟩
  · refine Coro.wp_ofExcept.mpr (Coro.wp_bind.mpr ?_)
    refine Coro.wp_mono (hpublish total) fun t r s' _ h => ?_
    obtain rfl := h
    exact Coro.wp_pure.mpr (congrArg Except.ok hreports)
  · cases hfailed

theorem wp_snapshot_reads {L : Ledgers} {capUsd : ℚ} (providers : List String) {s : σ} :
    (ProviderBudget.snapshot capUsd providers).wp (Standing L) s fun _ r _ =>
      r = .ok (providers.map fun provider => (provider, L (.provider provider))) := by
  induction providers generalizing s with
  | nil => exact Coro.wp_pure.mpr rfl
  | cons provider rest ih =>
    rw [ProviderBudget.snapshot, Coro.wp_bind]
    refine Coro.wp_mono wp_spent_reads fun t r s₁ _ h => ?_
    obtain rfl := h
    dsimp only
    rw [Coro.wp_bind]
    refine Coro.wp_mono ih fun t' r' s₂ _ h => ?_
    obtain rfl := h
    exact Coro.wp_pure.mpr rfl

/-- The report on ledgers that stand at `L` and a log with these rows. -/
def reportOn (settings : Settings) (L : Ledgers) (rows : List AuditLogEntry) : Report :=
  .compared (settings.billableProviders.map fun provider =>
    ⟨provider, L (.provider provider), (auditTotals rows provider).1, (auditTotals rows provider).2⟩)

theorem wp_reconcile {L : Ledgers} {rows : List AuditLogEntry} {s : σ} :
    (reconcile settings (.ok (auditTotals rows))).wp (Standing L) s fun _ r _ =>
      r = .ok (reportOn settings L rows) := by
  rw [reconcile, tryExceptElse, Coro.wp_attemptElse]
  refine Coro.wp_mono (wp_snapshot_reads _) fun t r s₁ _ h => ?_
  obtain rfl := h
  refine Coro.wp_pure.mpr (congrArg (Except.ok ∘ Report.compared) ?_)
  refine List.map_congr_left fun provider hmem => ?_
  rw [List.lookup_graph (fun provider => L (.provider provider)) hmem]
  rfl

/-- The script reads both records as they are. -/
theorem reconcile_reads {L L' : Ledgers} {rows : List AuditLogEntry} {t : List Ev}
    {r : Except Exc Report} {s s' : σ}
    (hrun : Coro.Runs (reconcile settings (.ok (auditTotals rows))) s t r s')
    (hL : (redis Sound).Evolves L t L') : r = .ok (reportOn settings L rows) := by
  have hidle : (reconcile settings (.ok (auditTotals rows)) : Py σ Report).wp Healthy s
      fun t _ _ => ∀ e ∈ t, Idle e := by
    rw [reconcile, tryExceptElse, Coro.wp_attemptElse]
    refine Coro.wp_mono (wp_snapshot _) fun t r s₁ _ h => ?_
    obtain ⟨-, hidle⟩ := h
    rcases r with x | ledger
    · cases x with
      | exception e => exact Coro.wp_pure.mpr ((List.append_nil t).symm ▸ hidle)
      | _ => exact hidle
    · exact Coro.wp_pure.mpr ((List.append_nil t).symm ▸ hidle)
  have hsound : ∀ e ∈ t, Sound e := hL.forall_mem redis_admits
  have hstill : ∀ e ∈ t, ∀ k, moved k e = 0 := fun e he =>
    (hidle.apply hrun (fun e he => (hsound e he).1) e he).moved
  have hreports := evolves_reports hL hstill
  exact wp_reconcile.apply hrun fun e he => ⟨hsound e he, hreports e he⟩

theorem not_free_of_billable {provider : String} (h : provider ∈ settings.billableProviders) :
    provider ∉ FREE_PROVIDERS := by
  rw [Settings.billableProviders, sorted, Finset.mem_sort, List.mem_toFinset] at h
  simpa using (List.mem_filter.mp h).2

/-! ## The two stores -/

/-- Redis and the audit log, when the environment gives only replies satisfying `A`. -/
def records (A : Ev → Prop) : World gateway where
  State := Ledgers × List AuditLogEntry
  answers w e w' := (redis A).answers w.1 e w'.1 ∧ w'.2 = w.2 ++ (addedRow? e).toList

variable {A : Ev → Prop} {w w' : Ledgers × List AuditLogEntry} {t : List Ev}

theorem records_admits : ∀ w e w', (records A).answers w e w' → A e := fun _ _ _ h => h.1.1

theorem evolves_redis (h : (records A).Evolves w t w') : (redis A).Evolves w.1 t w'.1 := by
  induction t generalizing w with
  | nil =>
    obtain rfl := World.Evolves.nil_iff.mp h
    exact .nil _
  | cons e t ih =>
    obtain ⟨w₁, he, hrest⟩ := World.Evolves.cons_iff.mp h
    exact .cons he.1 (ih hrest)

theorem tally_added (provider : String) (t : List Ev) :
    tally (fun e => auditTotal provider (addedRow? e).toList) t = auditTotal provider (addedRows t) := by
  induction t with
  | nil => rfl
  | cons e t ih =>
    have hcons : addedRows (e :: t) = (addedRow? e).toList ++ addedRows t := by
      cases h : addedRow? e <;> simp [addedRows, h]
    rw [tally_cons, ih, hcons, auditTotal_append]

/-- What the ledger of a provider shows beyond its rows. -/
def gapIn (w : Ledgers × List AuditLogEntry) (provider : String) : ℚ :=
  w.1 (.provider provider) - auditTotal provider w.2

section Traffic

variable {ι : Type} [DecidableEq ι] [Fintype ι] {requests : ι → RoutedRequest}
  {w₀ : Ledgers × List AuditLogEntry} {Q : Pool (records Sound) ι (Except Exc Unit × Unit)}

/-- The requests, not started. -/
def traffic (settings : Settings) (requests : ι → RoutedRequest) (w₀ : Ledgers × List AuditLogEntry) :
    Pool (records Sound) ι (Except Exc Unit × Unit) :=
  Pool.start w₀ fun i => (requests i).handle settings ()

/-- No request is in flight. -/
def AtRest (Q : Pool (records Sound) ι (Except Exc Unit × Unit)) : Prop :=
  ∀ i, Q.hist i = [] ∨ (Q.prog i).value?.isSome

omit [Fintype ι] in
theorem adrift_at_rest (h : (traffic settings requests w₀).Reaches Q) (hrest : AtRest Q)
    {provider : String} (hfree : provider ∉ FREE_PROVIDERS) (hp : provider ≠ "") (i : ι)
    (hcosts : ∀ x ∈ settlements (Q.hist i), 0 ≤ x.2) :
    tally (moved (.provider provider)) (Q.hist i) =
        auditTotal provider (addedRows (Q.hist i)) + adrift provider (Q.hist i) ∧
      0 ≤ adrift provider (Q.hist i) := by
  rcases hrest i with hnil | hdone
  · have hnone : adrift provider [] = 0 := if_pos rfl
    rw [hnil, hnone]
    exact ⟨(add_zero _).symm, le_refl 0⟩
  · obtain ⟨x, hx⟩ := Option.isSome_iff_exists.mp hdone
    exact Pool.Reaches.wp_apply h records_admits (wp_handle_adrift hfree hp)
      (Conservation.Prog.eq_ret_of_value? hx) hcosts

/-- Whenever no request is in flight, the records are apart by what they were apart before, and by what
is adrift. -/
theorem gap_at_rest (h : (traffic settings requests w₀).Reaches Q) (hrest : AtRest Q)
    (hcosts : ∀ i, ∀ x ∈ settlements (Q.hist i), 0 ≤ x.2) {provider : String}
    (hfree : provider ∉ FREE_PROVIDERS) (hp : provider ≠ "") :
    gapIn Q.world provider = gapIn w₀ provider + ∑ i, adrift provider (Q.hist i) := by
  have hledger : Q.world.1 (.provider provider) =
      w₀.1 (.provider provider) + ∑ i, tally (moved (.provider provider)) (Q.hist i) :=
    Pool.Reaches.tally (g := fun w : Ledgers × List AuditLogEntry => w.1 (.provider provider)) h
      fun _ _ _ hw => redis_moves _ _ _ _ hw.1
  have hlog : auditTotal provider Q.world.2 =
      auditTotal provider w₀.2 + ∑ i, auditTotal provider (addedRows (Q.hist i)) := by
    have htally := Pool.Reaches.tally
      (g := fun w : Ledgers × List AuditLogEntry => auditTotal provider w.2)
      (f := fun e => auditTotal provider (addedRow? e).toList) h
      fun _ _ _ hw => by rw [hw.2, auditTotal_append]
    simpa only [tally_added] using htally
  have hsum : ∑ i, tally (moved (.provider provider)) (Q.hist i) =
      ∑ i, auditTotal provider (addedRows (Q.hist i)) + ∑ i, adrift provider (Q.hist i) := by
    rw [← Finset.sum_add_distrib]
    exact Finset.sum_congr rfl fun i _ => (adrift_at_rest h hrest hfree hp i (hcosts i)).1
  have hgap : gapIn Q.world provider =
      Q.world.1 (.provider provider) - auditTotal provider Q.world.2 := rfl
  rw [hgap, hledger, hlog, hsum, gapIn]
  ring

/-- The largest gap is within the tolerance exactly when every gap is. -/
theorem worst_le_iff {toleranceUsd : ℚ} (lines : List Line) :
    worst lines ≤ toleranceUsd ↔ 0 ≤ toleranceUsd ∧ ∀ line ∈ lines, |line.gap| ≤ toleranceUsd := by
  -- the induction is over what the loop has seen so far
  have hloop : ∀ w : ℚ, lines.foldl (fun w line => max w |line.gap|) w ≤ toleranceUsd ↔
      w ≤ toleranceUsd ∧ ∀ line ∈ lines, |line.gap| ≤ toleranceUsd := by
    induction lines with
    | nil =>
      intro w
      simp
    | cons line lines ih =>
      intro w
      rw [List.foldl_cons, ih, max_le_iff, List.forall_mem_cons, and_assoc]
  exact hloop 0

theorem exitCode_eq_zero_iff {toleranceUsd : ℚ} (htol : 0 ≤ toleranceUsd) (lines : List Line) :
    (Report.compared lines).exitCode toleranceUsd = 0 ↔
      ∀ line ∈ lines, |line.gap| ≤ toleranceUsd := by
  have hcode : (Report.compared lines).exitCode toleranceUsd = 0 ↔ worst lines ≤ toleranceUsd := by
    rw [Report.exitCode, ← not_lt]
    split
    · next h => simp [h]
    · next h => simp [h]
  rw [hcode, worst_le_iff]
  exact and_iff_right htol

/-- A gap that is not negative is not taken for a ledger below the audit log. -/
theorem verdict_ne_ledgerLow {toleranceUsd : ℚ} (htol : 0 ≤ toleranceUsd) {line : Line}
    (h : 0 ≤ line.gap) : line.verdict toleranceUsd ≠ .ledgerLow := by
  rw [Line.verdict]
  split
  · decide
  · next hgap =>
    rw [abs_of_nonneg h, not_le] at hgap
    rw [if_pos (htol.trans_lt hgap)]
    decide

/-- Whenever no request is in flight, whatever failed except Redis, and if nothing was settled at a
negative cost: for each provider that charges money the script finds the records apart by what they
were apart before the traffic and by what the requests have left adrift, so that it does not find the
ledger below the audit log where it was not below before. -/
theorem reconcile_finds (h : (traffic settings requests w₀).Reaches Q) (hrest : AtRest Q)
    (hcosts : ∀ i, ∀ x ∈ settlements (Q.hist i), 0 ≤ x.2)
    (hnames : "" ∉ settings.billableProviders) {r : Except Exc Report}
    (hrun : Coro.Runs (reconcile settings (.ok (auditTotals Q.world.2)) : Py Unit Report) () t r ())
    (hw : (records Sound).Evolves Q.world t w') {toleranceUsd : ℚ} (htol : 0 ≤ toleranceUsd) :
    ∃ lines, r = .ok (.compared lines) ∧ lines.map Line.provider = settings.billableProviders ∧
      (∀ line ∈ lines, line.gap = gapIn w₀ line.provider + ∑ i, adrift line.provider (Q.hist i) ∧
        (0 ≤ gapIn w₀ line.provider → line.verdict toleranceUsd ≠ .ledgerLow)) ∧
      ((Report.compared lines).exitCode toleranceUsd = 0 ↔ ∀ provider ∈ settings.billableProviders,
        |gapIn w₀ provider + ∑ i, adrift provider (Q.hist i)| ≤ toleranceUsd) := by
  have hread := reconcile_reads hrun (evolves_redis hw)
  let line : String → Line := fun provider => ⟨provider, Q.world.1 (.provider provider),
    (auditTotals Q.world.2 provider).1, (auditTotals Q.world.2 provider).2⟩
  have hbillable : ∀ provider ∈ settings.billableProviders,
      provider ∉ FREE_PROVIDERS ∧ provider ≠ "" := by
    intro provider hmem
    exact ⟨not_free_of_billable hmem, ne_of_mem_of_not_mem hmem hnames⟩
  have hgap : ∀ provider ∈ settings.billableProviders, (line provider).gap =
      gapIn w₀ provider + ∑ i, adrift provider (Q.hist i) := by
    intro provider hmem
    obtain ⟨hfree, hp⟩ := hbillable provider hmem
    rw [← gap_at_rest h hrest hcosts hfree hp]
    show Q.world.1 (.provider provider) - (auditTotals Q.world.2 provider).2 = _
    rw [auditTotals, if_neg hp]
    rfl
  refine ⟨settings.billableProviders.map line, hread, ?_, ?_, ?_⟩
  · rw [List.map_map]
    exact List.map_id _
  · intro l hl
    obtain ⟨provider, hmem, rfl⟩ := List.mem_map.mp hl
    obtain ⟨hfree, hp⟩ := hbillable provider hmem
    refine ⟨hgap provider hmem, fun hbefore => verdict_ne_ledgerLow htol ?_⟩
    rw [hgap provider hmem]
    exact add_nonneg hbefore (Finset.sum_nonneg fun i _ =>
      (adrift_at_rest h hrest hfree hp i (hcosts i)).2)
  · rw [exitCode_eq_zero_iff htol, List.forall_mem_map]
    refine forall₂_congr fun provider hmem => ?_
    rw [hgap provider hmem]

end Traffic

/-! ## A row that is lost -/

/-- The client of `departing` goes away, and then the database does not take the row. -/
def lostRow : (c : Cmd) → Reply c
  | .commitAudit _ => .failed (.exception (.other "OperationalError")) false
  | c => departingReply c

/-- Answer the ledger commands from the ledgers and all others by `other`, and keep the rows. -/
def bookkeeper (other : (c : Cmd) → Reply c) (w : Ledgers × List AuditLogEntry) (c : Cmd) :
    Reply c × Ledgers × List AuditLogEntry :=
  ((answer other w.1 c).1, (answer other w.1 c).2,
    w.2 ++ (addedRow? ⟨c, (answer other w.1 c).1⟩).toList)

theorem records_bookkeeper {other : (c : Cmd) → Reply c} (h : ∀ c, Healthy ⟨c, other c⟩)
    (w : Ledgers × List AuditLogEntry) (c : Cmd) :
    (records Sound).answers w ⟨c, (bookkeeper other w c).1⟩ (bookkeeper other w c).2 :=
  ⟨redis_answer (fun L c => sound_answer L c h) w.1 c, rfl⟩

theorem healthy_lostRow (c : Cmd) : Healthy ⟨c, lostRow c⟩ := by
  cases c with
  | metric | pricing => rfl
  | _ => trivial

/-- Two requests, of which the first has been served and the second has not come in. -/
def lostTraffic : Pool (records Sound) (Fin 2) (Except Exc Unit × Unit) :=
  (traffic { hashKey := id } (fun _ => departing) (fun _ => 0, [])).schedule (bookkeeper lostRow)
    (List.replicate 14 0)

theorem reaches_lostTraffic :
    (traffic { hashKey := id } (fun _ : Fin 2 => departing) (fun _ => 0, [])).Reaches lostTraffic :=
  Pool.reaches_schedule (records_bookkeeper healthy_lostRow) _ _

theorem atRest_lostTraffic : AtRest lostTraffic := by
  have hserved : (lostTraffic.prog 0).value?.isSome := by decide +kernel
  have hwaiting : (lostTraffic.hist 1).isEmpty := by decide +kernel
  exact Fin.forall_fin_two.mpr ⟨.inr hserved, .inl (List.isEmpty_iff.mp hwaiting)⟩

theorem settlements_lostTraffic : ∀ i, ∀ x ∈ settlements (lostTraffic.hist i), 0 ≤ x.2 := by
  decide +kernel

theorem unnamed_not_billable : "" ∉ Settings.billableProviders { hashKey := id } := by
  rw [Settings.billableProviders, sorted, Finset.mem_sort, List.mem_toFinset]
  decide +kernel

/-- The script's run after it. -/
def lostReport : List Ev × (Except Exc Report × Unit) × Ledgers × List AuditLogEntry :=
  Prog.drive (bookkeeper calm) ((reconcile { hashKey := id }
    (.ok (auditTotals lostTraffic.world.2)) : Py Unit Report) ()) lostTraffic.world

theorem runs_lostReport :
    Coro.Runs (reconcile { hashKey := id } (.ok (auditTotals lostTraffic.world.2)) : Py Unit Report)
      () lostReport.1 lostReport.2.1.1 () := by
  unfold lostReport
  exact Prog.returns_drive _ _ _

/-- The ledger is above the log by the one settlement. -/
theorem reconcile_finds_lost_row :
    adrift "openai" (lostTraffic.hist 0) = 3 / 5000000 ∧
    ∃ lines, lostReport.2.1.1 = .ok (.compared lines) ∧
      lines.map Line.provider = Settings.billableProviders { hashKey := id } ∧
      (∀ line ∈ lines, line.gap = gapIn (fun _ => 0, []) line.provider +
          ∑ i, adrift line.provider (lostTraffic.hist i) ∧
        (0 ≤ gapIn (fun _ => 0, []) line.provider → line.verdict (1 / 1000000) ≠ .ledgerLow)) ∧
      ((Report.compared lines).exitCode (1 / 1000000) = 0 ↔
        ∀ provider ∈ Settings.billableProviders { hashKey := id },
          |gapIn (fun _ => 0, []) provider + ∑ i, adrift provider (lostTraffic.hist i)| ≤
            1 / 1000000) :=
  ⟨by decide +kernel, reconcile_finds reaches_lostTraffic atRest_lostTraffic settlements_lostTraffic
    unnamed_not_billable runs_lostReport
    (Pool.evolves_drive (records_bookkeeper healthy_calm) _ _) (by norm_num)⟩

end LlmGateway.Reconcile
