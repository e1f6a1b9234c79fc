import LlmGateway.Scripts.PurgeAuditRows

/-!
# Whether a copy of every purged row is kept

A purge exports the rows it has selected and then deletes by request id whatever carries it by then.
A row that is inserted in between is deleted without a copy, and a second export of the same second
opens the file of the first: it replaces what is there, or leaves nothing if its write fails. In
every run in which neither happens, a copy of every removed row is on disk.

`Waits` says, from the trace of a process, which command it waits for.
-/

namespace LlmGateway.Purge

open Coroutine

/-! ## One process -/

/-- A purge that has run through the trace waits for the command. -/
inductive PurgeWaits (requestId : String) (apply : Bool) (exportDir : String) :
    List PurgeEv → PurgeCmd → Prop
  | start : PurgeWaits requestId apply exportDir [] .initDb
  | inited {r} : PurgeWaits requestId apply exportDir [⟨.initDb, r⟩] (.selectRows requestId)
  | selected {r rows} (happly : apply = true) :
      PurgeWaits requestId apply exportDir [⟨.initDb, r⟩, ⟨.selectRows requestId, .ok rows⟩]
        (.mkdir exportDir)
  | made {r rows r'} (happly : apply = true) :
      PurgeWaits requestId apply exportDir
        [⟨.initDb, r⟩, ⟨.selectRows requestId, .ok rows⟩, ⟨.mkdir exportDir, r'⟩] .strftime
  | stamped {r rows r' stamp} (happly : apply = true) :
      PurgeWaits requestId apply exportDir
        [⟨.initDb, r⟩, ⟨.selectRows requestId, .ok rows⟩, ⟨.mkdir exportDir, r'⟩, ⟨.strftime, stamp⟩]
        (.writeText (exportPath exportDir stamp requestId) (rows.map serialise))
  | written {r rows r' stamp} (happly : apply = true) :
      PurgeWaits requestId apply exportDir
        [⟨.initDb, r⟩, ⟨.selectRows requestId, .ok rows⟩, ⟨.mkdir exportDir, r'⟩,
          ⟨.strftime, stamp⟩,
          ⟨.writeText (exportPath exportDir stamp requestId) (rows.map serialise), .ok ()⟩]
        (.readText (exportPath exportDir stamp requestId))
  | readBack {r rows r' stamp r''} (happly : apply = true) :
      PurgeWaits requestId apply exportDir
        [⟨.initDb, r⟩, ⟨.selectRows requestId, .ok rows⟩, ⟨.mkdir exportDir, r'⟩,
          ⟨.strftime, stamp⟩,
          ⟨.writeText (exportPath exportDir stamp requestId) (rows.map serialise), .ok ()⟩,
          ⟨.readText (exportPath exportDir stamp requestId), r''⟩]
        (.deleteRows requestId)

/-- A process that has run through the trace waits for the command. -/
def Waits : Process → List PurgeEv → PurgeCmd → Prop
  | .purge requestId apply exportDir => PurgeWaits requestId apply exportDir
  | .insert entry latencyMs => fun t c => t = [] ∧ c = .insertRow entry latencyMs

/-- Between commands a process waits for one, or has ended with the one it waited for. -/
def Stage (x : Process) (t : List PurgeEv) (o : Option (Except Exc ℤ × Unit)) : Prop :=
  match o with
  | none => ∃ c, Waits x t c
  | some _ => ∃ e, t.getLast? = some e ∧ Waits x t.dropLast e.cmd

theorem stages_perform {A : PurgeEv → Prop} {c : PurgeCmd}
    {Q : List PurgeEv → Option (Except Exc (PurgeReply c) × Unit) → Prop} :
    (ask c).stages A () Q ↔ Q [] none ∧ ∀ r, A ⟨c, r⟩ → Q [⟨c, r⟩] (some (.ok r, ())) := by
  simp [ask, Coro.perform, Coro.stages, Prog.stages]

/-- A command that may raise. -/
theorem stages_askOk {A : PurgeEv → Prop} {c : PurgeCmd} {β : Type}
    {get : PurgeReply c → Except Exc β}
    {Q : List PurgeEv → Option (Except Exc β × Unit) → Prop} :
    (ask c >>= fun r => Coro.ofExcept (get r) : PurgePy β).stages A () Q ↔
      Q [] none ∧ ∀ r, A ⟨c, r⟩ → Q [⟨c, r⟩] (some (get r, ())) := by
  rw [Coro.stages_bind, stages_perform]
  rfl

variable {A : PurgeEv → Prop}

theorem stages_applyPurge {requestId exportDir : String} {r : Except Exc Unit}
    {rows : List AuditRow} :
    (applyPurge requestId exportDir (rows.map serialise)).stages A () fun t o =>
      Stage (.purge requestId true exportDir)
        ([⟨.initDb, r⟩, ⟨.selectRows requestId, .ok rows⟩] ++ t) o := by
  rw [applyPurge, Coro.stages_bind, mkdir, stages_askOk]
  refine ⟨⟨_, .selected rfl⟩, fun made _ => ?_⟩
  cases made with
  | error e => exact ⟨_, rfl, .selected rfl⟩
  | ok _ =>
    dsimp only
    rw [Coro.stages_bind, stages_perform]
    refine ⟨⟨_, .made rfl⟩, fun stamp _ => ?_⟩
    dsimp only
    rw [Coro.stages_bind, writeText, stages_askOk]
    refine ⟨⟨_, .stamped rfl⟩, fun wrote _ => ?_⟩
    cases wrote with
    | error e => exact ⟨_, rfl, .stamped rfl⟩
    | ok _ =>
      dsimp only
      rw [Coro.stages_bind, readText, stages_askOk]
      refine ⟨⟨_, .written rfl⟩, fun written _ => ?_⟩
      cases written with
      | error e => exact ⟨_, rfl, .written rfl⟩
      | ok written =>
        dsimp only
        rw [Coro.stages_ite]
        refine ⟨fun _ => ⟨_, rfl, .written rfl⟩, fun _ => ?_⟩
        rw [Coro.stages_bind, deleteRowsCarrying, stages_askOk]
        refine ⟨⟨_, .readBack rfl⟩, fun gone _ => ?_⟩
        cases gone with
        | ok _ => exact ⟨_, rfl, .readBack rfl⟩
        | failed e applied => exact ⟨_, rfl, .readBack rfl⟩

theorem stages_process (x : Process) : x.run.stages A () (Stage x) := by
  cases x with
  | insert entry latencyMs =>
    rw [Process.run, stages_askOk]
    exact ⟨⟨_, rfl, rfl⟩, fun r _ => ⟨_, rfl, rfl, rfl⟩⟩
  | purge requestId apply exportDir =>
    rw [Process.run, purge, Coro.stages_attemptElse, Coro.stages_bind, initDb, stages_askOk]
    refine ⟨⟨_, .start⟩, fun r _ => ?_⟩
    cases r with
    | error e =>
      cases e with
      | exception e => exact ⟨_, rfl, .start⟩
      | _ => exact ⟨_, rfl, .start⟩
    | ok _ =>
      dsimp only
      rw [rowsCarrying, stages_askOk]
      refine ⟨⟨_, .inited⟩, fun found _ => ?_⟩
      cases found with
      | error e =>
        cases e with
        | exception e => exact ⟨_, rfl, .inited⟩
        | _ => exact ⟨_, rfl, .inited⟩
      | ok rows =>
        dsimp only
        rw [Coro.stages_ite]
        refine ⟨fun _ => ⟨_, rfl, .inited⟩, fun _ => ?_⟩
        rw [Coro.stages_ite]
        refine ⟨fun _ => ⟨_, rfl, .inited⟩, fun happly => ?_⟩
        obtain rfl : apply = true := by simpa using happly
        exact stages_applyPurge

/-- What was waited for before the last event is its command. -/
theorem Waits.concat {x : Process} {t : List PurgeEv} {e : PurgeEv} {c : PurgeCmd}
    (h : Waits x (t ++ [e]) c) : Waits x t e.cmd := by
  have hlast : (t ++ [e]).getLast? = some e := List.getLast?_concat
  have hinit : (t ++ [e]).dropLast = t := List.dropLast_concat
  revert h hlast hinit
  generalize t ++ [e] = t'
  rintro h hlast rfl
  cases x with
  | insert entry latencyMs =>
    rw [h.1] at hlast
    cases hlast
  | purge requestId apply exportDir =>
    cases h with
    | start => cases hlast
    | inited =>
      cases hlast
      exact .start
    | selected =>
      cases hlast
      exact .inited
    | made happly =>
      cases hlast
      exact .selected happly
    | stamped happly =>
      cases hlast
      exact .made happly
    | written happly =>
      cases hlast
      exact .stamped happly
    | readBack happly =>
      cases hlast
      exact .written happly

/-! ## Any number of processes -/

section Pool

variable {F : Type} [DecidableEq F] {resolve : Resolve F} {ι : Type} [DecidableEq ι]
  {xs : ι → Process} {audit : List AuditRow} {files : F → Option (List PyVal)}

/-- Processes over the database and the disk. -/
abbrev Processes (resolve : Resolve F) (ι : Type) : Type :=
  Pool (machine resolve) ι (Except Exc ℤ × Unit)

/-- The processes, not started, over an audit log and whatever is on disk. -/
def opening (resolve : Resolve F) (xs : ι → Process) (audit : List AuditRow)
    (files : F → Option (List PyVal)) : Processes resolve ι :=
  Pool.start ⟨audit, files, []⟩ fun i => (xs i).run ()

/-- The database and the disk. -/
def store (P : Processes resolve ι) : Store F := P.world

variable {P : Processes resolve ι}

theorem stage_of_reaches (h : (opening resolve xs audit files).Reaches P) (i : ι) :
    Stage (xs i) (P.hist i) (P.prog i).value? := by
  refine h.stages (A := fun _ => True) (fun _ _ _ _ => trivial) (stages_process (xs i)) ?_
  cases xs i with
  | purge => exact ⟨_, .start⟩
  | insert => exact ⟨_, rfl, rfl⟩

/-- A turn answers the command its process waits for. -/
theorem waits_of_reaches (h : (opening resolve xs audit files).Reaches P) {i : ι} {t : List PurgeEv}
    {q : Prog purging (Except Exc ℤ × Unit)} {S : Store F} (hs : Slice (P.prog i) t q)
    (hw : (machine resolve).Evolves P.world t S) :
    ∃ c k r, P.prog i = .call c k ∧ t = [⟨c, r⟩] ∧ Waits (xs i) (P.hist i) c ∧
      (machine resolve).answers P.world ⟨c, r⟩ S := by
  have hafter := stage_of_reaches (h.tail (.turn hs hw)) i
  obtain ⟨c, k, r, hp, rfl, rfl⟩ := hs.eq_call fun _ => rfl
  obtain ⟨S', hanswer, hnil⟩ := World.Evolves.cons_iff.mp hw
  obtain rfl := World.Evolves.nil_iff.mp hnil
  refine ⟨c, k, r, hp, rfl, ?_, hanswer⟩
  have hhist : (P.turn i [⟨c, r⟩] (k r) S).hist i = P.hist i ++ [⟨c, r⟩] :=
    Function.update_self _ _ _
  rw [hhist] at hafter
  unfold Stage at hafter
  split at hafter
  · obtain ⟨c', hc'⟩ := hafter
    exact hc'.concat
  · obtain ⟨e, he, hwaits⟩ := hafter
    rw [List.getLast?_concat] at he
    rw [List.dropLast_concat, ← Option.some.inj he] at hwaits
    exact hwaits

/-! ## The window between select and delete -/

/-- The process has selected the rows carrying the id, and has not ended. -/
def InWindow (P : Processes resolve ι) (i : ι) (requestId : String) : Prop :=
  (∃ rows, ⟨.selectRows requestId, .ok rows⟩ ∈ P.hist i) ∧ (P.prog i).value? = none

/-- A purge has exported to the file. -/
def Exported (P : Processes resolve ι) (file : F) : Prop :=
  ∃ j path rows, ⟨.writeText path rows, .ok ()⟩ ∈ P.hist j ∧ resolve path = file

/-- If the process is to insert a row, no purge is between the select and the delete of its id. If it
is to write an export, no purge has exported to its file. -/
def Guarded (P : Processes resolve ι) (i : ι) : Prop :=
  (∀ entry latencyMs k, P.prog i = .call (.insertRow entry latencyMs) k →
    ∀ j, ¬ InWindow P j entry.requestId) ∧
  ∀ path rows k, P.prog i = .call (.writeText path rows) k → ¬ Exported P (resolve path)

/-- What a purge that is in its window has selected covers the rows that carry the id, exports keep
their rows, and each removed row has been exported. -/
structure Covered (P : Processes resolve ι) : Prop where
  selected : ∀ i requestId rows, ⟨.selectRows requestId, .ok rows⟩ ∈ P.hist i →
    (P.prog i).value? = none → ∀ row ∈ (store P).audit, row.requestId = requestId → row ∈ rows
  kept : ∀ i path rows, ⟨.writeText path rows, .ok ()⟩ ∈ P.hist i →
    (store P).files (resolve path) = some rows
  exported : ∀ p ∈ (store P).removed, p.2.requestId = p.1 ∧
    ∃ i path rows, ⟨.writeText path rows, .ok ()⟩ ∈ P.hist i ∧ serialise p.2 ∈ rows

variable {i : ι} {e : PurgeEv} {q : Prog purging (Except Exc ℤ × Unit)} {S : Store F}

theorem mem_hist_turn {j : ι} {e' : PurgeEv} (h : e' ∈ (P.turn i [e] q S).hist j) :
    e' ∈ P.hist j ∨ j = i ∧ e' = e := by
  by_cases hj : j = i
  · subst hj
    simpa [Pool.turn] using h
  · exact .inl (by simpa [Pool.turn, hj] using h)

theorem hist_turn_of_mem {j : ι} {e' : PurgeEv} (h : e' ∈ P.hist j) :
    e' ∈ (P.turn i [e] q S).hist j := by
  by_cases hj : j = i
  · subst hj
    simpa [Pool.turn] using .inl h
  · simpa [Pool.turn, hj] using h

/-- What a turn has to keep to, whatever the process is. -/
theorem Covered.turn (hJ : Covered P) (hi : (P.prog i).value? = none)
    (haudit : ∀ row ∈ S.audit, row ∈ (store P).audit ∨ ∀ j, ¬ InWindow P j row.requestId)
    (hselect : ∀ requestId rows, e = ⟨.selectRows requestId, .ok rows⟩ →
      ∀ row ∈ S.audit, row.requestId = requestId → row ∈ rows)
    (hfiles : ∀ file, Exported P file → S.files file = (store P).files file)
    (hwrite : ∀ path rows, e = ⟨.writeText path rows, .ok ()⟩ →
      S.files (resolve path) = some rows)
    (hremoved : ∀ p ∈ S.removed, p ∈ (store P).removed ∨ p.2.requestId = p.1 ∧
      ∃ i path rows, ⟨.writeText path rows, .ok ()⟩ ∈ P.hist i ∧ serialise p.2 ∈ rows) :
    Covered (P.turn i [e] q S) where
  selected j requestId rows hmem hnone row hrow hid := by
    rcases mem_hist_turn hmem with hmem | ⟨rfl, he⟩
    · have hj : (P.prog j).value? = none := by
        by_cases hji : j = i
        · rwa [hji]
        · simpa [Pool.turn, hji] using hnone
      rcases haudit row hrow with hold | hnew
      · exact hJ.selected j requestId rows hmem hj row hold hid
      · exact absurd ⟨⟨rows, hid ▸ hmem⟩, hj⟩ (hnew j)
    · exact hselect requestId rows he.symm row hrow hid
  kept j path rows hmem := by
    rcases mem_hist_turn hmem with hmem | ⟨rfl, he⟩
    · exact (hfiles _ ⟨j, path, rows, hmem, rfl⟩).trans (hJ.kept j path rows hmem)
    · exact hwrite path rows he.symm
  exported p hp := by
    have hexport : p.2.requestId = p.1 ∧
        ∃ i path rows, ⟨.writeText path rows, .ok ()⟩ ∈ P.hist i ∧ serialise p.2 ∈ rows :=
      (hremoved p hp).elim (hJ.exported p) id
    obtain ⟨hid, j, path, rows, hmem, hrow⟩ := hexport
    exact ⟨hid, j, path, rows, hist_turn_of_mem hmem, hrow⟩

/-- A turn that leaves the database and the disk as they were, and neither selects nor writes. -/
theorem Covered.turn_quiet (hJ : Covered P) (hi : (P.prog i).value? = none) (hS : S = store P)
    (hselect : ∀ requestId rows, e ≠ ⟨.selectRows requestId, .ok rows⟩)
    (hwrite : ∀ path rows, e ≠ ⟨.writeText path rows, .ok ()⟩) : Covered (P.turn i [e] q S) := by
  subst hS
  exact hJ.turn hi (fun row hrow => .inl hrow) (fun _ _ he => absurd he (hselect _ _))
    (fun _ _ => rfl) (fun _ _ he => absurd he (hwrite _ _)) fun p hp => .inl hp

/-- An insert outside every window of its id. -/
theorem Covered.turn_insert {entry : AuditLogEntry} {latencyMs : ℚ} {r : Sent Unit}
    (hJ : Covered P) (hi : (P.prog i).value? = none)
    (hC : ∀ j, ¬ InWindow P j entry.requestId) (hS : (store P).Inserts entry latencyMs S) :
    Covered (P.turn i [⟨.insertRow entry latencyMs, r⟩] q S) := by
  obtain ⟨row, hentry, -, -, rfl⟩ := hS
  refine hJ.turn hi (fun row' hrow' => ?_) nofun (fun _ _ => rfl) nofun fun p hp => .inl hp
  rcases List.mem_append.mp hrow' with hold | hnew
  · exact .inl hold
  · rw [List.mem_singleton.mp hnew, AuditRow.requestId, hentry]
    exact .inr hC

/-- A write, failed or not, to a file that no purge has exported to. -/
theorem Covered.turn_write {path : String} {rows : List PyVal} {r : Except Exc Unit}
    {content : Option (List PyVal)} (hJ : Covered P) (hi : (P.prog i).value? = none)
    (hC : ¬ Exported P (resolve path)) (hS : S = (store P).write (resolve path) content)
    (hcontent : r = .ok () → content = some rows) :
    Covered (P.turn i [⟨.writeText path rows, r⟩] q S) := by
  subst hS
  refine hJ.turn hi (fun row hrow => .inl hrow) nofun ?_ ?_ fun p hp => .inl hp
  · intro file hfile
    have hne : file ≠ resolve path := by
      rintro rfl
      exact hC hfile
    exact Function.update_of_ne hne _ _
  · rintro _ _ ⟨⟩
    exact (Function.update_self _ _ _).trans (hcontent rfl)

/-- A delete by a purge that has exported what it selected. -/
theorem Covered.turn_delete {requestId path : String} {rows : List AuditRow} {r : Sent Unit}
    (hJ : Covered P) (hi : (P.prog i).value? = none)
    (hselected : ⟨.selectRows requestId, .ok rows⟩ ∈ P.hist i)
    (hwritten : ⟨.writeText path (rows.map serialise), .ok ()⟩ ∈ P.hist i)
    (hS : S = (store P).delete requestId) :
    Covered (P.turn i [⟨.deleteRows requestId, r⟩] q S) := by
  subst hS
  refine hJ.turn hi (fun row hrow => .inl (List.mem_of_mem_filter hrow)) nofun (fun _ _ => rfl) nofun
    fun p hp => ?_
  rcases List.mem_append.mp hp with hold | hnew
  · exact .inl hold
  · obtain ⟨row, hrow, rfl⟩ := List.mem_map.mp hnew
    obtain ⟨haudit, hid⟩ := List.mem_filter.mp hrow
    have hid : row.requestId = requestId := by simpa using hid
    have hmem : row ∈ rows := hJ.selected i requestId rows hselected hi row haudit hid
    exact .inr ⟨hid, i, path, _, hwritten, List.mem_map_of_mem hmem⟩

theorem covered_turn {c : PurgeCmd} {k : PurgeReply c → Prog purging (Except Exc ℤ × Unit)}
    {r : PurgeReply c} (hJ : Covered P) (hC : Guarded P i) (hp : P.prog i = .call c k)
    (hwaits : Waits (xs i) (P.hist i) c) (hanswer : (machine resolve).answers P.world ⟨c, r⟩ S) :
    Covered (P.turn i [⟨c, r⟩] q S) := by
  have hi : (P.prog i).value? = none := by rw [hp]; rfl
  cases hx : xs i with
  | insert entry latencyMs =>
    rw [hx] at hwaits
    obtain ⟨-, rfl⟩ := hwaits
    have hwindow := hC.1 entry latencyMs k hp
    cases r with
    | ok _ => exact hJ.turn_insert hi hwindow hanswer
    | failed e applied =>
      cases applied with
      | true => exact hJ.turn_insert hi hwindow hanswer
      | false => exact hJ.turn_quiet hi hanswer nofun nofun
  | purge requestId apply exportDir =>
    rw [hx] at hwaits
    generalize hhist : P.hist i = t at hwaits
    cases hwaits with
    | start | made => exact hJ.turn_quiet hi hanswer nofun nofun
    | selected => exact hJ.turn_quiet hi hanswer nofun nofun
    | inited =>
      cases r with
      | error e => exact hJ.turn_quiet hi hanswer nofun nofun
      | ok rows =>
        obtain ⟨hperm, rfl⟩ := hanswer
        refine hJ.turn hi (fun row hrow => .inl hrow) ?_ (fun _ _ => rfl) nofun fun p hp => .inl hp
        rintro _ _ ⟨⟩ row hrow hid
        exact hperm.mem_iff.mpr (List.mem_filter.mpr ⟨hrow, by simpa using hid⟩)
    | @stamped _ rows _ stamp =>
      have hfresh := hC.2 _ _ k hp
      cases r with
      | error e =>
        obtain ⟨content, hanswer⟩ := hanswer
        exact hJ.turn_write hi hfresh hanswer nofun
      | ok _ => exact hJ.turn_write hi hfresh hanswer fun _ => rfl
    | written =>
      cases r with
      | error e => exact hJ.turn_quiet hi hanswer nofun nofun
      | ok rows => exact hJ.turn_quiet hi hanswer.2 nofun nofun
    | @readBack _ rows _ stamp =>
      have hselected : ⟨.selectRows requestId, .ok rows⟩ ∈ P.hist i := by
        rw [hhist]
        exact List.mem_cons_of_mem _ List.mem_cons_self
      have hwritten : ⟨.writeText (exportPath exportDir stamp requestId) (rows.map serialise),
          .ok ()⟩ ∈ P.hist i := by
        simp [hhist]
      cases r with
      | ok _ => exact hJ.turn_delete hi hselected hwritten hanswer
      | failed e applied =>
        cases applied with
        | true => exact hJ.turn_delete hi hselected hwritten hanswer
        | false => exact hJ.turn_quiet hi hanswer nofun nofun

/-! ## The promise

The module's docstring: "Nothing is ever removed without a copy existing somewhere first."
-/

/-- Each removed row carried the id it was removed for, and is in a file on disk that a purge has
written. -/
def Copied (P : Processes resolve ι) : Prop :=
  ∀ p ∈ (store P).removed, p.2.requestId = p.1 ∧ ∃ i path rows now,
    ⟨.writeText path rows, .ok ()⟩ ∈ P.hist i ∧ (store P).files (resolve path) = some now ∧
      serialise p.2 ∈ now

omit [DecidableEq ι] in
theorem Covered.copied (hJ : Covered P) : Copied P := by
  intro p hp
  obtain ⟨hid, i, path, rows, hmem, hrow⟩ := hJ.exported p hp
  exact ⟨hid, i, path, rows, rows, hmem, hJ.kept i path rows hmem, hrow⟩

/-- A copy of every removed row is on disk, in every run in which no row is inserted between the
select and the delete of its id, and no export is written to the file of an earlier one. -/
theorem copied_of_guarded (h : (opening resolve xs audit files).ReachesWhen Guarded P) :
    Copied P := by
  have hJ : Covered P := by
    refine h.invariant ⟨?_, ?_, ?_⟩ ?_
    · intro i requestId rows hmem
      simp [Pool.start] at hmem
    · intro i path rows hmem
      simp [Pool.start] at hmem
    · intro p hp
      simp [store, Pool.start] at hp
    · intro P i t q S hreach hJ hC hs hw
      obtain ⟨c, k, r, hp, rfl, hwaits, hanswer⟩ := waits_of_reaches hreach hs hw
      exact covered_turn hJ hC hp hwaits hanswer
  exact hJ.copied

omit [DecidableEq ι] in
theorem removed_of_answers {S S' : Store F} {e : PurgeEv} (h : (machine resolve).answers S e S')
    (hS : ∀ p ∈ S.removed, p.2.requestId = p.1) : ∀ p ∈ S'.removed, p.2.requestId = p.1 := by
  have hdelete (requestId : String) :
      ∀ p ∈ (S.delete requestId).removed, p.2.requestId = p.1 := by
    intro p hp
    rcases List.mem_append.mp hp with hold | hnew
    · exact hS p hold
    · obtain ⟨row, hrow, rfl⟩ := List.mem_map.mp hnew
      simpa using List.of_mem_filter hrow
  have hinsert {entry : AuditLogEntry} {latencyMs : ℚ} (h : S.Inserts entry latencyMs S') :
      ∀ p ∈ S'.removed, p.2.requestId = p.1 := by
    obtain ⟨row, -, -, -, rfl⟩ := h
    exact hS
  obtain ⟨c, r⟩ := e
  cases c with
  | initDb | mkdir | strftime => exact h ▸ hS
  | selectRows | readText =>
    cases r with
    | error e => exact h ▸ hS
    | ok rows => exact h.2 ▸ hS
  | writeText =>
    cases r with
    | error e =>
      obtain ⟨content, rfl⟩ := h
      exact hS
    | ok _ => exact h ▸ hS
  | deleteRows requestId =>
    cases r with
    | ok _ => exact h ▸ hdelete requestId
    | failed e applied =>
      cases applied with
      | true => exact h ▸ hdelete requestId
      | false => exact h ▸ hS
  | insertRow entry latencyMs =>
    cases r with
    | ok _ => exact hinsert h
    | failed e applied =>
      cases applied with
      | true => exact hinsert h
      | false => exact h ▸ hS

/-- No run removes a row that carries another id. -/
theorem requestId_of_removed (h : (opening resolve xs audit files).Reaches P) :
    ∀ p ∈ (store P).removed, p.2.requestId = p.1 := by
  refine h.invariant (J := fun P => ∀ p ∈ (store P).removed, p.2.requestId = p.1)
    (by simp [store, Pool.start]) ?_
  intro P i t q S hJ hs hw
  obtain ⟨c, k, r, -, rfl, rfl⟩ := hs.eq_call fun _ => rfl
  obtain ⟨S', hanswer, hnil⟩ := World.Evolves.cons_iff.mp hw
  obtain rfl := World.Evolves.nil_iff.mp hnil
  exact removed_of_answers hanswer hJ

end Pool

/-! ## A row that comes late -/

/-- A larger id than any in the list. -/
def freshId (ids : List ℤ) : ℤ := ids.foldr max 0 + 1

theorem freshId_not_mem (ids : List ℤ) : freshId ids ∉ ids := by
  have hle : ∀ id ∈ ids, id ≤ ids.foldr max 0 := by
    induction ids with
    | nil => simp
    | cons a ids ih =>
      intro id hid
      rw [List.foldr_cons]
      rcases List.mem_cons.mp hid with rfl | hid
      · exact le_max_left _ _
      · exact (ih id hid).trans (le_max_right _ _)
  intro hmem
  have := hle _ hmem
  rw [freshId] at this
  omega

/-- The reply to the read of a file. -/
def found : Option (List PyVal) → Except Exc (List PyVal)
  | some rows => .ok rows
  | none => .error (.exception (.other "FileNotFoundError"))

/-- Nothing fails, and no second passes. -/
def calm (S : Store String) : (c : PurgeCmd) → PurgeReply c × Store String
  | .initDb => (.ok (), S)
  | .selectRows requestId => (.ok (S.audit.filter (·.requestId = requestId)), S)
  | .mkdir _ => (.ok (), S)
  | .strftime => ("20260101T000000Z", S)
  | .writeText path rows => (.ok (), S.write path (some rows))
  | .readText path => (found (S.files path), S)
  | .deleteRows requestId => (.ok (), S.delete requestId)
  | .insertRow entry latencyMs =>
    (.ok (), { S with audit := S.audit ++ [⟨freshId (S.audit.map AuditRow.id), "", entry, latencyMs⟩] })

theorem answers_calm (S : Store String) (c : PurgeCmd) :
    (machine id).answers S ⟨c, (calm S c).1⟩ (calm S c).2 := by
  cases c with
  | selectRows requestId => exact ⟨List.Perm.refl _, rfl⟩
  | readText path =>
    show (machine id).answers S ⟨.readText path, found (S.files path)⟩ S
    cases hfile : S.files path with
    | some rows => exact ⟨hfile, rfl⟩
    | none => rfl
  | insertRow entry latencyMs => exact ⟨_, rfl, rfl, freshId_not_mem _, rfl⟩
  | _ => rfl

/-- A row of the stub router's. -/
def stubEntry (requestId : String) : AuditLogEntry where
  requestId := requestId
  apiKeyHash := ""
  team := "unlinked"
  requestedModel := "default"
  provider := "openai"
  outcome := "success"
  inputTokens := .int 1
  outputTokens := .int 1
  costUsd := 0

/-- A purge of one id, and the insert of a row. -/
def purgeAndInsert (requestId : String) : Fin 2 → Process
  | 0 => .purge "client-hung-up" true "audit-purges"
  | 1 => .insert (stubEntry requestId) 0

/-- One row carries the id, and nothing is on disk. -/
def oneRow (requestId : String) : Processes (F := String) id (Fin 2) :=
  opening id (purgeAndInsert requestId) [⟨1, "", stubEntry "client-hung-up", 0⟩] fun _ => none

/-- All purges have finished, and a removed row is on no file of theirs. -/
def LostIn (P : Processes (F := String) id (Fin 2)) : Prop :=
  (∀ i, (P.prog i).value?.isSome) ∧ ¬ Copied P

/-- A second row with the id is inserted after the select: it is deleted, and no file has it. -/
theorem lost_late_row :
    LostIn ((oneRow "client-hung-up").schedule calm [0, 0, 1, 0, 0, 0, 0, 0]) := by
  refine ⟨by decide +kernel, fun h => ?_⟩
  have hremoved : (store ((oneRow "client-hung-up").schedule calm [0, 0, 1, 0, 0, 0, 0, 0])).removed =
      [("client-hung-up", ⟨1, "", stubEntry "client-hung-up", 0⟩),
        ("client-hung-up", ⟨2, "", stubEntry "client-hung-up", 0⟩)] := rfl
  have hfiles : (store ((oneRow "client-hung-up").schedule calm [0, 0, 1, 0, 0, 0, 0, 0])).files =
      Function.update (fun _ => none) (exportPath "audit-purges" "20260101T000000Z" "client-hung-up")
        (some [serialise ⟨1, "", stubEntry "client-hung-up", 0⟩]) := rfl
  obtain ⟨-, i, path, rows, now, -, hfile, hmem⟩ :=
    h ("client-hung-up", ⟨2, "", stubEntry "client-hung-up", 0⟩) (by rw [hremoved]; simp)
  rw [hfiles, Function.update_apply] at hfile
  split at hfile
  · obtain rfl := Option.some.inj hfile
    simp [serialise] at hmem
  · cases hfile

/-- The disk is full once an export is on it: the write of another opens its file and fails. -/
def full (S : Store String) : (c : PurgeCmd) → PurgeReply c × Store String
  | .writeText path rows =>
    match S.files path with
    | none => (.ok (), S.write path (some rows))
    | some _ => (.error (.exception (.other "OSError")), S.write path none)
  | c => calm S c

theorem answers_full (S : Store String) (c : PurgeCmd) :
    (machine id).answers S ⟨c, (full S c).1⟩ (full S c).2 := by
  cases c with
  | writeText path rows =>
    cases hfile : S.files path with
    | none => simp [full, hfile, machine]
    | some old =>
      simp only [full, hfile]
      exact ⟨none, rfl⟩
  | _ => exact answers_calm S _

/-- Two purges of the id that one row carries. -/
def twoPurges : Processes (F := String) id (Fin 2) :=
  opening id (fun _ => .purge "client-hung-up" true "audit-purges")
    [⟨1, "", stubEntry "client-hung-up", 0⟩] fun _ => none

/-- Both select the row, and the second empties the export of the first, which has deleted it. -/
theorem lost_second_export :
    LostIn (twoPurges.schedule full [0, 0, 1, 1, 0, 0, 0, 0, 0, 1, 1, 1]) := by
  refine ⟨by decide +kernel, fun h => ?_⟩
  have hremoved : (store (twoPurges.schedule full [0, 0, 1, 1, 0, 0, 0, 0, 0, 1, 1, 1])).removed =
      [("client-hung-up", ⟨1, "", stubEntry "client-hung-up", 0⟩)] := rfl
  have hfiles : (store (twoPurges.schedule full [0, 0, 1, 1, 0, 0, 0, 0, 0, 1, 1, 1])).files =
      Function.update (Function.update (fun _ => none)
        (exportPath "audit-purges" "20260101T000000Z" "client-hung-up")
        (some [serialise ⟨1, "", stubEntry "client-hung-up", 0⟩]))
        (exportPath "audit-purges" "20260101T000000Z" "client-hung-up") none := rfl
  obtain ⟨-, i, path, rows, now, -, hfile, -⟩ :=
    h ("client-hung-up", ⟨1, "", stubEntry "client-hung-up", 0⟩) (by rw [hremoved]; simp)
  rw [hfiles, Function.update_idem, Function.update_apply] at hfile
  split at hfile <;> cases hfile

/-- A row that is inserted between the select and the delete is lost, and so is one whose export a
second purge of the same second fails to replace. -/
theorem not_copied :
    (∃ P, (oneRow "client-hung-up").Reaches P ∧ LostIn P) ∧ ∃ P, twoPurges.Reaches P ∧ LostIn P :=
  ⟨⟨_, Pool.reaches_schedule answers_calm _ _, lost_late_row⟩,
    ⟨_, Pool.reaches_schedule answers_full _ _, lost_second_export⟩⟩

theorem guarded_of_ne {F ι : Type} [DecidableEq F] {resolve : Resolve F} {P : Processes resolve ι}
    {i : ι} {c : PurgeCmd} {k : PurgeReply c → Prog purging (Except Exc ℤ × Unit)}
    (hp : P.prog i = .call c k) (hinsert : ∀ entry latencyMs, c ≠ .insertRow entry latencyMs)
    (hwrite : ∀ path rows, c ≠ .writeText path rows) : Guarded P i := by
  refine ⟨fun entry latencyMs k' hp' => ?_, fun path rows k' hp' => ?_⟩
  · rw [hp] at hp'
    cases hp'
    exact absurd rfl (hinsert _ _)
  · rw [hp] at hp'
    cases hp'
    exact absurd rfl (hwrite _ _)

/-- Between the select and the delete a row with another id is inserted, and there is one export. -/
theorem copied_of_guarded_other_row :
    Copied ((oneRow "other").schedule calm [0, 0, 1, 0, 0, 0, 0, 0]) := by
  have hstep : ∀ (Q : Processes (F := String) id (Fin 2)) i,
      Guarded Q i → Q.ReachesWhen Guarded (Q.advance calm i) :=
    fun Q i => Pool.reachesWhen_advance answers_calm Q i
  have hreaches : (oneRow "other").ReachesWhen Guarded
      ((oneRow "other").schedule calm [0, 0, 1, 0, 0, 0, 0, 0]) := by
    refine (((((((hstep _ 0 ?_).trans (hstep _ 0 ?_)).trans (hstep _ 1 ?_)).trans
      (hstep _ 0 ?_)).trans (hstep _ 0 ?_)).trans (hstep _ 0 ?_)).trans (hstep _ 0 ?_)).trans
      (hstep _ 0 ?_)
    · exact guarded_of_ne rfl nofun nofun
    · exact guarded_of_ne rfl nofun nofun
    · refine ⟨fun entry latencyMs k hp j => ?_, fun path rows k hp => ?_⟩
      · cases hp
        rintro ⟨⟨rows, hmem⟩, -⟩
        match j with
        | 0 =>
          have hhist : ⟨.selectRows "other", .ok rows⟩ ∈
            ([⟨.initDb, .ok ()⟩, ⟨.selectRows "client-hung-up",
              .ok [⟨1, "", stubEntry "client-hung-up", 0⟩]⟩] : List PurgeEv) := hmem
          simp at hhist
        | 1 => cases hmem
      · cases hp
    · exact guarded_of_ne rfl nofun nofun
    · exact guarded_of_ne rfl nofun nofun
    · refine ⟨fun entry latencyMs k hp => ?_, fun path rows k hp => ?_⟩
      · cases hp
      rintro ⟨j, path', rows', hmem, -⟩
      match j with
      | 0 =>
        have hhist : ⟨.writeText path' rows', .ok ()⟩ ∈
          ([⟨.initDb, .ok ()⟩, ⟨.selectRows "client-hung-up",
            .ok [⟨1, "", stubEntry "client-hung-up", 0⟩]⟩, ⟨.mkdir "audit-purges", .ok ()⟩,
            ⟨.strftime, "20260101T000000Z"⟩] : List PurgeEv) := hmem
        simp at hhist
      | 1 =>
        have hhist : ⟨.writeText path' rows', .ok ()⟩ ∈
          ([⟨.insertRow (stubEntry "other") 0, .ok ()⟩] : List PurgeEv) := hmem
        simp at hhist
    · exact guarded_of_ne rfl nofun nofun
    · exact guarded_of_ne rfl nofun nofun
  exact copied_of_guarded (show (opening id (purgeAndInsert "other") _ _).ReachesWhen Guarded _ from
    hreaches)

end LlmGateway.Purge
