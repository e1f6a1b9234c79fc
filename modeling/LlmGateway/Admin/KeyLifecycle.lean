import LlmGateway.Admin.Routes

/-!
# Keys and their audit trail

Each route commits once, and what it commits is a key with its entry, or a revocation with its
entry. So the two tables stay in step over any sequence of calls, wherever each of them fails: an
invariant of the committed tables, kept by `Issues` and by `Revokes`.
-/

namespace LlmGateway.Admin

open Coroutine

/-! ## What a call commits -/

/-- A key has been issued for a team, and noted. -/
structure Issues (T T' : Tables) : Prop where
  insert : ∃ id keyHash team, T.keys.insert? ⟨id, keyHash, team, false⟩ = some T'.keys ∧
    ∃ entry, T'.entries = entry :: T.entries ∧ entry.action = .issued ∧ entry.keyId = id ∧
      entry.team = team

/-- A key has been revoked, and that has been noted with its team. -/
structure Revokes (T T' : Tables) : Prop where
  update : ∃ id record, T.keys.get id = some record ∧ T'.keys = T.keys.revoke id ∧
    ∃ entry, T'.entries = entry :: T.entries ∧ entry.action = .revoked ∧ entry.keyId = id ∧
      entry.team = record.team

section Session

variable {N : Session → Prop} {S : Session}

/-- A command that changes nothing, and what follows if it does not fail. -/
theorem throughout_tokenHex {Q : Session → Except AdminError String → Unit → Prop} :
    tokenHex.throughout database N S () Q ↔ N S ∧ ∀ rawKey, N S ∧ Q S (.ok rawKey) () := by
  rw [tokenHex, ask, Coro.throughout_perform]
  simp [database]

theorem throughout_flush {keyHash team : String}
    {Q : Session → Except AdminError ℤ → Unit → Prop} (hS : N S)
    (herror : ∀ e, Q S (.error e) ())
    (hok : ∀ id keys, S.working.keys.insert? ⟨id, keyHash, team, false⟩ = some keys →
      N ⟨S.committed, ⟨keys, S.working.entries⟩⟩ ∧
        Q ⟨S.committed, ⟨keys, S.working.entries⟩⟩ (.ok id) ()) :
    (flush keyHash team).throughout database N S () Q := by
  rw [flush, ask, Coro.throughout_bind, Coro.throughout_perform]
  refine ⟨hS, fun r S' hanswer => ?_⟩
  cases r with
  | error e =>
    obtain rfl : S' = S := hanswer
    exact ⟨hS, hS, herror _⟩
  | ok id =>
    obtain ⟨keys, hinsert, rfl⟩ := hanswer
    exact ⟨(hok id keys hinsert).1, hok id keys hinsert⟩

theorem throughout_get {keyId : ℤ} {Q : Session → Except AdminError (Option ApiKeyRecord) → Unit → Prop}
    (hS : N S) (herror : ∀ e, Q S (.error e) ())
    (hok : Q S (.ok (S.working.keys.get keyId)) ()) :
    (get keyId).throughout database N S () Q := by
  rw [get, ask, Coro.throughout_bind, Coro.throughout_perform]
  refine ⟨hS, fun r S' hanswer => ?_⟩
  cases r with
  | error e =>
    obtain rfl : S' = S := hanswer
    exact ⟨hS, hS, herror _⟩
  | ok record =>
    obtain ⟨rfl, rfl⟩ := hanswer
    exact ⟨hS, hS, hok⟩

/-- A commit leaves what it was sent, or nothing. -/
theorem throughout_commit {pending : List Change} (hS : N S) (hcommit : N (S.commit pending)) :
    (commit pending).throughout database N S () fun S' _ _ => N S' := by
  rw [commit, ask, Coro.throughout_bind, Coro.throughout_perform]
  refine ⟨hS, fun r S' hanswer => ?_⟩
  have hS' : N S' := by
    cases r with
    | ok _ =>
      obtain rfl : S' = S.commit pending := hanswer
      exact hcommit
    | failed e applied =>
      obtain rfl : S' = if applied = true then S.commit pending else S := hanswer
      split
      · exact hcommit
      · exact hS
  exact ⟨hS', hS', hS'⟩

end Session

section Calls

variable {hashKey : String → String} {T T' : Tables}

theorem throughout_createKey {requestId : Option String} {adminKey team : String} :
    (createKey hashKey requestId adminKey team).throughout database
      (fun S => S.committed = T ∨ Issues T S.committed) ⟨T, T⟩ () fun _ _ _ => True := by
  rw [createKey, Coro.throughout_bind, throughout_tokenHex]
  refine ⟨.inl rfl, fun rawKey => ⟨.inl rfl, ?_⟩⟩
  dsimp only
  rw [Coro.throughout_bind]
  refine throughout_flush (.inl rfl) (fun e => ⟨.inl rfl, trivial⟩) fun id keys hinsert => ?_
  refine ⟨.inl rfl, ?_⟩
  dsimp only
  rw [Coro.throughout_bind]
  have hissues : Issues T ⟨keys,
      ⟨requestId.getD "", .issued, id, team, hashKey adminKey⟩ :: T.entries⟩ :=
    ⟨⟨id, hashKey rawKey, team, hinsert, _, rfl, rfl, rfl, rfl⟩⟩
  refine Coro.throughout_mono (throughout_commit (.inl rfl) (.inr hissues)) fun S r _ _ hS => ?_
  cases r with
  | ok _ => exact ⟨hS, trivial⟩
  | error e => exact ⟨hS, trivial⟩

theorem throughout_revokeKey {requestId : Option String} {adminKey : String} {keyId : ℤ} :
    (revokeKey hashKey requestId adminKey keyId).throughout database
      (fun S => S.committed = T ∨ Revokes T S.committed) ⟨T, T⟩ () fun _ _ _ => True := by
  rw [revokeKey, Coro.throughout_bind]
  refine throughout_get (.inl rfl) (fun e => ⟨.inl rfl, trivial⟩) ?_
  cases hget : T.keys.get keyId with
  | none => exact ⟨.inl rfl, trivial⟩
  | some record =>
    dsimp only
    rw [Coro.throughout_bind]
    have hrevokes : Revokes T ⟨T.keys.revoke keyId,
        ⟨requestId.getD "", .revoked, keyId, record.team, hashKey adminKey⟩ :: T.entries⟩ :=
      ⟨⟨keyId, record, hget, rfl, _, rfl, rfl, rfl, rfl⟩⟩
    refine Coro.throughout_mono (throughout_commit (.inl rfl) (.inr hrevokes)) fun S r _ _ hS => ?_
    cases r with
    | ok _ => exact ⟨hS, trivial⟩
    | error e => exact ⟨hS, trivial⟩

/-- Whatever becomes of a call, it commits nothing, or a key with its entry, or a revocation with
its entry. -/
theorem Call.cases (h : Call hashKey T T') : T' = T ∨ Issues T T' ∨ Revokes T T' := by
  cases h with
  | create hrun hw =>
    exact (throughout_createKey.of_run hrun hw).imp_right .inl
  | revoke hrun hw =>
    exact (throughout_revokeKey.of_run hrun hw).imp_right .inr

end Calls

/-! ## The invariant -/

/-- The entries that note the issue of the key. -/
def Tables.issuedFor (T : Tables) (id : ℤ) : List AdminAuditEntry :=
  T.entries.filter fun entry => entry.action = .issued ∧ entry.keyId = id

/-- The keys and their trail agree. -/
structure InStep (T : Tables) : Prop where
  /-- Each key has exactly one entry that notes its issue, with its team. -/
  issued : ∀ row ∈ T.keys.rows, ∃ entry, T.issuedFor row.id = [entry] ∧ entry.team = row.team
  /-- An entry that notes an issue is that of a key. -/
  of_issued : ∀ entry ∈ T.entries, entry.action = .issued → ∃ row ∈ T.keys.rows, row.id = entry.keyId
  /-- A key is revoked just when some entry says so. -/
  revoked_iff : ∀ row ∈ T.keys.rows,
    row.revoked = true ↔ ∃ entry ∈ T.entries, entry.action = .revoked ∧ entry.keyId = row.id
  /-- An entry that notes a revocation is that of a key, with its team. -/
  of_revoked : ∀ entry ∈ T.entries, entry.action = .revoked →
    ∃ row ∈ T.keys.rows, row.id = entry.keyId ∧ row.team = entry.team

/-- Before the first key. -/
def Tables.empty : Tables := ⟨.empty, []⟩

theorem inStep_empty : InStep .empty where
  issued := nofun
  of_issued := nofun
  revoked_iff := nofun
  of_revoked := nofun

section Invariant

variable {T T' : Tables}

theorem issuedFor_cons {entry : AdminAuditEntry} {id : ℤ}
    (hentries : T'.entries = entry :: T.entries) :
    T'.issuedFor id =
      if entry.action = .issued ∧ entry.keyId = id then entry :: T.issuedFor id
      else T.issuedFor id := by
  rw [Tables.issuedFor, hentries, List.filter_cons]
  simp [Tables.issuedFor]

/-- An id that no key has is not in the trail either. -/
theorem InStep.not_mem_of_fresh (hT : InStep T) {id : ℤ} (hfresh : ∀ row ∈ T.keys.rows, row.id ≠ id) :
    ∀ entry ∈ T.entries, entry.keyId ≠ id := by
  rintro entry hentry rfl
  cases haction : entry.action with
  | issued =>
    obtain ⟨row, hrow, hid⟩ := hT.of_issued entry hentry haction
    exact hfresh row hrow hid
  | revoked =>
    obtain ⟨row, hrow, hid, -⟩ := hT.of_revoked entry hentry haction
    exact hfresh row hrow hid

theorem InStep.of_issues (hT : InStep T) (h : Issues T T') : InStep T' := by
  obtain ⟨id, keyHash, team, hinsert, entry, hentries, haction, rfl, rfl⟩ := h.insert
  obtain ⟨hfresh, -, hrows⟩ := ApiKeys.insert?_eq_some hinsert
  have hnone := hT.not_mem_of_fresh hfresh
  constructor
  · rw [hrows, List.forall_mem_cons]
    constructor
    · have hnil : T.issuedFor entry.keyId = [] :=
        List.filter_eq_nil_iff.mpr fun other hother => by simp [hnone other hother]
      exact ⟨entry, by rw [issuedFor_cons hentries, if_pos ⟨haction, rfl⟩, hnil], rfl⟩
    · intro row hrow
      rw [issuedFor_cons hentries, if_neg fun h => hfresh row hrow h.2.symm]
      exact hT.issued row hrow
  · rw [hrows, hentries, List.forall_mem_cons]
    refine ⟨fun _ => ⟨_, List.mem_cons_self, rfl⟩, fun other hother hact => ?_⟩
    obtain ⟨row, hrow, hid⟩ := hT.of_issued other hother hact
    exact ⟨row, List.mem_cons_of_mem _ hrow, hid⟩
  · rw [hrows, hentries, List.forall_mem_cons]
    constructor
    · simp only [List.exists_mem_cons_iff, haction, reduceCtorEq, false_and, false_or]
      refine ⟨nofun, ?_⟩
      rintro ⟨other, hother, -, hid⟩
      exact absurd hid (hnone other hother)
    · intro row hrow
      simp only [List.exists_mem_cons_iff, haction, reduceCtorEq, false_and, false_or]
      exact hT.revoked_iff row hrow
  · rw [hrows, hentries, List.forall_mem_cons]
    refine ⟨fun hact => absurd (haction.symm.trans hact) nofun, fun other hother hact => ?_⟩
    obtain ⟨row, hrow, hid⟩ := hT.of_revoked other hother hact
    exact ⟨row, List.mem_cons_of_mem _ hrow, hid⟩

theorem InStep.of_revokes (hT : InStep T) (h : Revokes T T') : InStep T' := by
  obtain ⟨id, record, hget, hkeys, entry, hentries, haction, rfl, hteam⟩ := h.update
  obtain ⟨hrecord, hid⟩ := ApiKeys.get_eq_some hget
  have hrows : T'.keys.rows = T.keys.rows.map (·.revokeIf entry.keyId) := by rw [hkeys]; rfl
  constructor
  · rw [hrows, List.forall_mem_map]
    intro row hrow
    rw [issuedFor_cons hentries, if_neg (by simp [haction])]
    simpa using hT.issued row hrow
  · rw [hrows, hentries, List.forall_mem_cons]
    refine ⟨fun hact => absurd (haction.symm.trans hact) nofun, fun other hother hact => ?_⟩
    obtain ⟨row, hrow, hid⟩ := hT.of_issued other hother hact
    exact ⟨_, List.mem_map_of_mem hrow, by simpa using hid⟩
  · rw [hrows, hentries, List.forall_mem_map]
    intro row hrow
    simp only [List.exists_mem_cons_iff, haction, true_and, ApiKeyRecord.revokeIf_revoked,
      ApiKeyRecord.revokeIf_id]
    rw [hT.revoked_iff row hrow, or_comm, eq_comm]
  · rw [hrows, hentries, List.forall_mem_cons]
    refine ⟨fun _ => ⟨_, List.mem_map_of_mem hrecord, by simpa using hid, by simpa using hteam.symm⟩,
      fun other hother hact => ?_⟩
    obtain ⟨row, hrow, hid, hteam⟩ := hT.of_revoked other hother hact
    exact ⟨_, List.mem_map_of_mem hrow, by simpa using hid, by simpa using hteam⟩

end Invariant

/-! ## Any sequence of calls -/

/-- The tables that a sequence of calls can leave committed. -/
abbrev Reaches (hashKey : String → String) : Tables → Tables → Prop :=
  Relation.ReflTransGen (Call hashKey)

section Runs

variable {hashKey : String → String} {T T' : Tables}

theorem InStep.of_call (hT : InStep T) (h : Call hashKey T T') : InStep T' := by
  rcases h.cases with rfl | hissues | hrevokes
  · exact hT
  · exact hT.of_issues hissues
  · exact hT.of_revokes hrevokes

theorem InStep.of_reaches (hT : InStep T) (h : Reaches hashKey T T') : InStep T' := by
  induction h with
  | refl => exact hT
  | tail _ hcall ih => exact ih.of_call hcall

/-- A hash that belongs to a revoked row. -/
def Tables.Revoked (T : Tables) (keyHash : String) : Prop :=
  ∃ row ∈ T.keys.rows, row.keyHash = keyHash ∧ row.revoked = true

theorem Tables.Revoked.of_call {keyHash : String} (hT : T.Revoked keyHash) (h : Call hashKey T T') :
    T'.Revoked keyHash := by
  obtain ⟨row, hrow, hhash, hrevoked⟩ := hT
  rcases h.cases with rfl | hissues | hrevokes
  · exact ⟨row, hrow, hhash, hrevoked⟩
  · obtain ⟨id, keyHash', team, hinsert, -⟩ := hissues.insert
    obtain ⟨-, -, hrows⟩ := ApiKeys.insert?_eq_some hinsert
    exact ⟨row, hrows ▸ List.mem_cons_of_mem _ hrow, hhash, hrevoked⟩
  · obtain ⟨id, record, -, hkeys, -⟩ := hrevokes.update
    refine ⟨row.revokeIf id, ?_, by simpa using hhash, by simp [hrevoked]⟩
    rw [hkeys]
    exact List.mem_map_of_mem hrow

theorem Tables.Revoked.of_reaches {keyHash : String} (hT : T.Revoked keyHash)
    (h : Reaches hashKey T T') : T'.Revoked keyHash := by
  induction h with
  | refl => exact hT
  | tail _ hcall ih => exact ih.of_call hcall

/-- Hashes are unique, so the hash of a revoked row is not that of an unrevoked one: such a key is
valid only because it is configured. -/
theorem Tables.Revoked.mem_allowed {rawKey gatewayApiKeys : String} (hT : T.Revoked (hashKey rawKey))
    (hvalid : IsValidKey hashKey gatewayApiKeys T.keys rawKey) :
    rawKey ∈ allowedApiKeys gatewayApiKeys := by
  refine hvalid.resolve_right ?_
  rintro ⟨other, hother, hhash, hlive⟩
  obtain ⟨row, hrow, hrowHash, hrevoked⟩ := hT
  have heq : row = other :=
    List.inj_on_of_nodup_map T.keys.keyHash_unique hrow hother (hrowHash.trans hhash.symm)
  rw [heq, hlive] at hrevoked
  cases hrevoked

/-- In every run the keys and their trail agree, and a key that has been revoked is accepted from
then on only where it is configured. -/
theorem keys_in_step_and_revoked_for_good (h : Reaches hashKey .empty T) :
    InStep T ∧ ∀ row ∈ T.keys.rows, row.revoked = true →
      ∀ T', Reaches hashKey T T' → ∀ rawKey, hashKey rawKey = row.keyHash →
        ∀ gatewayApiKeys authorization xApiKey, presentedKey authorization xApiKey = some rawKey →
          ∀ key, requireApiKey hashKey gatewayApiKeys T'.keys authorization xApiKey = .ok key →
            rawKey ∈ allowedApiKeys gatewayApiKeys := by
  refine ⟨inStep_empty.of_reaches h, ?_⟩
  intro row hrow hrevoked T' hreach rawKey hhash gatewayApiKeys authorization xApiKey hpresented key hok
  have hT' : T'.Revoked (hashKey rawKey) :=
    Tables.Revoked.of_reaches ⟨row, hrow, hhash.symm, hrevoked⟩ hreach
  by_cases hcomp : Comparable rawKey (allowedApiKeys gatewayApiKeys)
  · by_cases hvalid : IsValidKey hashKey gatewayApiKeys T'.keys rawKey
    · exact hT'.mem_allowed hvalid
    · obtain ⟨e, he, -⟩ := requireApiKey_of_not_valid hpresented hcomp hvalid
      rw [he] at hok
      cases hok
  · rw [requireApiKey_of_not_comparable hpresented hcomp] at hok
    cases hok

end Runs

/-! ## One key -/

/-- A key that has been issued. -/
def issuedOne : Tables where
  keys := ⟨[⟨1, "k", "a", false⟩], by simp, by simp⟩
  entries := [⟨"", .issued, 1, "a", "admin"⟩]

/-- The same key after its revocation. -/
def revokedOne : Tables where
  keys := ⟨[⟨1, "k", "a", true⟩], by simp, by simp⟩
  entries := [⟨"r", .revoked, 1, "a", "admin"⟩, ⟨"", .issued, 1, "a", "admin"⟩]

theorem call_issuedOne : Call id .empty issuedOne := by
  have hrun : Prog.Run (createKey id none "admin" "a" ())
      [⟨.tokenHex, "k"⟩, ⟨.flush "k" "a", .ok 1⟩,
        ⟨.commit [.add ⟨"", .issued, 1, "a", "admin"⟩], .ok ()⟩]
      (.ret (.ok ⟨"k", "a", 1⟩, ())) := .cons _ (.cons _ (.cons _ (.nil _)))
  exact .create (S := ⟨issuedOne, issuedOne⟩) hrun
    (.cons rfl (.cons ⟨issuedOne.keys, rfl, rfl⟩ (.cons rfl (.nil _))))

theorem call_revokedOne : Call id issuedOne revokedOne := by
  have hrun : Prog.Run (revokeKey id (some "r") "admin" 1 ())
      [⟨.get 1, .ok (some ⟨1, "k", "a", false⟩)⟩,
        ⟨.commit [.revoked 1, .add ⟨"r", .revoked, 1, "a", "admin"⟩], .ok ()⟩]
      (.ret (.ok (1, true), ())) := .cons _ (.cons _ (.nil _))
  exact .revoke (S := ⟨revokedOne, revokedOne⟩) hrun (.cons ⟨rfl, rfl⟩ (.cons rfl (.nil _)))

/-- Nobody gets in with the key any more where none is configured. -/
theorem revokedOne_in_step : InStep revokedOne ∧
    ¬ ∃ key, requireApiKey id "" revokedOne.keys none (some ⟨"k", by simp⟩) = .ok key := by
  obtain ⟨hstep, hgone⟩ := keys_in_step_and_revoked_for_good
    ((Relation.ReflTransGen.single call_issuedOne).tail call_revokedOne)
  refine ⟨hstep, ?_⟩
  rintro ⟨key, hok⟩
  have hmem := hgone ⟨1, "k", "a", true⟩ (by simp [revokedOne]) rfl revokedOne .refl "k" rfl "" none
    (some ⟨"k", by simp⟩) (by decide +kernel) key hok
  exact absurd hmem (by decide +kernel)

end LlmGateway.Admin
