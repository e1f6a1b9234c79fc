import LlmGateway.Coroutine.Throughout
import LlmGateway.Gateway.Command
import LlmGateway.Security.Auth

/-!
# Issuing and revoking keys

Mirrors `create_key` and `revoke_key` of `app/admin/routes.py` as programs over one database
session. What the session has sent is seen by others once it commits. A session that is closed
before leaves the tables as they were.
-/

namespace LlmGateway.Admin

open Coroutine

/-! ## Tables -/

/-- `AdminAuditEntry.action`. -/
inductive KeyAction where
  | issued
  | revoked
  deriving DecidableEq

/-- A row of `admin_audit_log`. -/
structure AdminAuditEntry where
  requestId : String
  action : KeyAction
  keyId : ℤ
  team : String
  adminKeyHash : String
  deriving DecidableEq

/-- The tables that the routes write. -/
structure Tables where
  keys : ApiKeys
  entries : List AdminAuditEntry

/-- A change that a session holds back until it flushes. -/
inductive Change where
  /-- `session.add(AdminAuditEntry(…))` -/
  | add (entry : AdminAuditEntry)
  /-- `record.revoked = True` -/
  | revoked (keyId : ℤ)

/-- The tables after an `INSERT` or an `UPDATE`. -/
def Tables.apply (T : Tables) : Change → Tables
  | .add entry => { T with entries := entry :: T.entries }
  | .revoked keyId => { T with keys := T.keys.revoke keyId }

/-! ## Sessions -/

/-- What a route asks of its session, and of `secrets`. -/
inductive AdminCmd where
  /-- `secrets.token_hex(24)` -/
  | tokenHex
  /-- `session.flush()`, with a new record pending. The reply is the id that the record is given. -/
  | flush (keyHash team : String)
  /-- `session.get(ApiKeyRecord, key_id)` -/
  | get (keyId : ℤ)
  /-- `session.commit()`, with the changes pending -/
  | commit (pending : List Change)

/-- What can come back. A commit may have been applied although it failed. -/
abbrev AdminReply : AdminCmd → Type
  | .tokenHex => String
  | .flush _ _ => Except Exc ℤ
  | .get _ => Except Exc (Option ApiKeyRecord)
  | .commit _ => Sent Unit

/-- Every command but `secrets.token_hex` is awaited. -/
abbrev administering : Interface :=
  ⟨AdminCmd, AdminReply, fun
    | .tokenHex => false
    | _ => true⟩

/-- What a route raises. -/
inductive AdminError where
  | httpException (e : HttpException)
  | raised (e : Exc)

abbrev AdminPy (α : Type) : Type := Coro administering AdminError Unit α

def ask (c : AdminCmd) : AdminPy (AdminReply c) := Coro.perform (I := administering) c

def tokenHex : AdminPy String := ask .tokenHex

def flush (keyHash team : String) : AdminPy ℤ := do
  let r ← ask (.flush keyHash team)
  Coro.ofExcept (r.mapError .raised)

def get (keyId : ℤ) : AdminPy (Option ApiKeyRecord) := do
  let r ← ask (.get keyId)
  Coro.ofExcept (r.mapError .raised)

def commit (pending : List Change) : AdminPy Unit := do
  let r ← ask (.commit pending)
  Coro.ofExcept (r.toExcept.mapError .raised)

/-! ## Routes -/

/-- `CreateKeyResponse`. -/
structure CreateKeyResponse where
  apiKey : String
  team : String
  id : ℤ

section Routes

variable (hashKey : String → String)

/-- `create_key`. The request id is that of `http_request.state`, where there is one. -/
def createKey (requestId : Option String) (adminKey team : String) : AdminPy CreateKeyResponse := do
  let rawKey ← tokenHex
  let id ← flush (hashKey rawKey) team
  commit [.add ⟨requestId.getD "", .issued, id, team, hashKey adminKey⟩]
  pure ⟨rawKey, team, id⟩

/-- `revoke_key`. -/
def revokeKey (requestId : Option String) (adminKey : String) (keyId : ℤ) :
    AdminPy (ℤ × Bool) := do
  match ← get keyId with
  | none => Coro.raise (.httpException ⟨404, "key not found", []⟩)
  | some record =>
    commit [.revoked keyId,
      .add ⟨requestId.getD "", .revoked, keyId, record.team, hashKey adminKey⟩]
    pure (keyId, true)

end Routes

/-! ## The database -/

/-- The tables as everyone sees them, and as the open session does. -/
structure Session where
  committed : Tables
  working : Tables

/-- After a commit with the changes pending. -/
def Session.commit (S : Session) (pending : List Change) : Session :=
  let T := pending.foldl Tables.apply S.working
  ⟨T, T⟩

/-- The database, which may fail. The id of a new record is whatever the `INSERT` accepts. -/
abbrev database : World administering where
  State := Session
  answers S e S' :=
    match e with
    | ⟨.flush keyHash team, .ok id⟩ =>
      ∃ keys, S.working.keys.insert? ⟨id, keyHash, team, false⟩ = some keys ∧
        S' = { S with working := { S.working with keys } }
    | ⟨.get keyId, .ok record⟩ => record = S.working.keys.get keyId ∧ S' = S
    | ⟨.commit pending, .ok _⟩ => S' = S.commit pending
    | ⟨.commit pending, .failed _ applied⟩ => S' = if applied = true then S.commit pending else S
    | _ => S' = S

/-- A call of a route, which ends or is given up at any point: `T'` is what it leaves committed. -/
inductive Call (hashKey : String → String) (T : Tables) : Tables → Prop
  | create {requestId adminKey team t q S}
      (hrun : Prog.Run (createKey hashKey requestId adminKey team ()) t q)
      (hw : database.Evolves ⟨T, T⟩ t S) : Call hashKey T S.committed
  | revoke {requestId adminKey keyId t q S}
      (hrun : Prog.Run (revokeKey hashKey requestId adminKey keyId ()) t q)
      (hw : database.Evolves ⟨T, T⟩ t S) : Call hashKey T S.committed

end LlmGateway.Admin
