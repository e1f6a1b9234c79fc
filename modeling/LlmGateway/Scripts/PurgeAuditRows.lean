import LlmGateway.Coroutine.Stages
import LlmGateway.Gateway.Command

/-!
# Purging audit rows

Mirrors `purge` of `scripts/purge_audit_rows.py`, and the insert of an audit row by the gateway,
as programs over the audit log and the disk. Each session commits as one command, and so does each
read or write of a file. Purges and inserts are processes of their own, so any of them may go on
between two commands of another.
-/

namespace LlmGateway.Purge

open Coroutine

/-! ## Rows -/

/-- A row of `audit_log`: what the gateway inserts, with the id and the time it is given. -/
structure AuditRow where
  id : ℤ
  createdAt : String
  entry : AuditLogEntry
  latencyMs : ℚ

/-- The request id of a row. -/
abbrev AuditRow.requestId (row : AuditRow) : String := row.entry.requestId

/-- `_serialise`. -/
def serialise (row : AuditRow) : PyVal :=
  .dict [("id", .int row.id), ("created_at", .str row.createdAt),
    ("request_id", .str row.entry.requestId), ("api_key_hash", .str row.entry.apiKeyHash),
    ("team", .str row.entry.team), ("requested_model", .str row.entry.requestedModel),
    ("provider", .str row.entry.provider), ("outcome", .str row.entry.outcome),
    ("input_tokens", row.entry.inputTokens), ("output_tokens", row.entry.outputTokens),
    ("cost_usd", .float row.entry.costUsd), ("latency_ms", .float row.latencyMs)]

/-! ## Commands -/

/-- What a purge, or the insert of a row, asks of the database, the disk and the clock. -/
inductive PurgeCmd where
  /-- `db_session.init_db()` -/
  | initDb
  /-- the session of `_rows_carrying` -/
  | selectRows (requestId : String)
  /-- `export_dir.mkdir(parents=True, exist_ok=True)` -/
  | mkdir (dir : String)
  /-- `datetime.datetime.now(datetime.UTC).strftime("%Y%m%dT%H%M%SZ")` -/
  | strftime
  /-- `path.write_text(json.dumps(rows, indent=2))` -/
  | writeText (path : String) (rows : List PyVal)
  /-- `json.loads(path.read_text())` -/
  | readText (path : String)
  /-- the session of `_delete_rows_carrying` -/
  | deleteRows (requestId : String)
  /-- the session that inserts a row of the gateway -/
  | insertRow (entry : AuditLogEntry) (latencyMs : ℚ)

/-- What can come back. A session whose commit was sent may have been applied although it failed. -/
abbrev PurgeReply : PurgeCmd → Type
  | .initDb => Except Exc Unit
  | .selectRows _ => Except Exc (List AuditRow)
  | .mkdir _ => Except Exc Unit
  | .strftime => String
  | .writeText _ _ => Except Exc Unit
  | .readText _ => Except Exc (List PyVal)
  | .deleteRows _ => Sent Unit
  | .insertRow _ _ => Sent Unit

/-- Processes are interleaved at every command. -/
abbrev purging : Interface := ⟨PurgeCmd, PurgeReply, fun _ => true⟩

abbrev PurgePy (α : Type) : Type := Coro purging Exc Unit α

abbrev PurgeEv : Type := Event purging

def ask (c : PurgeCmd) : PurgePy (PurgeReply c) := Coro.perform (I := purging) c

def initDb : PurgePy Unit := do
  let r ← ask .initDb
  Coro.ofExcept r

/-- `_rows_carrying`, before the rows are serialised. -/
def rowsCarrying (requestId : String) : PurgePy (List AuditRow) := do
  let r ← ask (.selectRows requestId)
  Coro.ofExcept r

def mkdir (dir : String) : PurgePy Unit := do
  let r ← ask (.mkdir dir)
  Coro.ofExcept r

def writeText (path : String) (rows : List PyVal) : PurgePy Unit := do
  let r ← ask (.writeText path rows)
  Coro.ofExcept r

def readText (path : String) : PurgePy (List PyVal) := do
  let r ← ask (.readText path)
  Coro.ofExcept r

/-- `_delete_rows_carrying`. -/
def deleteRowsCarrying (requestId : String) : PurgePy Unit := do
  let r ← ask (.deleteRows requestId)
  Coro.ofExcept r.toExcept

/-! ## `purge` -/

/-- `_UNREACHABLE`. -/
def UNREACHABLE : ℤ := 2

/-- The file of an export. -/
def exportPath (exportDir stamp requestId : String) : String :=
  exportDir ++ "/audit-purge-" ++ stamp ++ "-" ++ requestId ++ ".json"

/-- The part of `purge` that `--apply` is needed for: export the rows, read the export back, and
only then delete what carries the id. -/
def applyPurge (requestId exportDir : String) (rows : List PyVal) : PurgePy ℤ := do
  mkdir exportDir
  let stamp ← ask .strftime
  writeText (exportPath exportDir stamp requestId) rows
  let written ← readText (exportPath exportDir stamp requestId)
  if written.length ≠ rows.length then
    Coro.raise (.exception (.other "RuntimeError"))
  else do
    deleteRowsCarrying requestId
    pure 0

/-- `purge`. Its return value is the exit code. -/
def purge (requestId : String) (apply : Bool) (exportDir : String) : PurgePy ℤ :=
  Coro.attemptElse
    (do
      initDb
      rowsCarrying requestId)
    (fun
      | .exception _ => some (pure UNREACHABLE)
      | _ => none)
    fun found =>
      if found = [] then pure 0
      else if apply = false then pure 0
      else applyPurge requestId exportDir (found.map serialise)

/-- A process: a purge, or the insert of a row by the gateway. -/
inductive Process where
  | purge (requestId : String) (apply : Bool) (exportDir : String)
  | insert (entry : AuditLogEntry) (latencyMs : ℚ)

/-- The program of a process. -/
def Process.run : Process → PurgePy ℤ
  | .purge requestId apply exportDir => Purge.purge requestId apply exportDir
  | .insert entry latencyMs => do
    let r ← ask (.insertRow entry latencyMs)
    Coro.ofExcept (r.toExcept.map fun _ => 0)

/-! ## The database and the disk -/

/-- The rows of `audit_log` and the exports on disk. `removed` notes each row that was deleted, with
the id it was deleted for. -/
structure Store (F : Type) where
  audit : List AuditRow
  files : F → Option (List PyVal)
  removed : List (String × AuditRow)

namespace Store

variable {F : Type}

/-- After `DELETE FROM audit_log WHERE request_id = …`. -/
def delete (S : Store F) (requestId : String) : Store F where
  audit := S.audit.filter (·.requestId ≠ requestId)
  files := S.files
  removed := S.removed ++ (S.audit.filter (·.requestId = requestId)).map (requestId, ·)

/-- After a file was opened to be written, with what it holds now; `none` is no JSON of rows. -/
def write [DecidableEq F] (S : Store F) (file : F) (content : Option (List PyVal)) : Store F :=
  { S with files := Function.update S.files file content }

/-- After `INSERT INTO audit_log`, which gives the row an id that no other has. -/
def Inserts (S : Store F) (entry : AuditLogEntry) (latencyMs : ℚ) (S' : Store F) : Prop :=
  ∃ row : AuditRow, row.entry = entry ∧ row.latencyMs = latencyMs ∧
    row.id ∉ S.audit.map AuditRow.id ∧ S' = { S with audit := S.audit ++ [row] }

end Store

/-- The file that a path leads to. -/
abbrev Resolve (F : Type) : Type := String → F

variable {F : Type} [DecidableEq F]

/-- The database and the disk, either of which may fail. The mode `w` empties a file before anything
is written to it, so a write that fails may leave anything behind. -/
def machine (resolve : Resolve F) : World purging where
  State := Store F
  answers S e S' :=
    match e with
    | ⟨.selectRows requestId, .ok rows⟩ =>
      rows.Perm (S.audit.filter (·.requestId = requestId)) ∧ S' = S
    | ⟨.writeText path rows, .ok _⟩ => S' = S.write (resolve path) (some rows)
    | ⟨.writeText path _, .error _⟩ => ∃ content, S' = S.write (resolve path) content
    | ⟨.readText path, .ok rows⟩ => S.files (resolve path) = some rows ∧ S' = S
    | ⟨.deleteRows requestId, .ok _⟩ => S' = S.delete requestId
    | ⟨.deleteRows requestId, .failed _ applied⟩ =>
      S' = if applied = true then S.delete requestId else S
    | ⟨.insertRow entry latencyMs, .ok _⟩ => S.Inserts entry latencyMs S'
    | ⟨.insertRow entry latencyMs, .failed _ applied⟩ =>
      if applied = true then S.Inserts entry latencyMs S' else S' = S
    | _ => S' = S

end LlmGateway.Purge
