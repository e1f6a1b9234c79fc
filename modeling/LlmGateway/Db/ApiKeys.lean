import Mathlib.Data.Int.Notation
import Mathlib.Data.List.Nodup

/-!
# The table `api_keys`

Mirrors `ApiKeyRecord` of `app/db/models.py`. The database keeps the primary key and the hashes
unique, so a table with two rows of one hash cannot be built.
-/

namespace LlmGateway

/-- A row of `api_keys`. -/
structure ApiKeyRecord where
  id : ℤ
  keyHash : String
  team : String
  revoked : Bool := false
  deriving DecidableEq

namespace ApiKeyRecord

/-- The row, with `revoked` set if its id is this one. -/
def revokeIf (id : ℤ) (row : ApiKeyRecord) : ApiKeyRecord :=
  if row.id = id then { row with revoked := true } else row

variable {id : ℤ} {row : ApiKeyRecord}

@[simp] theorem revokeIf_id : (row.revokeIf id).id = row.id := by
  unfold revokeIf
  split <;> rfl

@[simp] theorem revokeIf_keyHash : (row.revokeIf id).keyHash = row.keyHash := by
  unfold revokeIf
  split <;> rfl

@[simp] theorem revokeIf_team : (row.revokeIf id).team = row.team := by
  unfold revokeIf
  split <;> rfl

@[simp]
theorem revokeIf_revoked : (row.revokeIf id).revoked = true ↔ row.revoked = true ∨ row.id = id := by
  unfold revokeIf
  split
  · simp [*]
  · simp [*]

end ApiKeyRecord

/-- The rows of `api_keys`. -/
structure ApiKeys where
  rows : List ApiKeyRecord
  id_unique : (rows.map ApiKeyRecord.id).Nodup
  keyHash_unique : (rows.map ApiKeyRecord.keyHash).Nodup

namespace ApiKeys

/-- The table without rows. -/
def empty : ApiKeys := ⟨[], List.nodup_nil, List.nodup_nil⟩

/-- `INSERT`, which fails where a row has the id or the hash already. -/
def insert? (keys : ApiKeys) (row : ApiKeyRecord) : Option ApiKeys :=
  if h : row.id ∉ keys.rows.map ApiKeyRecord.id ∧
      row.keyHash ∉ keys.rows.map ApiKeyRecord.keyHash then
    some {
      rows := row :: keys.rows
      id_unique := List.nodup_cons.mpr ⟨h.1, keys.id_unique⟩
      keyHash_unique := List.nodup_cons.mpr ⟨h.2, keys.keyHash_unique⟩ }
  else none

/-- `UPDATE` of the row with this id: it is revoked. -/
def revoke (keys : ApiKeys) (id : ℤ) : ApiKeys where
  rows := keys.rows.map (·.revokeIf id)
  id_unique := by simpa [Function.comp_def] using keys.id_unique
  keyHash_unique := by simpa [Function.comp_def] using keys.keyHash_unique

/-- `session.get(ApiKeyRecord, id)`. -/
def get (keys : ApiKeys) (id : ℤ) : Option ApiKeyRecord := keys.rows.find? (·.id = id)

variable {keys keys' : ApiKeys} {row : ApiKeyRecord} {id : ℤ}

@[simp] theorem rows_revoke : (keys.revoke id).rows = keys.rows.map (·.revokeIf id) := rfl

/-- What an `INSERT` that goes through has checked and done. -/
theorem insert?_eq_some (h : keys.insert? row = some keys') :
    (∀ other ∈ keys.rows, other.id ≠ row.id) ∧
      (∀ other ∈ keys.rows, other.keyHash ≠ row.keyHash) ∧ keys'.rows = row :: keys.rows := by
  unfold insert? at h
  split at h
  · next hfresh =>
    cases h
    exact ⟨by simpa using hfresh.1, by simpa using hfresh.2, rfl⟩
  · cases h

theorem get_eq_some (h : keys.get id = some row) : row ∈ keys.rows ∧ row.id = id :=
  ⟨List.mem_of_find?_eq_some h, by simpa using List.find?_some h⟩

end ApiKeys

end LlmGateway
