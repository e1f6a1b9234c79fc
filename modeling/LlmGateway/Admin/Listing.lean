import LlmGateway.Admin.Routes
import Mathlib.Data.List.Sort

/-!
# Reading the tables page by page

Mirrors `list_keys`, `list_audit_log` and `list_key_events` of `app/admin/routes.py`. They answer with
the newest rows first, and a caller who wants more than fits into one answer goes on at the offset of
what it has read.

The gateway writes to the tables in the meantime. Where a row comes in, the rows after it move towards
the end of the listing, so that a caller may be shown a row twice. `Walk.covers` says that it is never
kept from one.
-/

namespace LlmGateway.Admin

/-! ## Queries -/

section Queries

variable {κ ρ : Type}

/-- What a listing is ordered by, and what tells rows apart. -/
@[ext]
structure Stamp where
  createdAt : ℚ
  id : ℤ
deriving DecidableEq

/-- An order that answers `ORDER BY created_at DESC`. Which of two rows of the same time comes first,
the database decides in the same way each time. -/
structure NewestFirst where
  le : Stamp → Stamp → Bool
  trans : ∀ a b c, le a b → le b c → le a c
  total : ∀ a b, le a b || le b a
  antisymm : ∀ a b, le a b → le b a → a = b
  newer : ∀ a b, le a b → b.createdAt ≤ a.createdAt

/-- Of rows of the same time, the one with the larger id first. -/
def newestById : NewestFirst where
  le a b := b.createdAt < a.createdAt ∨ (a.createdAt = b.createdAt ∧ b.id ≤ a.id)
  trans a b c h h' := by
    rw [decide_eq_true_eq] at h h' ⊢
    rcases h with h | ⟨h, hid⟩ <;> rcases h' with h' | ⟨h', hid'⟩
    · exact .inl (h'.trans h)
    · exact .inl (h' ▸ h)
    · exact .inl (h ▸ h')
    · exact .inr ⟨h.trans h', hid'.trans hid⟩
  total a b := by
    rw [Bool.or_eq_true, decide_eq_true_eq, decide_eq_true_eq]
    rcases lt_trichotomy a.createdAt b.createdAt with h | h | h
    · exact .inr (.inl h)
    · rcases le_total a.id b.id with hid | hid
      · exact .inr (.inr ⟨h.symm, hid⟩)
      · exact .inl (.inr ⟨h, hid⟩)
    · exact .inl (.inl h)
  antisymm a b h h' := by
    rw [decide_eq_true_eq] at h h'
    have hid : a.createdAt = b.createdAt ∧ a.id = b.id := by
      rcases h with h | ⟨h, hid⟩ <;> rcases h' with h' | ⟨h', hid'⟩
      · exact absurd h h'.not_gt
      · exact absurd h' h.ne
      · exact absurd h h'.ne
      · exact ⟨h, le_antisymm hid' hid⟩
    exact Stamp.ext hid.1 hid.2
  newer a b h := by
    rw [decide_eq_true_eq] at h
    exact h.elim le_of_lt fun h => h.1.ge

/-- What a listing asks for. -/
structure Query (κ : Type) where
  stamp : κ → Stamp
  /-- the `where` clauses -/
  kept : κ → Bool
  limit : ℤ

/-- `max(1, min(limit, 1000))`. -/
def clampLimit (limit : ℤ) : ℕ := (max 1 (min limit 1000)).toNat

/-- `max(0, offset)`. -/
def clampOffset (offset : ℤ) : ℕ := (max 0 offset).toNat

variable (order : NewestFirst) (view : ρ → κ) (q : Query κ)

/-- Which of two rows comes first. -/
def Query.le (a b : κ) : Bool := order.le (q.stamp a) (q.stamp b)

/-- All rows that the listing is about, where the columns in `view` decide which and in what order. -/
def Query.rows (T : List ρ) : List ρ :=
  (T.filter fun row => q.kept (view row)).mergeSort fun a b => q.le order (view a) (view b)

/-- One page of them. -/
def Query.fetch (offset : ℤ) (T : List ρ) : List ρ :=
  ((q.rows order view T).drop (clampOffset offset)).take (clampLimit q.limit)

end Queries

/-- A text that a column is compared with, unless it is empty or missing. -/
def textFilter (value : Option String) (column : String) : Bool :=
  value.getD "" = "" ∨ value = some column

/-- A row of `api_keys`, with the time it came in. -/
structure ApiKeyRow extends ApiKeyRecord where
  createdAt : ℚ
deriving DecidableEq

/-- The columns of a key that are never updated. -/
structure IssuedKey where
  stamp : Stamp
  keyHash : String
  team : String
deriving DecidableEq

def ApiKeyRow.issuedKey (row : ApiKeyRow) : IssuedKey :=
  ⟨⟨row.createdAt, row.id⟩, row.keyHash, row.team⟩

/-- A row of `audit_log`, with the columns that the database gives it. -/
structure AuditLogRow extends AuditLogEntry where
  stamp : Stamp

/-- A row of `admin_audit_log`, with the columns that the database gives it. -/
structure AdminAuditRow extends AdminAuditEntry where
  stamp : Stamp

/-- How `action` is stored. -/
def KeyAction.text : KeyAction → String
  | .issued => "issued"
  | .revoked => "revoked"

section Endpoints

variable (order : NewestFirst)

/-- `list_keys`. -/
def listKeys (limit offset : ℤ) (T : List ApiKeyRow) : List ApiKeyRow :=
  Query.fetch order ApiKeyRow.issuedKey ⟨IssuedKey.stamp, fun _ => true, limit⟩ offset T

/-- `list_audit_log`. -/
def listAuditLog (team requestId : Option String) (limit offset : ℤ) (T : List AuditLogRow) :
    List AuditLogRow :=
  Query.fetch order id ⟨AuditLogRow.stamp,
    fun row => textFilter team row.team && textFilter requestId row.requestId, limit⟩ offset T

/-- `list_key_events`. -/
def listKeyEvents (action : Option String) (keyId : Option ℤ) (limit offset : ℤ)
    (T : List AdminAuditRow) : List AdminAuditRow :=
  Query.fetch order id ⟨AdminAuditRow.stamp,
    fun row => textFilter action row.action.text && keyId.all (· = row.keyId), limit⟩ offset T

end Endpoints

/-! ## Walking through a listing -/

section Walk

variable {κ ρ : Type}

/-- A caller asks for page after page, each at the offset of what it has read, and the table is
written to in between. The listing stands at `T₀` when the caller begins. -/
inductive Walk (writes : List ρ → List ρ → Prop) (page : ℤ → List ρ → List ρ) (T₀ : List ρ) :
    List ρ → List ρ → Prop
  | start : Walk writes page T₀ [] T₀
  | write {seen T T' : List ρ} : Walk writes page T₀ seen T → writes T T' →
      Walk writes page T₀ seen T'
  | page {seen T : List ρ} : Walk writes page T₀ seen T →
      Walk writes page T₀ (seen ++ page seen.length T) T

/-- A row that a longer list has near its beginning, a shorter one has there too. -/
theorem mem_take_of_sublist {l l' : List κ} (h : l.Sublist l') (hnodup : l'.Nodup) {x : κ} {n : ℕ}
    (hx : x ∈ l) (hmem : x ∈ l'.take n) : x ∈ l.take n := by
  induction h generalizing n with
  | slnil => exact hmem
  | @cons l l' a h ih =>
    obtain ⟨ha, hnodup⟩ := List.nodup_cons.mp hnodup
    cases n with
    | zero => exact absurd hmem List.not_mem_nil
    | succ n =>
      rcases List.mem_cons.mp hmem with rfl | hmem
      · exact absurd (h.subset hx) ha
      · exact List.take_subset_take_left l (Nat.le_succ n) (ih hnodup hx hmem)
  | @cons_cons l l' a h ih =>
    obtain ⟨ha, hnodup⟩ := List.nodup_cons.mp hnodup
    cases n with
    | zero => exact absurd hmem List.not_mem_nil
    | succ n =>
      rcases List.mem_cons.mp hmem with rfl | htail
      · exact List.mem_cons_self
      · have hne : x ≠ a := ne_of_mem_of_not_mem (List.mem_of_mem_take htail) ha
        exact List.mem_cons_of_mem a (ih hnodup ((List.mem_cons.mp hx).resolve_left hne) htail)

variable {order : NewestFirst} {view : ρ → κ} {q : Query κ} {writes : List ρ → List ρ → Prop}
  {T₀ T T' seen : List ρ}

theorem Query.map_rows : (q.rows order view T).map view =
    ((T.map view).filter q.kept).mergeSort (q.le order) := by
  rw [Query.rows, List.map_mergeSort (s := q.le order) fun _ _ _ _ => rfl, List.filter_map]
  rfl

theorem Query.mem_rows_iff {x : κ} :
    x ∈ (q.rows order view T).map view ↔ x ∈ T.map view ∧ q.kept x = true := by
  rw [map_rows, List.mem_mergeSort, List.mem_filter]

theorem Query.pairwise_rows :
    ((q.rows order view T).map view).Pairwise fun a b => q.le order a b = true := by
  have htrans : ∀ a b c, q.le order a b → q.le order b c → q.le order a c := fun _ _ _ =>
    order.trans _ _ _
  have htotal : ∀ a b, q.le order a b || q.le order b a := fun _ _ => order.total _ _
  rw [map_rows]
  exact List.pairwise_mergeSort htrans htotal _

theorem Query.nodup_rows (h : ((T.map view).map q.stamp).Nodup) :
    (((q.rows order view T).map view).map q.stamp).Nodup := by
  rw [map_rows]
  have hsub := ((List.filter_sublist (p := q.kept) (l := T.map view)).map q.stamp).nodup h
  exact ((List.mergeSort_perm _ _).map q.stamp).nodup_iff.mpr hsub

/-- Rows that come in leave the others in their order. -/
theorem Query.rows_sublist (h : (T.map view).Subperm (T'.map view))
    (hnodup : ((T'.map view).map q.stamp).Nodup) :
    ((q.rows order view T).map view).Sublist ((q.rows order view T').map view) := by
  have hsub : ((q.rows order view T).map view).Subperm ((q.rows order view T').map view) := by
    rw [map_rows, map_rows]
    exact (List.mergeSort_perm _ _).subperm.trans
      ((h.filter _).trans (List.mergeSort_perm _ _).symm.subperm)
  obtain ⟨l, hperm, hl⟩ := hsub
  have heq : l = (q.rows order view T).map view := by
    refine hperm.eq_of_pairwise ?_ (pairwise_rows.sublist hl) pairwise_rows
    intro a b ha hb hab hba
    exact List.inj_on_of_nodup_map (nodup_rows hnodup) (hl.subset ha)
      (hl.subset (hperm.symm.subset hb)) (order.antisymm _ _ hab hba)
  rwa [← heq]

/-- A walk has shown each row that was there when it began, or will still come to it. -/
structure Covers (order : NewestFirst) (view : ρ → κ) (q : Query κ) (T₀ seen T : List ρ) : Prop where
  kept : (T₀.map view).Subperm (T.map view)
  nodup : ((T.map view).map q.stamp).Nodup
  ahead : ∀ x ∈ (q.rows order view T₀).map view, x ∈ seen.map view ∨
    x ∉ ((q.rows order view T).map view).take seen.length
  shown : ∀ x ∈ seen.map view, x ∈ (q.rows order view T).map view

theorem Covers.start (h : ((T₀.map view).map q.stamp).Nodup) : Covers order view q T₀ [] T₀ where
  kept := List.Subperm.refl _
  nodup := h
  ahead _ _ := .inr List.not_mem_nil
  shown _ hx := absurd hx List.not_mem_nil

theorem Covers.write (h : Covers order view q T₀ seen T)
    (hkept : (T.map view).Subperm (T'.map view)) (hnodup : ((T'.map view).map q.stamp).Nodup) :
    Covers order view q T₀ seen T' := by
  have hsub : ((q.rows order view T).map view).Sublist ((q.rows order view T').map view) :=
    Query.rows_sublist hkept hnodup
  refine ⟨h.kept.trans hkept, hnodup, fun x hx => ?_, fun x hx => hsub.subset (h.shown x hx)⟩
  refine (h.ahead x hx).imp_right fun hahead hmem => hahead ?_
  have hthen : x ∈ (q.rows order view T).map view :=
    (Query.rows_sublist h.kept h.nodup).subset hx
  exact mem_take_of_sublist hsub (Query.nodup_rows hnodup).of_map hthen hmem

theorem clampOffset_natCast (n : ℕ) : clampOffset n = n := by simp [clampOffset]

/-- A page goes on where the caller has stopped. -/
theorem Covers.page (h : Covers order view q T₀ seen T) :
    Covers order view q T₀ (seen ++ q.fetch order view seen.length T) T := by
  have hpage : (q.fetch order view seen.length T).map view =
      (((q.rows order view T).map view).drop seen.length).take
        (q.fetch order view seen.length T).length := by
    rw [Query.fetch, clampOffset_natCast, List.map_take, List.map_drop, List.length_take, List.take_eq_take_iff]
    simp
  refine ⟨h.kept, h.nodup, fun x hx => ?_, fun x hx => ?_⟩
  · rw [List.map_append, List.mem_append, List.length_append, List.take_add, List.mem_append,
      ← hpage]
    rcases h.ahead x hx with hseen | hahead
    · exact .inl (.inl hseen)
    · by_cases hnow : x ∈ (q.fetch order view seen.length T).map view
      · exact .inl (.inr hnow)
      · exact .inr fun hmem => hmem.elim hahead hnow
  · rw [List.map_append, List.mem_append] at hx
    rcases hx with hx | hx
    · exact h.shown x hx
    · rw [hpage] at hx
      exact List.mem_of_mem_drop (List.mem_of_mem_take hx)

/-- Where a page is empty, the caller has come to the end. -/
theorem Covers.all_seen (h : Covers order view q T₀ seen T)
    (hend : q.fetch order view seen.length T = []) :
    ∀ x ∈ T₀.map view, q.kept x = true → x ∈ seen.map view := by
  intro x hx hkept
  have hrow : x ∈ (q.rows order view T₀).map view := Query.mem_rows_iff.mpr ⟨hx, hkept⟩
  refine (h.ahead x hrow).resolve_right fun hahead => hahead ?_
  have hlimit : clampLimit q.limit ≠ 0 := by
    rw [clampLimit]
    omega
  have hlength : (q.rows order view T).length ≤ seen.length := by
    rw [Query.fetch, clampOffset_natCast, List.take_eq_nil_iff] at hend
    exact List.drop_eq_nil_iff.mp (hend.resolve_left hlimit)
  rw [List.take_of_length_le (by rwa [List.length_map])]
  exact (Query.rows_sublist h.kept h.nodup).subset hrow

theorem Walk.covers
    (hwrites : ∀ T T', writes T T' → ((T.map view).map q.stamp).Nodup →
      (T.map view).Subperm (T'.map view) ∧ ((T'.map view).map q.stamp).Nodup)
    (h₀ : ((T₀.map view).map q.stamp).Nodup) (h : Walk writes (q.fetch order view) T₀ seen T) :
    Covers order view q T₀ seen T := by
  induction h with
  | start => exact .start h₀
  | write _ hwrite ih =>
    obtain ⟨hkept, hnodup⟩ := hwrites _ _ hwrite ih.nodup
    exact ih.write hkept hnodup
  | page _ ih => exact ih.page

/-- A row whose id no other has is told apart from all others. -/
theorem keeps_cons {row : ρ}
    (hfresh : (q.stamp (view row)).id ∉ T.map fun row => (q.stamp (view row)).id)
    (h : ((T.map view).map q.stamp).Nodup) :
    (T.map view).Subperm ((row :: T).map view) ∧ (((row :: T).map view).map q.stamp).Nodup := by
  refine ⟨(List.sublist_cons_self _ _).subperm, List.nodup_cons.mpr ⟨fun hmem => hfresh ?_, h⟩⟩
  obtain ⟨x, hx, heq⟩ := List.mem_map.mp hmem
  obtain ⟨other, hother, rfl⟩ := List.mem_map.mp hx
  exact List.mem_map.mpr ⟨other, hother, congrArg Stamp.id heq⟩

end Walk

/-! ## Rows that are never updated -/

section Inserts

variable {ρ : Type} {order : NewestFirst} {T₀ T T' seen : List ρ}

/-- An `INSERT`, which gives the row an id that no other has. -/
def Inserts (stamp : ρ → Stamp) (T T' : List ρ) : Prop :=
  ∃ row, (stamp row).id ∉ (T.map fun row => (stamp row).id) ∧ T' = row :: T

/-- The ids of the rows are a primary key. -/
def Numbered (stamp : ρ → Stamp) (T : List ρ) : Prop := (T.map fun row => (stamp row).id).Nodup

theorem Numbered.nodup {stamp : ρ → Stamp} (h : Numbered stamp T) : (T.map stamp).Nodup := by
  refine List.Nodup.of_map Stamp.id ?_
  rwa [List.map_map]

theorem Walk.reads_all {q : Query ρ} (h₀ : Numbered q.stamp T₀)
    (h : Walk (Inserts q.stamp) (q.fetch order id) T₀ seen T)
    (hend : q.fetch order id seen.length T = []) (row : ρ) :
    (row ∈ T₀ → q.kept row = true → row ∈ seen) ∧ (row ∈ seen → row ∈ T ∧ q.kept row = true) := by
  have hcovers : Covers order id q T₀ seen T := by
    refine Walk.covers ?_ ?_ h
    · rintro T _ ⟨row, hfresh, rfl⟩ hnodup
      exact keeps_cons hfresh hnodup
    · rw [List.map_id]
      exact h₀.nodup
  have hall := hcovers.all_seen hend row
  have hshown := hcovers.shown row
  rw [Query.mem_rows_iff] at hshown
  simp only [List.map_id] at hall hshown
  exact ⟨hall, hshown⟩

/-- A caller that reads the audit log page after page, until a page is empty, has been shown every row
that was there when it began and passes the filters, and no row that does not pass them, whatever
requests have added to the log in the meantime. -/
theorem listAuditLog_covers {team requestId : Option String} {limit : ℤ}
    {T₀ seen T : List AuditLogRow} (h₀ : Numbered AuditLogRow.stamp T₀)
    (h : Walk (Inserts AuditLogRow.stamp) (listAuditLog order team requestId limit) T₀ seen T)
    (hend : listAuditLog order team requestId limit seen.length T = []) (row : AuditLogRow) :
    (row ∈ T₀ → textFilter team row.team → textFilter requestId row.requestId → row ∈ seen) ∧
      (row ∈ seen → row ∈ T ∧ textFilter team row.team ∧ textFilter requestId row.requestId) := by
  obtain ⟨hall, hshown⟩ := Walk.reads_all (q := ⟨AuditLogRow.stamp,
    fun row => textFilter team row.team && textFilter requestId row.requestId, limit⟩) h₀ h hend row
  simp only [Bool.and_eq_true] at hall hshown
  exact ⟨fun hrow hteam hid => hall hrow ⟨hteam, hid⟩, hshown⟩

/-- A row of the log, for a request that failed. -/
def logged (id : ℤ) : AuditLogRow where
  requestId := "r"
  apiKeyHash := "h"
  team := "a"
  requestedModel := "default"
  provider := ""
  outcome := "error"
  inputTokens := .int 0
  outputTokens := .int 0
  costUsd := 0
  stamp := ⟨0, id⟩

/-- A third row comes in after the first page, so that a row is shown again. -/
theorem walk_logged : Walk (Inserts AuditLogRow.stamp) (listAuditLog newestById none none 2)
    [logged 1, logged 2] [logged 2, logged 1, logged 1] [logged 3, logged 1, logged 2] := by
  have hfirst : listAuditLog newestById none none 2 0 [logged 1, logged 2] =
      [logged 2, logged 1] := by
    simp [listAuditLog, Query.fetch, Query.rows, Query.le, List.mergeSort,
      List.MergeSort.Internal.splitInTwo, newestById, clampLimit, clampOffset, textFilter, logged]
  have hagain : listAuditLog newestById none none 2 [logged 2, logged 1].length
      [logged 3, logged 1, logged 2] = [logged 1] := by
    simp [listAuditLog, Query.fetch, Query.rows, Query.le, List.mergeSort,
      List.MergeSort.Internal.splitInTwo, newestById, clampLimit, clampOffset, textFilter, logged]
  have hbegin : Walk (Inserts AuditLogRow.stamp) (listAuditLog newestById none none 2)
      [logged 1, logged 2] [] [logged 1, logged 2] := .start
  have hinsert : Inserts AuditLogRow.stamp [logged 1, logged 2] [logged 3, logged 1, logged 2] :=
    ⟨logged 3, by decide, rfl⟩
  have hread := hbegin.page
  rw [List.length_nil, Nat.cast_zero, hfirst, List.nil_append] at hread
  have hreread := (hread.write hinsert).page
  rwa [hagain] at hreread

theorem listAuditLog_covers_logged :
    (logged 1 ∈ [logged 1, logged 2] → textFilter none "a" → textFilter none "r" →
        logged 1 ∈ [logged 2, logged 1, logged 1]) ∧
      (logged 1 ∈ [logged 2, logged 1, logged 1] →
        logged 1 ∈ [logged 3, logged 1, logged 2] ∧ textFilter none "a" ∧ textFilter none "r") :=
  listAuditLog_covers (by simp [Numbered, logged]) walk_logged (by
    simp [listAuditLog, Query.fetch, Query.rows, Query.le, List.mergeSort,
      List.MergeSort.Internal.splitInTwo, newestById, clampLimit, clampOffset, textFilter, logged]) (logged 1)

/-- The same of the log of the keys. -/
theorem listKeyEvents_covers {action : Option String} {keyId : Option ℤ} {limit : ℤ}
    {T₀ seen T : List AdminAuditRow} (h₀ : Numbered AdminAuditRow.stamp T₀)
    (h : Walk (Inserts AdminAuditRow.stamp) (listKeyEvents order action keyId limit) T₀ seen T)
    (hend : listKeyEvents order action keyId limit seen.length T = []) (row : AdminAuditRow) :
    (row ∈ T₀ → textFilter action row.action.text → keyId.all (· = row.keyId) → row ∈ seen) ∧
      (row ∈ seen → row ∈ T ∧ textFilter action row.action.text ∧ keyId.all (· = row.keyId)) := by
  obtain ⟨hall, hshown⟩ := Walk.reads_all (q := ⟨AdminAuditRow.stamp,
    fun row => textFilter action row.action.text && keyId.all (· = row.keyId), limit⟩) h₀ h hend row
  simp only [Bool.and_eq_true] at hall hshown
  exact ⟨fun hrow haction hid => hall hrow ⟨haction, hid⟩, hshown⟩

end Inserts

/-! ## Keys -/

section Keys

/-- The row, with `revoked` set if its id is this one. -/
def ApiKeyRow.revokeIf (id : ℤ) (row : ApiKeyRow) : ApiKeyRow :=
  { row with toApiKeyRecord := row.toApiKeyRecord.revokeIf id }

variable {order : NewestFirst} {limit : ℤ} {id : ℤ} {row : ApiKeyRow} {T₀ T T' seen : List ApiKeyRow}

@[simp] theorem ApiKeyRow.issuedKey_revokeIf : (row.revokeIf id).issuedKey = row.issuedKey := by
  simp [revokeIf, issuedKey]

theorem ApiKeyRow.revoked_revokeIf (h : row.revoked = true) : (row.revokeIf id).revoked = true := by
  rw [revokeIf, ApiKeyRecord.revokeIf]
  split
  · rfl
  · exact h

/-- What the routes do to the table. -/
inductive KeyWrites (T : List ApiKeyRow) : List ApiKeyRow → Prop
  /-- `create_key` -/
  | issue {keys keys' : ApiKeys} {row : ApiKeyRow}
      (hkeys : keys.rows = T.map ApiKeyRow.toApiKeyRecord)
      (hinsert : keys.insert? row.toApiKeyRecord = some keys') : KeyWrites T (row :: T)
  /-- `revoke_key` -/
  | revoke (id : ℤ) : KeyWrites T (T.map (ApiKeyRow.revokeIf id))

theorem not_mem_ids {keys keys' : ApiKeys} (hkeys : keys.rows = T.map ApiKeyRow.toApiKeyRecord)
    (hinsert : keys.insert? row.toApiKeyRecord = some keys') : ∀ other ∈ T, other.id ≠ row.id := by
  intro other hother
  refine (ApiKeys.insert?_eq_some hinsert).1 other.toApiKeyRecord ?_
  rw [hkeys]
  exact List.mem_map_of_mem hother

theorem map_issuedKey_revokeIf :
    (T.map (ApiKeyRow.revokeIf id)).map ApiKeyRow.issuedKey = T.map ApiKeyRow.issuedKey := by
  rw [List.map_map]
  exact List.map_congr_left fun row _ => ApiKeyRow.issuedKey_revokeIf

theorem KeyWrites.keeps (h : KeyWrites T T')
    (hnodup : ((T.map ApiKeyRow.issuedKey).map IssuedKey.stamp).Nodup) :
    (T.map ApiKeyRow.issuedKey).Subperm (T'.map ApiKeyRow.issuedKey) ∧
      ((T'.map ApiKeyRow.issuedKey).map IssuedKey.stamp).Nodup := by
  cases h with
  | issue hkeys hinsert =>
    refine keeps_cons (q := ⟨IssuedKey.stamp, fun _ => true, 0⟩) ?_ hnodup
    intro hmem
    obtain ⟨other, hother, heq⟩ := List.mem_map.mp hmem
    exact not_mem_ids hkeys hinsert other hother heq
  | revoke id =>
    rw [map_issuedKey_revokeIf]
    exact ⟨List.Subperm.refl _, hnodup⟩

/-- A key that is revoked in `A` is revoked in `B`. -/
def StaysRevoked (A B : List ApiKeyRow) : Prop :=
  ∀ row ∈ A, ∀ row' ∈ B, row.issuedKey = row'.issuedKey → row.revoked = true → row'.revoked = true

/-- A key in the table is there once. -/
theorem StaysRevoked.refl (h : ((T.map ApiKeyRow.issuedKey).map IssuedKey.stamp).Nodup) :
    StaysRevoked T T := by
  intro row hrow row' hrow' heq hrevoked
  obtain rfl := List.inj_on_of_nodup_map h.of_map hrow hrow' heq
  exact hrevoked

theorem StaysRevoked.write {A : List ApiKeyRow} (h : StaysRevoked A T)
    (hsub : A.map ApiKeyRow.issuedKey ⊆ T.map ApiKeyRow.issuedKey) (hwrite : KeyWrites T T') :
    StaysRevoked A T' := by
  cases hwrite with
  | @issue _ _ new hkeys hinsert =>
    intro row hrow row' hrow' heq
    rcases List.mem_cons.mp hrow' with rfl | hrow'
    · -- what comes in has an id of its own
      obtain ⟨other, hother, hsame⟩ := List.mem_map.mp (hsub (List.mem_map_of_mem hrow))
      have hid : other.id = row'.id :=
        congrArg (fun key : IssuedKey => key.stamp.id) (hsame.trans heq)
      exact absurd hid (not_mem_ids hkeys hinsert other hother)
    · exact h row hrow row' hrow' heq
  | revoke id =>
    intro row hrow row' hrow' heq hrevoked
    obtain ⟨old, hold, rfl⟩ := List.mem_map.mp hrow'
    rw [ApiKeyRow.issuedKey_revokeIf] at heq
    exact ApiKeyRow.revoked_revokeIf (h row hrow old hold heq hrevoked)

theorem Query.mem_of_mem_fetch {κ ρ : Type} {view : ρ → κ} {q : Query κ} {offset : ℤ} {T : List ρ}
    {row : ρ} (h : row ∈ q.fetch order view offset T) : row ∈ T := by
  have hrow := List.mem_of_mem_drop (List.mem_of_mem_take h)
  exact List.mem_of_mem_filter ((List.mergeSort_perm _ _).subset hrow)

/-- What a walk has shown of the keys, and the state they were shown in. -/
structure KeysRead (order : NewestFirst) (limit : ℤ) (T₀ seen T : List ApiKeyRow) : Prop where
  covers : Covers order ApiKeyRow.issuedKey ⟨IssuedKey.stamp, fun _ => true, limit⟩ T₀ seen T
  before : StaysRevoked T₀ T
  shown : StaysRevoked T₀ seen
  after : StaysRevoked seen T

theorem Walk.keysRead (h₀ : ((T₀.map ApiKeyRow.issuedKey).map IssuedKey.stamp).Nodup)
    (h : Walk KeyWrites (listKeys order limit) T₀ seen T) : KeysRead order limit T₀ seen T := by
  induction h with
  | start =>
    exact ⟨.start h₀, .refl h₀, fun _ _ _ h => absurd h List.not_mem_nil,
      fun _ h => absurd h List.not_mem_nil⟩
  | @write seen T T' _ hwrite ih =>
    obtain ⟨hkept, hnodup⟩ := hwrite.keeps ih.covers.nodup
    have hseen : seen.map ApiKeyRow.issuedKey ⊆ T.map ApiKeyRow.issuedKey := fun x hx =>
      (Query.mem_rows_iff.mp (ih.covers.shown x hx)).1
    exact ⟨ih.covers.write hkept hnodup, ih.before.write ih.covers.kept.subset hwrite, ih.shown,
      ih.after.write hseen hwrite⟩
  | @page seen T _ ih =>
    refine ⟨ih.covers.page, ih.before, fun row hrow row' hrow' => ?_, fun row hrow row' hrow' => ?_⟩
    · rcases List.mem_append.mp hrow' with hrow' | hrow'
      · exact ih.shown row hrow row' hrow'
      · exact ih.before row hrow row' (Query.mem_of_mem_fetch hrow')
    · rcases List.mem_append.mp hrow with hrow | hrow
      · exact ih.after row hrow row' hrow'
      · exact StaysRevoked.refl ih.covers.nodup row (Query.mem_of_mem_fetch hrow) row' hrow'

/-- A caller that lists the keys page after page, until a page is empty, has been shown every key that
was in the table when it began, whatever keys have been issued and revoked in the meantime. A key that
was revoked by then is shown as revoked, and one that is shown as revoked is. -/
theorem listKeys_covers (h₀ : (T₀.map fun row => row.id).Nodup)
    (h : Walk KeyWrites (listKeys order limit) T₀ seen T)
    (hend : listKeys order limit seen.length T = []) :
    (∀ row ∈ T₀, ∃ row' ∈ seen, row'.issuedKey = row.issuedKey ∧
      (row.revoked = true → row'.revoked = true)) ∧
    ∀ row' ∈ seen, ∃ row ∈ T, row.issuedKey = row'.issuedKey ∧
      (row'.revoked = true → row.revoked = true) := by
  have hstamps : ((T₀.map ApiKeyRow.issuedKey).map IssuedKey.stamp).Nodup := by
    refine List.Nodup.of_map Stamp.id ?_
    rwa [List.map_map, List.map_map]
  have hread := Walk.keysRead hstamps h
  refine ⟨fun row hrow => ?_, fun row' hrow' => ?_⟩
  · obtain ⟨row', hrow', heq⟩ := List.mem_map.mp
      (hread.covers.all_seen hend row.issuedKey (List.mem_map_of_mem hrow) rfl)
    exact ⟨row', hrow', heq, hread.shown row hrow row' hrow' heq.symm⟩
  · have hmem := (Query.mem_rows_iff.mp (hread.covers.shown _ (List.mem_map_of_mem hrow'))).1
    obtain ⟨row, hrow, heq⟩ := List.mem_map.mp hmem
    exact ⟨row, hrow, heq, hread.after row' hrow' row hrow heq.symm⟩

/-- A key of a team, which also serves as its hash. -/
def issuedTo (id : ℤ) (team : String) (revoked : Bool) : ApiKeyRow where
  id := id
  keyHash := team
  team := team
  revoked := revoked
  createdAt := 0

/-- After the first page the second key is revoked. It is not shown again. -/
theorem walk_issuedTo : Walk KeyWrites (listKeys newestById 1)
    [issuedTo 2 "b" false, issuedTo 1 "a" true] [issuedTo 2 "b" false, issuedTo 1 "a" true]
    [issuedTo 2 "b" true, issuedTo 1 "a" true] := by
  have hfirst : listKeys newestById 1 0 [issuedTo 2 "b" false, issuedTo 1 "a" true] =
      [issuedTo 2 "b" false] := by
    simp [listKeys, Query.fetch, Query.rows, Query.le, List.mergeSort,
      List.MergeSort.Internal.splitInTwo, newestById, clampLimit, clampOffset, issuedTo,
      ApiKeyRow.issuedKey]
  have hsecond : listKeys newestById 1 [issuedTo 2 "b" false].length
      [issuedTo 2 "b" true, issuedTo 1 "a" true] = [issuedTo 1 "a" true] := by
    simp [listKeys, Query.fetch, Query.rows, Query.le, List.mergeSort,
      List.MergeSort.Internal.splitInTwo, newestById, clampLimit, clampOffset, issuedTo,
      ApiKeyRow.issuedKey]
  have hbegin : Walk KeyWrites (listKeys newestById 1)
      [issuedTo 2 "b" false, issuedTo 1 "a" true] []
      [issuedTo 2 "b" false, issuedTo 1 "a" true] := .start
  have hread := hbegin.page
  rw [List.length_nil, Nat.cast_zero, hfirst, List.nil_append] at hread
  have hreread := (hread.write (.revoke 2)).page
  have hrevoked : [issuedTo 2 "b" false, issuedTo 1 "a" true].map (ApiKeyRow.revokeIf 2) =
      [issuedTo 2 "b" true, issuedTo 1 "a" true] := by decide
  rwa [hrevoked, hsecond] at hreread

theorem listKeys_covers_issuedTo :
    (∀ row ∈ [issuedTo 2 "b" false, issuedTo 1 "a" true],
      ∃ row' ∈ [issuedTo 2 "b" false, issuedTo 1 "a" true], row'.issuedKey = row.issuedKey ∧
        (row.revoked = true → row'.revoked = true)) ∧
    ∀ row' ∈ [issuedTo 2 "b" false, issuedTo 1 "a" true],
      ∃ row ∈ [issuedTo 2 "b" true, issuedTo 1 "a" true], row.issuedKey = row'.issuedKey ∧
        (row'.revoked = true → row.revoked = true) :=
  listKeys_covers (by decide) walk_issuedTo (by
    simp [listKeys, Query.fetch, Query.rows, Query.le, List.mergeSort,
      List.MergeSort.Internal.splitInTwo, newestById, clampLimit, clampOffset, issuedTo,
      ApiKeyRow.issuedKey])

end Keys

end LlmGateway.Admin
