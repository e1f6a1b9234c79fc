import LlmGateway.Db.ApiKeys
import LlmGateway.Text.Str

/-!
# The credential gates

Mirrors `require_api_key` of `app/security/auth.py` and `require_admin_key` of `app/admin/auth.py`,
as functions of the headers, the settings and the rows of `api_keys`.

Both compare with `hmac.compare_digest`, which on two strings raises `TypeError` unless both are
ASCII. A header is decoded as Latin-1, so a client can send one that is not.
-/

namespace LlmGateway

open Str

/-- `fastapi.HTTPException` with a text as its detail. -/
structure HttpException where
  statusCode : ℕ
  detail : String
  headers : List (String × String) := []

/-- What a gate raises. -/
inductive GateError where
  | httpException (e : HttpException)
  | typeError
  | multipleResultsFound

/-- `hmac.compare_digest` on two strings. -/
def compareDigest (a b : String) : Except GateError Bool :=
  if isAscii a = true ∧ isAscii b = true then .ok (a = b) else .error .typeError

/-! ## `require_api_key` -/

/-- `Settings.allowed_api_keys`. -/
def allowedApiKeys (gatewayApiKeys : String) : List String :=
  ((split ',' gatewayApiKeys).map strip).filter (· ≠ "")

/-- `_extract_key`. -/
def extractKey (authorization xApiKey : Option Latin1) : Option String :=
  match xApiKey.filter (·.text ≠ "") with
  | some x => some (strip x.text)
  | none =>
    match authorization with
    | some a => if a.lowerStartsWith "bearer " then some (strip (a.drop "bearer ".length)) else none
    | none => none

/-- `Result.scalar_one_or_none`. -/
def scalarOneOrNone {α : Type} : List α → Except GateError (Option α)
  | [] => .ok none
  | [a] => .ok (some a)
  | _ :: _ :: _ => .error .multipleResultsFound

section RequireApiKey

variable (hashKey : String → String)

/-- `_is_valid_db_key`. -/
def isValidDbKey (presented : String) (apiKeys : ApiKeys) : Except GateError Bool := do
  let record ← scalarOneOrNone
    (apiKeys.rows.filter fun row => row.keyHash = hashKey presented ∧ row.revoked = false)
  pure record.isSome

/-- The loop over the configured keys: whether one is the key presented. -/
def compareAll (presented : String) : List String → Except GateError Bool
  | [] => pure false
  | key :: keys => do if ← compareDigest presented key then pure true else compareAll presented keys

/-- `require_api_key`. -/
def requireApiKey (gatewayApiKeys : String) (apiKeys : ApiKeys)
    (authorization xApiKey : Option Latin1) : Except GateError String := do
  let allowed := allowedApiKeys gatewayApiKeys
  match (extractKey authorization xApiKey).filter (· ≠ "") with
  | none => Except.error (.httpException ⟨401, "missing API key", []⟩)
  | some presented =>
    if ← compareAll presented allowed then
      pure presented
    else if ← isValidDbKey hashKey presented apiKeys then
      pure presented
    -- fails closed where neither source has been set up
    else if allowed.isEmpty then
      Except.error (.httpException ⟨503, "gateway API key auth is not configured", []⟩)
    else
      Except.error (.httpException ⟨401, "invalid API key", []⟩)

end RequireApiKey

/-! ## `require_admin_key` -/

/-- `require_admin_key`. -/
def requireAdminKey (adminApiKey : Option String) (xAdminKey : Option Latin1) :
    Except GateError String := do
  match adminApiKey.filter (· ≠ "") with
  | none => Except.error (.httpException ⟨503, "admin API is not configured", []⟩)
  | some configured =>
    match (xAdminKey.map Latin1.text).filter (· ≠ "") with
    | none => Except.error (.httpException ⟨401, "invalid admin key", []⟩)
    | some presented =>
      if ← compareDigest presented configured then
        pure presented
      else
        Except.error (.httpException ⟨401, "invalid admin key", []⟩)

/-! ## The comparison -/

theorem compareDigest_of_isAscii {a b : String} (ha : isAscii a = true) (hb : isAscii b = true) :
    compareDigest a b = .ok (decide (a = b)) := if_pos ⟨ha, hb⟩

theorem compareDigest_eq_error {a b : String} (h : ¬ (isAscii a = true ∧ isAscii b = true)) :
    compareDigest a b = .error .typeError := if_neg h

/-- The loop gets to the configured key that is presented, or to the end. -/
def Comparable (presented : String) (allowed : List String) : Prop :=
  allowed = [] ∨
    isAscii presented = true ∧ ∀ key ∈ allowed.takeWhile (· ≠ presented), isAscii key = true

theorem comparable_cons {presented key : String} {keys : List String} :
    Comparable presented (key :: keys) ↔
      isAscii presented = true ∧
        (key = presented ∨ isAscii key = true ∧ Comparable presented keys) := by
  by_cases hkey : key = presented
  · simp [Comparable, hkey]
  · rw [Comparable, List.takeWhile_cons_of_pos (by simpa using hkey), List.forall_mem_cons,
      Comparable]
    refine ⟨fun h => ?_, fun h => ?_⟩
    · obtain ⟨hp, hk, hall⟩ := h.resolve_left (List.cons_ne_nil _ _)
      exact ⟨hp, .inr ⟨hk, .inr ⟨hp, hall⟩⟩⟩
    · obtain ⟨hp, h⟩ := h
      obtain ⟨hk, hkeys⟩ := h.resolve_left hkey
      refine .inr ⟨hp, hk, ?_⟩
      rcases hkeys with rfl | ⟨-, hall⟩
      · simp
      · exact hall

theorem compareAll_of_comparable {presented : String} {allowed : List String}
    (h : Comparable presented allowed) :
    compareAll presented allowed = .ok (decide (presented ∈ allowed)) := by
  induction allowed with
  | nil => rfl
  | cons key keys ih =>
    obtain ⟨hp, h⟩ := comparable_cons.mp h
    rcases eq_or_ne key presented with rfl | hkey
    · rw [compareAll, compareDigest_of_isAscii hp hp]
      simp [bind, Except.bind, pure, Except.pure]
    · obtain ⟨hk, hkeys⟩ := h.resolve_left hkey
      rw [compareAll, compareDigest_of_isAscii hp hk]
      simp [bind, Except.bind, hkey.symm, ih hkeys]

theorem compareAll_of_not_comparable {presented : String} {allowed : List String}
    (h : ¬ Comparable presented allowed) : compareAll presented allowed = .error .typeError := by
  induction allowed with
  | nil => exact absurd (.inl rfl) h
  | cons key keys ih =>
    rw [comparable_cons] at h
    by_cases hascii : isAscii presented = true ∧ isAscii key = true
    · have hkey : key ≠ presented := fun heq => h ⟨hascii.1, .inl heq⟩
      have hkeys : ¬ Comparable presented keys := fun hc => h ⟨hascii.1, .inr ⟨hascii.2, hc⟩⟩
      rw [compareAll, compareDigest_of_isAscii hascii.1 hascii.2]
      simp [bind, Except.bind, hkey.symm, ih hkeys]
    · rw [compareAll, compareDigest_eq_error hascii]
      rfl

/-! ## The lookup -/

theorem scalarOneOrNone_of_length_le {α : Type} {l : List α} (h : l.length ≤ 1) :
    scalarOneOrNone l = .ok l.head? := by
  match l with
  | [] => rfl
  | [a] => rfl
  | _ :: _ :: _ => simp at h

/-- The rows the lookup selects. -/
def validRows (hashKey : String → String) (presented : String) (apiKeys : ApiKeys) :
    List ApiKeyRecord :=
  apiKeys.rows.filter fun row => row.keyHash = hashKey presented ∧ row.revoked = false

theorem mem_validRows {hashKey : String → String} {presented : String} {apiKeys : ApiKeys}
    {row : ApiKeyRecord} :
    row ∈ validRows hashKey presented apiKeys ↔
      row ∈ apiKeys.rows ∧ row.keyHash = hashKey presented ∧ row.revoked = false := by
  simp [validRows]

/-- Hashes are unique, so the query finds one row at most. -/
theorem length_validRows (hashKey : String → String) (presented : String) (apiKeys : ApiKeys) :
    (validRows hashKey presented apiKeys).length ≤ 1 := by
  have hnodup : ((validRows hashKey presented apiKeys).map ApiKeyRecord.keyHash).Nodup :=
    apiKeys.keyHash_unique.sublist (List.filter_sublist.map _)
  have heq : (validRows hashKey presented apiKeys).map ApiKeyRecord.keyHash =
      List.replicate (validRows hashKey presented apiKeys).length (hashKey presented) := by
    refine List.eq_replicate_iff.mpr ⟨List.length_map _, ?_⟩
    simp +contextual [mem_validRows]
  rw [heq, List.nodup_replicate] at hnodup
  exact hnodup

/-- The lookup never fails, and says whether there is an unrevoked row with the hash. -/
theorem isValidDbKey_eq (hashKey : String → String) (presented : String) (apiKeys : ApiKeys) :
    isValidDbKey hashKey presented apiKeys =
      .ok (decide (∃ row ∈ apiKeys.rows, row.keyHash = hashKey presented ∧ row.revoked = false)) := by
  have hone : isValidDbKey hashKey presented apiKeys =
      .ok (validRows hashKey presented apiKeys).head?.isSome := by
    rw [isValidDbKey, ← validRows,
      scalarOneOrNone_of_length_le (length_validRows hashKey presented apiKeys)]
    rfl
  rw [hone, Except.ok.injEq, Bool.eq_iff_iff, decide_eq_true_iff, List.isSome_head?,
    ← List.length_pos_iff, List.length_pos_iff_exists_mem]
  exact exists_congr fun row => mem_validRows

/-! ## What a gate promises -/

/-- The gate returns the presented key if that is a valid one, and otherwise raises an
`HTTPException` of status 401 or 503. -/
def KeepsGate (presented : Option String) (Valid : String → Prop) :
    Except GateError String → Prop
  | .ok key => presented = some key ∧ Valid key
  | .error (.httpException e) =>
    (e.statusCode = 401 ∨ e.statusCode = 503) ∧ ∀ key, presented = some key → ¬ Valid key
  | .error _ => False

/-- The key a request presents. A blank header presents none. -/
def presentedKey (authorization xApiKey : Option Latin1) : Option String :=
  (extractKey authorization xApiKey).filter (· ≠ "")

/-- The key is configured, or its hash is that of an unrevoked row. -/
def IsValidKey (hashKey : String → String) (gatewayApiKeys : String) (apiKeys : ApiKeys)
    (key : String) : Prop :=
  key ∈ allowedApiKeys gatewayApiKeys ∨
    ∃ row ∈ apiKeys.rows, row.keyHash = hashKey key ∧ row.revoked = false

/-- The key an admin request presents. -/
def presentedAdminKey (xAdminKey : Option Latin1) : Option String :=
  (xAdminKey.map Latin1.text).filter (· ≠ "")

/-- `ADMIN_API_KEY`, where it is set. -/
def configuredAdminKey (adminApiKey : Option String) : Option String := adminApiKey.filter (· ≠ "")

section Gates

variable {hashKey : String → String} {gatewayApiKeys : String} {apiKeys : ApiKeys}
  {authorization xApiKey xAdminKey : Option Latin1} {adminApiKey : Option String} {key : String}

theorem requireApiKey_of_none (h : presentedKey authorization xApiKey = none) :
    requireApiKey hashKey gatewayApiKeys apiKeys authorization xApiKey =
      .error (.httpException ⟨401, "missing API key", []⟩) := by
  rw [requireApiKey, ← presentedKey, h]

/-- A key that is not compared to the end raises. -/
theorem requireApiKey_of_not_comparable (h : presentedKey authorization xApiKey = some key)
    (hkey : ¬ Comparable key (allowedApiKeys gatewayApiKeys)) :
    requireApiKey hashKey gatewayApiKeys apiKeys authorization xApiKey = .error .typeError := by
  rw [requireApiKey, ← presentedKey, h]
  simp only [compareAll_of_not_comparable hkey]
  rfl

theorem requireApiKey_of_valid (h : presentedKey authorization xApiKey = some key)
    (hkey : Comparable key (allowedApiKeys gatewayApiKeys))
    (hvalid : IsValidKey hashKey gatewayApiKeys apiKeys key) :
    requireApiKey hashKey gatewayApiKeys apiKeys authorization xApiKey = .ok key := by
  rw [requireApiKey, ← presentedKey, h]
  simp only [compareAll_of_comparable hkey, isValidDbKey_eq]
  by_cases hmem : key ∈ allowedApiKeys gatewayApiKeys
  · simp [bind, Except.bind, hmem, pure, Except.pure]
  · simp [bind, Except.bind, hmem, hvalid.resolve_left hmem, pure, Except.pure]

theorem requireApiKey_of_not_valid (h : presentedKey authorization xApiKey = some key)
    (hkey : Comparable key (allowedApiKeys gatewayApiKeys))
    (hvalid : ¬ IsValidKey hashKey gatewayApiKeys apiKeys key) :
    ∃ e, requireApiKey hashKey gatewayApiKeys apiKeys authorization xApiKey =
      .error (.httpException e) ∧ (e.statusCode = 401 ∨ e.statusCode = 503) := by
  obtain ⟨hmem, hrow⟩ := not_or.mp hvalid
  rw [requireApiKey, ← presentedKey, h]
  simp only [compareAll_of_comparable hkey, isValidDbKey_eq]
  by_cases hallowed : (allowedApiKeys gatewayApiKeys).isEmpty = true
  · exact ⟨_, by simp [bind, Except.bind, hmem, hrow, hallowed]; rfl, .inr rfl⟩
  · exact ⟨_, by simp [bind, Except.bind, hmem, hrow, hallowed]; rfl, .inl rfl⟩

/-- The gate for clients keeps its promise just when the presented key is compared to the end. -/
theorem keepsGate_requireApiKey :
    KeepsGate (presentedKey authorization xApiKey) (IsValidKey hashKey gatewayApiKeys apiKeys)
        (requireApiKey hashKey gatewayApiKeys apiKeys authorization xApiKey) ↔
      ∀ key, presentedKey authorization xApiKey = some key →
        Comparable key (allowedApiKeys gatewayApiKeys) := by
  cases h : presentedKey authorization xApiKey with
  | none =>
    rw [requireApiKey_of_none h]
    exact iff_of_true ⟨.inl rfl, nofun⟩ nofun
  | some key =>
    simp only [Option.some.injEq, forall_eq']
    by_cases hkey : Comparable key (allowedApiKeys gatewayApiKeys)
    · refine iff_of_true ?_ hkey
      by_cases hvalid : IsValidKey hashKey gatewayApiKeys apiKeys key
      · rw [requireApiKey_of_valid h hkey hvalid]
        exact ⟨rfl, hvalid⟩
      · obtain ⟨e, he, hstatus⟩ := requireApiKey_of_not_valid h hkey hvalid
        rw [he]
        refine ⟨hstatus, ?_⟩
        rintro _ ⟨⟩
        exact hvalid
    · rw [requireApiKey_of_not_comparable h hkey]
      exact iff_of_false id hkey

/-- The gate for admins keeps its promise just when the presented and the configured key are both
ASCII, or one of them is missing. -/
theorem keepsGate_requireAdminKey :
    KeepsGate (presentedAdminKey xAdminKey) (configuredAdminKey adminApiKey = some ·)
        (requireAdminKey adminApiKey xAdminKey) ↔
      ∀ presented configured, presentedAdminKey xAdminKey = some presented →
        configuredAdminKey adminApiKey = some configured →
          isAscii presented = true ∧ isAscii configured = true := by
  rw [requireAdminKey, ← presentedAdminKey, ← configuredAdminKey]
  cases configuredAdminKey adminApiKey with
  | none => exact iff_of_true ⟨.inr rfl, nofun⟩ nofun
  | some configured =>
    cases presentedAdminKey xAdminKey with
    | none => exact iff_of_true ⟨.inl rfl, nofun⟩ nofun
    | some presented =>
      simp only [Option.some.injEq, forall_eq', forall_apply_eq_imp_iff]
      by_cases hascii : isAscii presented = true ∧ isAscii configured = true
      · rw [compareDigest_of_isAscii hascii.1 hascii.2]
        refine iff_of_true ?_ hascii
        by_cases heq : presented = configured
        · simp [bind, Except.bind, pure, Except.pure, KeepsGate, heq]
        · have hne : ¬ configured = presented := Ne.symm heq
          simp [bind, Except.bind, heq, KeepsGate, hne]
      · rw [compareDigest_eq_error hascii]
        exact iff_of_false id hascii

end Gates

/-- Both gates accept exactly the valid keys and refuse the others cleanly just for the requests in
which no comparison meets a character that is not ASCII. -/
theorem gates_accept_exactly_iff (hashKey : String → String) :
    (∀ gatewayApiKeys apiKeys authorization xApiKey,
        KeepsGate (presentedKey authorization xApiKey) (IsValidKey hashKey gatewayApiKeys apiKeys)
            (requireApiKey hashKey gatewayApiKeys apiKeys authorization xApiKey) ↔
          ∀ key, presentedKey authorization xApiKey = some key →
            Comparable key (allowedApiKeys gatewayApiKeys)) ∧
      ∀ adminApiKey xAdminKey,
        KeepsGate (presentedAdminKey xAdminKey) (configuredAdminKey adminApiKey = some ·)
            (requireAdminKey adminApiKey xAdminKey) ↔
          ∀ presented configured, presentedAdminKey xAdminKey = some presented →
            configuredAdminKey adminApiKey = some configured →
              isAscii presented = true ∧ isAscii configured = true :=
  ⟨fun _ _ _ _ => keepsGate_requireApiKey, fun _ _ => keepsGate_requireAdminKey⟩

/-- One character of Latin-1 that is not ASCII. -/
def eAcute : Latin1 := ⟨"é", by simp⟩

/-- A header that is not ASCII makes both gates raise `TypeError`. -/
theorem gates_raise_typeError :
    ¬ KeepsGate (presentedKey none (some eAcute)) (IsValidKey id "k" .empty)
        (requireApiKey id "k" .empty none (some eAcute)) ∧
      ¬ KeepsGate (presentedAdminKey (some eAcute)) (configuredAdminKey (some "k") = some ·)
        (requireAdminKey (some "k") (some eAcute)) := by
  constructor
  · rw [keepsGate_requireApiKey]
    intro h
    have hkey := h "é" (by decide +kernel)
    exact absurd hkey (by simp [Comparable]; decide +kernel)
  · rw [keepsGate_requireAdminKey]
    intro h
    have hascii := h "é" "k" (by decide +kernel) (by decide +kernel)
    exact absurd hascii.1 (by decide +kernel)

end LlmGateway
