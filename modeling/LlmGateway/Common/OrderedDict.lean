import Mathlib.Algebra.BigOperators.Group.List.Basic
import Mathlib.Data.List.Nodup
import Mathlib.Tactic.Abel

/-!
# Dictionaries in insertion order

A dictionary is a list of entries with distinct keys. Assigning to a present key keeps its position
and assigning to a new one appends it, so iteration is in order of first insertion.
-/

variable {κ β : Type} [DecidableEq κ]

/-- A dictionary: its entries in insertion order, with no key twice. -/
structure OrderedDict (κ β : Type) where
  entries : List (κ × β)
  nodupKeys : (entries.map Prod.fst).Nodup

namespace OrderedDict

/-- Assign in place, or append. -/
def setEntry : List (κ × β) → κ → β → List (κ × β)
  | [], k, v => [(k, v)]
  | (k', v') :: es, k, v => if k' = k then (k, v) :: es else (k', v') :: setEntry es k v

/-- The value at the first entry with key `k`. -/
def getEntry : List (κ × β) → κ → β → β
  | [], _, default => default
  | (k', v') :: es, k, default => if k' = k then v' else getEntry es k default

theorem mem_keys_setEntry {es : List (κ × β)} {k p : κ} {v : β} :
    p ∈ (setEntry es k v).map Prod.fst ↔ p = k ∨ p ∈ es.map Prod.fst := by
  induction es with
  | nil => simp [setEntry]
  | cons e es ih =>
    obtain ⟨k', v'⟩ := e
    by_cases h : k' = k
    · simp [setEntry, h]
    · simp only [setEntry, if_neg h, List.map_cons, List.mem_cons, ih]
      exact or_left_comm

theorem nodup_setEntry {es : List (κ × β)} (h : (es.map Prod.fst).Nodup) (k : κ) (v : β) :
    ((setEntry es k v).map Prod.fst).Nodup := by
  induction es with
  | nil => simp [setEntry]
  | cons e es ih =>
    obtain ⟨k', v'⟩ := e
    obtain ⟨hk', hes⟩ := List.nodup_cons.mp h
    by_cases hk : k' = k
    · simpa [setEntry, hk] using h
    · rw [setEntry, if_neg hk]
      refine List.nodup_cons.mpr ⟨?_, ih hes⟩
      rw [mem_keys_setEntry]
      rintro (h | h)
      · exact hk h
      · exact hk' h

/-! ## The operations -/

/-- `{}`. -/
def empty : OrderedDict κ β := ⟨[], List.nodup_nil⟩

/-- `d[k] = v`. -/
def set (d : OrderedDict κ β) (k : κ) (v : β) : OrderedDict κ β :=
  ⟨setEntry d.entries k v, nodup_setEntry d.nodupKeys k v⟩

/-- `d.get(k, default)`. -/
def getD (d : OrderedDict κ β) (k : κ) (default : β) : β := getEntry d.entries k default

/-- `d.keys()`. -/
def keys (d : OrderedDict κ β) : List κ := d.entries.map Prod.fst

/-- `d.values()`. -/
def values (d : OrderedDict κ β) : List β := d.entries.map Prod.snd

instance : Membership κ (OrderedDict κ β) := ⟨fun d k => k ∈ d.keys⟩

omit [DecidableEq κ] in
theorem mem_def {d : OrderedDict κ β} {k : κ} : k ∈ d ↔ k ∈ d.keys := Iff.rfl

instance (d : OrderedDict κ β) (k : κ) : Decidable (k ∈ d) :=
  inferInstanceAs (Decidable (k ∈ d.keys))

omit [DecidableEq κ] in
@[simp] theorem not_mem_empty {k : κ} : k ∉ (empty : OrderedDict κ β) := List.not_mem_nil

@[simp] theorem mem_set {d : OrderedDict κ β} {k p : κ} {v : β} : p ∈ d.set k v ↔ p = k ∨ p ∈ d :=
  mem_keys_setEntry

@[simp] theorem getD_empty {k : κ} {x : β} : (empty : OrderedDict κ β).getD k x = x := rfl

theorem getD_set {d : OrderedDict κ β} {k p : κ} {v x : β} :
    (d.set k v).getD p x = if p = k then v else d.getD p x := by
  obtain ⟨es, hes⟩ := d
  simp only [getD, set]
  clear hes
  induction es with
  | nil => simp [setEntry, getEntry, eq_comm]
  | cons e es ih =>
    obtain ⟨k', v'⟩ := e
    by_cases hk : k' = k
    · subst hk
      by_cases hp : p = k' <;> simp [setEntry, getEntry, hp, eq_comm]
    · by_cases hp : k' = p
      · subst hp
        simp [setEntry, getEntry, hk]
      · simp [setEntry, getEntry, hk, hp, ih]

theorem getD_of_not_mem {d : OrderedDict κ β} {k : κ} {x : β} (h : k ∉ d) : d.getD k x = x := by
  obtain ⟨es, hes⟩ := d
  simp only [mem_def, keys, getD] at h ⊢
  clear hes
  induction es with
  | nil => rfl
  | cons e es ih =>
    rw [List.map_cons, List.mem_cons, not_or] at h
    rw [getEntry, if_neg (Ne.symm h.1), ih h.2]

theorem getD_of_mem_entries {d : OrderedDict κ β} {e : κ × β} {x : β} (h : e ∈ d.entries) :
    d.getD e.1 x = e.2 := by
  obtain ⟨es, hes⟩ := d
  simp only [getD] at h ⊢
  induction es with
  | nil => cases h
  | cons e' es ih =>
    obtain ⟨hk, hes⟩ := List.nodup_cons.mp hes
    rcases List.mem_cons.mp h with rfl | h
    · rw [getEntry, if_pos rfl]
    · have hne : e'.1 ≠ e.1 := fun heq => hk (heq ▸ List.mem_map_of_mem h)
      rw [getEntry, if_neg hne, ih hes h]

theorem mem_entries_of_mem {d : OrderedDict κ β} {k : κ} {x : β} (h : k ∈ d) :
    (k, d.getD k x) ∈ d.entries := by
  obtain ⟨e, he, rfl⟩ := List.mem_map.mp (mem_def.mp h)
  rwa [getD_of_mem_entries he]

/-! ## Sums over the entries -/

section Sum

variable {M : Type} [AddCommMonoid M]

/-- A sum in which only the entry at `p` counts is the term of that entry. -/
theorem sum_entries_single {d : OrderedDict κ β} (p : κ) (f : β → M) (x : β) :
    (d.entries.map fun e => if e.1 = p then f e.2 else 0).sum
      = if p ∈ d then f (d.getD p x) else 0 := by
  obtain ⟨es, hes⟩ := d
  simp only [mem_def, keys, getD]
  induction es with
  | nil => simp
  | cons e es ih =>
    obtain ⟨k, v⟩ := e
    obtain ⟨hk, hes⟩ := List.nodup_cons.mp hes
    simp only [List.map_cons, List.sum_cons, ih hes, List.mem_cons, getEntry]
    by_cases hp : k = p
    · subst hp
      simp [hk]
    · have hp' : p ≠ k := Ne.symm hp
      by_cases hm : p ∈ es.map Prod.fst <;> simp [hp, hp', hm]

end Sum

section AddTo

variable [AddCommGroup β]

/-- `d[k] = d.get(k, 0) + v`. -/
def addTo (d : OrderedDict κ β) (k : κ) (v : β) : OrderedDict κ β := d.set k (d.getD k 0 + v)

@[simp] theorem mem_addTo {d : OrderedDict κ β} {k p : κ} {v : β} :
    p ∈ d.addTo k v ↔ p = k ∨ p ∈ d := mem_set

theorem getD_addTo {d : OrderedDict κ β} {k p : κ} {v : β} :
    (d.addTo k v).getD p 0 = d.getD p 0 + if p = k then v else 0 := by
  rw [addTo, getD_set]
  split
  · next h => rw [h]
  · rw [add_zero]

/-- The sum of the values. -/
def total (d : OrderedDict κ β) : β := d.values.sum

omit [DecidableEq κ] in
@[simp] theorem total_empty : (empty : OrderedDict κ β).total = 0 := rfl

@[simp] theorem total_addTo {d : OrderedDict κ β} {k : κ} {v : β} :
    (d.addTo k v).total = d.total + v := by
  obtain ⟨es, hes⟩ := d
  simp only [total, values, addTo, set, getD]
  clear hes
  suffices h : ∀ x, ((setEntry es k (getEntry es k 0 + x)).map Prod.snd).sum
      = (es.map Prod.snd).sum + x from h v
  intro x
  induction es with
  | nil => simp [setEntry, getEntry]
  | cons e es ih =>
    obtain ⟨k', v'⟩ := e
    by_cases hk : k' = k
    · simp only [setEntry, getEntry, if_pos hk, List.map_cons, List.sum_cons]
      abel
    · simp only [setEntry, getEntry, if_neg hk, List.map_cons, List.sum_cons, ih, add_assoc]

end AddTo

end OrderedDict
