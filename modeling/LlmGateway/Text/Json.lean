import Mathlib.Data.List.Basic
import Mathlib.Data.Nat.Basic
import Mathlib.Tactic.IntervalCases

/-!
# JSON texts

`Json.dumps` writes a value as Python's `json.dumps` does when it is left to its defaults: on one line
and in ASCII. What is not printable there is escaped, a character beyond the basic plane as the two
surrogates that UTF-16 has for it. `Json.loads?` reads a text, and `loads?_dumps` says that it reads
what was written.

The numbers here are integers.
-/

/-- A JSON value. -/
inductive Json where
  | null
  | bool (b : Bool)
  | int (n : ℤ)
  | str (s : String)
  | list (xs : List Json)
  | dict (kvs : List (String × Json))

namespace Json

/-- What holds of a value if it holds of its items holds of all values. -/
@[elab_as_elim, induction_eliminator]
theorem induct {P : Json → Prop} (null : P .null) (bool : ∀ b, P (.bool b)) (int : ∀ n, P (.int n))
    (str : ∀ s, P (.str s)) (list : ∀ xs, (∀ x ∈ xs, P x) → P (.list xs))
    (dict : ∀ kvs : List (String × Json), (∀ kv ∈ kvs, P kv.2) → P (.dict kvs)) (v : Json) : P v :=
  @Json.rec P (fun xs => ∀ x ∈ xs, P x) (fun kvs => ∀ kv ∈ kvs, P kv.2) (fun kv => P kv.2)
    null bool int str list dict (by simp) (fun _ _ hx hxs => List.forall_mem_cons.mpr ⟨hx, hxs⟩)
    (by simp) (fun _ _ hkv hkvs => List.forall_mem_cons.mpr ⟨hkv, hkvs⟩) (fun _ _ h => h) v

/-! ## Writing -/

/-- The characters that have a short escape, each with the letter of it. -/
def shorts : List (Char × Char) :=
  [('"', '"'), ('\\', '\\'), ('\n', 'n'), ('\r', 'r'), ('\t', 't'), (Char.ofNat 0x08, 'b'),
    (Char.ofNat 0x0C, 'f')]

/-- `\uXXXX`. -/
def unicode (n : ℕ) : List Char :=
  ['\\', 'u', Nat.digitChar (n / 0x1000 % 16), Nat.digitChar (n / 0x100 % 16),
    Nat.digitChar (n / 0x10 % 16), Nat.digitChar (n % 16)]

/-- A character inside of a string literal. -/
def escape (c : Char) : List Char :=
  match shorts.lookup c with
  | some letter => ['\\', letter]
  | none =>
    if 0x20 ≤ c.toNat ∧ c.toNat ≤ 0x7E then [c]
    else if c.toNat < 0x10000 then unicode c.toNat
    else
      unicode (0xD800 + (c.toNat - 0x10000) / 0x400) ++
        unicode (0xDC00 + (c.toNat - 0x10000) % 0x400)

/-- A string literal. -/
def quote (s : String) : List Char := '"' :: (s.toList.flatMap escape ++ ['"'])

/-- The items, with `", "` in between. -/
def commaSep : List (List Char) → List Char
  | [] => []
  | [s] => s
  | s :: t :: l => s ++ (',' :: ' ' :: commaSep (t :: l))

mutual

/-- `json.dumps(v)`. -/
def dumps : Json → List Char
  | .null => ['n', 'u', 'l', 'l']
  | .bool true => ['t', 'r', 'u', 'e']
  | .bool false => ['f', 'a', 'l', 's', 'e']
  | .int (.ofNat n) => Nat.toDigits 10 n
  | .int (.negSucc n) => '-' :: Nat.toDigits 10 (n + 1)
  | .str s => quote s
  | .list xs => '[' :: (commaSep (dumpsItems xs) ++ [']'])
  | .dict kvs => '\x7b' :: (commaSep (dumpsMembers kvs) ++ ['\x7d'])

/-- The items of a list. -/
def dumpsItems : List Json → List (List Char)
  | [] => []
  | x :: xs => dumps x :: dumpsItems xs

/-- The members of an object. -/
def dumpsMembers : List (String × Json) → List (List Char)
  | [] => []
  | (k, v) :: kvs => (quote k ++ (':' :: ' ' :: dumps v)) :: dumpsMembers kvs

end

theorem dumpsItems_eq_map (xs : List Json) : dumpsItems xs = xs.map dumps := by
  induction xs with
  | nil => rfl
  | cons x xs ih => rw [dumpsItems, ih, List.map_cons]

/-- A member of an object. -/
def dumpsMember (kv : String × Json) : List Char := quote kv.1 ++ (':' :: ' ' :: dumps kv.2)

theorem dumpsMembers_eq_map (kvs : List (String × Json)) :
    dumpsMembers kvs = kvs.map dumpsMember := by
  induction kvs with
  | nil => rfl
  | cons kv kvs ih => rw [dumpsMembers, ih, List.map_cons, dumpsMember]

/-! ## Reading -/

/-- The whitespace between tokens. -/
def isBlank (c : Char) : Bool := c = ' ' ∨ c = '\t' ∨ c = '\n' ∨ c = '\r'

def skip (s : List Char) : List Char := s.dropWhile isBlank

/-- The value of a hexadecimal digit. -/
def hexVal? (c : Char) : Option ℕ :=
  if '0' ≤ c ∧ c ≤ '9' then some (c.toNat - 0x30)
  else if 'a' ≤ c ∧ c ≤ 'f' then some (c.toNat - 0x57)
  else if 'A' ≤ c ∧ c ≤ 'F' then some (c.toNat - 0x37)
  else none

/-- Four hexadecimal digits. -/
def hex4? : List Char → Option (ℕ × List Char)
  | a :: b :: c :: d :: rest => do
    let a ← hexVal? a
    let b ← hexVal? b
    let c ← hexVal? c
    let d ← hexVal? d
    pure (((a * 16 + b) * 16 + c) * 16 + d, rest)
  | _ => none

/-- The character that the digits after `\u` stand for, with a second escape if they are those of a
surrogate. -/
def escaped? (s : List Char) : Option (Char × List Char) := do
  let (n, rest) ← hex4? s
  if n < 0xD800 ∨ 0xE000 ≤ n then pure (Char.ofNat n, rest)
  else
    match rest with
    | '\\' :: 'u' :: rest =>
      let (m, rest) ← hex4? rest
      if n < 0xDC00 ∧ 0xDC00 ≤ m ∧ m < 0xE000 then
        pure (Char.ofNat (0x10000 + (n - 0xD800) * 0x400 + (m - 0xDC00)), rest)
      else none
    | _ => none

/-- The next character of a string literal, or `none` for the quote at its end. -/
def char? : List Char → Option (Option Char × List Char)
  | [] => none
  | c :: rest =>
    if c = '"' then some (none, rest)
    else if c = '\\' then
      match rest with
      | [] => none
      | letter :: rest =>
        if letter = 'u' then (escaped? rest).map (Prod.map some id)
        else (('/', '/') :: shorts).find? (fun x => x.2 = letter) |>.map fun x => (some x.1, rest)
    else if c.toNat < 0x20 then none
    else some (some c, rest)

/-- A string literal from after its first quote on. -/
def string? : ℕ → List Char → Option (List Char × List Char)
  | 0, _ => none
  | n + 1, s =>
    match char? s with
    | none => none
    | some (none, rest) => some ([], rest)
    | some (some c, rest) => (string? n rest).map (Prod.map (c :: ·) id)

/-- Digits. -/
def natural? (s : List Char) : Option (ℕ × List Char) :=
  match s.takeWhile Char.isDigit with
  | [] => none
  | ds => some (Nat.ofDigitChars 10 ds 0, s.dropWhile Char.isDigit)

/-- An integer. -/
def integer? : List Char → Option (ℤ × List Char)
  | '-' :: rest => (natural? rest).map (Prod.map (fun n : ℕ => -(n : ℤ)) id)
  | s => (natural? s).map (Prod.map (fun n : ℕ => (n : ℤ)) id)

section Items

variable {α : Type} (item? : List Char → Option (α × List Char)) (close : Char)

/-- One item or more, with commas in between, up to the bracket `close`. -/
def items? : ℕ → List Char → Option (List α × List Char)
  | 0, _ => none
  | n + 1, s => do
    let (x, rest) ← item? s
    match skip rest with
    | [] => none
    | c :: rest =>
      if c = close then pure ([x], rest)
      else if c = ',' then (items? n (skip rest)).map (Prod.map (x :: ·) id)
      else none

/-- The items up to the bracket `close`. -/
def closed? (n : ℕ) (s : List Char) : Option (List α × List Char) :=
  match skip s with
  | [] => none
  | c :: rest => if c = close then some ([], rest) else items? item? close n (c :: rest)

end Items

/-- A member of an object. -/
def member? (value? : List Char → Option (Json × List Char)) (n : ℕ) :
    List Char → Option ((String × Json) × List Char)
  | '"' :: rest => do
    let (k, rest) ← string? n rest
    match skip rest with
    | ':' :: rest => (value? (skip rest)).map (Prod.map (Prod.mk (String.ofList k)) id)
    | _ => none
  | _ => none

/-- A value, on a text that does not start with whitespace. -/
def value? : ℕ → List Char → Option (Json × List Char)
  | 0, _ => none
  | n + 1, s =>
    match s with
    | 'n' :: 'u' :: 'l' :: 'l' :: rest => some (.null, rest)
    | 't' :: 'r' :: 'u' :: 'e' :: rest => some (.bool true, rest)
    | 'f' :: 'a' :: 'l' :: 's' :: 'e' :: rest => some (.bool false, rest)
    | '"' :: rest => (string? n rest).map (Prod.map (fun k => .str (String.ofList k)) id)
    | '[' :: rest => (closed? (value? n) ']' n rest).map (Prod.map .list id)
    | '\x7b' :: rest => (closed? (member? (value? n) n) '\x7d' n rest).map (Prod.map .dict id)
    | _ => (integer? s).map (Prod.map .int id)

/-- `json.loads(s)`. -/
def loads? (s : List Char) : Option Json :=
  match value? (s.length + 1) (skip s) with
  | some (v, rest) => if skip rest = [] then some v else none
  | none => none

/-! ## Characters are read as written -/

theorem hexVal?_digitChar {n : ℕ} (h : n < 16) : hexVal? n.digitChar = some n := by
  interval_cases n <;> rfl

theorem hex4?_unicode {n : ℕ} (hn : n < 0x10000) (rest : List Char) :
    hex4? ((unicode n).drop 2 ++ rest) = some (n, rest) := by
  have h : ∀ m, hexVal? (m % 16).digitChar = some (m % 16) := fun m =>
    hexVal?_digitChar (Nat.mod_lt m (by omega))
  have hvalue : ((n / 0x1000 % 16 * 16 + n / 0x100 % 16) * 16 + n / 0x10 % 16) * 16 + n % 16 = n := by
    omega
  simp [unicode, hex4?, h, hvalue]

/-- There are no characters where UTF-16 has its surrogates. -/
theorem toNat_cases (c : Char) : c.toNat < 0xD800 ∨ 0xE000 ≤ c.toNat ∧ c.toNat < 0x110000 :=
  c.valid.imp_right fun h => ⟨h.1, h.2⟩

theorem escaped?_unicode {c : Char} (h : c.toNat < 0x10000) (rest : List Char) :
    escaped? ((unicode c.toNat).drop 2 ++ rest) = some (c, rest) := by
  have hrange : c.toNat < 0xD800 ∨ 0xE000 ≤ c.toNat := (toNat_cases c).imp_right And.left
  rw [escaped?, hex4?_unicode h]
  simp [hrange]

theorem unicode_append (n : ℕ) (rest : List Char) :
    unicode n ++ rest = '\\' :: 'u' :: ((unicode n).drop 2 ++ rest) := rfl

/-- A pair of surrogates is read as the character they were computed from. -/
theorem escaped?_surrogates {c : Char} {n m : ℕ} (h : 0x10000 ≤ c.toNat)
    (hn : n = 0xD800 + (c.toNat - 0x10000) / 0x400)
    (hm : m = 0xDC00 + (c.toNat - 0x10000) % 0x400) (rest : List Char) :
    escaped? ((unicode n).drop 2 ++ (unicode m ++ rest)) = some (c, rest) := by
  have hlt : c.toNat < 0x110000 := by
    rcases toNat_cases c with hlow | hhigh
    · omega
    · exact hhigh.2
  have hhigh : ¬ (n < 0xD800 ∨ 0xE000 ≤ n) := by omega
  have hpair : n < 0xDC00 ∧ 0xDC00 ≤ m ∧ m < 0xE000 := by omega
  have hvalue : 0x10000 + (n - 0xD800) * 0x400 + (m - 0xDC00) = c.toNat := by omega
  have hm' : m < 0x10000 := by omega
  rw [escaped?, hex4?_unicode (by omega), unicode_append]
  simp only [Option.bind_eq_bind, Option.bind_some, if_neg hhigh, hex4?_unicode hm', if_pos hpair,
    hvalue, Char.ofNat_toNat]
  rfl

theorem char?_unicode (n : ℕ) (rest : List Char) :
    char? (unicode n ++ rest) = (escaped? ((unicode n).drop 2 ++ rest)).map (Prod.map some id) := rfl

/-- What is written of a character is read as that character. -/
theorem char?_escape (c : Char) (rest : List Char) :
    char? (escape c ++ rest) = some (some c, rest) := by
  rw [escape]
  cases h : shorts.lookup c with
  | some letter =>
    obtain ⟨l, l', hshorts, -⟩ := List.lookup_eq_some_iff.mp h
    have hmem : (c, letter) ∈ shorts := by
      rw [hshorts]
      simp
    simp only [shorts, List.mem_cons, Prod.mk.injEq, List.not_mem_nil, or_false] at hmem
    rcases hmem with ⟨rfl, rfl⟩ | ⟨rfl, rfl⟩ | ⟨rfl, rfl⟩ | ⟨rfl, rfl⟩ | ⟨rfl, rfl⟩ | ⟨rfl, rfl⟩ | ⟨rfl, rfl⟩
    all_goals rfl
  | none =>
    dsimp only
    have hnone : ∀ x ∈ shorts, c ≠ x.1 := by simpa using h
    have hquote : c ≠ '"' := hnone ('"', '"') (by simp [shorts])
    have hbackslash : c ≠ '\\' := hnone ('\\', '\\') (by simp [shorts])
    split
    · next hprintable =>
      have hcontrol : ¬ c.toNat < 0x20 := by omega
      simp [char?, hquote, hbackslash, hcontrol]
    · split
      · next hbasic => rw [char?_unicode, escaped?_unicode hbasic, Option.map_some, Prod.map, id]
      · next hbeyond =>
        rw [List.append_assoc, char?_unicode, escaped?_surrogates (by omega) rfl rfl,
          Option.map_some, Prod.map, id]

/-- The literal of a string is read back, whatever follows. -/
theorem string?_escape {n : ℕ} {cs : List Char} (h : cs.length < n) (rest : List Char) :
    string? n (cs.flatMap escape ++ '"' :: rest) = some (cs, rest) := by
  induction cs generalizing n with
  | nil =>
    obtain ⟨n, rfl⟩ : ∃ m, n = m + 1 := ⟨n - 1, by omega⟩
    rfl
  | cons c cs ih =>
    obtain ⟨n, rfl⟩ : ∃ m, n = m + 1 := ⟨n - 1, by omega⟩
    have hrest : string? n (cs.flatMap escape ++ '"' :: rest) = some (cs, rest) :=
      ih (by simpa using h)
    rw [List.flatMap_cons, List.append_assoc, string?, char?_escape]
    simp only [hrest, Option.map_some, Prod.map, id]

theorem one_le_length_escape (c : Char) : 1 ≤ (escape c).length := by
  unfold escape
  split
  · simp
  · split
    · simp
    · split <;> simp [unicode]

theorem length_le_escape (cs : List Char) : cs.length ≤ (cs.flatMap escape).length := by
  induction cs with
  | nil => simp
  | cons c cs ih =>
    have hc := one_le_length_escape c
    simp only [List.flatMap_cons, List.length_append, List.length_cons]
    omega

/-! ## Numbers are read as written -/

/-- The text does not go on with a digit. -/
def Ends (rest : List Char) : Prop := ∀ c ∈ rest.head?, c.isDigit = false

theorem natural?_toDigits (n : ℕ) {rest : List Char} (h : Ends rest) :
    natural? (Nat.toDigits 10 n ++ rest) = some (n, rest) := by
  have hdigits : ∀ c ∈ Nat.toDigits 10 n, c.isDigit = true := fun c hc =>
    Nat.isDigit_of_mem_toDigits (by omega) (by omega) hc
  have hrest : rest.takeWhile Char.isDigit = [] ∧ rest.dropWhile Char.isDigit = rest := by
    cases rest with
    | nil => exact ⟨rfl, rfl⟩
    | cons c rest =>
      have hc : ¬ c.isDigit = true := by simpa using h c rfl
      exact ⟨List.takeWhile_cons_of_neg hc, List.dropWhile_cons_of_neg hc⟩
  rw [natural?, List.takeWhile_append_of_pos hdigits, List.dropWhile_append_of_pos hdigits, hrest.1,
    hrest.2, List.append_nil]
  cases hds : Nat.toDigits 10 n with
  | nil => exact absurd hds Nat.toDigits_ne_nil
  | cons d ds =>
    dsimp only
    rw [← hds, Nat.ofDigitChars_toDigits (by omega) (by omega)]

theorem integer?_dumps (n : ℤ) {rest : List Char} (h : Ends rest) :
    integer? (dumps (.int n) ++ rest) = some (n, rest) := by
  cases n with
  | ofNat n =>
    obtain ⟨d, ds, hds⟩ := List.exists_cons_of_ne_nil (Nat.toDigits_ne_nil (b := 10) (n := n))
    have hd : d.isDigit = true :=
      Nat.isDigit_of_mem_toDigits (by omega) (by omega) (hds ▸ List.mem_cons_self)
    have hminus : d ≠ '-' := by
      rintro rfl
      exact Bool.noConfusion hd
    have hunsigned : integer? (Nat.toDigits 10 n ++ rest) =
        (natural? (Nat.toDigits 10 n ++ rest)).map (Prod.map (fun n : ℕ => (n : ℤ)) id) := by
      rw [hds, List.cons_append, integer?]
      simpa using hminus
    rw [dumps, hunsigned, natural?_toDigits n h]
    rfl
  | negSucc n =>
    rw [dumps, List.cons_append, integer?, natural?_toDigits _ h]
    rfl

/-! ## Items are read as written -/

theorem ends_cons {c : Char} {rest : List Char} (h : c.isDigit = false) : Ends (c :: rest) := by
  rintro _ ⟨⟩
  exact h

theorem skip_cons {c : Char} {s : List Char} (h : isBlank c = false) : skip (c :: s) = c :: s :=
  List.dropWhile_cons_of_neg (by simp [h])

theorem skip_space (s : List Char) : skip (' ' :: s) = skip s := rfl

/-- A text that starts with a character that is neither whitespace nor `close`. -/
def Solid (close : Char) (s : List Char) : Prop :=
  ∃ c t, s = c :: t ∧ isBlank c = false ∧ c ≠ close

theorem Solid.skip_append {close : Char} {s : List Char} (h : Solid close s) (rest : List Char) :
    skip (s ++ rest) = s ++ rest := by
  obtain ⟨c, t, rfl, hc, -⟩ := h
  exact skip_cons hc

theorem Solid.commaSep {close : Char} {s : List Char} {l : List (List Char)} (h : Solid close s) :
    Solid close (commaSep (s :: l)) := by
  cases l with
  | nil => exact h
  | cons s' l =>
    obtain ⟨c, t, rfl, hc, hne⟩ := h
    exact ⟨c, t ++ (',' :: ' ' :: Json.commaSep (s' :: l)), rfl, hc, hne⟩

theorem length_le_commaSep {s : List Char} {l : List (List Char)} (h : s ∈ l) :
    s.length ≤ (commaSep l).length := by
  induction l with
  | nil => cases h
  | cons t l ih =>
    cases l with
    | nil =>
      obtain rfl := List.mem_singleton.mp h
      exact le_rfl
    | cons t' l =>
      simp only [commaSep, List.length_append, List.length_cons]
      rcases List.mem_cons.mp h with rfl | hmem
      · omega
      · have := ih hmem
        omega

theorem length_le_length_commaSep {close : Char} {l : List (List Char)} (h : ∀ s ∈ l, Solid close s) :
    l.length ≤ (commaSep l).length := by
  induction l with
  | nil => simp
  | cons s l ih =>
    obtain ⟨⟨c, t, rfl, -⟩, hl⟩ := List.forall_mem_cons.mp h
    cases l with
    | nil => simp [commaSep]
    | cons s' l =>
      have := ih hl
      simp only [commaSep, List.length_append, List.length_cons] at this ⊢
      omega

section Items

variable {α : Type} {item? : List Char → Option (α × List Char)} {close : Char}
  {write : α → List Char} {xs : List α}

theorem items?_commaSep (hclose : close ≠ ',') (hblank : isBlank close = false)
    (hdigit : close.isDigit = false) (hsolid : ∀ x ∈ xs, Solid close (write x))
    (hread : ∀ x ∈ xs, ∀ rest, Ends rest → item? (write x ++ rest) = some (x, rest))
    (hne : xs ≠ []) {n : ℕ} (hn : xs.length ≤ n) (rest : List Char) :
    items? item? close n (commaSep (xs.map write) ++ close :: rest) = some (xs, rest) := by
  induction xs generalizing n with
  | nil => exact absurd rfl hne
  | cons x xs ih =>
    obtain ⟨n, rfl⟩ : ∃ m, n = m + 1 := ⟨n - 1, by simp only [List.length_cons] at hn; omega⟩
    obtain ⟨hx, hxs⟩ := List.forall_mem_cons.mp hread
    cases xs with
    | nil =>
      rw [List.map_singleton, commaSep, items?, hx _ (ends_cons hdigit)]
      simp [skip_cons hblank]
    | cons y ys =>
      have hys : items? item? close n (commaSep ((y :: ys).map write) ++ close :: rest) =
          some (y :: ys, rest) :=
        ih (List.forall_mem_cons.mp hsolid).2 hxs (List.cons_ne_nil y ys) (by simpa using hn)
      have hy : Solid close (commaSep ((y :: ys).map write)) :=
        Solid.commaSep (hsolid y (by simp))
      have htext : commaSep ((x :: y :: ys).map write) ++ close :: rest =
          write x ++ (',' :: ' ' :: (commaSep ((y :: ys).map write) ++ close :: rest)) := by
        simp [commaSep]
      have hcomma : skip (',' :: ' ' :: (commaSep ((y :: ys).map write) ++ close :: rest)) =
          ',' :: ' ' :: (commaSep ((y :: ys).map write) ++ close :: rest) := skip_cons (by decide)
      rw [htext, items?, hx _ (ends_cons (by decide))]
      simp only [Option.bind_eq_bind, Option.bind_some, hcomma, if_neg hclose.symm,
        skip_space, hy.skip_append, hys]
      rfl

theorem closed?_commaSep (hclose : close ≠ ',') (hblank : isBlank close = false)
    (hdigit : close.isDigit = false) (hsolid : ∀ x ∈ xs, Solid close (write x))
    (hread : ∀ x ∈ xs, ∀ rest, Ends rest → item? (write x ++ rest) = some (x, rest))
    {n : ℕ} (hn : xs.length ≤ n) (rest : List Char) :
    closed? item? close n (commaSep (xs.map write) ++ close :: rest) = some (xs, rest) := by
  cases xs with
  | nil =>
    rw [List.map_nil, commaSep, List.nil_append, closed?, skip_cons hblank]
    simp
  | cons x xs =>
    have hitems := items?_commaSep hclose hblank hdigit hsolid hread (List.cons_ne_nil x xs) hn rest
    have hx : Solid close (commaSep ((x :: xs).map write)) := Solid.commaSep (hsolid x (by simp))
    have hskip := hx.skip_append (close :: rest)
    obtain ⟨c, t, htext, -, hne⟩ := hx
    rw [closed?, hskip, htext, List.cons_append]
    dsimp only
    rw [if_neg hne, ← List.cons_append, ← htext, hitems]

end Items

/-! ## Values are read as written -/

theorem isBlank_of_isDigit {c : Char} (h : c.isDigit = true) : isBlank c = false := by
  rw [Bool.eq_false_iff]
  intro hblank
  simp only [isBlank, decide_eq_true_eq] at hblank
  rcases hblank with rfl | rfl | rfl | rfl <;> exact Bool.noConfusion h

theorem solid_dumps (v : Json) : Solid ']' (dumps v) := by
  cases v with
  | null => exact ⟨_, _, rfl, rfl, by decide⟩
  | bool b => cases b <;> exact ⟨_, _, rfl, rfl, by decide⟩
  | int n =>
    cases n with
    | ofNat n =>
      obtain ⟨d, ds, hds⟩ := List.exists_cons_of_ne_nil (Nat.toDigits_ne_nil (b := 10) (n := n))
      have hd : d.isDigit = true :=
        Nat.isDigit_of_mem_toDigits (by omega) (by omega) (hds ▸ List.mem_cons_self)
      refine ⟨d, ds, hds, isBlank_of_isDigit hd, ?_⟩
      rintro rfl
      exact Bool.noConfusion hd
    | negSucc n => exact ⟨_, _, rfl, rfl, by decide⟩
  | str s => exact ⟨_, _, rfl, rfl, by decide⟩
  | list xs => exact ⟨_, _, rfl, rfl, by decide⟩
  | dict kvs => exact ⟨_, _, rfl, rfl, by decide⟩

theorem value?_int {n : ℕ} {m : ℤ} {rest : List Char} (h : Ends rest) :
    value? (n + 1) (dumps (.int m) ++ rest) = some (.int m, rest) := by
  have hinteger := integer?_dumps m h
  obtain ⟨c, t, htext, hc⟩ : ∃ c t, dumps (.int m) ++ rest = c :: t ∧ (c.isDigit = true ∨ c = '-') := by
    cases m with
    | ofNat m =>
      obtain ⟨d, ds, hds⟩ := List.exists_cons_of_ne_nil (Nat.toDigits_ne_nil (b := 10) (n := m))
      refine ⟨d, ds ++ rest, congrArg (· ++ rest) hds, .inl ?_⟩
      exact Nat.isDigit_of_mem_toDigits (by omega) (by omega) (hds ▸ List.mem_cons_self)
    | negSucc m => exact ⟨_, _, rfl, .inr rfl⟩
  rw [htext] at hinteger ⊢
  have hother : value? (n + 1) (c :: t) = (integer? (c :: t)).map (Prod.map .int id) := by
    unfold value?
    split
    all_goals first
      | rfl
      | (rcases hc with hc | hc <;> simp_all)
  rw [hother, hinteger]
  rfl

theorem length_quote (k : String) : k.length + 2 ≤ (quote k).length := by
  have := length_le_escape k.toList
  simp only [quote, List.length_cons, List.length_append, List.length_nil, String.length_toList]
    at this ⊢
  omega

theorem member?_dumps {k : String} {v : Json} {n : ℕ} (hk : k.length < n) {rest : List Char}
    (hv : value? n (dumps v ++ rest) = some (v, rest)) :
    member? (value? n) n (dumpsMember (k, v) ++ rest) = some ((k, v), rest) := by
  have hkey : string? n (k.toList.flatMap escape ++ '"' :: (':' :: ' ' :: dumps v ++ rest)) =
      some (k.toList, ':' :: ' ' :: dumps v ++ rest) := string?_escape (by simpa only [String.length_toList] using hk) _
  have hcolon : skip (':' :: ' ' :: (dumps v ++ rest)) = ':' :: ' ' :: (dumps v ++ rest) :=
    skip_cons (by decide)
  have htext : dumpsMember (k, v) ++ rest =
      '"' :: (k.toList.flatMap escape ++ '"' :: (':' :: ' ' :: dumps v ++ rest)) := by
    simp [dumpsMember, quote]
  rw [htext, member?, hkey]
  simp only [Option.bind_eq_bind, Option.bind_some, List.cons_append, hcolon, skip_space,
    (solid_dumps v).skip_append, hv]
  simp

/-- A value is read back, whatever follows. -/
theorem value?_dumps {v : Json} {n : ℕ} (hn : (dumps v).length < n) {rest : List Char}
    (h : Ends rest) : value? n (dumps v ++ rest) = some (v, rest) := by
  induction v generalizing n rest with
  | null =>
    obtain ⟨n, rfl⟩ : ∃ m, n = m + 1 := ⟨n - 1, by omega⟩
    rfl
  | bool b =>
    obtain ⟨n, rfl⟩ : ∃ m, n = m + 1 := ⟨n - 1, by omega⟩
    cases b <;> rfl
  | int m =>
    obtain ⟨n, rfl⟩ : ∃ m, n = m + 1 := ⟨n - 1, by omega⟩
    exact value?_int h
  | str s =>
    obtain ⟨n, rfl⟩ : ∃ m, n = m + 1 := ⟨n - 1, by omega⟩
    have hlength := length_quote s
    have hstring : string? n (s.toList.flatMap escape ++ '"' :: rest) = some (s.toList, rest) :=
      string?_escape (by rw [dumps] at hn; simp only [String.length_toList]; omega) rest
    rw [dumps, quote, List.cons_append, List.append_assoc, List.singleton_append, value?, hstring]
    simp
  | list xs ih =>
    obtain ⟨n, rfl⟩ : ∃ m, n = m + 1 := ⟨n - 1, by omega⟩
    rw [dumps, dumpsItems_eq_map] at hn ⊢
    simp only [List.length_cons, List.length_append, List.length_nil] at hn
    have hsolid : ∀ s ∈ xs.map dumps, Solid ']' s :=
      List.forall_mem_map.mpr fun x _ => solid_dumps x
    have hcount := length_le_length_commaSep hsolid
    rw [List.length_map] at hcount
    have hitems : closed? (value? n) ']' n (commaSep (xs.map dumps) ++ ']' :: rest) =
        some (xs, rest) := by
      refine closed?_commaSep (by decide) (by decide) (by decide) (fun x _ => solid_dumps x)
        (fun x hx rest hrest => ih x hx ?_ hrest) (by omega) rest
      have := length_le_commaSep (List.mem_map_of_mem hx : dumps x ∈ xs.map dumps)
      omega
    rw [List.cons_append, List.append_assoc, List.singleton_append, value?, hitems]
    rfl
  | dict kvs ih =>
    obtain ⟨n, rfl⟩ : ∃ m, n = m + 1 := ⟨n - 1, by omega⟩
    rw [dumps, dumpsMembers_eq_map] at hn ⊢
    simp only [List.length_cons, List.length_append, List.length_nil] at hn
    have hmember : ∀ kv, Solid '\x7d' (dumpsMember kv) := fun kv => ⟨'"', _, rfl, rfl, by decide⟩
    have hsolid : ∀ s ∈ kvs.map dumpsMember, Solid '\x7d' s := List.forall_mem_map.mpr fun kv _ => hmember kv
    have hcount := length_le_length_commaSep hsolid
    rw [List.length_map] at hcount
    have hitems : closed? (member? (value? n) n) '\x7d' n
        (commaSep (kvs.map dumpsMember) ++ '\x7d' :: rest) = some (kvs, rest) := by
      refine closed?_commaSep (by decide) (by decide) (by decide) (fun kv _ => hmember kv)
        (fun kv hkv rest hrest => ?_) (by omega) rest
      have hlength := length_le_commaSep (List.mem_map_of_mem hkv : dumpsMember kv ∈ kvs.map dumpsMember)
      have hquote := length_quote kv.1
      simp only [dumpsMember, List.length_append, List.length_cons] at hlength
      exact member?_dumps (by omega) (ih kv hkv (by omega) hrest)
    rw [List.cons_append, List.append_assoc, List.singleton_append, value?, hitems]
    rfl

/-- Reading a text that was written gives the value back. -/
theorem loads?_dumps (v : Json) : loads? (dumps v) = some v := by
  have hvalue : value? ((dumps v).length + 1) (dumps v ++ []) = some (v, []) :=
    value?_dumps (Nat.lt_succ_self _) (by simp [Ends])
  have hskip : skip (dumps v ++ []) = dumps v ++ [] := (solid_dumps v).skip_append []
  rw [List.append_nil] at hvalue hskip
  rw [loads?, hskip, hvalue]
  rfl

/-! ## A text is one line of ASCII -/

/-- A printable character of ASCII. -/
def Printable (c : Char) : Prop := 0x20 ≤ c.toNat ∧ c.toNat ≤ 0x7E

instance : DecidablePred Printable := fun _ => inferInstanceAs (Decidable (_ ∧ _))

theorem printable_of_isDigit {c : Char} (h : c.isDigit = true) : Printable c := by
  have hrange : 0x30 ≤ c.toNat ∧ c.toNat ≤ 0x39 := by
    simpa [Char.isDigit, UInt32.le_iff_toNat_le] using h
  exact ⟨by omega, by omega⟩

theorem printable_unicode (n : ℕ) : ∀ c ∈ unicode n, Printable c := by
  have hdigit : ∀ m < 16, Printable (Nat.digitChar m) := by decide
  have hmod : ∀ m, Printable (Nat.digitChar (m % 16)) := fun m =>
    hdigit _ (Nat.mod_lt m (by omega))
  have hbackslash : Printable '\\' := by decide
  have hu : Printable 'u' := by decide
  simp [unicode, hmod, hbackslash, hu]

theorem printable_escape (c : Char) : ∀ c' ∈ escape c, Printable c' := by
  have hletters : ∀ x ∈ shorts, ∀ c' ∈ ['\\', x.2], Printable c' := by
    simp [shorts, Printable]
  unfold escape
  split
  · next letter h =>
    obtain ⟨l, l', hshorts, -⟩ := List.lookup_eq_some_iff.mp h
    exact hletters (c, letter) (hshorts ▸ by simp)
  · split
    · next hprintable => exact List.forall_mem_singleton.mpr hprintable
    · split
      · exact printable_unicode _
      · exact List.forall_mem_append.mpr ⟨printable_unicode _, printable_unicode _⟩

theorem printable_quote (s : String) : ∀ c ∈ quote s, Printable c := by
  have hquote : Printable '"' := by decide
  refine List.forall_mem_cons.mpr ⟨hquote, List.forall_mem_append.mpr
    ⟨fun c hc => ?_, List.forall_mem_singleton.mpr hquote⟩⟩
  obtain ⟨c', -, hc'⟩ := List.mem_flatMap.mp hc
  exact printable_escape c' c hc'

theorem printable_commaSep {l : List (List Char)} (h : ∀ s ∈ l, ∀ c ∈ s, Printable c) :
    ∀ c ∈ commaSep l, Printable c := by
  have hcomma : Printable ',' := by decide
  have hspace : Printable ' ' := by decide
  induction l with
  | nil => simp [commaSep]
  | cons s l ih =>
    obtain ⟨hs, hl⟩ := List.forall_mem_cons.mp h
    cases l with
    | nil => exact hs
    | cons s' l =>
      refine List.forall_mem_append.mpr ⟨hs, ?_⟩
      exact List.forall_mem_cons.mpr ⟨hcomma, List.forall_mem_cons.mpr ⟨hspace, ih hl⟩⟩

theorem printable_dumps (v : Json) : ∀ c ∈ dumps v, Printable c := by
  have hdigits : ∀ n, ∀ c ∈ Nat.toDigits 10 n, Printable c := fun _ _ hc =>
    printable_of_isDigit (Nat.isDigit_of_mem_toDigits (by omega) (by omega) hc)
  have hbracket : ∀ c ∈ ['[', ']', '\x7b', '\x7d', ':', ' ', '-'], Printable c := by
    simp [Printable]
  induction v with
  | null => simp [dumps, Printable]
  | bool b => cases b <;> simp [dumps, Printable]
  | int n =>
    cases n with
    | ofNat n => exact hdigits n
    | negSucc n => exact List.forall_mem_cons.mpr ⟨hbracket _ (by simp), hdigits (n + 1)⟩
  | str s => exact printable_quote s
  | list xs ih =>
    rw [dumps, dumpsItems_eq_map]
    refine List.forall_mem_cons.mpr ⟨hbracket _ (by simp), List.forall_mem_append.mpr
      ⟨printable_commaSep (List.forall_mem_map.mpr ih), ?_⟩⟩
    exact List.forall_mem_singleton.mpr (hbracket _ (by simp))
  | dict kvs ih =>
    rw [dumps, dumpsMembers_eq_map]
    refine List.forall_mem_cons.mpr ⟨hbracket _ (by simp), List.forall_mem_append.mpr
      ⟨printable_commaSep (List.forall_mem_map.mpr fun kv hkv => ?_), ?_⟩⟩
    · refine List.forall_mem_append.mpr ⟨printable_quote kv.1, ?_⟩
      exact List.forall_mem_cons.mpr ⟨hbracket _ (by simp),
        List.forall_mem_cons.mpr ⟨hbracket _ (by simp), ih kv hkv⟩⟩
    · exact List.forall_mem_singleton.mpr (hbracket _ (by simp))

end Json
