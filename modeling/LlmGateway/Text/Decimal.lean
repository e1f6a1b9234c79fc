import LlmGateway.Text.Str
import Mathlib.Data.Nat.Digits.Defs
import Mathlib.Data.Rat.Floor

/-!
# Decimal numerals

Python's `int` on a string, and the decimal characters it reads and `\d` matches. Unicode has them
in runs of ten, so a table of the zeros is enough.
-/

namespace Str

/-- The decimal zeros of Unicode 15.0. -/
def decimalZeros : List ℕ :=
  [0x30, 0x660, 0x6F0, 0x7C0, 0x966, 0x9E6, 0xA66, 0xAE6, 0xB66, 0xBE6, 0xC66, 0xCE6, 0xD66, 0xDE6,
    0xE50, 0xED0, 0xF20, 0x1040, 0x1090, 0x17E0, 0x1810, 0x1946, 0x19D0, 0x1A80, 0x1A90, 0x1B50,
    0x1BB0, 0x1C40, 0x1C50, 0xA620, 0xA8D0, 0xA900, 0xA9D0, 0xA9F0, 0xAA50, 0xABF0, 0xFF10, 0x104A0,
    0x10D30, 0x11066, 0x110F0, 0x11136, 0x111D0, 0x112F0, 0x11450, 0x114D0, 0x11650, 0x116C0,
    0x11730, 0x118E0, 0x11950, 0x11C50, 0x11D50, 0x11DA0, 0x11F50, 0x16A60, 0x16AC0, 0x16B50,
    0x1D7CE, 0x1D7D8, 0x1D7E2, 0x1D7EC, 0x1D7F6, 0x1E140, 0x1E2F0, 0x1E4F0, 0x1E950, 0x1FBF0]

/-- `unicodedata.decimal(c)`. -/
def decimal? (c : Char) : Option ℕ :=
  (decimalZeros.find? fun z => z ≤ c.toNat ∧ c.toNat < z + 10).map (c.toNat - ·)

/-- Whether `\d` matches the character. -/
def isDecimal (c : Char) : Bool := (decimal? c).isSome

/-- The digits of a numeral. Single underscores may stand between them. -/
def digits? : List Char → Option (List ℕ)
  | [] => none
  | [c] => (decimal? c).map fun d => [d]
  | c :: '_' :: s => do
    let d ← decimal? c
    let ds ← digits? s
    pure (d :: ds)
  | c :: s => do
    let d ← decimal? c
    let ds ← digits? s
    pure (d :: ds)

/-- `sys.get_int_max_str_digits()`. -/
def maxDigits : ℕ := 4300

/-- The number that the digits spell, where there are not too many. -/
def natLiteral? (s : List Char) : Option ℕ :=
  match digits? s with
  | some ds => if ds.length ≤ maxDigits then some (Nat.ofDigits 10 ds.reverse) else none
  | none => none

/-- The blanks that `int` passes over. -/
def isIntSpace (c : Char) : Bool := isSpace c && !(0x1C ≤ c.toNat && c.toNat ≤ 0x1F)

/-- `int(s)`, which is `none` where it raises `ValueError`. -/
def int? (s : List Char) : Option ℤ :=
  match (s.dropWhile isIntSpace).rdropWhile isIntSpace with
  | '-' :: ds => (natLiteral? ds).map fun n => -(n : ℤ)
  | '+' :: ds => (natLiteral? ds).map fun n => (n : ℤ)
  | ds => (natLiteral? ds).map fun n => (n : ℤ)

/-- The nearest whole number, the even one of two. -/
def roundHalfEven (x : ℚ) : ℕ :=
  let n := ⌊x⌋₊
  if x - n < 1 / 2 ∨ x - n = 1 / 2 ∧ n % 2 = 0 then n else n + 1

/-- `f"{x:.{digits}f}"`, of a number that is not negative. -/
def fixed (digits : ℕ) (x : ℚ) : String :=
  let n := roundHalfEven (x * 10 ^ digits)
  toString (n / 10 ^ digits) ++ "." ++
    String.ofList ((Nat.toDigits 10 (n % 10 ^ digits)).leftpad digits '0')

/-! ## Decimal characters -/

theorem toNat_of_isDigit {c : Char} (h : c.isDigit = true) : 0x30 ≤ c.toNat ∧ c.toNat < 0x3A := by
  simp only [Char.isDigit, Bool.and_eq_true, decide_eq_true_eq, ge_iff_le] at h
  obtain ⟨hlo, hhi⟩ := h
  have hlo' : '0'.toNat ≤ c.toNat := UInt32.le_iff_toNat_le.mp hlo
  have hhi' : c.toNat ≤ '9'.toNat := UInt32.le_iff_toNat_le.mp hhi
  simp at hlo' hhi'
  omega

theorem decimal?_of_isDigit {c : Char} (h : c.isDigit = true) :
    decimal? c = some (c.toNat - 0x30) := by
  have hc := toNat_of_isDigit h
  rw [decimal?, decimalZeros, List.find?_cons_of_pos (by simp; omega)]
  rfl

theorem isDecimal_of_isDigit {c : Char} (h : c.isDigit = true) : isDecimal c = true := by
  rw [isDecimal, decimal?_of_isDigit h]
  rfl

/-! ## Numerals of plain digits -/

theorem digits?_of_isDigit {s : List Char} (hne : s ≠ []) (h : ∀ c ∈ s, c.isDigit = true) :
    digits? s = some (s.map fun c => c.toNat - 0x30) := by
  fun_induction digits? s with
  | case1 => exact absurd rfl hne
  | case2 c => simp [decimal?_of_isDigit (h c (by simp))]
  | case3 c s ih => exact absurd (h '_' (by simp)) (by decide)
  | case4 c s hs hunderscore ih =>
    rw [decimal?_of_isDigit (h c (by simp)), ih (by simpa using hs) fun c hc => h c (by simp [hc])]
    rfl

/-- Nothing that contains a slash is a numeral. -/
theorem digits?_of_slash {s : List Char} (h : '/' ∈ s) : digits? s = none := by
  have hslash : decimal? '/' = none := by decide
  have hcons {c : Char} {s : List Char} (h : c = '/' ∨ digits? s = none) :
      (do
        let d ← decimal? c
        let ds ← digits? s
        pure (d :: ds)) = none := by
    rcases h with rfl | h
    · rw [hslash]
      rfl
    · rw [h]
      cases decimal? c <;> rfl
  fun_induction digits? s with
  | case1 => rfl
  | case2 c =>
    obtain rfl := List.mem_singleton.mp h
    rfl
  | case3 c s ih =>
    refine hcons ?_
    rcases List.mem_cons.mp h with rfl | h
    · exact .inl rfl
    · rcases List.mem_cons.mp h with h | h
      · exact absurd h (by decide)
      · exact .inr (ih h)
  | case4 c s hs hunderscore ih =>
    refine hcons ?_
    rcases List.mem_cons.mp h with rfl | h
    · exact .inl rfl
    · exact .inr (ih h)

theorem natLiteral?_of_slash {s : List Char} (h : '/' ∈ s) : natLiteral? s = none := by
  rw [natLiteral?, digits?_of_slash h]

theorem mem_dropWhile_of_mem {p : Char → Bool} {c : Char} {s : List Char} (h : c ∈ s)
    (hc : ¬ p c = true) : c ∈ s.dropWhile p := by
  rw [← List.takeWhile_append_dropWhile (p := p) (l := s), List.mem_append] at h
  exact h.resolve_left fun hmem => hc (List.mem_takeWhile_imp hmem)

theorem int?_of_slash {s : List Char} (h : '/' ∈ s) : int? s = none := by
  have hblank : ¬ isIntSpace '/' = true := by decide
  have hmem : '/' ∈ (s.dropWhile isIntSpace).rdropWhile isIntSpace := by
    rw [List.rdropWhile, List.mem_reverse]
    exact mem_dropWhile_of_mem (List.mem_reverse.mpr (mem_dropWhile_of_mem h hblank)) hblank
  rw [int?]
  split
  · next ds heq =>
    rw [heq] at hmem
    rw [natLiteral?_of_slash ((List.mem_cons.mp hmem).resolve_left (by decide))]
    rfl
  · next ds heq =>
    rw [heq] at hmem
    rw [natLiteral?_of_slash ((List.mem_cons.mp hmem).resolve_left (by decide))]
    rfl
  · rw [natLiteral?_of_slash hmem]
    rfl

@[simp] theorem int?_nil : int? [] = none := rfl

/-- The number that plain digits spell. -/
def digitsValue (s : List Char) : ℕ := Nat.ofDigits 10 (s.map fun c => c.toNat - 0x30).reverse

theorem natLiteral?_of_isDigit {s : List Char} (hne : s ≠ []) (h : ∀ c ∈ s, c.isDigit = true) :
    natLiteral? s = if s.length ≤ maxDigits then some (digitsValue s) else none := by
  rw [natLiteral?, digits?_of_isDigit hne h]
  simp [digitsValue]

/-- `int` reads plain digits as they are. -/
theorem int?_of_isDigit {s : List Char} (hne : s ≠ []) (h : ∀ c ∈ s, c.isDigit = true) :
    int? s = if s.length ≤ maxDigits then some (digitsValue s : ℤ) else none := by
  have hspace : ∀ c ∈ s, ¬ isIntSpace c = true := by
    intro c hc
    have hdigit := toNat_of_isDigit (h c hc)
    simp [isIntSpace, isSpace]
    omega
  have hdrop : (s.dropWhile isIntSpace).rdropWhile isIntSpace = s := by
    rw [List.dropWhile_eq_self_iff.mpr fun hl => by simpa using hspace _ (List.getElem_mem hl),
      List.rdropWhile_eq_self_iff.mpr fun hl => hspace _ (List.getLast_mem hl)]
  rw [int?, hdrop]
  split
  · exact absurd (h '-' (by simp)) (by decide)
  · exact absurd (h '+' (by simp)) (by decide)
  · rw [natLiteral?_of_isDigit hne h]
    split <;> rfl

/-- Two more digits. -/
theorem digitsValue_append {s t : List Char} :
    digitsValue (s ++ t) = 10 ^ t.length * digitsValue s + digitsValue t := by
  simp [digitsValue, Nat.ofDigits_append, Nat.add_comm]

end Str
