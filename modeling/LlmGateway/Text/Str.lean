import Mathlib.Data.List.DropRight

/-!
# Methods of Python's `str`

A string is taken apart into its characters and put together again.
-/

namespace Str

/-- `c.isspace()`. -/
def isSpace (c : Char) : Bool :=
  (0x09 ≤ c.toNat ∧ c.toNat ≤ 0x0D) ∨ (0x1C ≤ c.toNat ∧ c.toNat ≤ 0x20) ∨
    (0x2000 ≤ c.toNat ∧ c.toNat ≤ 0x200A) ∨
    c.toNat ∈ [0x85, 0xA0, 0x1680, 0x2028, 0x2029, 0x202F, 0x205F, 0x3000]

/-- `s.strip()`. -/
def strip (s : String) : String :=
  String.ofList ((s.toList.dropWhile isSpace).rdropWhile isSpace)

/-- `s.split(sep)` for a single character. -/
def split (sep : Char) (s : String) : List String := (s.toList.splitOn sep).map String.ofList

/-- `s.isascii()`. -/
def isAscii (s : String) : Bool := s.toList.all fun c => c.toNat < 0x80

/-- `c.lower()` for a character of Latin-1. -/
def lowerChar (c : Char) : Char :=
  if (0x41 ≤ c.toNat ∧ c.toNat ≤ 0x5A) ∨ (0xC0 ≤ c.toNat ∧ c.toNat ≤ 0xDE ∧ c.toNat ≠ 0xD7) then
    Char.ofNat (c.toNat + 0x20)
  else c

/-- A string of Latin-1 characters, as the value of a header is decoded to. -/
structure Latin1 where
  text : String
  latin1 : ∀ c ∈ text.toList, c.toNat ≤ 0xFF

/-- `s.lower().startswith(start)`. -/
def Latin1.lowerStartsWith (s : Latin1) (start : String) : Bool :=
  start.toList.isPrefixOf (s.text.toList.map lowerChar)

/-- `s[n:]`. -/
def Latin1.drop (s : Latin1) (n : ℕ) : String := String.ofList (s.text.toList.drop n)

end Str
