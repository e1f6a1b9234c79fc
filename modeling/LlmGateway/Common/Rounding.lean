import Mathlib.Data.Int.Log
import Mathlib.Data.NNRat.Defs
import Mathlib.Data.Rat.Floor
import Mathlib.Tactic.FieldSimp
import Mathlib.Tactic.Linarith
import Mathlib.Tactic.NormNum
import Mathlib.Tactic.Positivity
import Mathlib.Tactic.Ring

/-!
# Rounding

A floating-point operation computes the exact result and rounds it. A program is written once, with
every result passed through `fl`, and the rounding is a parameter: what is proved for any `Rounding`
holds in exact arithmetic (`Rounding.exact`) and in doubles (`Rounding.double`).

Doubles here have 53 bits and gradual underflow, and go on above the largest finite one.
-/

/-- A rounding of exact results. It is monotone, keeps what it rounds to and the unit, and treats
both signs alike. -/
class Rounding where
  fl : ℚ → ℚ
  mono : Monotone fl
  fl_fl : ∀ x, fl (fl x) = fl x
  fl_neg : ∀ x, fl (-x) = -fl x
  fl_one : fl 1 = 1

namespace Rounding

/-- Exact arithmetic: the instance wherever a section does not take another. -/
instance (priority := low) exact : Rounding where
  fl x := x
  mono := monotone_id
  fl_fl _ := rfl
  fl_neg _ := rfl
  fl_one := rfl

@[simp] theorem fl_exact (x : ℚ) : exact.fl x = x := rfl

section Lemmas

variable [Rounding] {x y : ℚ}

@[simp] theorem fl_zero : fl 0 = 0 := by
  have h := fl_neg 0
  rw [neg_zero] at h
  linarith

theorem fl_nonneg (h : 0 ≤ x) : 0 ≤ fl x := by
  rw [← fl_zero]
  exact mono h

theorem fl_nonpos (h : x ≤ 0) : fl x ≤ 0 := by
  rw [← fl_zero]
  exact mono h

theorem pos_of_fl_pos (h : 0 < fl x) : 0 < x := by
  by_contra hx
  exact absurd h (not_lt.mpr (fl_nonpos (not_lt.mp hx)))

/-- What the rounding keeps stays below what is rounded above it. -/
theorem le_fl (hx : fl x = x) (h : x ≤ y) : x ≤ fl y := by
  rw [← hx]
  exact mono h

theorem one_le_fl (h : 1 ≤ x) : 1 ≤ fl x := le_fl fl_one h

/-- The rounding of an amount that is not negative. -/
def flNonneg (x : ℚ≥0) : ℚ≥0 := ⟨fl x, fl_nonneg x.coe_nonneg⟩

end Lemmas

/-! ## Rounding to a nearest value -/

/-- `f` takes every number to a nearest one of the numbers `F`. -/
structure Nearest (F : ℚ → Prop) (f : ℚ → ℚ) : Prop where
  mem : ∀ x, F (f x)
  nearest : ∀ x y, F y → |x - f x| ≤ |x - y|

namespace Nearest

variable {F : ℚ → Prop} {f : ℚ → ℚ}

theorem eq_self (h : Nearest F f) {x : ℚ} (hx : F x) : f x = x := by
  have hle := h.nearest x x hx
  rw [sub_self, abs_zero, abs_nonpos_iff, sub_eq_zero] at hle
  exact hle.symm

theorem idem (h : Nearest F f) (x : ℚ) : f (f x) = f x := h.eq_self (h.mem x)

/-- Were `f y` below `f x`, both `x` and `y` would lie on the wrong side of the middle of the two.
-/
theorem monotone (h : Nearest F f) : Monotone f := by
  intro x y hxy
  by_contra hlt
  rw [not_le] at hlt
  have hx : f y + f x ≤ 2 * x := by
    have hle := sq_le_sq.mpr (h.nearest x (f y) (h.mem y))
    nlinarith
  have hy : 2 * y ≤ f y + f x := by
    have hle := sq_le_sq.mpr (h.nearest y (f x) (h.mem x))
    nlinarith
  obtain rfl : x = y := by linarith
  exact lt_irrefl _ hlt

end Nearest

/-! ## The nearest integer -/

/-- The nearest integer, and the even one of two that are equally near. -/
def roundHalfEven (x : ℚ) : ℤ :=
  if x - ⌊x⌋ < 1 / 2 then ⌊x⌋
  else if 1 / 2 < x - ⌊x⌋ then ⌊x⌋ + 1
  else if ⌊x⌋ % 2 = 0 then ⌊x⌋
  else ⌊x⌋ + 1

theorem roundHalfEven_spec (x : ℚ) : |x - roundHalfEven x| ≤ 1 / 2 ∧
    (|x - roundHalfEven x| = 1 / 2 → roundHalfEven x % 2 = 0) := by
  have hle := Int.floor_le x
  have hlt := Int.lt_floor_add_one x
  unfold roundHalfEven
  split_ifs with hlow hhigh heven
  · rw [abs_of_nonneg (by linarith)]
    exact ⟨hlow.le, fun h => absurd h hlow.ne⟩
  · rw [abs_of_nonpos (by push_cast; linarith)]
    push_cast
    exact ⟨by linarith, fun h => by linarith⟩
  · rw [abs_of_nonneg (by linarith)]
    exact ⟨by linarith, fun _ => heven⟩
  · rw [abs_of_nonpos (by push_cast; linarith)]
    push_cast
    exact ⟨by linarith, fun _ => by omega⟩

/-- Nothing else is as near. -/
theorem roundHalfEven_eq {x : ℚ} {n : ℤ} (h : |x - n| ≤ 1 / 2)
    (heven : |x - n| = 1 / 2 → n % 2 = 0) : roundHalfEven x = n := by
  obtain ⟨hspec, hparity⟩ := roundHalfEven_spec x
  generalize roundHalfEven x = m at hspec hparity
  have hdist : |(m : ℚ) - n| ≤ |x - m| + |x - n| := by
    rw [abs_sub_comm x m]
    exact abs_sub_le _ _ _
  by_contra hne
  have hone : (1 : ℚ) ≤ |(m : ℚ) - n| := by
    have hpos : 1 ≤ |m - n| := Int.one_le_abs (sub_ne_zero.mpr hne)
    exact_mod_cast hpos
  -- both are half away, so they are neighbours of which only one is even
  have hm : |x - m| = 1 / 2 := by linarith
  have hn : |x - n| = 1 / 2 := by linarith
  have hnear : |m - n| ≤ 1 := by
    have hcast : |(m : ℚ) - n| ≤ 1 := by linarith
    exact_mod_cast hcast
  have hm2 := hparity hm
  have hn2 := heven hn
  rw [abs_le] at hnear
  omega

theorem roundHalfEven_neg (x : ℚ) : roundHalfEven (-x) = -roundHalfEven x := by
  obtain ⟨hspec, hparity⟩ := roundHalfEven_spec x
  have habs : |-x - (-roundHalfEven x : ℤ)| = |x - roundHalfEven x| := by
    rw [Int.cast_neg, ← abs_neg, neg_sub, neg_sub_neg]
  refine roundHalfEven_eq (habs.trans_le hspec) fun h => ?_
  have heven := hparity (habs.symm.trans h)
  omega

theorem roundHalfEven_nearest (x : ℚ) (n : ℤ) : |x - roundHalfEven x| ≤ |x - n| := by
  by_cases hn : roundHalfEven x = n
  · rw [hn]
  have hone : (1 : ℚ) ≤ |(roundHalfEven x : ℚ) - n| := by
    have hpos : 1 ≤ |roundHalfEven x - n| := Int.one_le_abs (sub_ne_zero.mpr hn)
    exact_mod_cast hpos
  have hdist : |(roundHalfEven x : ℚ) - n| ≤ |x - roundHalfEven x| + |x - n| := by
    rw [abs_sub_comm x (roundHalfEven x : ℚ)]
    exact abs_sub_le _ _ _
  have hhalf := (roundHalfEven_spec x).1
  linarith

/-! ## Doubles -/

/-- The values of doubles: 53 bits, the least of which is worth at least `2 ^ -1074`. -/
def IsDouble (x : ℚ) : Prop := ∃ m e : ℤ, |m| ≤ 2 ^ 53 ∧ -1074 ≤ e ∧ x = m * 2 ^ e

/-- The exponent of the last bit of the doubles around `x`. -/
def lastBit (x : ℚ) : ℤ := max (Int.log 2 |x| - 52) (-1074)

/-- The double nearest to `x`, and the even one of two that are equally near. -/
def toDouble (x : ℚ) : ℚ := roundHalfEven (x / 2 ^ lastBit x) * 2 ^ lastBit x

theorem toDouble_neg (x : ℚ) : toDouble (-x) = -toDouble x := by
  have hbit : lastBit (-x) = lastBit x := by rw [lastBit, abs_neg, lastBit]
  rw [toDouble, hbit, neg_div, roundHalfEven_neg, Int.cast_neg, neg_mul, toDouble]

theorem abs_lt_lastBit (x : ℚ) : |x| < 2 ^ 53 * 2 ^ lastBit x := by
  have hlog : |x| < 2 ^ (Int.log 2 |x| + 1) := Int.lt_zpow_succ_log_self (by norm_num) _
  refine hlog.trans_le ?_
  rw [← zpow_natCast, ← zpow_add₀ (by norm_num)]
  refine zpow_le_zpow_right₀ (by norm_num) ?_
  have hle := le_max_left (Int.log 2 |x| - 52) (-1074)
  rw [← lastBit] at hle
  push_cast
  linarith

theorem isDouble_toDouble (x : ℚ) : IsDouble (toDouble x) := by
  refine ⟨roundHalfEven (x / 2 ^ lastBit x), lastBit x, ?_, le_max_right _ _, rfl⟩
  have hpos : (0 : ℚ) < 2 ^ lastBit x := zpow_pos (by norm_num) _
  have hlt : |x / 2 ^ lastBit x| < 2 ^ 53 := by
    rw [abs_div, abs_of_pos hpos, div_lt_iff₀ hpos]
    exact abs_lt_lastBit x
  have hhalf := (roundHalfEven_spec (x / 2 ^ lastBit x)).1
  generalize roundHalfEven (x / 2 ^ lastBit x) = n at hhalf
  have hn : |(n : ℚ)| < 2 ^ 53 + 1 := by
    have habs := abs_sub_abs_le_abs_sub (n : ℚ) (x / 2 ^ lastBit x)
    rw [abs_sub_comm] at habs
    linarith
  have hn' : |n| < 2 ^ 53 + 1 := by exact_mod_cast hn
  omega

/-- Of the multiples of the last bit, none is nearer than the double. -/
theorem toDouble_nearest_multiple (x : ℚ) (n : ℤ) :
    |x - toDouble x| ≤ |x - n * 2 ^ lastBit x| := by
  have hpos : (0 : ℚ) < 2 ^ lastBit x := zpow_pos (by norm_num) _
  have hscale : ∀ m : ℤ, |x - m * 2 ^ lastBit x| = |x / 2 ^ lastBit x - m| * 2 ^ lastBit x := by
    intro m
    rw [← abs_of_pos hpos, ← abs_mul, abs_of_pos hpos, sub_mul, div_mul_cancel₀ _ hpos.ne']
  rw [toDouble, hscale, hscale]
  exact mul_le_mul_of_nonneg_right (roundHalfEven_nearest _ n) hpos.le

/-- The last bit of a number that is not subnormal is 52 bits below its first. -/
theorem le_abs_of_lastBit (hx : x ≠ 0) (hbit : -1074 < lastBit x) :
    2 ^ 52 * 2 ^ lastBit x ≤ |x| := by
  have hlast : lastBit x = Int.log 2 |x| - 52 := by
    rcases max_choice (Int.log 2 |x| - 52) (-1074) with h | h
    · exact h
    · rw [lastBit, h] at hbit
      omega
  have hlog := Int.zpow_log_le_self (b := 2) (by norm_num) (abs_pos.mpr hx)
  rw [← zpow_natCast, ← zpow_add₀ (by norm_num), hlast]
  simpa using hlog

/-- A double with a smaller last bit is no larger than the power of two under `x`. -/
theorem abs_le_of_lt_lastBit {m e : ℤ} (hm : |m| ≤ 2 ^ 53) (he : e < lastBit x) :
    |(m : ℚ) * 2 ^ e| ≤ 2 ^ 52 * 2 ^ lastBit x := by
  have hm' : |(m : ℚ)| ≤ 2 ^ 53 := by exact_mod_cast hm
  have he' : (2 : ℚ) * 2 ^ e ≤ 2 ^ lastBit x := by
    rw [← zpow_one_add₀ (by norm_num)]
    exact zpow_le_zpow_right₀ (by norm_num) (by omega)
  have hpos : (0 : ℚ) < 2 ^ e := zpow_pos (by norm_num) _
  rw [abs_mul, abs_of_pos hpos]
  nlinarith

/-- On the side of `x`, that power of two is a multiple of the last bit. -/
theorem exists_multiple_below (h : 2 ^ 52 * 2 ^ lastBit x ≤ |x|) :
    ∃ n : ℤ, |x - n * 2 ^ lastBit x| = |x| - 2 ^ 52 * 2 ^ lastBit x := by
  rcases le_or_gt 0 x with hx | hx
  · rw [abs_of_nonneg hx] at h ⊢
    refine ⟨2 ^ 52, ?_⟩
    push_cast
    exact abs_of_nonneg (by linarith)
  · rw [abs_of_neg hx] at h ⊢
    refine ⟨-2 ^ 52, ?_⟩
    push_cast
    rw [abs_of_nonpos (by linarith)]
    ring

/-- A double with a last bit as large as that of `x` is one of its multiples, and any other is no
nearer than the power of two under `x`. -/
theorem nearest_toDouble : Nearest IsDouble toDouble where
  mem := isDouble_toDouble
  nearest x y := by
    rintro ⟨m, e, hm, he, rfl⟩
    rcases le_or_gt (lastBit x) e with hle | hlt
    · have hmul : (m : ℚ) * 2 ^ e = (m * 2 ^ (e - lastBit x).toNat : ℤ) * 2 ^ lastBit x := by
        push_cast
        rw [mul_assoc, ← zpow_natCast, ← zpow_add₀ (by norm_num), Int.toNat_of_nonneg (by omega),
          sub_add_cancel]
      rw [hmul]
      exact toDouble_nearest_multiple x _
    rcases eq_or_ne x 0 with rfl | hx
    · have hzero : toDouble 0 = 0 := by simp [toDouble, roundHalfEven]
      rw [hzero, sub_zero, abs_zero]
      exact abs_nonneg _
    obtain ⟨n, hn⟩ := exists_multiple_below (le_abs_of_lastBit hx (by omega))
    calc |x - toDouble x|
        ≤ |x - n * 2 ^ lastBit x| := toDouble_nearest_multiple x n
      _ = |x| - 2 ^ 52 * 2 ^ lastBit x := hn
      _ ≤ |x| - |(m : ℚ) * 2 ^ e| := sub_le_sub_left (abs_le_of_lt_lastBit hm hlt) _
      _ ≤ |x - m * 2 ^ e| := abs_sub_abs_le_abs_sub _ _

/-- Arithmetic in doubles. -/
@[reducible] def double : Rounding where
  fl := toDouble
  mono := nearest_toDouble.monotone
  fl_fl := nearest_toDouble.idem
  fl_neg := toDouble_neg
  fl_one := nearest_toDouble.eq_self ⟨1, 0, by norm_num, by norm_num, by norm_num⟩

example : double.fl (1 / 10) + double.fl (2 / 10) < double.fl (double.fl (1 / 10) + double.fl (2 / 10)) := by
  decide +kernel

end Rounding
