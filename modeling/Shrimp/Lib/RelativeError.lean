import Mathlib.Algebra.Order.Field.Basic
import Mathlib.Algebra.Order.Round
import Mathlib.Tactic.GCongr
import Mathlib.Tactic.Linarith
import Mathlib.Tactic.Positivity
import Mathlib.Tactic.Ring
import Mathlib.Tactic.FieldSimp

/-!
# Relative errors

`Approx e x y` says that `y` is `x` up to a relative error of `e`. A computation in a rounded
arithmetic is a chain of such steps, each one giving an exact value times `1 + d` for a small `d`
(`perturb`); `Approx.trans`, `Approx.mul` and `Approx.div` carry the error through the chain.
Rounding to the nearest integer, `roundHalfAway`, is off by at most one half.
-/

namespace RelativeError

variable {K : Type*} [Field K] [LinearOrder K] [IsStrictOrderedRing K]

/-- `y` is `x` up to a relative error of `e`. -/
def Approx (e x y : K) : Prop := |y - x| ≤ e * |x|

/-- The relative error of one operation, at most `u`. -/
abbrev Error (u : K) := { d : K // |d| ≤ u }

/-- The result of an operation whose exact value is `x`. -/
def perturb {u : K} (d : Error u) (x : K) : K := x * (1 + d)

variable {a b x y z x' y' : K}

/-- What is perturbed by an error is within that error. -/
theorem approx_perturb {u : K} (d : Error u) (x : K) : Approx u x (perturb d x) := by
  have hdiff : perturb d x - x = d * x := by
    unfold perturb
    ring
  unfold Approx
  rw [hdiff, abs_mul]
  gcongr
  exact d.2

/-- What is within an error is within a larger one. -/
theorem Approx.mono (h : Approx a x y) (hab : a ≤ b) : Approx b x y :=
  le_trans h (by gcongr)

/-- The approximated value is at most `1 + e` times as large. -/
theorem Approx.abs_le (h : Approx a x y) : |y| ≤ (1 + a) * |x| := by
  have htri : |y| ≤ |y - x| + |x| := by simpa using abs_add_le (y - x) x
  unfold Approx at h
  linarith

/-- The approximated value is at least `1 - e` times as large. -/
theorem Approx.le_abs (h : Approx a x y) : (1 - a) * |x| ≤ |y| := by
  have htri : |x| ≤ |y| + |y - x| := by
    have := abs_sub_abs_le_abs_sub x y
    rw [abs_sub_comm] at this
    linarith
  unfold Approx at h
  linarith

/-- One approximation after another. -/
theorem Approx.trans (h : Approx a x y) (h' : Approx b y z) (hb : 0 ≤ b) :
    Approx (a + b + a * b) x z := by
  have htri : |z - x| ≤ |z - y| + |y - x| := abs_sub_le z y x
  have hz : |z - y| ≤ b * ((1 + a) * |x|) := le_trans h' (by gcongr; exact h.abs_le)
  unfold Approx at h ⊢
  linarith

/-- The error of a product. -/
theorem Approx.mul (h : Approx a x y) (h' : Approx b x' y') (hb : 0 ≤ b) :
    Approx (a + b + a * b) (x * x') (y * y') := by
  have hfirst : Approx a (x * x') (y * x') := by
    unfold Approx
    rw [← sub_mul, abs_mul, abs_mul, ← mul_assoc]
    gcongr
    exact h
  have hsecond : Approx b (y * x') (y * y') := by
    unfold Approx
    rw [← mul_sub, abs_mul, abs_mul, mul_left_comm]
    gcongr
    exact h'
  exact hfirst.trans hsecond hb

/-- The error of a quotient. -/
theorem Approx.div (h : Approx a x y) (h' : Approx b x' y') (hb : b < 1) (hx' : x' ≠ 0) :
    Approx ((a + b) / (1 - b)) (x / x') (y / y') := by
  have hpos : 0 < (1 - b) * |x'| := mul_pos (sub_pos.2 hb) (abs_pos.2 hx')
  have hy' : y' ≠ 0 := abs_pos.1 (hpos.trans_le h'.le_abs)
  have hcross : |y * x' - y' * x| ≤ (a + b) * |x| * |x'| := by
    have hsplit : y * x' - y' * x = (y - x) * x' - (y' - x') * x := by ring
    calc |y * x' - y' * x| ≤ |y - x| * |x'| + |y' - x'| * |x| := by
          rw [hsplit, ← abs_mul, ← abs_mul]
          exact abs_sub _ _
      _ ≤ a * |x| * |x'| + b * |x'| * |x| := by
          unfold Approx at h h'
          gcongr
      _ = (a + b) * |x| * |x'| := by ring
  unfold Approx
  rw [div_sub_div _ _ hy' hx', abs_div, abs_mul, abs_div, div_mul_div_comm,
    div_le_div_iff₀ (by positivity) hpos]
  calc |y * x' - y' * x| * ((1 - b) * |x'|) ≤ |y * x' - y' * x| * |y'| := by
        gcongr
        exact h'.le_abs
    _ ≤ (a + b) * |x| * |x'| * |y'| := by gcongr
    _ = (a + b) * |x| * (|y'| * |x'|) := by ring

/-! ## Rounding to the nearest integer -/

/-- The nearest integer, halfway cases away from zero. -/
def roundHalfAway [FloorRing K] (x : K) : ℤ := if 0 ≤ x then ⌊x + 1 / 2⌋ else ⌈x - 1 / 2⌉

/-- Rounding to an integer changes a number by one half at most. -/
theorem abs_roundHalfAway_sub_le [FloorRing K] (x : K) : |(roundHalfAway x : K) - x| ≤ 1 / 2 := by
  unfold roundHalfAway
  split_ifs
  · have hlo := Int.floor_le (x + 1 / 2)
    have hhi := Int.lt_floor_add_one (x + 1 / 2)
    rw [abs_le]
    constructor <;> linarith
  · have hlo := Int.le_ceil (x - 1 / 2)
    have hhi := Int.ceil_lt_add_one (x - 1 / 2)
    rw [abs_le]
    constructor <;> linarith

end RelativeError
