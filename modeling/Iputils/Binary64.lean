import Mathlib.Algebra.Order.Floor.Ring
import Mathlib.Data.Int.Log
import Mathlib.Data.Rat.Floor
import Mathlib.Tactic.Linarith
import Mathlib.Tactic.Ring

/-!
# Doubles among the rationals

A rational is rounded to 53 binary digits, to the even one of two neighbours that are
equally near. The exponent is not bounded here: numbers that are too large or too small for
a `double` are outside the model.
-/
set_option autoImplicit false

namespace Iputils.Binary64

/-- The nearest integer, and the even one of two. -/
def nearestEven (q : ℚ) : ℤ :=
  let f := ⌊q⌋
  if q - f < 1 / 2 then f
  else if 1 / 2 < q - f then f + 1
  else if f % 2 = 0 then f else f + 1

/-- The weight of the last of 53 digits. -/
def lastPlace (x : ℚ) : ℚ := 2 ^ (Int.log 2 |x| - 52)

def ofRat (x : ℚ) : ℚ := if x = 0 then 0 else nearestEven (x / lastPlace x) * lastPlace x

/-- Conversion to an integer type, towards zero. -/
def truncate (x : ℚ) : ℤ := if 0 ≤ x then ⌊x⌋ else ⌈x⌉

theorem nearestEven_sub (q : ℚ) : |(nearestEven q : ℚ) - q| ≤ 1 / 2 := by
  have hlow := Int.floor_le q
  have hhigh := Int.lt_floor_add_one q
  unfold nearestEven
  dsimp only
  rw [abs_le]
  split_ifs with h₁ h₂ h₃
  · constructor <;> linarith
  · push_cast
    constructor <;> linarith
  · constructor <;> linarith
  · push_cast
    constructor <;> linarith

theorem nearestEven_nonneg {q : ℚ} (h : 0 ≤ q) : 0 ≤ nearestEven q := by
  have hnear := (abs_le.mp (nearestEven_sub q)).1
  have hlow : ((-1 : ℤ) : ℚ) < nearestEven q := by
    push_cast
    linarith
  have hint := Int.cast_lt.mp hlow
  omega

theorem lastPlace_pos (x : ℚ) : 0 < lastPlace x := zpow_pos (by norm_num) _

theorem lastPlace_le {x : ℚ} (hx : x ≠ 0) : lastPlace x ≤ |x| / 2 ^ 52 := by
  have hpow := Int.zpow_log_le_self (b := 2) (by norm_num) (abs_pos.mpr hx)
  have hsplit : lastPlace x = 2 ^ Int.log 2 |x| / 2 ^ 52 := by
    rw [lastPlace, zpow_sub₀ (by norm_num)]
    norm_num
  rw [hsplit]
  exact div_le_div_of_nonneg_right (by exact_mod_cast hpow) (by norm_num)

theorem ofRat_nonneg {x : ℚ} (h : 0 ≤ x) : 0 ≤ ofRat x := by
  unfold ofRat
  split_ifs
  · exact le_rfl
  · have hn := nearestEven_nonneg (div_nonneg h (lastPlace_pos x).le)
    exact mul_nonneg (by exact_mod_cast hn) (lastPlace_pos x).le

/-- The error is half of the last place. -/
theorem ofRat_sub (x : ℚ) : |ofRat x - x| ≤ |x| / 2 ^ 53 := by
  by_cases hx : x = 0
  · simp [ofRat, hx]
  have hpos := lastPlace_pos x
  have hnear := nearestEven_sub (x / lastPlace x)
  have hfactor : ofRat x - x =
      ((nearestEven (x / lastPlace x) : ℚ) - x / lastPlace x) * lastPlace x := by
    rw [ofRat, if_neg hx, sub_mul, div_mul_cancel₀ _ hpos.ne']
  calc |ofRat x - x|
      = |(nearestEven (x / lastPlace x) : ℚ) - x / lastPlace x| * lastPlace x := by
        rw [hfactor, abs_mul, abs_of_pos hpos]
    _ ≤ 1 / 2 * (|x| / 2 ^ 52) := mul_le_mul hnear (lastPlace_le hx) hpos.le (by norm_num)
    _ = |x| / 2 ^ 53 := by ring

/-- One more rounding adds its own error. -/
theorem ofRat_near {x y bound error : ℚ} (hx : |x| ≤ bound) (h : |x - y| ≤ error) :
    |ofRat x - y| ≤ error + bound / 2 ^ 53 := by
  have hround := ofRat_sub x
  have hle : |x| / 2 ^ 53 ≤ bound / 2 ^ 53 := div_le_div_of_nonneg_right hx (by norm_num)
  calc |ofRat x - y| = |(ofRat x - x) + (x - y)| := by rw [sub_add_sub_cancel]
    _ ≤ |ofRat x - x| + |x - y| := abs_add_le _ _
    _ ≤ error + bound / 2 ^ 53 := by linarith

theorem truncate_eq {x : ℚ} {n : ℤ} (hn : 0 ≤ n) (hlow : (n : ℚ) ≤ x) (hhigh : x < n + 1) :
    truncate x = n := by
  have hx : (0 : ℚ) ≤ x := le_trans (by exact_mod_cast hn) hlow
  rw [truncate, if_pos hx]
  exact Int.floor_eq_iff.mpr ⟨hlow, hhigh⟩

end Iputils.Binary64
