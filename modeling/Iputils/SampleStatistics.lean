import Mathlib.Algebra.BigOperators.Group.List.Basic
import Mathlib.Algebra.BigOperators.Ring.List
import Mathlib.Algebra.Order.BigOperators.Group.List
import Mathlib.Algebra.Order.Field.Basic
import Mathlib.Tactic.FieldSimp
import Mathlib.Tactic.Linarith
import Mathlib.Tactic.LinearCombination
import Mathlib.Tactic.Positivity
import Mathlib.Tactic.Ring

/-!
# Mean and variance of a list

The arithmetic mean and the population variance over an ordered field, and how the
two of a list compare with those of its end. The end of a list has the mean and the
variance of the whole exactly when the beginning has them too. Both are zero for the
empty list. A weighted mean lies between bounds of its values, and weights can be
found that put it on any point between two of them.
-/
set_option autoImplicit false

namespace Iputils.SampleStatistics
variable {K : Type*} [Field K] [LinearOrder K] [IsStrictOrderedRing K]

def mean (xs : List K) : K := xs.sum / xs.length

def squares (xs : List K) : List K := xs.map fun x => x ^ 2

/-- The mean of the squared distances from `m`. -/
def spread (m : K) (xs : List K) : K := (xs.map fun x => (x - m) ^ 2).sum / xs.length

def variance (xs : List K) : K := spread (mean xs) xs

theorem length_ne_zero {xs : List K} (h : xs ≠ []) : (xs.length : K) ≠ 0 := by
  have hpos : 0 < xs.length := List.length_pos_iff.mpr h
  exact_mod_cast hpos.ne'

theorem mean_mul_length (xs : List K) : mean xs * xs.length = xs.sum := by
  cases xs with
  | nil => simp
  | cons x xs => exact div_mul_cancel₀ _ (length_ne_zero (List.cons_ne_nil x xs))

omit [LinearOrder K] [IsStrictOrderedRing K] in
theorem sum_sq_sub (m : K) (xs : List K) :
    (xs.map fun x => (x - m) ^ 2).sum =
      (squares xs).sum - 2 * m * xs.sum + m ^ 2 * xs.length := by
  induction xs with
  | nil => simp [squares]
  | cons x xs ih =>
      simp only [squares, List.map_cons, List.sum_cons, List.length_cons] at ih ⊢
      rw [ih]
      push_cast
      ring

/-- The variance is the mean square less the square of the mean. -/
theorem variance_eq (xs : List K) : variance xs = mean (squares xs) - mean xs ^ 2 := by
  cases xs with
  | nil => simp [variance, spread, mean, squares]
  | cons x xs =>
      have hlen := length_ne_zero (List.cons_ne_nil x xs)
      have hsum := mean_mul_length (x :: xs)
      have hsquares : mean (squares (x :: xs)) =
          (squares (x :: xs)).sum / ((x :: xs).length : K) := by
        rw [mean, squares, List.length_map]
      rw [variance, spread, sum_sq_sub, ← hsum, hsquares]
      field_simp
      ring

theorem variance_nonneg (xs : List K) : 0 ≤ variance xs := by
  refine div_nonneg (List.sum_nonneg fun y hy => ?_) (Nat.cast_nonneg _)
  obtain ⟨x, -, rfl⟩ := List.mem_map.mp hy
  positivity

/-- The mean of a list is the mean of its end. -/
theorem mean_append_eq_iff {xs ys : List K} (hxs : xs ≠ []) (hys : ys ≠ []) :
    mean (xs ++ ys) = mean ys ↔ mean xs = mean ys := by
  have hx := length_ne_zero hxs
  have hy := length_ne_zero hys
  have hxy := length_ne_zero (List.append_ne_nil_of_left_ne_nil hxs ys)
  have hall := mean_mul_length (xs ++ ys)
  have hmx := mean_mul_length xs
  have hmy := mean_mul_length ys
  rw [List.sum_append, ← hmx, ← hmy, List.length_append] at hall
  push_cast at hall
  constructor
  · intro h
    rw [h] at hall
    have hzero : (mean ys - mean xs) * xs.length = 0 := by linear_combination hall
    rcases mul_eq_zero.mp hzero with hsub | hlen
    · exact (sub_eq_zero.mp hsub).symm
    · exact absurd hlen hx
  · intro h
    rw [h] at hall
    rw [List.length_append] at hxy
    push_cast at hxy
    have hzero : (mean (xs ++ ys) - mean ys) * (xs.length + ys.length) = 0 := by
      linear_combination hall
    rcases mul_eq_zero.mp hzero with hsub | hlen
    · exact sub_eq_zero.mp hsub
    · exact absurd hlen hxy

/-- The end of a list has the mean and the variance of the whole exactly when the
beginning is empty or has them too. -/
theorem append_statistics_iff {xs ys : List K} (hys : ys ≠ []) :
    (mean (xs ++ ys) = mean ys ∧ variance (xs ++ ys) = variance ys) ↔
      xs = [] ∨ mean xs = mean ys ∧ variance xs = variance ys := by
  rcases eq_or_ne xs [] with rfl | hxs
  · simp
  have hsquares : mean (squares (xs ++ ys)) = mean (squares ys) ↔
      mean (squares xs) = mean (squares ys) := by
    rw [squares, List.map_append]
    exact mean_append_eq_iff (by simpa using hxs) (by simpa using hys)
  simp only [hxs, false_or, variance_eq, mean_append_eq_iff hxs hys]
  constructor
  · rintro ⟨hm, hv⟩
    refine ⟨hm, ?_⟩
    rw [(mean_append_eq_iff hxs hys).mpr hm] at hv
    rw [hm, hsquares.mp (sub_left_injective hv)]
  · rintro ⟨hm, hv⟩
    refine ⟨hm, ?_⟩
    rw [hm] at hv
    rw [(mean_append_eq_iff hxs hys).mpr hm, hsquares.mpr (sub_left_injective hv)]

section Weighted
variable {ι : Type*}

/-- The mean of the values `x i` with the weights `w i`. -/
def weightedMean (w x : ι → K) (is : List ι) : K :=
  (is.map fun i => x i * w i).sum / (is.map w).sum

theorem sum_weights_pos {w : ι → K} {is : List ι} (hne : is ≠ []) (hw : ∀ i ∈ is, 0 < w i) :
    0 < (is.map w).sum := by
  apply List.sum_pos
  · intro y hy
    obtain ⟨i, hi, rfl⟩ := List.mem_map.mp hy
    exact hw i hi
  · simpa using hne

theorem le_weightedMean {w x : ι → K} {is : List ι} (hne : is ≠ []) (hw : ∀ i ∈ is, 0 < w i)
    {m : K} (hm : ∀ i ∈ is, m ≤ x i) : m ≤ weightedMean w x is := by
  rw [weightedMean, le_div_iff₀ (sum_weights_pos hne hw), ← List.sum_map_mul_left]
  exact List.sum_le_sum fun i hi => mul_le_mul_of_nonneg_right (hm i hi) (hw i hi).le

theorem weightedMean_le {w x : ι → K} {is : List ι} (hne : is ≠ []) (hw : ∀ i ∈ is, 0 < w i)
    {m : K} (hm : ∀ i ∈ is, x i ≤ m) : weightedMean w x is ≤ m := by
  rw [weightedMean, div_le_iff₀ (sum_weights_pos hne hw), ← List.sum_map_mul_left]
  exact List.sum_le_sum fun i hi => mul_le_mul_of_nonneg_right (hm i hi) (hw i hi).le

theorem sum_mul_weightedMean {w x : ι → K} {is : List ι} (hne : is ≠ [])
    (hw : ∀ i ∈ is, 0 < w i) :
    (is.map fun i => weightedMean w x is * w i).sum = (is.map fun i => x i * w i).sum := by
  rw [List.sum_map_mul_left, weightedMean, div_mul_cancel₀ _ (sum_weights_pos hne hw).ne']

theorem exists_le_weightedMean {w x : ι → K} {is : List ι} (hne : is ≠ [])
    (hw : ∀ i ∈ is, 0 < w i) : ∃ i ∈ is, x i ≤ weightedMean w x is := by
  obtain ⟨i, hi, hle⟩ := List.exists_le_of_sum_le hne _ _
    (sum_mul_weightedMean (x := x) hne hw).ge
  exact ⟨i, hi, le_of_mul_le_mul_right hle (hw i hi)⟩

theorem exists_weightedMean_le {w x : ι → K} {is : List ι} (hne : is ≠ [])
    (hw : ∀ i ∈ is, 0 < w i) : ∃ i ∈ is, weightedMean w x is ≤ x i := by
  obtain ⟨i, hi, hle⟩ := List.exists_le_of_sum_le hne _ _
    (sum_mul_weightedMean (x := x) hne hw).le
  exact ⟨i, hi, le_of_mul_le_mul_right hle (hw i hi)⟩

/-- How far the values below `g` are from it, all together. -/
def deficit (g : K) (x : ι → K) (is : List ι) : K :=
  (is.map fun i => if x i < g then g - x i else 0).sum

def excess (g : K) (x : ι → K) (is : List ι) : K :=
  (is.map fun i => if x i < g then 0 else x i - g).sum

/-- Two weights that balance the values on both sides of `g`. -/
def balance (g : K) (x : ι → K) (is : List ι) (i : ι) : K :=
  if x i < g then excess g x is else deficit g x is

theorem deficit_pos {g : K} {x : ι → K} {is : List ι} (h : ∃ i ∈ is, x i < g) :
    0 < deficit g x is := by
  have hzero : (is.map fun _ => (0 : K)).sum = 0 := by simp
  rw [← hzero]
  refine List.sum_lt_sum _ _ (fun i _ => ?_) ?_
  · split_ifs with hlt
    · exact sub_nonneg.mpr hlt.le
    · exact le_rfl
  · obtain ⟨i, hi, hlt⟩ := h
    exact ⟨i, hi, by rw [if_pos hlt]; exact sub_pos.mpr hlt⟩

theorem excess_pos {g : K} {x : ι → K} {is : List ι} (h : ∃ i ∈ is, g < x i) :
    0 < excess g x is := by
  have hzero : (is.map fun _ => (0 : K)).sum = 0 := by simp
  rw [← hzero]
  refine List.sum_lt_sum _ _ (fun i _ => ?_) ?_
  · split_ifs with hlt
    · exact le_rfl
    · exact sub_nonneg.mpr (not_lt.mp hlt)
  · obtain ⟨i, hi, hlt⟩ := h
    exact ⟨i, hi, by rw [if_neg hlt.not_gt]; exact sub_pos.mpr hlt⟩

omit [IsStrictOrderedRing K] in
/-- With weights `e` below `g` and `d` above it, the two sides pull with these forces. -/
theorem sum_two_weights (g d e : K) (x : ι → K) (is : List ι) :
    (is.map fun i => x i * if x i < g then e else d).sum =
      g * (is.map fun i => if x i < g then e else d).sum + d * excess g x is -
        e * deficit g x is := by
  induction is with
  | nil => simp [excess, deficit]
  | cons i is ih =>
      simp only [excess, deficit, List.map_cons, List.sum_cons] at ih ⊢
      rw [ih]
      split_ifs <;> ring

/-- Weights that put the mean on a point with values on both of its sides. -/
theorem weightedMean_balance {g : K} {x : ι → K} {is : List ι} (hbelow : ∃ i ∈ is, x i < g)
    (habove : ∃ i ∈ is, g < x i) :
    (∀ i, 0 < balance g x is i) ∧ weightedMean (balance g x is) x is = g := by
  have hpos : ∀ i, 0 < balance g x is i := by
    intro i
    unfold balance
    split_ifs
    · exact excess_pos habove
    · exact deficit_pos hbelow
  have hne : is ≠ [] := by
    obtain ⟨i, hi, -⟩ := hbelow
    exact List.ne_nil_of_mem hi
  refine ⟨hpos, ?_⟩
  rw [weightedMean, div_eq_iff (sum_weights_pos hne fun i _ => hpos i).ne']
  have hsum := sum_two_weights g (deficit g x is) (excess g x is) x is
  rw [mul_comm (deficit g x is), add_sub_cancel_right] at hsum
  exact hsum

end Weighted

end Iputils.SampleStatistics
