import Mathlib.Data.Nat.Sqrt
import Mathlib.Tactic.Linarith
import Mathlib.Tactic.Ring

/-!
# Newton's iteration for the square root

An iteration that runs as long as its value falls stops behind the least value that it
reaches, and it returns what comes next. From above the integer Newton step for the root
of `a` falls to the floor of the root and never below it, and from there it goes to the
floor of the root of `a + 1`.
-/
set_option autoImplicit false

namespace Iputils.NewtonDescent

/-- Iterate `f` from `x` on as long as the value is less than the one before it. -/
def descend (f : ℕ → ℕ) (prev x : ℕ) : ℕ := if x < prev then descend f x (f x) else x
termination_by prev

/-- From every value above `m` the function falls, but not below `m`, and at `m` it does not. -/
structure FallsTo (f : ℕ → ℕ) (m : ℕ) : Prop where
  low : ∀ x, m < x → m ≤ f x
  fall : ∀ x, m < x → f x < x
  rest : m ≤ f m

/-- The value behind the first one that does not fall is returned. -/
theorem FallsTo.descend_eq {f : ℕ → ℕ} {m prev x : ℕ} (h : FallsTo f m) (hx : m ≤ x)
    (hprev : x < prev) : descend f prev x = f m := by
  induction prev using Nat.strongRecOn generalizing x with
  | ind prev ih =>
      rw [descend, if_pos hprev]
      rcases hx.eq_or_lt with rfl | hlt
      · rw [descend, if_neg (Nat.not_lt_of_le h.rest)]
      · exact ih x hprev (h.low x hlt) (h.fall x hlt)

/-- The Newton step for the square root of `a`. -/
def newtonStep (a x : ℕ) : ℕ := (x + a / x) / 2

section Step
variable {a x : ℕ}

/-- The arithmetic mean is not below the root. -/
theorem sqrt_le_newtonStep (hx : 0 < x) : a.sqrt ≤ newtonStep a x := by
  have hroot : a.sqrt * a.sqrt ≤ a := Nat.sqrt_le a
  have hquotient : a < x * (a / x + 1) := Nat.lt_mul_div_succ a hx
  rw [newtonStep, Nat.le_div_iff_mul_le Nat.two_pos]
  by_contra hlow
  have hle : x + a / x + 1 ≤ 2 * a.sqrt := by omega
  have hproduct : 4 * (x * (a / x + 1)) ≤ 4 * (a.sqrt * a.sqrt) := by
    generalize a / x = q at hle
    generalize a.sqrt = s at hle
    zify at hle ⊢
    nlinarith [sq_nonneg ((x : ℤ) - (q + 1))]
  omega

/-- Above the root a step falls. -/
theorem newtonStep_lt (h : a.sqrt < x) : newtonStep a x < x := by
  have hsquare : a < x * x := Nat.sqrt_lt.mp h
  have hquotient : a / x < x := Nat.div_lt_of_lt_mul hsquare
  unfold newtonStep
  omega

/-- The step from the floor of the root. -/
theorem newtonStep_sqrt (ha : 0 < a) : newtonStep a a.sqrt = (a + 1).sqrt := by
  have hpos : 0 < a.sqrt := Nat.sqrt_pos.mpr ha
  have hroot : a.sqrt * a.sqrt ≤ a := Nat.sqrt_le a
  have hnext : a ≤ a.sqrt * a.sqrt + a.sqrt + a.sqrt := Nat.sqrt_le_add a
  have hlow : a.sqrt ≤ a / a.sqrt := (Nat.le_div_iff_mul_le hpos).mpr hroot
  rw [Nat.eq_sqrt]
  generalize a.sqrt = s at *
  rcases hnext.eq_or_lt with htop | htop
  · -- the number behind `a` is a square
    have hquotient : a / s = s + 2 := Nat.div_eq_of_eq_mul_right hpos (by rw [htop]; ring)
    have hstep : newtonStep a s = s + 1 := by
      unfold newtonStep
      omega
    rw [hstep]
    constructor <;> nlinarith
  · have hquotient : a / s < s + 2 := by
      rw [Nat.div_lt_iff_lt_mul hpos]
      linarith [Nat.add_mul s 2 s]
    have hstep : newtonStep a s = s := by
      unfold newtonStep
      omega
    rw [hstep]
    constructor
    · omega
    · linarith [Nat.add_mul s 1 (s + 1)]

theorem newtonStep_fallsTo (ha : 0 < a) : FallsTo (newtonStep a) a.sqrt where
  low _ hx := sqrt_le_newtonStep (Nat.zero_lt_of_lt hx)
  fall _ hx := newtonStep_lt hx
  rest := sqrt_le_newtonStep (Nat.sqrt_pos.mpr ha)

/-- Started above the root the iteration returns the root of `a + 1`. -/
theorem descend_newtonStep {prev : ℕ} (ha : 0 < a) (hx : a.sqrt ≤ x) (hprev : x < prev) :
    descend (newtonStep a) prev x = (a + 1).sqrt :=
  ((newtonStep_fallsTo ha).descend_eq hx hprev).trans (newtonStep_sqrt ha)

/-- The root of `a + 1` is one more than that of `a` if `a + 1` is a square. -/
theorem sqrt_succ_of_isSquare (h : IsSquare (a + 1)) : (a + 1).sqrt = a.sqrt + 1 := by
  obtain ⟨r, hr⟩ := h
  obtain ⟨s, rfl⟩ : ∃ s, r = s + 1 := Nat.exists_eq_succ_of_ne_zero (by rintro rfl; omega)
  have hroot : s = a.sqrt := Nat.eq_sqrt.mpr ⟨by nlinarith, by omega⟩
  rw [hr, Nat.sqrt_eq, hroot]

/-- Otherwise it is the same. -/
theorem sqrt_succ_of_not_isSquare (h : ¬ IsSquare (a + 1)) : (a + 1).sqrt = a.sqrt := by
  have hle : a + 1 ≤ (a.sqrt + 1) * (a.sqrt + 1) := Nat.succ_le_succ_sqrt a
  have hne : a + 1 ≠ (a.sqrt + 1) * (a.sqrt + 1) := fun heq => h ⟨_, heq⟩
  have hroot : a.sqrt * a.sqrt ≤ a + 1 := (Nat.sqrt_le a).trans (Nat.le_succ a)
  exact (Nat.eq_sqrt.mpr ⟨hroot, lt_of_le_of_ne hle hne⟩).symm

end Step

end Iputils.NewtonDescent
