import Iputils.NewtonDescent
import Iputils.PingFinish
import Iputils.RoundTrip
import Mathlib.Data.Int.Sqrt

/-!
# The square root of the variance

`llsqrt` with its operations on `long long` checked and the rounds of its loop counted. No
operation of a round fails below `LLONG_MAX`, and the loop comes to an end. Its result is
the floor of the root of `a + 1`.
-/
set_option autoImplicit false

namespace Iputils.SquareRoot
open PingState PingFinish RoundTrip NewtonDescent

section Code

inductive Fault
  | overflow
  | divisionByZero
  | endless
deriving Repr, DecidableEq

/-- The result of an operation on `long long`. -/
def checked (x : ℤ) : Except Fault ℤ := if Fits64 x then .ok x else .error .overflow

def checkedDiv (a x : ℤ) : Except Fault ℤ :=
  if x = 0 then .error .divisionByZero else checked (a.tdiv x)

/-- The loop of `llsqrt`. -/
def sqrtLoop (a : ℤ) : ℕ → ℤ → ℤ → Except Fault ℤ
  | 0, _, _ => .error .endless
  | fuel + 1, prev, x =>
      if x < prev then do
        let quotient ← checkedDiv a x
        let sum ← checked (x + quotient)
        sqrtLoop a fuel x (sum.tdiv 2)
      else .ok x

/-- `llsqrt` with every operation checked. -/
def checkedLlsqrt (fuel : ℕ) (a : ℤ) : Except Fault ℤ :=
  if a > 0 then sqrtLoop a fuel longMax a else .ok a

end Code

section Rounds
variable {a prev x fuel : ℕ}

theorem checked_natCast {n : ℕ} (h : (n : ℤ) ≤ longMax) : checked n = .ok (n : ℤ) :=
  if_pos ⟨by unfold int64Min; omega, h⟩

/-- The sum of a round is greatest in the first one. -/
theorem sum_le (hx : 0 < x) (hle : x ≤ a) : x + a / x ≤ a + 1 := by
  have hquotient : 1 ≤ a / x := (Nat.one_le_div_iff hx).mpr hle
  have hproduct : x * (a / x) ≤ a := Nat.mul_div_le a x
  have hadd : x + a / x - 1 ≤ x * (a / x) := Nat.add_sub_one_le_mul (by omega) (by omega)
  omega

/-- A round whose operations fit computes a Newton step. -/
theorem sqrtLoop_succ (hx : 0 < x) (hle : x ≤ a) (ha : (a : ℤ) < longMax) (hprev : x < prev) :
    sqrtLoop a (fuel + 1) prev x = sqrtLoop a fuel x (newtonStep a x : ℕ) := by
  have hsum := sum_le hx hle
  have hquotient : checkedDiv a x = .ok (a / x : ℕ) := by
    rw [checkedDiv, if_neg (by omega), Int.ofNat_tdiv]
    exact checked_natCast (by omega)
  have hadded : checked ((x : ℤ) + (a / x : ℕ)) = .ok (x + a / x : ℕ) := by
    rw [← Nat.cast_add]
    exact checked_natCast (by omega)
  have hhalf : ((x + a / x : ℕ) : ℤ).tdiv 2 = (newtonStep a x : ℕ) := Int.ofNat_tdiv _ 2
  rw [sqrtLoop, if_pos (by omega), hquotient]
  change (checked ((x : ℤ) + (a / x : ℕ)) >>= fun sum => sqrtLoop a fuel x (sum.tdiv 2)) = _
  rw [hadded, ← hhalf]
  rfl

theorem newtonStep_le (hpos : 0 < a) (hroot : a.sqrt ≤ x) (hle : x ≤ a) : newtonStep a x ≤ a := by
  rcases hroot.eq_or_lt with rfl | hlt
  · rw [newtonStep_sqrt hpos]
    exact Nat.add_one_sqrt_le_of_ne_zero hpos.ne'
  · exact (newtonStep_lt hlt).le.trans hle

/-- From above the root no operation fails, and the loop ends: each round but the last two
brings its value down. -/
theorem sqrtLoop_eq_descend (hpos : 0 < a) (ha : (a : ℤ) < longMax) (hroot : a.sqrt ≤ x)
    (hle : x ≤ a) (hfuel : 0 < fuel) (hrounds : x < prev → x + 2 ≤ a.sqrt + fuel) :
    sqrtLoop a fuel prev x = .ok (descend (newtonStep a) prev x : ℕ) := by
  have hsqrt : 0 < a.sqrt := Nat.sqrt_pos.mpr hpos
  induction fuel generalizing prev x with
  | zero => omega
  | succ fuel ih =>
      by_cases hprev : x < prev
      · have hmany := hrounds hprev
        rw [sqrtLoop_succ (by omega) hle ha hprev, descend, if_pos hprev]
        refine ih (sqrt_le_newtonStep (by omega)) (newtonStep_le hpos hroot hle) (by omega) ?_
        intro hfall
        omega
      · rw [sqrtLoop, if_neg (by omega), descend, if_neg hprev]

/-- The unchecked loop is the same iteration. -/
theorem newton_eq_descend (a prev x : ℕ) : newton a prev x = descend (newtonStep a) prev x := by
  fun_induction newton a prev x with
  | case1 prev x hlt ih => rw [descend, if_pos hlt, ih, newtonStep]
  | case2 prev x hlt => rw [descend, if_neg hlt]

theorem llsqrt_eq_descend (hpos : 0 < a) :
    llsqrt a = (descend (newtonStep a) llongMax a : ℕ) := by
  rw [llsqrt, if_pos (by omega), Int.toNat_natCast, newton_eq_descend]

theorem llsqrt_natCast (hpos : 0 < a) (ha : a < llongMax) : llsqrt a = ((a + 1).sqrt : ℕ) := by
  rw [llsqrt_eq_descend hpos, descend_newtonStep hpos (Nat.sqrt_le_self a) ha]

end Rounds

/-- Below `LLONG_MAX` no operation of `llsqrt` fails and its loop ends. It returns a number
that is not positive as it is, and of the others the root of the next number, which is the
root of the number itself or, if the next number is a square, one more. -/
theorem llsqrt_root {a : ℤ} (ha : a < longMax) :
    (∀ fuel, a.toNat < fuel → checkedLlsqrt fuel a = .ok (llsqrt a)) ∧
      (a ≤ 0 → llsqrt a = a) ∧
      (1 ≤ a → llsqrt a * llsqrt a ≤ a + 1 ∧ a + 1 < (llsqrt a + 1) * (llsqrt a + 1) ∧
        (IsSquare (a + 1) → llsqrt a = Int.sqrt a + 1) ∧
        (¬ IsSquare (a + 1) → llsqrt a = Int.sqrt a)) := by
  rcases le_or_gt a 0 with hnonpos | hpos
  · have hsame : llsqrt a = a := if_neg (by omega)
    refine ⟨fun fuel _ => ?_, fun _ => hsame, fun hone => by omega⟩
    rw [hsame, checkedLlsqrt, if_neg (by omega)]
  · lift a to ℕ using hpos.le
    have hpos' : 0 < a := by exact_mod_cast hpos
    have hsqrt := Nat.sqrt_pos.mpr hpos'
    have hmax : longMax = (llongMax : ℕ) := rfl
    have hlt : a < llongMax := by omega
    have hvalue := llsqrt_natCast hpos' hlt
    refine ⟨fun fuel hfuel => ?_, fun hnonpos => by omega, fun _ => ?_⟩
    · rw [Int.toNat_natCast] at hfuel
      rw [llsqrt_eq_descend hpos', checkedLlsqrt, if_pos hpos, hmax]
      exact sqrtLoop_eq_descend hpos' ha (Nat.sqrt_le_self a) le_rfl (by omega) fun _ => by omega
    · rw [hvalue, Int.sqrt_natCast]
      refine ⟨?_, ?_, fun hsquare => ?_, fun hsquare => ?_⟩
      · exact_mod_cast Nat.sqrt_le (a + 1)
      · exact_mod_cast Nat.lt_succ_sqrt (a + 1)
      · exact_mod_cast sqrt_succ_of_isSquare (by exact_mod_cast hsquare)
      · exact_mod_cast sqrt_succ_of_not_isSquare (by exact_mod_cast hsquare)

theorem llsqrt_root_eight :
    checkedLlsqrt 9 8 = .ok (llsqrt 8) ∧ llsqrt 8 * llsqrt 8 ≤ 8 + 1 ∧
      8 + 1 < (llsqrt 8 + 1) * (llsqrt 8 + 1) ∧ llsqrt 8 = Int.sqrt 8 + 1 := by
  obtain ⟨hrun, -, hroot⟩ := llsqrt_root (show (8 : ℤ) < longMax by decide)
  obtain ⟨hlow, hhigh, hsquare, -⟩ := hroot (by decide)
  exact ⟨hrun 9 (by decide), hlow, hhigh, hsquare ⟨3, rfl⟩⟩

end Iputils.SquareRoot
