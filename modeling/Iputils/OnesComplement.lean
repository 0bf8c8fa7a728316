import Mathlib.Tactic.SplitIfs
import Mathlib.Tactic.Linarith

/-!
# One's complement arithmetic on 16 bits

The end-around-carry sum of a list of words depends on their ordinary sum only:
it is the representative in `1 .. 65535` modulo 65535, and 0 for the empty sum.
The two zeros of one's complement are the numbers 0 and 65535. Folding the
carries of an accumulator twice gives this representative whenever the
accumulator fits a signed 32-bit integer.
-/
set_option autoImplicit false

namespace Iputils.OnesComplement

/-- The end-around-carry sum of words whose ordinary sum is `n`. -/
def fold (n : ℤ) : ℤ := if n = 0 then 0 else (n - 1) % 65535 + 1

def complement (n : ℤ) : ℤ := 65535 - n

/-- One addition of the high half to the low half. -/
def carryStep (n : ℤ) : ℤ := n / 65536 + n % 65536

theorem fold_nonneg (n : ℤ) : 0 ≤ fold n := by
  unfold fold
  split_ifs <;> omega

theorem fold_le (n : ℤ) : fold n ≤ 65535 := by
  unfold fold
  split_ifs <;> omega

theorem fold_pos {n : ℤ} (h : 0 < n) : 0 < fold n := by
  unfold fold
  split_ifs <;> omega

/-- Two steps suffice below `2 ^ 31`; the second leaves the carry in bit 16. -/
theorem carry_twice {n : ℤ} (h₀ : 0 ≤ n) (h₁ : n ≤ 2147483647) :
    (carryStep n + carryStep n / 65536) % 65536 = fold n := by
  have hs : carryStep n ≤ 32767 + 65535 := by
    unfold carryStep
    omega
  have hmod : carryStep n % 65535 = n % 65535 := by
    unfold carryStep
    omega
  have hpos : carryStep n = 0 ↔ n = 0 := by
    unfold carryStep
    omega
  have hnonneg : 0 ≤ carryStep n := by
    unfold carryStep
    omega
  generalize carryStep n = s at *
  unfold fold
  split_ifs with hn
  · omega
  · rcases lt_or_ge s 65536 with hlt | hge <;> omega

/-- A partial sum may be folded before the rest is added. -/
theorem fold_fold_add {a b : ℤ} (ha : 0 < a) (hb : 0 ≤ b) : fold (fold a + b) = fold (a + b) := by
  have hfa := fold_pos ha
  have hmod : (fold a - a) % 65535 = 0 := by
    unfold fold
    split_ifs <;> omega
  generalize fold a = f at *
  unfold fold
  split_ifs <;> omega

/-- Adding the complement of its own sum turns a nonzero sum into the negative zero. -/
theorem fold_add_complement {a : ℤ} (ha : 0 < a) : fold (a + complement (fold a)) = 65535 := by
  unfold complement fold
  split_ifs <;> omega

end Iputils.OnesComplement
