import Mathlib.Tactic.SplitIfs
import Mathlib.Tactic.Linarith

/-!
# Conversions between the integer types of C

Every C integer is an element of ℤ, and each conversion that the usual
arithmetic conversions, an assignment or a cast perform is written out. The
functions below are those conversions for the widths a 64-bit Linux target has.
Signed arithmetic itself stays in ℤ: where a development depends on the absence
of overflow it proves the bound.
-/
set_option autoImplicit false

namespace Iputils.MachineInt

/-- Conversion to `uint8_t`. -/
def u8 (x : ℤ) : ℤ := x % 256

/-- Conversion to `uint16_t`. -/
def u16 (x : ℤ) : ℤ := x % 65536

/-- Conversion to `int16_t`: the representative in `-32768 .. 32767`. -/
def i16 (x : ℤ) : ℤ := (x + 32768) % 65536 - 32768

/-- Conversion to `uint32_t`. -/
def u32 (x : ℤ) : ℤ := x % 4294967296

/-- Conversion to `int`: the representative in `-2147483648 .. 2147483647`. -/
def i32 (x : ℤ) : ℤ := (x + 2147483648) % 4294967296 - 2147483648

/-- Conversion to `uint64_t`. -/
def u64 (x : ℤ) : ℤ := x % 18446744073709551616

/-- Conversion to `long`: the representative in `-2^63 .. 2^63 - 1`. -/
def i64 (x : ℤ) : ℤ := (x + 9223372036854775808) % 18446744073709551616 - 9223372036854775808

def intMax : ℤ := 2147483647

theorem u16_nonneg (x : ℤ) : 0 ≤ u16 x := by
  unfold u16
  omega

theorem u16_lt (x : ℤ) : u16 x < 65536 := by
  unfold u16
  omega

theorem u16_of_mem {x : ℤ} (h₀ : 0 ≤ x) (h₁ : x < 65536) : u16 x = x := by
  unfold u16
  omega

/-- A truncated operand may be replaced by the untruncated one. -/
@[simp] theorem u16_sub_u16 (x y : ℤ) : u16 (u16 x - u16 y) = u16 (x - y) := by
  unfold u16
  omega

@[simp] theorem i16_sub_u16 (x y : ℤ) : i16 (u16 x - u16 y) = i16 (x - y) := by
  unfold i16 u16
  omega

theorem i16_of_mem {x : ℤ} (h₀ : -32768 ≤ x) (h₁ : x ≤ 32767) : i16 x = x := by
  unfold i16
  omega

/-- Two numbers less than one period apart share their low 16 bits only when equal. -/
theorem u16_injOn {x y : ℤ} (h : u16 x = u16 y) (h₀ : x - y < 65536) (h₁ : y - x < 65536) :
    x = y := by
  unfold u16 at h
  omega

/-- The plain difference of two truncated operands is the truncated difference,
possibly less one period. -/
theorem u16_sub_cases (x y : ℤ) :
    u16 x - u16 y = u16 (x - y) ∨ u16 x - u16 y = u16 (x - y) - 65536 := by
  unfold u16
  omega

theorem i32_of_mem {x : ℤ} (h₀ : -2147483648 ≤ x) (h₁ : x ≤ intMax) : i32 x = x := by
  unfold intMax at h₁
  unfold i32
  omega

end Iputils.MachineInt
