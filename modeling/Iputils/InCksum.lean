import Iputils.MachineInt
import Iputils.ByteBuffer
import Iputils.OnesComplement

/-!
# The internet checksum

`in_cksum` on a little-endian machine. The accumulator is an `int`: each addition
is checked, and an addition that would overflow, like a read past the end of the
buffer, has no result. The specification is the end-around-carry sum of the
16-bit words, an odd last byte counting as a word of its own.
-/
set_option autoImplicit false

namespace Iputils.InCksum
open MachineInt ByteBuffer OnesComplement

/-- Addition of two values of type `int`. -/
def intAdd (a b : ℤ) : Option ℤ :=
  if -2147483648 ≤ a + b ∧ a + b ≤ intMax then some (a + b) else none

/-- The word that a little-endian machine loads from two bytes. -/
def loadWord (lo hi : UInt8) : ℤ := byteVal lo + 256 * byteVal hi

/-- The summation loop over `nleft` bytes, with the odd byte at its end. -/
def sumWords : List UInt8 → ℕ → ℤ → Option ℤ
  | _, 0, sum => some sum
  | [], _ + 1, _ => none
  | c :: _, 1, sum => intAdd sum (byteVal c)
  | [_], _ + 2, _ => none
  | lo :: hi :: w, nleft + 2, sum =>
      match intAdd sum (loadWord lo hi) with
      | some sum => sumWords w nleft sum
      | none => none

/-- The two folding steps and the truncated complement. -/
def finishSum (sum : ℤ) : Option ℤ := do
  let sum ← intAdd (sum / 65536) (sum % 65536)
  let sum ← intAdd sum (sum / 65536)
  pure (u16 (-sum - 1))

def inCksum (addr : List UInt8) (len : ℕ) (csum : ℤ) : Option ℤ :=
  (sumWords addr len csum).bind finishSum

/-- The ordinary sum of the words of a block. -/
def wordSum : List UInt8 → ℤ
  | [] => 0
  | [c] => byteVal c
  | lo :: hi :: w => loadWord lo hi + wordSum w

theorem loadWord_nonneg (lo hi : UInt8) : 0 ≤ loadWord lo hi := by
  have h₀ := byteVal_nonneg lo
  have h₁ := byteVal_nonneg hi
  unfold loadWord
  omega

theorem loadWord_le (lo hi : UInt8) : loadWord lo hi ≤ 65535 := by
  have h₀ := byteVal_le lo
  have h₁ := byteVal_le hi
  unfold loadWord
  omega

theorem wordSum_nonneg (w : List UInt8) : 0 ≤ wordSum w := by
  fun_induction wordSum w with
  | case1 => exact le_refl 0
  | case2 c => exact byteVal_nonneg c
  | case3 lo hi w ih =>
      have h := loadWord_nonneg lo hi
      omega

/-- `k` full words and an odd byte, each at its largest. -/
theorem wordSum_le (w : List UInt8) :
    wordSum w ≤ 65535 * (w.length / 2 : ℕ) + 255 * (w.length % 2 : ℕ) := by
  fun_induction wordSum w with
  | case1 => simp
  | case2 c =>
      have h := byteVal_le c
      simpa using h
  | case3 lo hi w ih =>
      have h := loadWord_le lo hi
      have h₁ : (lo :: hi :: w).length / 2 = w.length / 2 + 1 := by
        simp only [List.length_cons]
        omega
      have h₂ : (lo :: hi :: w).length % 2 = w.length % 2 := by
        simp only [List.length_cons]
        omega
      rw [h₁, h₂]
      omega

theorem wordSum_append {v w : List UInt8} (h : v.length % 2 = 0) :
    wordSum (v ++ w) = wordSum v + wordSum w := by
  fun_induction wordSum v with
  | case1 => simp
  | case2 c => simp at h
  | case3 lo hi v ih =>
      have hv : v.length % 2 = 0 := by
        simp only [List.length_cons] at h
        omega
      simp only [List.cons_append, wordSum, ih hv, add_assoc]

theorem wordSum_zero (n : ℕ) : wordSum (List.replicate n 0) = 0 := by
  induction n using Nat.twoStepInduction with
  | zero => rfl
  | one => rfl
  | more n ih _ => simp [List.replicate_succ, wordSum, loadWord, ih]

theorem intAdd_of_mem {a b : ℤ} (h₀ : 0 ≤ a) (h₁ : 0 ≤ b) (h₂ : a + b ≤ intMax) :
    intAdd a b = some (a + b) :=
  if_pos ⟨by omega, h₂⟩

/-- The loop computes the ordinary sum as long as the total fits. -/
theorem sumWords_eq {w : List UInt8} {n : ℕ} {sum : ℤ} (hn : n ≤ w.length) (h₀ : 0 ≤ sum)
    (h₁ : sum + wordSum (w.take n) ≤ intMax) :
    sumWords w n sum = some (sum + wordSum (w.take n)) := by
  fun_induction sumWords w n sum with
  | case1 w sum => simp [wordSum]
  | case2 n sum => simp at hn
  | case3 c w sum =>
      simp only [List.take_succ_cons, List.take_zero, wordSum] at h₁ ⊢
      exact intAdd_of_mem h₀ (byteVal_nonneg c) h₁
  | case4 c n sum => simp at hn
  | case5 lo hi w n sum sum' he ih =>
      simp only [List.take_succ_cons, wordSum] at h₁ ⊢
      have hw := loadWord_nonneg lo hi
      have hr := wordSum_nonneg (w.take n)
      have hn' : n ≤ w.length := by
        simp only [List.length_cons] at hn
        omega
      rw [intAdd_of_mem h₀ hw (by omega)] at he
      obtain rfl := Option.some.inj he
      rw [ih hn' (by omega) (by omega), add_assoc]
  | case6 lo hi w n sum he =>
      simp only [List.take_succ_cons, wordSum] at h₁
      have hr := wordSum_nonneg (w.take n)
      rw [intAdd_of_mem h₀ (loadWord_nonneg lo hi) (by omega)] at he
      cases he

theorem finishSum_eq {sum : ℤ} (h₀ : 0 ≤ sum) (h₁ : sum ≤ intMax) :
    finishSum sum = some (complement (fold sum)) := by
  have h₂ := h₁
  unfold intMax at h₂
  have hstep : sum / 65536 + sum % 65536 = carryStep sum := rfl
  have hlow : 0 ≤ carryStep sum := by
    unfold carryStep
    omega
  have hhigh : carryStep sum ≤ 32767 + 65535 := by
    unfold carryStep
    omega
  have hcarry := carry_twice h₀ h₂
  unfold finishSum
  rw [intAdd_of_mem (by omega) (by omega) (by unfold intMax; omega), hstep, Option.bind_eq_bind,
    Option.bind_some, intAdd_of_mem hlow (by omega) (by unfold intMax; omega)]
  simp only [Option.bind_some, Option.pure_def, complement, ← hcarry, u16]
  congr 1
  omega

/-- No block of up to 65535 bytes can make the accumulator overflow. -/
theorem accumulator_le {w : List UInt8} {n : ℕ} {csum : ℤ} (hn : n ≤ 65535)
    (hc : csum ≤ 65535) : csum + wordSum (w.take n) ≤ intMax := by
  have h := wordSum_le (w.take n)
  have hlen : (w.take n).length ≤ 65535 := by
    rw [List.length_take]
    omega
  unfold intMax
  omega

theorem inCksum_eq {addr : List UInt8} {len : ℕ} {csum : ℤ} (hlen : len ≤ addr.length)
    (hmax : len ≤ 65535) (h₀ : 0 ≤ csum) (h₁ : csum ≤ 65535) :
    inCksum addr len csum = some (complement (fold (csum + wordSum (addr.take len)))) := by
  have hfit : csum + wordSum (addr.take len) ≤ intMax := accumulator_le hmax h₁
  have hr := wordSum_nonneg (addr.take len)
  rw [inCksum, sumWords_eq hlen h₀ hfit, Option.bind_some, finishSum_eq (by omega) hfit]

end Iputils.InCksum
