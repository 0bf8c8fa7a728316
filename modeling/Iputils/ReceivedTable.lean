import Iputils.MachineInt
import Iputils.BitTable

/-!
# The table of answered sequence numbers

`struct rcvd_table` has one bit for each of the `MAX_DUP_CHK` sequence numbers,
in words of 64 bits (`USE_BITMAP64`). The macros `A` and `B` of `ping.h` pick
the word and the mask of a bit. The laws say when two sequence numbers share a
bit, so callers reason about probe numbers and never about words.
-/
set_option autoImplicit false

namespace Iputils.ReceivedTable
open MachineInt

def maxDupChk : ℕ := 0x10000

def bitmapShift : ℕ := 6

structure RcvdTable where
  bitmap : BitTable.Table 1024 64 := fun _ => 0

/-- `unsigned bit = seq % MAX_DUP_CHK`, for an argument of type `uint16_t`. -/
def bitOf (seq : ℤ) : ℕ := (u16 seq).toNat % maxDupChk

theorem bitOf_lt (seq : ℤ) : bitOf seq < 65536 := Nat.mod_lt _ (by decide)

/-- Index of the word that macro `A` selects. -/
def wordOf (seq : ℤ) : Fin 1024 :=
  ⟨bitOf seq >>> bitmapShift, by
    have h := bitOf_lt seq
    rw [Nat.shiftRight_eq_div_pow]
    unfold bitmapShift
    omega⟩

/-- Shift distance in macro `B`. -/
def shiftOf (seq : ℤ) : ℕ := bitOf seq &&& ((1 <<< bitmapShift) - 1)

theorem shiftOf_eq (seq : ℤ) : shiftOf seq = bitOf seq % 64 :=
  Nat.and_two_pow_sub_one_eq_mod (bitOf seq) 6

theorem shiftOf_lt (seq : ℤ) : shiftOf seq < 64 := by
  rw [shiftOf_eq]
  omega

theorem word_shift_inj (x y : ℤ) :
    (wordOf x = wordOf y ∧ shiftOf x = shiftOf y) ↔ u16 x = u16 y := by
  have hx := u16_nonneg x
  have hy := u16_nonneg y
  have hx' := u16_lt x
  have hy' := u16_lt y
  simp only [wordOf, shiftOf_eq, bitOf, maxDupChk, bitmapShift, Fin.mk.injEq,
    Nat.shiftRight_eq_div_pow]
  omega

def rcvdSet (t : RcvdTable) (seq : ℤ) : RcvdTable :=
  ⟨BitTable.insert t.bitmap (wordOf seq) (shiftOf seq)⟩

def rcvdClear (t : RcvdTable) (seq : ℤ) : RcvdTable :=
  ⟨BitTable.remove t.bitmap (wordOf seq) (shiftOf seq)⟩

def rcvdTest (t : RcvdTable) (seq : ℤ) : BitVec 64 :=
  BitTable.lookup t.bitmap (wordOf seq) (shiftOf seq)

@[simp] theorem rcvdTest_empty (seq : ℤ) : rcvdTest {} seq = 0 := by
  simp [rcvdTest]

theorem rcvdTest_rcvdSet (t : RcvdTable) (x y : ℤ) :
    rcvdTest (rcvdSet t x) y ≠ 0 ↔ u16 y = u16 x ∨ rcvdTest t y ≠ 0 := by
  unfold rcvdTest rcvdSet
  rw [BitTable.lookup_insert _ (shiftOf_lt x) (shiftOf_lt y), word_shift_inj]

theorem rcvdTest_rcvdClear (t : RcvdTable) (x y : ℤ) :
    rcvdTest (rcvdClear t x) y ≠ 0 ↔ u16 y ≠ u16 x ∧ rcvdTest t y ≠ 0 := by
  unfold rcvdTest rcvdClear
  rw [BitTable.lookup_remove _ (shiftOf_lt x) (shiftOf_lt y), word_shift_inj]

theorem rcvdTest_u16 (t : RcvdTable) (x : ℤ) : rcvdTest t (u16 x) = rcvdTest t x := by
  have h : u16 (u16 x) = u16 x := u16_of_mem (u16_nonneg x) (u16_lt x)
  simp only [rcvdTest, wordOf, shiftOf, bitOf, h]

end Iputils.ReceivedTable
