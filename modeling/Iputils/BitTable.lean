import Mathlib.Data.Nat.Notation
import Mathlib.Logic.Function.Basic
import Mathlib.Tactic.SplitIfs

/-!
# Sets of bits packed into an array of words

A table is `n` words of `w` bits. A bit is addressed by its word and its
position in that word; insertion, removal and the membership test are the usual
or, and-not and and with a one-bit mask. The three laws at the end are the
whole interface: nothing later looks inside a word.
-/
set_option autoImplicit false

namespace Iputils.BitTable

/-- The word with only bit `i` set. -/
def mask (w i : ℕ) : BitVec w := 1#w <<< i

theorem getLsbD_mask {w i : ℕ} (hi : i < w) (j : ℕ) :
    (mask w i).getLsbD j = decide (j = i) := by
  unfold mask
  rw [BitVec.getLsbD_shiftLeft]
  by_cases h : j = i
  · subst h
    simp [hi, show 0 < w by omega]
  · by_cases hlt : j < i
    · simp [h, hlt]
    · have hne : j - i ≠ 0 := by omega
      simp [h, hlt, BitVec.getLsbD_one, hne]

theorem and_mask_ne_zero {w i : ℕ} (x : BitVec w) (hi : i < w) :
    x &&& mask w i ≠ 0 ↔ x.getLsbD i = true := by
  constructor
  · intro h
    by_contra hx
    apply h
    apply BitVec.eq_of_getLsbD_eq
    intro j hj
    rw [BitVec.getLsbD_and, getLsbD_mask hi]
    by_cases hji : j = i
    · subst hji
      simp [hx]
    · simp [hji]
  · intro hx h
    have hb := congrArg (fun y => y.getLsbD i) h
    simp [getLsbD_mask hi, hx] at hb

abbrev Table (n w : ℕ) := Fin n → BitVec w

variable {n w : ℕ}

def insert (t : Table n w) (a : Fin n) (i : ℕ) : Table n w :=
  Function.update t a (t a ||| mask w i)

def remove (t : Table n w) (a : Fin n) (i : ℕ) : Table n w :=
  Function.update t a (t a &&& ~~~ mask w i)

def lookup (t : Table n w) (a : Fin n) (i : ℕ) : BitVec w := t a &&& mask w i

@[simp] theorem lookup_zero (a : Fin n) (i : ℕ) : lookup (fun _ => 0#w : Table n w) a i = 0 := by
  simp [lookup]

theorem lookup_insert (t : Table n w) {a b : Fin n} {i j : ℕ} (hi : i < w) (hj : j < w) :
    lookup (insert t a i) b j ≠ 0 ↔ (b = a ∧ j = i) ∨ lookup t b j ≠ 0 := by
  unfold lookup insert
  rw [and_mask_ne_zero _ hj, and_mask_ne_zero _ hj, Function.update_apply]
  split_ifs with h
  · subst h
    simp [getLsbD_mask hi, or_comm]
  · simp [h]

theorem lookup_remove (t : Table n w) {a b : Fin n} {i j : ℕ} (hi : i < w) (hj : j < w) :
    lookup (remove t a i) b j ≠ 0 ↔ ¬ (b = a ∧ j = i) ∧ lookup t b j ≠ 0 := by
  unfold lookup remove
  rw [and_mask_ne_zero _ hj, and_mask_ne_zero _ hj, Function.update_apply]
  split_ifs with h
  · subst h
    rw [BitVec.getLsbD_and, BitVec.getLsbD_not, getLsbD_mask hi]
    simp [hj, and_comm]
  · simp [h]

end Iputils.BitTable
