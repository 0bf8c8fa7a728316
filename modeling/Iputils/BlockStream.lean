import Mathlib.Data.Nat.Basic
import Mathlib.Algebra.Order.Group.Nat
import Mathlib.Data.List.Basic

/-!
# Streams of blocks

A fold over the blocks of `n` elements of a list, with what is left of the list behind
the last of them. A stream that is read piece by piece keeps the state after its whole
blocks and the rest, and goes on from these as if it had been read at once.
-/
set_option autoImplicit false

namespace Iputils.BlockStream

section Blocks
variable {σ α : Type*} {n : ℕ} {f : σ → List α → σ} {s : σ} {l m : List α}

/-- The first `k` blocks go to `f`. -/
def foldBlocks (n : ℕ) (f : σ → List α → σ) : ℕ → σ → List α → σ
  | 0, s, _ => s
  | k + 1, s, l => foldBlocks n f k (f s (l.take n)) (l.drop n)

/-- Every whole block goes to `f`. -/
def whole (n : ℕ) (f : σ → List α → σ) (s : σ) (l : List α) : σ := foldBlocks n f (l.length / n) s l

/-- What lies behind the last whole block. -/
def rest (n : ℕ) (l : List α) : List α := l.drop (n * (l.length / n))

theorem foldBlocks_add (j k : ℕ) (s : σ) (l : List α) :
    foldBlocks n f (j + k) s l = foldBlocks n f k (foldBlocks n f j s l) (l.drop (n * j)) := by
  induction j generalizing s l with
  | zero => rw [Nat.zero_add, Nat.mul_zero, List.drop_zero, foldBlocks]
  | succ j ih =>
    have hdrop : (l.drop n).drop (n * j) = l.drop (n * (j + 1)) := by
      rw [List.drop_drop, Nat.mul_succ, Nat.add_comm]
    rw [Nat.succ_add, foldBlocks, ih, hdrop, foldBlocks]

/-- What follows the blocks does not matter. -/
theorem foldBlocks_append (k : ℕ) (s : σ) (h : n * k ≤ l.length) (m : List α) :
    foldBlocks n f k s (l ++ m) = foldBlocks n f k s l := by
  induction k generalizing s l with
  | zero => rfl
  | succ k ih =>
    rw [Nat.mul_succ] at h
    have hn : n ≤ l.length := by omega
    have hk : n * k ≤ (l.drop n).length := by
      rw [List.length_drop]
      omega
    rw [foldBlocks, List.take_append_of_le_length hn, List.drop_append_of_le_length hn, ih _ hk,
      foldBlocks]

theorem length_rest (n : ℕ) (l : List α) : (rest n l).length = l.length % n := by
  rw [rest, List.length_drop, Nat.mod_eq_sub_mul_div]

theorem whole_of_lt (h : l.length < n) : whole n f s l = s := by
  rw [whole, Nat.div_eq_of_lt h, foldBlocks]

theorem rest_of_lt (h : l.length < n) : rest n l = l := by
  rw [rest, Nat.div_eq_of_lt h, Nat.mul_zero, List.drop_zero]

theorem div_length_drop (h : 0 < n) (hl : n ≤ l.length) :
    l.length / n = (l.drop n).length / n + 1 := by
  rw [List.length_drop, ← Nat.div_eq_sub_div h hl]

/-- A block in front is the first to go. -/
theorem whole_of_le (h : 0 < n) (hl : n ≤ l.length) :
    whole n f s l = whole n f (f s (l.take n)) (l.drop n) := by
  rw [whole, div_length_drop h hl, foldBlocks, whole]

theorem rest_of_le (h : 0 < n) (hl : n ≤ l.length) : rest n l = rest n (l.drop n) := by
  rw [rest, rest, List.drop_drop, div_length_drop h hl, Nat.mul_succ, Nat.add_comm]

/-- The blocks of a list that is longer by a multiple of the block's length. -/
theorem div_length_append (h : 0 < n) (l m : List α) :
    (l ++ m).length / n = l.length / n + (rest n l ++ m).length / n := by
  have hdiv := Nat.div_add_mod l.length n
  rw [List.length_append, List.length_append, length_rest]
  calc (l.length + m.length) / n
      = (n * (l.length / n) + (l.length % n + m.length)) / n := by congr 1; omega
    _ = l.length / n + (l.length % n + m.length) / n := Nat.mul_add_div h _ _

theorem drop_whole_append (l m : List α) : (l ++ m).drop (n * (l.length / n)) = rest n l ++ m :=
  List.drop_append_of_le_length (Nat.mul_div_le _ _)

/-- Reading on is reading at once. -/
theorem whole_append (h : 0 < n) (s : σ) (l m : List α) :
    whole n f s (l ++ m) = whole n f (whole n f s l) (rest n l ++ m) := by
  rw [whole, div_length_append h, foldBlocks_add, drop_whole_append,
    foldBlocks_append _ _ (Nat.mul_div_le _ _), whole, whole]

theorem rest_append (h : 0 < n) (l m : List α) : rest n (l ++ m) = rest n (rest n l ++ m) := by
  rw [rest, div_length_append h, Nat.mul_add, ← List.drop_drop, drop_whole_append]
  rfl

/-- A block and what lies behind it. -/
theorem whole_block_append (h : 0 < n) (hl : l.length = n) (m : List α) :
    whole n f s (l ++ m) = whole n f (f s l) m := by
  have hle : n ≤ (l ++ m).length := by
    rw [List.length_append]
    omega
  rw [whole_of_le h hle, List.take_left' hl, List.drop_left' hl]

/-- One block, with nothing behind it. -/
theorem whole_block (h : 0 < n) (hl : l.length = n) : whole n f s l = f s l := by
  have happend := whole_block_append (f := f) (s := s) h hl []
  rwa [List.append_nil, whole_of_lt (l := []) h] at happend

end Blocks

end Iputils.BlockStream
