import Mathlib.Data.List.Basic
import Mathlib.Tactic.SplitIfs
import Mathlib.Tactic.Linarith

/-!
# Decimal conversions of printf

The conversions `%d`, `%ld` and `%lu`, and their zero-padded forms, as lists of
characters. The argument is an integer that already has the value the C type
gives it.
-/
set_option autoImplicit false

namespace Iputils.PrintfText

/-- `%d` and its variants. -/
def decText (x : ℤ) : List Char :=
  if x < 0 then '-' :: Nat.toDigits 10 x.natAbs else Nat.toDigits 10 x.natAbs

/-- `%0wd`: zeros between the sign and the digits, up to width `w`. -/
def padText (w : ℕ) (x : ℤ) : List Char :=
  let ds := Nat.toDigits 10 x.natAbs
  if x < 0 then '-' :: (List.replicate (w - 1 - ds.length) '0' ++ ds)
  else List.replicate (w - ds.length) '0' ++ ds

example : decText (-120) = ['-', '1', '2', '0'] := by decide
example : padText 3 7 = ['0', '0', '7'] := by decide

theorem isDigit_toDigits {n : ℕ} {c : Char} (h : c ∈ Nat.toDigits 10 n) : c.isDigit = true :=
  Nat.isDigit_of_mem_toDigits (by decide) (by decide) h

/-- Decimal digits have no leading zero. -/
theorem toDigits_head {n : ℕ} (h : 0 < n) :
    ∃ d es, Nat.toDigits 10 n = d :: es ∧ d ≠ '0' := by
  induction n using Nat.strong_induction_on with
  | _ n ih =>
      rcases lt_or_ge n 10 with hlt | hge
      · exact ⟨n.digitChar, [], Nat.toDigits_of_lt_base hlt, by simpa using h.ne'⟩
      · obtain ⟨d, es, he, hd⟩ := ih (n / 10) (by omega) (by omega)
        refine ⟨d, es ++ [(n % 10).digitChar], ?_, hd⟩
        rw [Nat.toDigits_of_base_le (by decide) hge, he]
        rfl

/-- A printed number can be read back. -/
theorem decText_inj {x y : ℤ} (hx : 0 ≤ x) (hy : 0 ≤ y) (h : decText x = decText y) : x = y := by
  rw [decText, decText, if_neg (by omega), if_neg (by omega)] at h
  have habs : x.natAbs = y.natAbs := by
    rw [← Nat.ofDigitChars_ten_toDigits (n := x.natAbs), h, Nat.ofDigitChars_ten_toDigits]
  omega

/-- The characters a conversion can produce. -/
theorem mem_decText {x : ℤ} {c : Char} (h : c ∈ decText x) : c = '-' ∨ c.isDigit = true := by
  unfold decText at h
  split_ifs at h
  · rcases List.mem_cons.mp h with rfl | h
    · exact Or.inl rfl
    · exact Or.inr (isDigit_toDigits h)
  · exact Or.inr (isDigit_toDigits h)

theorem mem_padText {w : ℕ} {x : ℤ} {c : Char} (h : c ∈ padText w x) :
    c = '-' ∨ c.isDigit = true := by
  simp only [padText] at h
  split_ifs at h
  · rcases List.mem_cons.mp h with rfl | h
    · exact Or.inl rfl
    · rcases List.mem_append.mp h with h | h
      · exact Or.inr (by rw [List.eq_of_mem_replicate h]; rfl)
      · exact Or.inr (isDigit_toDigits h)
  · rcases List.mem_append.mp h with h | h
    · exact Or.inr (by rw [List.eq_of_mem_replicate h]; rfl)
    · exact Or.inr (isDigit_toDigits h)

theorem length_toDigits_le {n k : ℕ} (hk : 0 < k) (h : n < 10 ^ k) :
    (Nat.toDigits 10 n).length ≤ k :=
  (Nat.length_toDigits_le_iff (by decide) hk).mpr h

theorem length_decText_le {x : ℤ} {k : ℕ} (hk : 0 < k) (h : x.natAbs < 10 ^ k) :
    (decText x).length ≤ k + 1 := by
  have hd := length_toDigits_le hk h
  unfold decText
  split_ifs
  · simpa using hd
  · omega

theorem length_padText_le {w : ℕ} {x : ℤ} {k : ℕ} (hk : 0 < k) (h : x.natAbs < 10 ^ k) :
    (padText w x).length ≤ w + k + 1 := by
  have hd := length_toDigits_le hk h
  simp only [padText]
  split_ifs <;> simp only [List.length_cons, List.length_append, List.length_replicate] <;> omega

end Iputils.PrintfText
