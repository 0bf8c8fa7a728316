import Iputils.LineTimes

/-!
# Integers at the front of a text

`strtol` and `strtoul` pass over white space, a sign and, in base 16, a further `0x`, and
take the digits behind them. What does not fit is replaced by the nearest bound, and a text
without digits is zero and nothing of it is taken.
-/
set_option autoImplicit false

namespace Iputils.IntegerText
open MachineInt ScanText LineTimes HopTable

inductive Base
  | ten | sixteen
deriving Repr, DecidableEq

def Base.radix : Base → ℕ
  | .ten => 10
  | .sixteen => 16

def Base.digit : Base → Char → Bool
  | .ten => Char.isDigit
  | .sixteen => isHexDigit

/-- The text starts with `0x`. -/
def hexStart : List Char → Bool
  | c :: x :: _ => c = '0' && (x = 'x' || x = 'X')
  | _ => false

/-- In base 16 a `0x` is passed over if a digit follows. -/
def hexMark (base : Base) (s : List Char) : Item :=
  if base = .sixteen ∧ hexStart s = true ∧ (s.drop 2).head?.any isHexDigit = true then
    (s.take 2, s.drop 2)
  else ([], s)

/-- The integer at the front of a text, and what follows it. -/
def scanInteger (base : Base) (s : List Char) : Option (ℤ × List Char) :=
  let sign := signItem (s.dropWhile isSpace)
  let body := (hexMark base sign.2).2
  let digits := body.takeWhile base.digit
  if digits = [] then none
  else
    let n : ℤ := digitsValue base.radix digits
    some (if sign.1 = ['-'] then -n else n, body.dropWhile base.digit)

/-- A conversion of an integer that is found as `value` says. -/
def strto (value : ℤ → ℤ) (base : Base) (s : List Char) : ℤ × List Char :=
  match scanInteger base s with
  | none => (0, s)
  | some (n, rest) => (value n, rest)

def strtol : Base → List Char → ℤ × List Char := strto longClamp

/-- A negative number wraps, one that is too large in amount becomes `ULONG_MAX`. -/
def ulongClamp (n : ℤ) : ℤ := if |n| < 2 ^ 64 then u64 n else 2 ^ 64 - 1

def strtoul : Base → List Char → ℤ × List Char := strto ulongClamp

example : strtol .ten " -12k".toList = (-12, ['k']) := by decide +kernel
example : strtol .sixteen "0x".toList = (0, ['x']) := by decide +kernel

section Scan
variable {base : Base}

theorem digit_solid {c : Char} (h : base.digit c = true) : isSpace c = false := by
  cases base
  · exact not_isSpace_of (p := Char.isDigit) (by decide) h
  · exact not_isSpace_of (p := isHexDigit) (by decide) h

theorem digit_ne {c d : Char} (h : base.digit c = true) (hd : isHexDigit d = false) : c ≠ d := by
  rintro rfl
  cases base
  · simp [isHexDigit, show c.isDigit = true from h] at hd
  · simp [show isHexDigit c = true from h] at hd

theorem hexStart_eq_true {s : List Char} :
    hexStart s = true ↔ ∃ x t, s = '0' :: x :: t ∧ (x = 'x' ∨ x = 'X') := by
  constructor
  · intro h
    rcases s with _ | ⟨c, _ | ⟨x, t⟩⟩
    · cases h
    · cases h
    · simp only [hexStart, Bool.and_eq_true, Bool.or_eq_true, decide_eq_true_eq] at h
      exact ⟨x, t, by rw [h.1], h.2⟩
  · rintro ⟨x, t, rfl, rfl | rfl⟩ <;> rfl

theorem hexStart_digits {ds : List Char} (h : ∀ c ∈ ds, base.digit c = true) :
    hexStart ds = false := by
  rw [Bool.eq_false_iff]
  intro hstart
  obtain ⟨x, t, rfl, hx⟩ := hexStart_eq_true.mp hstart
  have hdigit := h x (by simp)
  rcases hx with rfl | rfl
  · exact digit_ne hdigit (by decide) rfl
  · exact digit_ne hdigit (by decide) rfl

/-- A text of digits is taken as a whole. -/
theorem scanInteger_digits {ds : List Char} (hne : ds ≠ []) (h : ∀ c ∈ ds, base.digit c = true) :
    scanInteger base ds = some ((digitsValue base.radix ds : ℤ), []) := by
  obtain ⟨d, s, rfl⟩ := List.exists_cons_of_ne_nil hne
  have hd := h d List.mem_cons_self
  have hspace : (d :: s).dropWhile isSpace = d :: s :=
    List.dropWhile_cons_of_neg (by rw [digit_solid hd]; decide)
  have hsign : signItem (d :: s) = ([], d :: s) :=
    if_neg (not_or.mpr ⟨digit_ne hd (by decide), digit_ne hd (by decide)⟩)
  have hmark : hexMark base (d :: s) = ([], d :: s) :=
    if_neg fun hall => by simp [hexStart_digits h] at hall
  unfold scanInteger
  rw [hspace, hsign]
  dsimp only
  rw [hmark]
  dsimp only
  rw [List.takeWhile_eq_self_iff.mpr h, List.dropWhile_eq_nil_iff.mpr h, if_neg hne,
    if_neg (by decide)]

theorem scanInteger_nil : scanInteger base [] = none := by
  cases base <;> rfl

/-- The conversion takes the whole text only if there is nothing or an integer. -/
theorem strto_whole {value : ℤ → ℤ} {s : List Char} :
    (strto value base s).2 = [] ↔ s = [] ∨ ∃ n, scanInteger base s = some (n, []) := by
  unfold strto
  cases hscan : scanInteger base s with
  | none => simp
  | some r =>
      obtain ⟨n, rest⟩ := r
      constructor
      · exact fun h => Or.inr ⟨n, congrArg (fun t => some (n, t)) h⟩
      · rintro (rfl | ⟨m, hm⟩)
        · rw [scanInteger_nil] at hscan
          cases hscan
        · exact (Prod.mk.inj (Option.some.inj hm)).2

end Scan

end Iputils.IntegerText
