import Iputils.IntegerText
import Iputils.NumeralText
import Iputils.PrintedTimes

/-!
# Numbers on the command line

`strtol_or_err` and `strtoul_or_err` convert a whole argument and test a range. They end
the program unless the argument is an integer, with white space and a sign in front, that
the type holds and the range contains. For the unsigned type a negative integer is one that
has wrapped by then.
-/
set_option autoImplicit false

namespace Iputils.NumberOptions
open ScanText LineTimes HopTable PrintfText IntegerText NumeralText

section Code

/-- What `error` is called with: whether `errno` is `ERANGE` or 0, and the text. -/
structure NumberError where
  range : Bool := false
  text : List Char
deriving Repr, DecidableEq

/-- A conversion, and what the type of its result holds. -/
structure Conversion where
  value : ℤ → ℤ
  Fits : ℤ → Prop
  decidableFits : DecidablePred Fits

instance decidableConversionFits (k : Conversion) : DecidablePred k.Fits := k.decidableFits

def Conversion.long : Conversion :=
  ⟨longClamp, fun n => -2 ^ 63 ≤ n ∧ n < 2 ^ 63, fun _ => inferInstanceAs (Decidable (_ ∧ _))⟩

def Conversion.ulong : Conversion :=
  ⟨ulongClamp, fun n => |n| < 2 ^ 64, fun _ => inferInstanceAs (Decidable (_ < _))⟩

/-- `errno` behind the conversion. -/
def Conversion.erange (k : Conversion) (str : List Char) : Bool :=
  (scanInteger .ten str).any fun r => ¬ k.Fits r.1

/-- `%s: '%s'` -/
def namedText (errmesg str : List Char) : List Char := errmesg ++ ": '".toList ++ str ++ "'".toList

/-- The two functions; `error` ends the program. -/
def Conversion.orErr (k : Conversion) (str errmesg : List Char) (min max : ℤ) :
    Except NumberError ℤ :=
  if str = [] then .error { text := namedText errmesg str }
  else
    let num := (strto k.value .ten str).1
    let stop := (strto k.value .ten str).2
    if k.erange str = true ∨ str = stop ∨ stop ≠ [] then
      .error { range := k.erange str, text := namedText errmesg str }
    else if num < min ∨ max < num then
      .error
        { text := namedText errmesg str ++ ": out of range: ".toList ++ decText min ++
            " <= value <= ".toList ++ decText max }
    else .ok num

def strtolOrErr : List Char → List Char → ℤ → ℤ → Except NumberError ℤ := Conversion.long.orErr

def strtoulOrErr : List Char → List Char → ℤ → ℤ → Except NumberError ℤ := Conversion.ulong.orErr

end Code

section Meaning

/-- White space, a sign and decimal digits, and the integer that they write. -/
inductive Integer : List Char → ℤ → Prop
  | mk {ws sign ds : List Char} (hws : ∀ c ∈ ws, isSpace c = true) (hsign : Sign sign)
      (hds : Digits ds) :
      Integer (ws ++ (sign ++ ds))
        (if sign = ['-'] then -(digitsValue 10 ds : ℤ) else digitsValue 10 ds)

variable {str errmesg sign ds : List Char} {n v min max : ℤ}

theorem sign_signItem (s : List Char) : Sign (signItem s).1 := by
  cases s with
  | nil => exact Or.inl rfl
  | cons c s =>
    unfold signItem
    dsimp only
    split_ifs with hc
    · rcases hc with rfl | rfl
      · exact Or.inr (Or.inl rfl)
      · exact Or.inr (Or.inr rfl)
    · exact Or.inl rfl

theorem solid_sign_digits (h : Sign sign) (hds : Digits ds) : Solid (sign ++ ds) := by
  refine Solid.append ?_ fun c hc => not_isSpace_of (p := Char.isDigit) (by decide) (hds.all c hc)
  rcases h with rfl | rfl | rfl
  · exact solid_nil
  · exact Solid.cons rfl solid_nil
  · exact Solid.cons rfl solid_nil

/-- What the conversion takes whole. -/
theorem scanInteger_iff : scanInteger .ten str = some (n, []) ↔ Integer str n := by
  have hmark : ∀ s, hexMark .ten s = ([], s) := fun _ => rfl
  unfold scanInteger
  simp only [hmark]
  constructor
  · intro h
    by_cases hne : (signItem (str.dropWhile isSpace)).2.takeWhile Base.ten.digit = []
    · rw [if_pos hne] at h
      cases h
    · rw [if_neg hne] at h
      obtain ⟨hn, hrest⟩ := Prod.mk.inj (Option.some.inj h)
      have hall := List.takeWhile_append_dropWhile (p := Base.ten.digit)
        (l := (signItem (str.dropWhile isSpace)).2)
      rw [hrest, List.append_nil] at hall
      have hdigits : Digits (signItem (str.dropWhile isSpace)).2 :=
        ⟨hall ▸ hne, fun c hc => List.mem_takeWhile_imp (hall ▸ hc)⟩
      have hspace : ∀ c ∈ str.takeWhile isSpace, isSpace c = true :=
        fun c hc => List.mem_takeWhile_imp hc
      have hinteger := Integer.mk hspace (sign_signItem (str.dropWhile isSpace)) hdigits
      rw [signItem_append, List.takeWhile_append_dropWhile] at hinteger
      rwa [← hn, hall]
  · rintro @⟨ws, sign, ds, hws, hsign, hds⟩
    have hall : ∀ c ∈ ds, Base.ten.digit c = true := hds.all
    have hitem := signItem_sign (r := []) hsign hds
    rw [List.append_nil] at hitem
    have hdrop := dropWhile_solid (solid_sign_digits hsign hds) (List.append_ne_nil_of_right_ne_nil _ hds.ne_nil) []
    rw [List.append_nil] at hdrop
    rw [List.dropWhile_append_of_pos hws, hdrop, hitem]
    dsimp only
    rw [List.takeWhile_eq_self_iff.mpr hall, List.dropWhile_eq_nil_iff.mpr hall, if_neg hds.ne_nil]
    rfl

theorem Integer.ne_nil (h : Integer str n) : str ≠ [] := by
  cases h with
  | mk hws hsign hds =>
    exact List.append_ne_nil_of_right_ne_nil _ (List.append_ne_nil_of_right_ne_nil _ hds.ne_nil)

/-- An argument that is accepted is an integer that fits, and its value is in the range. -/
theorem Conversion.orErr_iff (k : Conversion) :
    k.orErr str errmesg min max = .ok v ↔
      ∃ n, Integer str n ∧ k.Fits n ∧ v = k.value n ∧ min ≤ v ∧ v ≤ max := by
  constructor
  · intro h
    unfold Conversion.orErr at h
    dsimp only at h
    split_ifs at h with hnil hbad hrange
    push Not at hbad hrange
    obtain ⟨n, hn⟩ := (strto_whole.mp hbad.2.2).resolve_left hnil
    have hvalue : (strto k.value .ten str).1 = k.value n := by
      unfold strto
      rw [hn]
    have hfits : k.Fits n := by
      have herange := hbad.1
      unfold Conversion.erange at herange
      rw [hn] at herange
      exact not_not.mp fun hnot => herange (decide_eq_true hnot)
    refine ⟨n, scanInteger_iff.mp hn, hfits, ?_⟩
    rw [hvalue] at h hrange
    rw [← Except.ok.inj h]
    exact ⟨rfl, hrange⟩
  · rintro ⟨n, hn, hfits, rfl, hmin, hmax⟩
    have hscan := scanInteger_iff.mpr hn
    have hvalue : strto k.value .ten str = (k.value n, []) := by
      unfold strto
      rw [hscan]
    have herange : k.erange str = false := by
      unfold Conversion.erange
      rw [hscan]
      exact decide_eq_false (not_not.mpr hfits)
    unfold Conversion.orErr
    rw [if_neg hn.ne_nil, hvalue, herange]
    dsimp only
    rw [if_neg (by simp [hn.ne_nil]), if_neg (by omega)]

theorem longClamp_of_fits (hmin : -2 ^ 63 ≤ n) (hmax : n < 2 ^ 63) : longClamp n = n := by
  unfold longClamp
  omega

theorem strtolOrErr_integer (hn : Integer str n) (hfits : -2 ^ 63 ≤ n ∧ n < 2 ^ 63)
    (hrange : min ≤ n ∧ n ≤ max) : strtolOrErr str errmesg min max = .ok n :=
  (Conversion.long.orErr_iff).mpr ⟨n, hn, hfits, (longClamp_of_fits hfits.1 hfits.2).symm, hrange⟩

/-- What `strtol_or_err` accepts in a range of `long`: the integers of the range. -/
theorem strtolOrErr_iff (hmin : -2 ^ 63 ≤ min) (hmax : max < 2 ^ 63) :
    strtolOrErr str errmesg min max = .ok v ↔ Integer str v ∧ min ≤ v ∧ v ≤ max := by
  constructor
  · intro h
    obtain ⟨n, hn, hfits, hv, hrange⟩ := (Conversion.long.orErr_iff).mp h
    obtain rfl : v = n := hv.trans (longClamp_of_fits hfits.1 hfits.2)
    exact ⟨hn, hrange⟩
  · rintro ⟨hv, hrange⟩
    exact strtolOrErr_integer hv (by omega) hrange

theorem strtolOrErr_iff_ttl :
    strtolOrErr "+64".toList "invalid argument".toList 0 255 = .ok 64 ↔
      Integer "+64".toList 64 ∧ (0 : ℤ) ≤ 64 ∧ (64 : ℤ) ≤ 255 :=
  strtolOrErr_iff (by decide) (by decide)

theorem ulongClamp_of_fits (h : |n| < 2 ^ 64) : ulongClamp n = n % 2 ^ 64 := if_pos h

/-- What `strtoul_or_err` accepts: the integers below 2^64 in amount, as they wrap. -/
theorem strtoulOrErr_iff :
    strtoulOrErr str errmesg min max = .ok v ↔
      ∃ n, Integer str n ∧ |n| < 2 ^ 64 ∧ v = n % 2 ^ 64 ∧ min ≤ v ∧ v ≤ max := by
  refine (Conversion.ulong.orErr_iff).trans (exists_congr fun n => ?_)
  constructor
  · rintro ⟨hn, hfits, rfl, hrange⟩
    exact ⟨hn, hfits, ulongClamp_of_fits hfits, hrange⟩
  · rintro ⟨hn, hfits, hv, hrange⟩
    exact ⟨hn, hfits, hv.trans (ulongClamp_of_fits hfits).symm, hrange⟩

example : strtoulOrErr "-18446744073709551611".toList [] 0 65535 = .ok 5 := by decide +kernel

end Meaning

end Iputils.NumberOptions
