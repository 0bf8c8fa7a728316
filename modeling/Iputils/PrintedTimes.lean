import Iputils.LineSamples
import Iputils.ParseReply
import Iputils.RoundTrip
import Iputils.Arping
import Mathlib.Algebra.Order.Round
import Mathlib.Data.Rat.Floor

/-!
# The times that ping and arping print

Both programs print a time in milliseconds as two integers with a point between them.
The text is read back as the number it stands for. ping rounds it to a unit that grows
with the time, and the units meet without a gap. arping adds half a millisecond for a
rounding it does not make.
-/
set_option autoImplicit false

namespace Iputils.PrintedTimes
open MachineInt RoundTrip PrintfText LineTimes LineSamples ParseReply Arping

/-! ## Decimals with a point -/

section Pointed

theorem digitsValue_eq {ds : List Char} (h : ∀ c ∈ ds, c.isDigit = true) :
    digitsValue 10 ds = Nat.ofDigitChars 10 ds 0 := by
  unfold digitsValue
  rw [Nat.ofDigitChars_eq_foldl]
  refine List.foldl_ext _ _ _ fun v c hc => ?_
  rw [digitValue, if_pos (h c hc), Nat.mul_comm]
  rfl

/-- The digits of `%0wd`. -/
def padDigits (w n : ℕ) : List Char :=
  List.replicate (w - (Nat.toDigits 10 n).length) '0' ++ Nat.toDigits 10 n

theorem isDigit_padDigits {w n : ℕ} {c : Char} (h : c ∈ padDigits w n) : c.isDigit = true := by
  rcases List.mem_append.mp h with h | h
  · rw [List.eq_of_mem_replicate h]
    rfl
  · exact isDigit_toDigits h

theorem length_padDigits {w n : ℕ} (hw : 0 < w) (h : n < 10 ^ w) :
    (padDigits w n).length = w := by
  have hlen := length_toDigits_le hw h
  rw [padDigits, List.length_append, List.length_replicate]
  omega

theorem decimalDigits_ne_nil (m : ℕ) : Nat.toDigits 10 m ≠ [] := Nat.toDigits_ne_nil

theorem forall_decimalDigits (m : ℕ) : ∀ c ∈ Nat.toDigits 10 m, c.isDigit = true :=
  fun _ hc => isDigit_toDigits hc

theorem forall_padDigits (w n : ℕ) : ∀ c ∈ padDigits w n, c.isDigit = true :=
  fun _ hc => isDigit_padDigits hc

/-- A number with `w` digits behind its point. -/
def pointed (w m n : ℕ) : DecimalTime where
  whole := Nat.toDigits 10 m
  fraction := padDigits w n
  whole_ne_nil := decimalDigits_ne_nil m
  whole_digit := forall_decimalDigits m
  fraction_digit := forall_padDigits w n

theorem text_pointed (w m n : ℕ) :
    (pointed w m n).text = Nat.toDigits 10 m ++ '.' :: padDigits w n := by
  have hne : (pointed w m n).fraction ≠ [] :=
    List.append_ne_nil_of_right_ne_nil _ Nat.toDigits_ne_nil
  rw [DecimalTime.text, DecimalTime.point, if_neg hne]
  rfl

theorem value_pointed {w m n : ℕ} (hw : 0 < w) (h : n < 10 ^ w) :
    (pointed w m n).value = m + n / 10 ^ w := by
  have hdigits : ∀ c ∈ Nat.toDigits 10 m ++ padDigits w n, c.isDigit = true := by
    intro c hc
    rcases List.mem_append.mp hc with hc | hc
    · exact forall_decimalDigits m c hc
    · exact forall_padDigits w n c hc
  have hvalue : digitsValue 10 (Nat.toDigits 10 m ++ padDigits w n) = 10 ^ w * m + n := by
    rw [digitsValue_eq hdigits, Nat.ofDigitChars_append, Nat.ofDigitChars_ten_toDigits,
      Nat.ofDigitChars_eq_ofDigitChars_zero, length_padDigits hw h, padDigits,
      Nat.ofDigitChars_append, Nat.ofDigitChars_replicate_zero, Nat.mul_zero,
      Nat.ofDigitChars_ten_toDigits]
  change (digitsValue 10 (Nat.toDigits 10 m ++ padDigits w n) : ℚ) /
    10 ^ (padDigits w n).length = _
  rw [hvalue, length_padDigits hw h]
  push_cast
  rw [add_div, mul_div_cancel_left₀ _ (by positivity)]

/-- `%ld.%0wld` is read back as its number. -/
theorem floatValue_pointed {w : ℕ} {m n : ℤ} (hw : 0 < w) (hm : 0 ≤ m) (hn : 0 ≤ n)
    (h : n < 10 ^ w) :
    floatValue (decText m ++ '.' :: padText w n) = some ((m : ℚ) + n / 10 ^ w) := by
  lift m to ℕ using hm
  lift n to ℕ using hn
  have htext : decText m ++ '.' :: padText w n = (pointed w m n).text := by
    rw [text_pointed, decText, padText, if_neg (by omega), if_neg (by omega)]
    rfl
  rw [htext, floatValue_text, value_pointed hw (by exact_mod_cast h)]
  push_cast
  rfl

/-- `%ld` is read back as its number. -/
theorem floatValue_whole {m : ℤ} (hm : 0 ≤ m) : floatValue (decText m) = some (m : ℚ) := by
  lift m to ℕ using hm
  have htext : decText m = (hopDecimal m).text := by
    rw [text_hopDecimal, decText, if_neg (by omega)]
    rfl
  have hvalue : (hopDecimal m).value = m := by
    change (digitsValue 10 (Nat.toDigits 10 m ++ []) : ℚ) / 10 ^ 0 = m
    rw [List.append_nil, digitsValue_eq fun c => isDigit_toDigits, Nat.ofDigitChars_ten_toDigits,
      pow_zero, div_one]
  rw [htext, floatValue_text, hvalue]
  rfl

end Pointed

/-! ## The time of a reply -/

section Displayed

/-- The unit that is printed last, in microseconds. -/
def timeUnit (t : ℤ) : ℤ :=
  if t < 1000 then 1 else if t < 9995 then 10 else if t < 99950 then 100 else 1000

/-- The nearest multiple of `u`, halves upwards. -/
def roundTo (u t : ℤ) : ℤ := round ((t : ℚ) / u) * u

/-- The time that is printed, in microseconds. -/
def displayed (precision : Bool) (t : ℤ) : Option ℚ :=
  (floatValue (outtime precision t)).map (1000 * ·)

/-- `t` with the addend of its format, cut off at its last digit. -/
def shown (t : ℤ) : ℤ :=
  if t < 1000 then t
  else if t < 9995 then (t + 5) / 10 * 10
  else if t < 99950 then (t + 50) / 100 * 100
  else (t + 500) / 1000 * 1000

theorem roundTo_eq {u t r : ℤ} (hu : 0 < u) (hdvd : u ∣ r) (hlow : 2 * r - u ≤ 2 * t)
    (hhigh : 2 * t < 2 * r + u) : roundTo u t = r := by
  obtain ⟨k, rfl⟩ := hdvd
  have hu' : (0 : ℚ) < u := by exact_mod_cast hu
  have hround : round ((t : ℚ) / u) = k := by
    refine round_eq_iff.mpr ⟨?_, ?_⟩
    · have hlow' : (2 * (u * k) - u : ℚ) ≤ 2 * t := by exact_mod_cast hlow
      rw [le_div_iff₀ hu']
      linarith
    · have hhigh' : (2 * t : ℚ) < 2 * (u * k) + u := by exact_mod_cast hhigh
      rw [div_lt_iff₀ hu']
      linarith
  rw [roundTo, hround, mul_comm]

theorem timeUnit_pos (t : ℤ) : 0 < timeUnit t := by
  unfold timeUnit
  split_ifs <;> decide

theorem dvd_shown (t : ℤ) : timeUnit t ∣ shown t := by
  unfold timeUnit shown
  split_ifs
  · exact one_dvd t
  all_goals exact dvd_mul_left _ _

theorem shown_bounds (t : ℤ) :
    2 * shown t - timeUnit t ≤ 2 * t ∧ 2 * t < 2 * shown t + timeUnit t := by
  unfold timeUnit shown
  split_ifs <;> omega

theorem roundTo_timeUnit (t : ℤ) : roundTo (timeUnit t) t = shown t :=
  roundTo_eq (timeUnit_pos t) (dvd_shown t) (shown_bounds t).1 (shown_bounds t).2

/-- No time is rounded past the first multiple of the next unit. -/
theorem shown_mono {s t : ℤ} (h : s ≤ t) : shown s ≤ shown t := by
  unfold shown
  split_ifs <;> omega

/-- The array is long enough for a time below 10000000 seconds. -/
theorem take_pointed {w : ℕ} {m n : ℤ} (hw : w ≤ 3) (hm : m.natAbs < 10 ^ 7)
    (hn : n.natAbs < 10 ^ 3) :
    List.take 29 (decText m ++ '.' :: padText w n) = decText m ++ '.' :: padText w n := by
  have hm' := length_decText_le (by decide) hm
  have hn' := @length_padText_le w n 3 (by decide) hn
  refine List.take_of_length_le ?_
  rw [List.length_append, List.length_cons]
  omega

/-- A text of `outtime` with `w` digits behind the point, the last worth `u`. -/
theorem pointed_time {w : ℕ} {u t : ℤ} (hw : 0 < w ∧ w ≤ 3) (hu : u * 10 ^ w = 1000) (h0 : 0 ≤ t)
    (h : t < 2 ^ 32) :
    (floatValue (List.take 29 (decText (t.tdiv 1000) ++ '.' ::
      padText w ((t.tmod 1000).tdiv u)))).map (1000 * ·) = some ((t / u * u : ℤ) : ℚ) := by
  have hpow : (0 : ℤ) < 10 ^ w := by positivity
  have hu0 : 0 < u := pos_of_mul_pos_left (by omega) hpow.le
  have hle : u ≤ 1000 := by nlinarith
  rw [Int.tdiv_eq_ediv_of_nonneg h0, Int.tmod_eq_emod_of_nonneg h0,
    Int.tdiv_eq_ediv_of_nonneg (by omega)]
  have hdec : t % 1000 / u < 10 ^ w := by
    rw [Int.ediv_lt_iff_lt_mul hu0]
    nlinarith [Int.emod_lt_of_pos t (show (0 : ℤ) < 1000 by decide)]
  have hdec0 : 0 ≤ t % 1000 / u := Int.ediv_nonneg (by omega) hu0.le
  have hlast : t % 1000 / u ≤ t % 1000 := Int.ediv_le_self _ (by omega)
  have hsplit : t / u = t / 1000 * 10 ^ w + t % 1000 / u := by
    have hsum : t = t % 1000 + t / 1000 * 10 ^ w * u := by
      have hdiv := Int.emod_add_mul_ediv t 1000
      nlinarith
    conv_lhs => rw [hsum, Int.add_mul_ediv_right _ _ hu0.ne']
    ring
  rw [take_pointed hw.2 (by omega) (by omega), floatValue_pointed hw.1 (by omega) hdec0 hdec,
    Option.map_some, hsplit]
  have hu' : (u : ℚ) * 10 ^ w = 1000 := by exact_mod_cast hu
  have hpow' : (10 : ℚ) ^ w ≠ 0 := by positivity
  refine congrArg some ?_
  push_cast
  field_simp
  linear_combination (-((t / 1000 : ℤ) : ℚ) * 10 ^ w - ((t % 1000 / u : ℤ) : ℚ)) * hu'

/-- With `-3` every microsecond is printed. -/
theorem displayed_precise {t : ℤ} (h0 : 0 ≤ t) (h : t < 2 ^ 31) :
    displayed true t = some (t : ℚ) := by
  have htime := @pointed_time 3 1 t (by decide) (by decide) h0 (by omega)
  rwa [Int.tdiv_one, Int.ediv_one, mul_one] at htime

theorem displayed_shown {t : ℤ} (h0 : 0 ≤ t) (h : t < 2 ^ 31) :
    displayed false t = some (shown t : ℚ) := by
  unfold displayed outtime shown
  rw [if_neg Bool.false_ne_true]
  by_cases hsmall : t < 1000
  · rw [if_neg (by omega), if_neg (by omega), if_neg (by omega), if_pos hsmall]
    exact displayed_precise h0 h
  by_cases hten : t < 9995
  · rw [if_neg (by omega), if_neg (by omega), if_pos (by omega), if_neg hsmall, if_pos hten]
    exact @pointed_time 2 10 (t + 5) (by decide) (by decide) (by omega) (by omega)
  by_cases hhundred : t < 99950
  · rw [if_neg (by omega), if_pos (by omega), if_neg hsmall, if_neg hten, if_pos hhundred]
    exact @pointed_time 1 100 (t + 50) (by decide) (by decide) (by omega) (by omega)
  · rw [if_pos (by omega), if_neg hsmall, if_neg hten, if_neg hhundred,
      Int.tdiv_eq_ediv_of_nonneg (by omega)]
    have hlen := @length_decText_le ((t + 500) / 1000) 7 (by decide) (by omega)
    rw [List.take_of_length_le (by omega), floatValue_whole (by omega), Option.map_some]
    push_cast
    rw [mul_comm]

/-- The time of a reply is rounded half up to the unit of its format, which keeps the order
of the times and is off by half a unit at most. -/
theorem outtime_rounds {t : ℤ} (h0 : 0 ≤ t) (h : t < 2 ^ 31) :
    ∃ x : ℚ, displayed false t = some x ∧ x = roundTo (timeUnit t) t ∧
      |x - t| ≤ timeUnit t / 2 ∧
      (∀ s y, 0 ≤ s → s ≤ t → displayed false s = some y → y ≤ x) ∧
      displayed true t = some (t : ℚ) := by
  refine ⟨shown t, displayed_shown h0 h, by rw [roundTo_timeUnit], ?_, ?_,
    displayed_precise h0 h⟩
  · obtain ⟨hlow, hhigh⟩ := shown_bounds t
    have hlow' : (2 * shown t - timeUnit t : ℚ) ≤ 2 * t := by exact_mod_cast hlow
    have hhigh' : (2 * t : ℚ) < 2 * shown t + timeUnit t := by exact_mod_cast hhigh
    rw [abs_le]
    constructor <;> linarith
  · intro s y hs hst hy
    rw [displayed_shown hs (by omega)] at hy
    rw [← Option.some.inj hy]
    exact_mod_cast shown_mono hst

theorem outtime_rounds_seam :
    ∃ x : ℚ, displayed false 9995 = some x ∧ x = roundTo (timeUnit 9995) 9995 ∧
      |x - (9995 : ℤ)| ≤ timeUnit 9995 / 2 ∧
      (∀ s y, 0 ≤ s → s ≤ 9995 → displayed false s = some y → y ≤ x) ∧
      displayed true 9995 = some ((9995 : ℤ) : ℚ) :=
  outtime_rounds (by decide) (by decide)

end Displayed

/-! ## The time of an ARP reply -/

section Elapsed

/-- A time of the monotonic clock. -/
def ValidTime (ts : Timespec) : Prop := 0 ≤ ts.nsec ∧ ts.nsec < 1000000000

def NotLater (last ts : Timespec) : Prop :=
  last.sec < ts.sec ∨ last.sec = ts.sec ∧ last.nsec ≤ ts.nsec

/-- The time between two readings of the clock, in nanoseconds. -/
def between (last ts : Timespec) : ℤ :=
  (ts.sec - last.sec) * 1000000000 + (ts.nsec - last.nsec)

/-- `msecs` and `usecs` of `recv_pack`, with every operation on `long` checked. -/
def elapsedFigure (last ts : Timespec) : Option (ℤ × ℤ) := do
  let sec ← fit64 (ts.sec - last.sec)
  let sec ← fit64 (sec * 1000000)
  let nsec ← fit64 (ts.nsec - last.nsec)
  let nsec ← fit64 (nsec + 500)
  let usecs ← fit64 (sec + nsec.tdiv 1000)
  let rounded ← fit64 (usecs + 500)
  let msecs := rounded.tdiv 1000
  let offset ← fit64 (msecs * 1000)
  let offset ← fit64 (offset - 500)
  let usecs ← fit64 (usecs - offset)
  pure (msecs, usecs)

def figureText (f : ℤ × ℤ) : List Char := decText f.1 ++ '.' :: padText 3 f.2

/-- The figure tells the time between the two readings up to a microsecond. -/
def Accurate (last ts : Timespec) : Prop :=
  ∃ f x, elapsedFigure last ts = some f ∧ (0 ≤ f.2 ∧ f.2 ≤ 999) ∧
    floatValue (figureText f) = some x ∧ |1000000 * x - between last ts| ≤ 1000

/-- `usecs` before the milliseconds are taken from it. -/
def usecsBetween (last ts : Timespec) : ℤ :=
  (ts.sec - last.sec) * 1000000 + (ts.nsec - last.nsec + 500).tdiv 1000

theorem elapsedFigure_eq {last ts : Timespec} {f : ℤ × ℤ} (h : elapsedFigure last ts = some f) :
    f.1 = (usecsBetween last ts + 500).tdiv 1000 ∧
      f.2 = usecsBetween last ts - (f.1 * 1000 - 500) := by
  simp only [elapsedFigure, fit64, Option.bind_eq_bind, Option.pure_def, Option.bind_eq_some_iff,
    Option.ite_none_right_eq_some, Option.some.injEq] at h
  obtain ⟨_, ⟨-, rfl⟩, _, ⟨-, rfl⟩, _, ⟨-, rfl⟩, _, ⟨-, rfl⟩, _, ⟨-, rfl⟩, _, ⟨-, rfl⟩,
    _, ⟨-, rfl⟩, _, ⟨-, rfl⟩, _, ⟨-, rfl⟩, rfl⟩ := h
  exact ⟨rfl, rfl⟩

theorem usecsBetween_bounds {last ts : Timespec} (hlast : ValidTime last) (hts : ValidTime ts)
    (h : NotLater last ts) :
    0 ≤ usecsBetween last ts ∧ -500 ≤ 1000 * usecsBetween last ts - between last ts := by
  obtain ⟨hlast0, hlast1⟩ := hlast
  obtain ⟨hts0, hts1⟩ := hts
  unfold usecsBetween between
  unfold NotLater at h
  rcases le_or_gt 0 (ts.nsec - last.nsec + 500) with hpos | hneg
  · rw [Int.tdiv_eq_ediv_of_nonneg hpos]
    omega
  · have hdiv : (ts.nsec - last.nsec + 500).tdiv 1000 = -((last.nsec - ts.nsec - 500) / 1000) := by
      rw [← Int.tdiv_eq_ediv_of_nonneg (by omega), ← Int.neg_tdiv]
      congr 1
      omega
    omega

/-- The line of an answer ends in the figure. -/
theorem elapsedText_figure {ctl : RunState} {ts : Timespec} {f : ℤ × ℤ} (hsec : ctl.last.sec ≠ 0)
    (h : elapsedFigure ctl.last ts = some f) :
    elapsedText ctl ts = ' ' :: (figureText f ++ "ms\n".toList) := by
  obtain ⟨hmsecs, husecs⟩ := elapsedFigure_eq h
  unfold elapsedText figureText
  rw [if_pos hsec, husecs, hmsecs]
  rfl

/-- The figure is half a millisecond later than `usecs`: it contains the addend of a rounding
that is not undone. -/
theorem figureText_late {last ts : Timespec} {f : ℤ × ℤ} (h : elapsedFigure last ts = some f)
    (h0 : 0 ≤ usecsBetween last ts) :
    floatValue (figureText f) = some (((usecsBetween last ts + 500 : ℤ) : ℚ) / 1000) := by
  obtain ⟨hmsecs, husecs⟩ := elapsedFigure_eq h
  rw [Int.tdiv_eq_ediv_of_nonneg (by omega)] at hmsecs
  have hsum : usecsBetween last ts + 500 = f.1 * 1000 + f.2 := by omega
  rw [figureText, @floatValue_pointed 3 _ _ (by decide) (by omega) (by omega) (by omega), hsum]
  push_cast
  ring_nf

/-- No figure is right. -/
theorem elapsed_accurate_iff {last ts : Timespec} (hlast : ValidTime last) (hts : ValidTime ts)
    (hle : NotLater last ts) : (last.sec ≠ 0 → Accurate last ts) ↔ last.sec = 0 := by
  constructor
  · intro h
    by_contra hsec
    obtain ⟨f, x, hf, -, hx, habs⟩ := h hsec
    obtain ⟨h0, hlow⟩ := usecsBetween_bounds hlast hts hle
    rw [figureText_late hf h0, Option.some.injEq] at hx
    have hlow' : (-500 : ℚ) ≤ 1000 * usecsBetween last ts - between last ts := by
      exact_mod_cast hlow
    rw [← hx] at habs
    push_cast at habs
    linarith [le_of_abs_le habs]
  · exact fun hsec hne => absurd hsec hne

theorem elapsed_accurate_millisecond :
    ((100 : ℤ) ≠ 0 → Accurate ⟨100, 0⟩ ⟨100, 1000000⟩) ↔ (100 : ℤ) = 0 :=
  @elapsed_accurate_iff ⟨100, 0⟩ ⟨100, 1000000⟩ ⟨by decide, by decide⟩ ⟨by decide, by decide⟩
    (Or.inr ⟨rfl, by decide⟩)

/-- An answer after exactly one millisecond is said to have taken 1.500 ms. -/
theorem millisecond_inaccurate :
    ¬ ∀ last ts : Timespec, ValidTime last → ValidTime ts → NotLater last ts →
      last.sec ≠ 0 → Accurate last ts := by
  intro h
  obtain ⟨f, x, hf, -, hx, habs⟩ := h ⟨100, 0⟩ ⟨100, 1000000⟩ ⟨by decide, by decide⟩
    ⟨by decide, by decide⟩ (Or.inr ⟨rfl, by decide⟩) (by decide)
  have hfigure : elapsedFigure ⟨100, 0⟩ ⟨100, 1000000⟩ = some (1, 500) := by decide
  have htext : floatValue (figureText (1, 500)) = some (3 / 2) := by decide +kernel
  rw [hfigure, Option.some.injEq] at hf
  rw [← hf, htext, Option.some.injEq] at hx
  rw [← hx] at habs
  norm_num [between] at habs

end Elapsed

end Iputils.PrintedTimes
