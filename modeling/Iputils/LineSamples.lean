import Iputils.LineTimes
import Iputils.SampleStatistics

/-!
# The samples of a hop line

A line of traceroute is the number of a hop and the results of its probes. A name that
ends in a number and `ms` holds one more time for `bs_line_avg_rtt` and `bs_line_rtts`,
and the number of the hop is a time if the name behind it is `ms`. The result says that
the two read the times of the line and no others exactly when no name is like that.
-/
set_option autoImplicit false

namespace Iputils.LineSamples
open ScanText HopLine TracerouteText HopTable SampleStatistics PrintfText LineTimes

section Lines

/-- A time as traceroute prints it: digits, perhaps with a fraction. -/
structure DecimalTime where
  whole : List Char
  fraction : List Char
  whole_ne_nil : whole ≠ []
  whole_digit : ∀ c ∈ whole, c.isDigit = true
  fraction_digit : ∀ c ∈ fraction, c.isDigit = true

/-- The fraction with its point. -/
def DecimalTime.point (t : DecimalTime) : List Char :=
  if t.fraction = [] then [] else '.' :: t.fraction

def DecimalTime.text (t : DecimalTime) : List Char := t.whole ++ t.point

def DecimalTime.value (t : DecimalTime) : ℚ :=
  digitsValue 10 (t.whole ++ t.fraction) / 10 ^ t.fraction.length

/-- A time with the blanks before it and its unit. -/
def DecimalTime.sample (t : DecimalTime) : List Char :=
  ' ' :: ' ' :: (t.text ++ ' ' :: "ms".toList)

/-- The result of one probe. -/
inductive Result
  | star
  | named (name ip : List Char) (time : DecimalTime)
  | unnamed (time : DecimalTime)

def addressText (ip : List Char) : List Char := '(' :: (ip ++ [')'])

def Result.text : Result → List Char
  | .star => " *".toList
  | .named name ip time => ' ' :: (name ++ ' ' :: (addressText ip ++ time.sample))
  | .unnamed time => time.sample

/-- Names and addresses are words. -/
def Result.Worded : Result → Prop
  | .named name ip _ => name ≠ [] ∧ Solid name ∧ Solid ip
  | .star | .unnamed _ => True

def Result.time? : Result → Option DecimalTime
  | .star => none
  | .named _ _ time | .unnamed time => some time

def Result.name? : Result → Option (List Char)
  | .named name _ _ => some name
  | .star | .unnamed _ => none

structure Line where
  number : ℕ
  results : List Result
  worded : ∀ r ∈ results, r.Worded

def resultsText (results : List Result) : List Char := results.flatMap Result.text

def Line.text (line : Line) : List Char := numberText line.number ++ resultsText line.results

def Line.decimals (line : Line) : List DecimalTime := line.results.filterMap Result.time?

/-- The times of the probes that have been answered. -/
def Line.times (line : Line) : List ℚ := line.decimals.map DecimalTime.value

end Lines

section Decimals
variable (t : DecimalTime)

theorem munch_text : Munch Char.isDigit t.text t.whole t.point := by
  refine ⟨rfl, t.whole_digit, fun c hc => ?_⟩
  unfold DecimalTime.point at hc
  split_ifs at hc
  · cases hc
  · obtain rfl := Option.some.inj hc
    decide

theorem fractionItem_point : fractionItem Char.isDigit t.point = (t.point, []) := by
  have htake := List.takeWhile_eq_self_iff.mpr t.fraction_digit
  have hdrop := List.dropWhile_eq_nil_iff.mpr t.fraction_digit
  unfold DecimalTime.point
  split_ifs
  · rfl
  · simp only [fractionItem, if_true]
    rw [htake, hdrop]

theorem point_tail : t.point.tail = t.fraction := by
  unfold DecimalTime.point
  split_ifs with h
  · exact h.symm
  · rfl

theorem exists_digit :
    ∃ d s, t.text = d :: s ∧ d.isDigit = true ∧ ∀ c ∈ s.head?, c.toLower ≠ 'x' := by
  obtain ⟨d, ds, hds⟩ := List.exists_cons_of_ne_nil t.whole_ne_nil
  have hdigit := t.whole_digit
  rw [hds] at hdigit
  refine ⟨d, ds ++ t.point, by rw [DecimalTime.text, hds, List.cons_append],
    hdigit d List.mem_cons_self, fun c hc => ?_⟩
  cases ds with
  | nil =>
      unfold DecimalTime.point at hc
      split_ifs at hc
      · cases hc
      · obtain rfl := Option.some.inj hc
        decide
  | cons e ds =>
      obtain rfl := Option.some.inj hc
      have he := hdigit e (List.mem_cons_of_mem d List.mem_cons_self)
      rw [toLower_digit he]
      exact isDigit_ne he (by decide)

theorem floatItem_text : floatItem t.text = some (t.text, []) := by
  obtain ⟨d, s, hs, hd, hx⟩ := exists_digit t
  rw [hs, floatItem_digit hd hx, ← hs]
  obtain ⟨hwhole, hpoint⟩ := munch_iff.mp (munch_text t)
  unfold numberItem
  dsimp only
  rw [← hwhole, ← hpoint, fractionItem_point, if_neg fun h => t.whole_ne_nil h.1]
  simp [exponentItem, Item.after, DecimalTime.text]

theorem floatValue_text : floatValue t.text = some t.value := by
  obtain ⟨d, s, hs, hd, hx⟩ := exists_digit t
  obtain ⟨hwhole, hpoint⟩ := munch_iff.mp (munch_text t)
  have hnumber : numberValue Char.isDigit 10 10 t.text = t.value := by
    unfold numberValue
    dsimp only
    rw [← hwhole, ← hpoint, fractionItem_point]
    dsimp only
    rw [point_tail]
    simp [exponentValue, DecimalTime.value]
  rw [← hnumber]
  unfold floatValue
  rw [hs, signItem_digit hd]
  dsimp only
  rw [if_neg (not_or.mpr ⟨letter_digit hd s (by decide), letter_digit hd s (by decide)⟩),
    if_neg (not_hex hx)]
  rfl

theorem text_ne_nil : t.text ≠ [] := by
  obtain ⟨d, s, hs, -⟩ := exists_digit t
  rw [hs]
  exact List.cons_ne_nil d s

theorem text_ne_unit : t.text ≠ "ms".toList := by
  obtain ⟨d, s, hs, hd, -⟩ := exists_digit t
  rw [hs]
  exact fun h => isDigit_ne hd (by decide) (List.cons.inj h).1

theorem found_sample {rest : List Char} (h : Ends rest) :
    found (t.sample ++ rest) = t.text :: found rest := by
  have hshape : t.sample ++ rest = ' ' :: ' ' :: (t.text ++ ' ' :: ("ms".toList ++ rest)) := by
    simp [DecimalTime.sample]
  rw [hshape, found_blank, found_blank]
  exact found_time (floatItem_text t) rfl h

end Decimals

section Results

theorem ends_resultsText (results : List Result) : Ends (resultsText results) := by
  cases results with
  | nil => exact fun _ hc => absurd hc (by simp [resultsText])
  | cons r results =>
      intro c hc
      unfold resultsText at hc
      rw [List.flatMap_cons] at hc
      cases r <;> exact (Option.some.inj hc).symm

theorem firstWord_blank (v : List Char) : firstWord (' ' :: v) = firstWord v := rfl

theorem firstWord_sample (t : DecimalTime) (rest : List Char) :
    firstWord (t.sample ++ rest) = t.text := by
  have hshape : t.sample ++ rest = ' ' :: ' ' :: (t.text ++ ' ' :: ("ms".toList ++ rest)) := by
    simp [DecimalTime.sample]
  rw [hshape, firstWord_blank, firstWord_blank]
  exact firstWord_solid (solid_floatItem (floatItem_text t)) (text_ne_nil t) (ends_blank _)

theorem solid_address {ip : List Char} (h : Solid ip) : Solid (addressText ip) :=
  Solid.cons rfl (h.append (Solid.cons rfl solid_nil))

theorem ends_sample (t : DecimalTime) (rest : List Char) : Ends (t.sample ++ rest) := by
  intro c hc
  exact (Option.some.inj hc).symm

/-- An address holds no time. -/
theorem found_address {ip rest : List Char} (hip : Solid ip) (t : DecimalTime) (h : Ends rest) :
    found (' ' :: (addressText ip ++ (t.sample ++ rest))) = t.text :: found rest := by
  have hnone : strays (addressText ip) = [] :=
    strays_eq_nil.mpr (not_endsInTime (u := '(' :: ip) (List.cons_ne_nil ')' []) (by decide))
  have hblank : t.sample ++ rest = ' ' :: (' ' :: (t.text ++ ' ' :: ("ms".toList ++ rest))) := by
    simp [DecimalTime.sample]
  have hword : firstWord (' ' :: (t.text ++ ' ' :: ("ms".toList ++ rest))) ≠ "ms".toList := by
    rw [← firstWord_blank, ← hblank, firstWord_sample]
    exact text_ne_unit t
  rw [found_blank, hblank, found_word (solid_address hip) hword, hnone, List.nil_append,
    ← found_blank, ← hblank, found_sample t h]

/-- What is found in the result of a probe. -/
def Result.found : Result → List (List Char)
  | .star => []
  | .named name _ time => strays name ++ [time.text]
  | .unnamed time => [time.text]

theorem found_result {r : Result} (hr : r.Worded) {rest : List Char} (h : Ends rest) :
    found (r.text ++ rest) = r.found ++ found rest := by
  cases r with
  | star =>
      have hnone : timeHere ('*' :: rest) = none := timeHere_of_no_item (by rfl)
      exact (found_blank _).trans (found_of_none hnone)
  | unnamed time => exact found_sample time h
  | named name ip time =>
      have hshape : (Result.named name ip time).text ++ rest =
          ' ' :: (name ++ ' ' :: (addressText ip ++ (time.sample ++ rest))) := by
        simp [Result.text]
      have hword : firstWord (addressText ip ++ (time.sample ++ rest)) ≠ "ms".toList := by
        rw [firstWord_solid (solid_address hr.2.2) (List.cons_ne_nil _ _) (ends_sample time rest)]
        exact fun hms => absurd (List.cons.inj hms).1 (by decide)
      rw [hshape, found_blank, found_word hr.2.1 hword, ← found_blank,
        found_address hr.2.2 time h]
      simp [Result.found]

theorem found_results {results : List Result} (h : ∀ r ∈ results, r.Worded) :
    found (resultsText results) = results.flatMap Result.found := by
  induction results with
  | nil => rfl
  | cons r results ih =>
      have hsplit : resultsText (r :: results) = r.text ++ resultsText results :=
        List.flatMap_cons
      rw [hsplit, found_result (h r List.mem_cons_self) (ends_resultsText results),
        ih fun r hr => h r (List.mem_cons_of_mem _ hr), List.flatMap_cons]

/-- Only a name can be the first word. -/
theorem firstWord_results {results : List Result} (h : ∀ r ∈ results, r.Worded)
    (hms : firstWord (resultsText results) = "ms".toList) :
    ∃ ip time more, results = .named "ms".toList ip time :: more := by
  cases results with
  | nil => exact absurd hms (by decide)
  | cons r results =>
      have hends := ends_resultsText results
      have hsplit : resultsText (r :: results) = r.text ++ resultsText results :=
        List.flatMap_cons
      rw [hsplit] at hms
      cases r with
      | star =>
          have hstar : firstWord (Result.star.text ++ resultsText results) = ['*'] :=
            firstWord_solid (u := ['*']) (by decide) (by decide) hends
          rw [hstar] at hms
          exact absurd hms (by decide)
      | unnamed time => exact absurd ((firstWord_sample time _).symm.trans hms) (text_ne_unit time)
      | named name ip time =>
          have hr := h _ List.mem_cons_self
          have hshape : (Result.named name ip time).text ++ resultsText results =
              ' ' :: (name ++ ' ' :: (addressText ip ++ (time.sample ++ resultsText results))) := by
            simp [Result.text]
          rw [hshape, firstWord_blank, firstWord_solid hr.2.1 hr.1 (ends_blank _)] at hms
          exact ⟨ip, time, results, by rw [hms]⟩

end Results

section Numbers

theorem found_blanks (n : ℕ) (s : List Char) : found (List.replicate n ' ' ++ s) = found s := by
  induction n with
  | zero => rfl
  | succ n ih => exact (found_blank _).trans ih

/-- The number of a hop is a decimal without a fraction. -/
def hopDecimal (n : ℕ) : DecimalTime where
  whole := Nat.toDigits 10 n
  fraction := []
  whole_ne_nil := Nat.toDigits_ne_nil
  whole_digit := fun _ hc => isDigit_toDigits hc
  fraction_digit := nofun

theorem text_hopDecimal (n : ℕ) : (hopDecimal n).text = Nat.toDigits 10 n :=
  List.append_nil _

theorem found_number (n : ℕ) (rest : List Char) :
    found (numberText n ++ rest) = found (Nat.toDigits 10 n ++ ' ' :: rest) := by
  unfold numberText
  rw [List.append_assoc, List.append_assoc, found_blanks]
  rfl

theorem strays_digits (n : ℕ) : strays (Nat.toDigits 10 n) = [] := by
  refine strays_eq_nil.mpr (not_endsInTime (u := []) Nat.toDigits_ne_nil fun hlast => ?_)
  exact isDigit_ne (isDigit_toDigits (List.mem_of_getLast? hlast)) (by decide) rfl

/-- The first result has a name that reads like a unit. -/
def Line.UnitFirst (line : Line) : Prop :=
  line.results.head?.bind Result.name? = some "ms".toList

instance (line : Line) : Decidable line.UnitFirst :=
  inferInstanceAs (Decidable (_ = _))

/-- All that is found in a line. -/
theorem resultsText_named (name ip : List Char) (time : DecimalTime) (more : List Result) :
    resultsText (.named name ip time :: more) =
      ' ' :: (name ++ ' ' :: (addressText ip ++ (time.sample ++ resultsText more))) := by
  simp [resultsText, Result.text]

theorem firstWord_unitFirst {line : Line} (h : line.UnitFirst) :
    firstWord (resultsText line.results) = "ms".toList := by
  obtain ⟨number, results, worded⟩ := line
  cases results with
  | nil => cases h
  | cons r results =>
      cases r with
      | star => cases h
      | unnamed time => cases h
      | named name ip time =>
          obtain rfl := Option.some.inj h
          rw [resultsText_named, firstWord_blank]
          exact firstWord_solid (by decide) (by decide) (ends_blank _)

/-- What is found in a line. -/
theorem found_text (line : Line) : found line.text =
    (if line.UnitFirst then [Nat.toDigits 10 line.number] else []) ++
      line.results.flatMap Result.found := by
  have hsolid : Solid (Nat.toDigits 10 line.number) := by
    rw [← text_hopDecimal]
    exact solid_floatItem (floatItem_text _)
  have hnumber : floatItem (Nat.toDigits 10 line.number) =
      some (Nat.toDigits 10 line.number, []) := by
    rw [← text_hopDecimal]
    exact floatItem_text _
  unfold Line.text
  rw [found_number]
  obtain ⟨number, results, worded⟩ := line
  dsimp only at *
  by_cases hms : firstWord (resultsText results) = "ms".toList
  · obtain ⟨ip, time, more, rfl⟩ := firstWord_results worded hms
    have hfirst : Line.UnitFirst ⟨number, .named "ms".toList ip time :: more, worded⟩ := rfl
    have hip : Solid ip := (worded _ List.mem_cons_self).2.2
    have hname : strays "ms".toList = [] := by rfl
    rw [if_pos hfirst, resultsText_named, found_time hnumber (by rfl) (ends_blank _),
      found_address hip time (ends_resultsText more),
      found_results fun r hr => worded r (List.mem_cons_of_mem _ hr), List.flatMap_cons,
      Result.found, hname]
    rfl
  · have hfirst : ¬ Line.UnitFirst ⟨number, results, worded⟩ :=
      fun h => hms (firstWord_unitFirst h)
    rw [if_neg hfirst, found_word hsolid hms, strays_digits, found_results worded]

end Numbers

section Law

/-- The average and the samples are those of the answered probes. -/
structure Exact (line : Line) : Prop where
  average : bsLineAvgRtt rationals line.text =
    some (if line.times = [] then -1 else mean line.times)
  no_answer : bsLineAvgRtt rationals line.text = some (-1) ↔ line.times = []
  samples : ∃ enough, ∀ maxSamples ≥ enough,
    bsLineRtts rationals line.text maxSamples = line.times.map some

/-- No name holds a time, and the number of the hop is not one. -/
structure Unmistakable (line : Line) : Prop where
  names : ∀ r ∈ line.results, ∀ name ∈ r.name?, ¬ EndsInTime name
  number : ¬ line.UnitFirst

/-- The times in the name of a result. -/
def Result.strays (r : Result) : List (List Char) := (r.name?.map LineTimes.strays).getD []

theorem found_split (r : Result) :
    r.found = r.strays ++ (r.time?.map DecimalTime.text).toList := by
  cases r <;> rfl

theorem strays_result {r : Result} :
    r.strays = [] ↔ ∀ name ∈ r.name?, ¬ EndsInTime name := by
  unfold Result.strays
  cases r.name? with
  | none => simp
  | some name => simpa using @strays_eq_nil name

theorem length_found (results : List Result) :
    (results.flatMap Result.found).length =
      (results.flatMap Result.strays).length + (results.filterMap Result.time?).length := by
  induction results with
  | nil => rfl
  | cons r results ih =>
      rw [List.flatMap_cons, List.flatMap_cons, List.length_append, List.length_append, ih,
        found_split, List.length_append, List.filterMap_cons]
      cases r.time? with
      | none =>
          rw [Option.map_none, Option.toList_none, List.length_nil]
          dsimp only
          omega
      | some time =>
          rw [Option.map_some, Option.toList_some, List.length_singleton]
          dsimp only
          rw [List.length_cons]
          omega

theorem found_of_no_strays {results : List Result} (h : results.flatMap Result.strays = []) :
    results.flatMap Result.found = (results.filterMap Result.time?).map DecimalTime.text := by
  induction results with
  | nil => rfl
  | cons r results ih =>
      rw [List.flatMap_cons, List.append_eq_nil_iff] at h
      rw [List.flatMap_cons, ih h.2, found_split, h.1, List.nil_append, List.filterMap_cons]
      cases r.time? <;> rfl

theorem unmistakable_iff {line : Line} : Unmistakable line ↔
    ¬ line.UnitFirst ∧ line.results.flatMap Result.strays = [] := by
  rw [List.flatMap_eq_nil_iff]
  constructor
  · rintro ⟨hnames, hnumber⟩
    exact ⟨hnumber, fun r hr => strays_result.mpr (hnames r hr)⟩
  · rintro ⟨hnumber, hnames⟩
    exact ⟨fun r hr => strays_result.mp (hnames r hr), hnumber⟩

theorem map_text (ts : List DecimalTime) :
    (ts.map DecimalTime.text).map floatValue = (ts.map DecimalTime.value).map some := by
  rw [List.map_map, List.map_map]
  exact List.map_congr_left fun t _ => floatValue_text t

theorem sum_texts (ts : List DecimalTime) (total : ℚ) (count : ℕ) :
    (ts.map DecimalTime.text).foldl
      (fun acc number => (rationals.add acc.1 (rationals.ofText number), acc.2 + 1))
      (some total, count) = (some (total + (ts.map DecimalTime.value).sum), count + ts.length) := by
  induction ts generalizing total count with
  | nil => simp
  | cons t ts ih =>
      have hadd : rationals.add (some total) (rationals.ofText t.text) =
          some (total + t.value) := by
        change rationals.add (some total) (floatValue t.text) = _
        rw [floatValue_text]
        rfl
      rw [List.map_cons, List.foldl_cons]
      dsimp only
      rw [hadd, ih, List.map_cons, List.sum_cons, List.length_cons, add_assoc, Nat.add_right_comm,
        add_assoc]

theorem value_nonneg (t : DecimalTime) : 0 ≤ t.value := by
  unfold DecimalTime.value
  positivity

theorem mean_nonneg {xs : List ℚ} (h : ∀ x ∈ xs, 0 ≤ x) : 0 ≤ mean xs :=
  div_nonneg (List.sum_nonneg h) (Nat.cast_nonneg _)

theorem samples_eq {line : Line} {maxSamples : ℕ} (h : (found line.text).length ≤ maxSamples) :
    bsLineRtts rationals line.text maxSamples = (found line.text).map floatValue :=
  rttsFrom_eq rationals 0 h

theorem exact_of_found {line : Line} (h : found line.text = line.decimals.map DecimalTime.text) :
    Exact line := by
  have haverage : bsLineAvgRtt rationals line.text =
      some (if line.times = [] then -1 else mean line.times) := by
    have hsum : sumTimes rationals 0 (some 0, 0) line.text =
        (some (0 + line.times.sum), 0 + line.decimals.length) := by
      rw [sumTimes_eq]
      change (found line.text).foldl _ _ = _
      rw [h, sum_texts]
      rfl
    have hlen : line.times.length = line.decimals.length := List.length_map _
    unfold bsLineAvgRtt
    dsimp only
    change (if 0 < (sumTimes rationals 0 (some 0, 0) line.text).2 then
      rationals.divCount (sumTimes rationals 0 (some 0, 0) line.text).1
        (sumTimes rationals 0 (some 0, 0) line.text).2 else some (-1)) = _
    rw [hsum, ← hlen, zero_add, zero_add]
    dsimp only
    by_cases hnone : line.times = []
    · rw [if_pos hnone, hnone]
      rfl
    · rw [if_neg hnone, if_pos (List.length_pos_iff.mpr hnone)]
      rfl
  have hmean : 0 ≤ mean line.times := by
    refine mean_nonneg fun x hx => ?_
    obtain ⟨t, -, rfl⟩ := List.mem_map.mp hx
    exact value_nonneg t
  refine ⟨haverage, ?_, (found line.text).length, fun maxSamples hmax => ?_⟩
  · rw [haverage, Option.some.injEq]
    split_ifs with hnone
    · exact iff_of_true rfl hnone
    · exact iff_of_false (by linarith) hnone
  · rw [samples_eq hmax, h, map_text]
    rfl

/-- The times of a line are read exactly if and only if no name can be mistaken for one. -/
theorem exact_iff (line : Line) : Exact line ↔ Unmistakable line := by
  rw [unmistakable_iff]
  constructor
  · rintro ⟨-, -, enough, hsamples⟩
    have hread := hsamples (max enough (found line.text).length) (le_max_left _ _)
    rw [samples_eq (le_max_right _ _)] at hread
    have hlen := congrArg List.length hread
    rw [List.length_map, List.length_map, found_text, List.length_append, length_found,
      Line.times, List.length_map, Line.decimals] at hlen
    constructor
    · intro hfirst
      rw [if_pos hfirst, List.length_singleton] at hlen
      omega
    · rw [← List.length_eq_zero_iff]
      omega
  · rintro ⟨hfirst, hnone⟩
    refine exact_of_found ?_
    rw [found_text, if_neg hfirst, found_of_no_strays hnone]
    rfl

/-- One answer from a host whose name ends in a number and the unit. -/
def mistakableLine : Line where
  number := 3
  results := [.named "host5ms".toList "10.0.0.1".toList (hopDecimal 7)]
  worded := by
    intro r hr
    obtain rfl := List.mem_singleton.mp hr
    exact ⟨by decide, by decide, by decide⟩

theorem name_taken_for_time :
    mistakableLine.text = " 3  host5ms (10.0.0.1)  7 ms".toList ∧ mistakableLine.times = [7] ∧
      bsLineAvgRtt rationals mistakableLine.text = some 6 ∧ ¬ Exact mistakableLine := by
  have haverage : bsLineAvgRtt rationals mistakableLine.text = some 6 := by decide +kernel
  refine ⟨by decide +kernel, by decide +kernel, haverage, fun h => ?_⟩
  have hexact := h.average
  rw [haverage] at hexact
  exact absurd hexact (by decide +kernel)

end Law

end Iputils.LineSamples
