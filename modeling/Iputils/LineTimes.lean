import Iputils.HopTable

/-!
# The times of a hop line

`bs_line_avg_rtt` and `bs_line_rtts` look for times at every position of a line of
traceroute. A time is a number and a word `ms`, with or without white space between
them. What the two loops find is computed word by word: a word holds a time if it ends
in a number and `ms`, and a number is one if the next word is `ms`.
-/
set_option autoImplicit false

namespace Iputils.LineTimes
open ScanText HopLine TracerouteText HopTable

section Values

def digitValue (c : Char) : ℕ := if c.isDigit then c.toNat - 48 else c.toLower.toNat - 87

/-- The number that digits stand for. -/
def digitsValue (base : ℕ) (ds : List Char) : ℕ :=
  ds.foldl (fun v c => v * base + digitValue c) 0

/-- The value of an exponent with its marker, or of nothing. -/
def exponentValue : List Char → ℤ
  | [] => 0
  | _ :: s =>
      let sign := signItem s
      if sign.1 = ['-'] then -digitsValue 10 sign.2 else digitsValue 10 sign.2

def numberValue (digit : Char → Bool) (base step : ℕ) (s : List Char) : ℚ :=
  let whole := s.takeWhile digit
  let fraction := fractionItem digit (s.dropWhile digit)
  let places := fraction.1.tail
  digitsValue base (whole ++ places) / (base : ℚ) ^ places.length *
    (step : ℚ) ^ exponentValue fraction.2

/-- The number that `%lf` makes of what it has matched; an infinity or no number is
not rational. -/
def floatValue (s : List Char) : Option ℚ :=
  let sign := signItem s
  let body := sign.2
  let letter := body.head?.map Char.toLower
  if letter = some 'i' ∨ letter = some 'n' then none
  else
    let x :=
      if (body.take 2).map Char.toLower = "0x".toList then numberValue isHexDigit 16 2 (body.drop 2)
      else numberValue Char.isDigit 10 10 body
    some (if sign.1 = ['-'] then -x else x)

example : floatValue "12.5".toList = some (25 / 2) := by decide +kernel
example : floatValue "-0x1.8p1".toList = some (-3) := by decide +kernel

/-- Exact arithmetic with the numbers that are rational. -/
def rationals : Doubles (Option ℚ) where
  ofText := floatValue
  zero := some 0
  add x y := x.bind fun x => y.map fun y => x + y
  divCount x n := x.map fun x => x / n
  minusOne := some (-1)
  nonneg x := x.any fun x => 0 ≤ x
  minusOne_neg := by decide

end Values

section Code
variable {D : Type*} (F : Doubles D)

/-- The number of a time that stands here. -/
def timeNumber (s : List Char) : List (List Char) := ((timeHere s).map Prod.fst).toList

/-- The loop of `bs_line_rtts` with room for `room` more values, and `skip` characters
to pass over. -/
def rttsFrom : ℕ → ℕ → List Char → List D
  | _, _, [] => []
  | skip + 1, room, _ :: s => rttsFrom skip room s
  | 0, room, c :: s =>
      if room = 0 then []
      else
        let values := (timeNumber (c :: s)).map F.ofText
        values ++ rttsFrom (advance (c :: s) - 1) (room - values.length) s

def bsLineRtts (line : List Char) (maxSamples : ℕ) : List D := rttsFrom F 0 maxSamples line

end Code

section Found

/-- The numbers of all times that the two loops find, with `skip` characters to pass
over. -/
def foundFrom : ℕ → List Char → List (List Char)
  | _, [] => []
  | skip + 1, _ :: s => foundFrom skip s
  | 0, c :: s => timeNumber (c :: s) ++ foundFrom (advance (c :: s) - 1) s

def found (s : List Char) : List (List Char) := foundFrom 0 s

theorem foundFrom_eq (skip : ℕ) (s : List Char) : foundFrom skip s = found (s.drop skip) := by
  induction s generalizing skip with
  | nil =>
      rw [List.drop_nil]
      cases skip <;> rfl
  | cons c s ih =>
      cases skip with
      | zero => rw [List.drop_zero, found]
      | succ skip => exact ih skip

theorem found_cons (c : Char) (s : List Char) :
    found (c :: s) = timeNumber (c :: s) ++ found (s.drop (advance (c :: s) - 1)) := by
  rw [found, foundFrom, foundFrom_eq]

theorem found_of_time {c : Char} {s number : List Char} {n : ℕ}
    (h : timeHere (c :: s) = some (number, n + 1)) :
    found (c :: s) = number :: found (s.drop n) := by
  rw [found_cons, timeNumber, advance, h]
  rfl

theorem found_of_none {c : Char} {s : List Char} (h : timeHere (c :: s) = none) :
    found (c :: s) = found s := by
  rw [found_cons, timeNumber, advance, h]
  rfl

variable {D : Type*} (F : Doubles D)

/-- With enough room `bs_line_rtts` returns everything that is found. -/
theorem rttsFrom_eq (skip : ℕ) {room : ℕ} {s : List Char} (h : (foundFrom skip s).length ≤ room) :
    rttsFrom F skip room s = (foundFrom skip s).map F.ofText := by
  induction s generalizing skip room with
  | nil => cases skip <;> rfl
  | cons c s ih =>
      cases skip with
      | succ skip => exact ih skip h
      | zero =>
          rw [rttsFrom]
          by_cases hroom : room = 0
          · have hnone : foundFrom 0 (c :: s) = [] := by
              rw [← List.length_eq_zero_iff]
              omega
            rw [if_pos hroom, hnone, List.map_nil]
          · rw [foundFrom, List.length_append] at h
            rw [if_neg hroom, foundFrom, List.map_append]
            dsimp only
            rw [List.length_map, ih]
            omega

/-- `bs_line_avg_rtt` adds up everything that is found. -/
theorem sumTimes_eq (skip : ℕ) (acc : D × ℕ) (s : List Char) :
    sumTimes F skip acc s =
      (foundFrom skip s).foldl (fun acc number => (F.add acc.1 (F.ofText number), acc.2 + 1))
        acc := by
  induction s generalizing skip acc with
  | nil => cases skip <;> rfl
  | cons c s ih =>
      cases skip with
      | succ skip => exact ih skip acc
      | zero =>
          have hstep : addTime F acc (c :: s) = (timeNumber (c :: s)).foldl
              (fun acc number => (F.add acc.1 (F.ofText number), acc.2 + 1)) acc := by
            unfold addTime timeNumber
            cases timeHere (c :: s) with
            | none => rfl
            | some t => rfl
          conv_lhs => unfold sumTimes
          rw [ih, hstep, foundFrom, List.foldl_append]

end Found

section Words

/-- The first word of a text. -/
def firstWord (v : List Char) : List Char :=
  (v.dropWhile isSpace).takeWhile fun c => !isSpace c

/-- A word of which `%7s` takes the unit is the unit. -/
theorem word_of_take {word : List Char} (h : word.take 7 = "ms".toList) : word = "ms".toList := by
  have hlen := congrArg List.length h
  rw [List.length_take] at hlen
  have htwo : "ms".toList.length = 2 := rfl
  rwa [List.take_of_length_le (by omega)] at h

/-- Where a number stands, the word behind it decides. -/
theorem timeHere_of_item {s : List Char} {item : Item}
    (h : floatItem (s.dropWhile isSpace) = some item) :
    timeHere s = if firstWord item.2 = "ms".toList
      then some (item.1, s.length - ((item.2.dropWhile isSpace).drop 2).length) else none := by
  unfold timeHere scanTime
  rw [h, Option.bind_some]
  dsimp only
  change Option.bind (if (firstWord item.2).take 7 = [] then none else some (item.1,
    (firstWord item.2).take 7,
    (item.2.dropWhile isSpace).drop ((firstWord item.2).take 7).length)) _ = _
  by_cases hword : firstWord item.2 = "ms".toList
  · rw [hword, if_pos rfl]
    rfl
  · rw [if_neg hword]
    split_ifs
    · rfl
    · exact if_neg fun hunit => hword (word_of_take hunit)

theorem timeHere_of_no_item {s : List Char} (h : floatItem (s.dropWhile isSpace) = none) :
    timeHere s = none := by
  unfold timeHere scanTime
  rw [h]
  rfl

/-- A time ends behind its unit. -/
theorem timeHere_pos {s number : List Char} {n : ℕ} (h : timeHere s = some (number, n)) :
    0 < n := by
  cases hitem : floatItem (s.dropWhile isSpace) with
  | none =>
      rw [timeHere_of_no_item hitem] at h
      cases h
  | some item =>
      rw [timeHere_of_item hitem] at h
      split_ifs at h with hword
      obtain ⟨-, rfl⟩ := Prod.mk.inj (Option.some.inj h)
      have hlen := congrArg List.length (floatItem_append hitem)
      have hskip := (List.dropWhile_suffix isSpace (l := s)).length_le
      have hgap := (List.dropWhile_suffix isSpace (l := item.2)).length_le
      have hunit := (List.takeWhile_prefix (fun c => !isSpace c)
        (l := item.2.dropWhile isSpace)).length_le
      change (firstWord item.2).length ≤ _ at hunit
      have htwo : "ms".toList.length = 2 := rfl
      rw [hword] at hunit
      rw [List.length_append] at hlen
      rw [List.length_drop]
      omega

/-- Blanks between the words of a line do not matter. -/
theorem found_blank (s : List Char) : found (' ' :: s) = found s := by
  have hskip : (' ' :: s).dropWhile isSpace = s.dropWhile isSpace := rfl
  cases hhere : timeHere s with
  | none =>
      refine found_of_none ?_
      cases hitem : floatItem (s.dropWhile isSpace) with
      | none => exact timeHere_of_no_item (by rw [hskip, hitem])
      | some item =>
          rw [timeHere_of_item hitem] at hhere
          rw [timeHere_of_item (by rw [hskip, hitem])]
          split_ifs at hhere ⊢
          rfl
  | some t =>
      obtain ⟨number, n⟩ := t
      have hpos := timeHere_pos hhere
      obtain ⟨n, rfl⟩ : ∃ k, n = k + 1 := ⟨n - 1, by omega⟩
      have hblank : timeHere (' ' :: s) = some (number, n + 1 + 1) := by
        cases hitem : floatItem (s.dropWhile isSpace) with
        | none =>
            rw [timeHere_of_no_item hitem] at hhere
            cases hhere
        | some item =>
            rw [timeHere_of_item hitem] at hhere
            rw [timeHere_of_item (by rw [hskip, hitem])]
            split_ifs at hhere ⊢
            obtain ⟨rfl, hn⟩ := Prod.mk.inj (Option.some.inj hhere)
            rw [List.length_cons, Nat.succ_sub (by omega), hn]
      cases s with
      | nil => cases hhere
      | cons c s => rw [found_of_time hhere, found_of_time hblank, List.drop_succ_cons]

/-- The number of a word that is a number and the unit. -/
def wordTime (u : List Char) : Option (List Char) :=
  (floatItem u).bind fun item => if item.2 = "ms".toList then some item.1 else none

theorem dropWhile_solid {u : List Char} (hu : Solid u) (hne : u ≠ []) (w : List Char) :
    (u ++ w).dropWhile isSpace = u ++ w := by
  obtain ⟨c, u, rfl⟩ := List.exists_cons_of_ne_nil hne
  rw [List.cons_append, List.dropWhile_cons_of_neg]
  rw [hu c List.mem_cons_self]
  decide

theorem firstWord_solid {u : List Char} (hu : Solid u) (hne : u ≠ []) {v : List Char}
    (hv : Ends v) : firstWord (u ++ v) = u := by
  unfold firstWord
  rw [dropWhile_solid hu hne]
  have hm : Munch (fun c => !isSpace c) (u ++ v) u v := by
    refine ⟨rfl, fun c hc => by rw [hu c hc]; rfl, fun c hc => ?_⟩
    rw [hv c hc]
    decide
  exact (munch_iff.mp hm).1.symm

theorem ends_blank (v : List Char) : Ends (' ' :: v) := by
  intro c hc
  exact (Option.some.inj hc).symm

/-- What is found at the beginning of a word, if the unit does not stand alone behind it. -/
theorem timeHere_word {u v : List Char} (hu : Solid u) (hne : u ≠ [])
    (hv : firstWord v ≠ "ms".toList) :
    timeHere (u ++ ' ' :: v) = (wordTime u).map fun number => (number, u.length) := by
  have hfloat : floatItem ((u ++ ' ' :: v).dropWhile isSpace) =
      (floatItem u).map fun item => item.before (' ' :: v) := by
    rw [dropWhile_solid hu hne, floatItem_blank]
  unfold wordTime
  cases hitem : floatItem u with
  | none => exact timeHere_of_no_item (by rw [hfloat, hitem]; rfl)
  | some item =>
      obtain ⟨number, rest⟩ := item
      rw [hitem, Option.map_some] at hfloat
      rw [timeHere_of_item hfloat, Option.bind_some]
      unfold Item.before
      dsimp only
      obtain rfl | hrest := eq_or_ne rest []
      · rw [List.nil_append, if_neg (by exact hv), if_neg (by decide)]
        rfl
      · have hsplit : number ++ rest = u := floatItem_append hitem
        have hsolid : Solid rest := fun c hc => hu c (hsplit ▸ List.mem_append_right number hc)
        rw [firstWord_solid hsolid hrest (ends_blank v), dropWhile_solid hsolid hrest]
        split_ifs with hms
        · have hlen := congrArg List.length hsplit
          have htwo : "ms".toList.length = 2 := rfl
          rw [List.length_append, hms, htwo] at hlen
          rw [Option.map_some, hms, List.drop_append_of_le_length (by decide),
            List.drop_of_length_le (by decide), List.nil_append, List.length_append]
          congr 2
          omega
        · rfl

/-- The times inside a word. -/
def strays : List Char → List (List Char)
  | [] => []
  | c :: u =>
      match wordTime (c :: u) with
      | some number => [number]
      | none => strays u

theorem found_word {u v : List Char} (hu : Solid u) (hv : firstWord v ≠ "ms".toList) :
    found (u ++ ' ' :: v) = strays u ++ found v := by
  induction u with
  | nil => exact found_blank v
  | cons c u ih =>
      have hhere := timeHere_word hu (List.cons_ne_nil c u) hv
      rw [List.cons_append] at hhere ⊢
      unfold strays
      cases hword : wordTime (c :: u) with
      | none =>
          rw [hword] at hhere
          rw [found_of_none hhere]
          exact ih fun d hd => hu d (List.mem_cons_of_mem c hd)
      | some number =>
          rw [hword] at hhere
          rw [found_of_time hhere, List.drop_left, found_blank]
          rfl

/-- A number and the unit behind it. -/
theorem found_time {number v rest : List Char} (hitem : floatItem number = some (number, []))
    (hv : v.dropWhile isSpace = "ms".toList ++ rest) (hrest : Ends rest) :
    found (number ++ ' ' :: v) = number :: found rest := by
  have hsolid : Solid number := solid_floatItem hitem
  have hne : number ≠ [] := by
    rintro rfl
    exact absurd hitem (by decide)
  have hfloat : floatItem ((number ++ ' ' :: v).dropWhile isSpace) = some (number, ' ' :: v) := by
    rw [dropWhile_solid hsolid hne, floatItem_blank, hitem]
    rfl
  have hword : firstWord (' ' :: v) = "ms".toList := by
    have hms : firstWord ("ms".toList ++ rest) = "ms".toList :=
      firstWord_solid (by decide) (by decide) hrest
    rw [← hms]
    unfold firstWord
    rw [dropWhile_solid (by decide) (by decide), ← hv]
    rfl
  have hgap : (' ' :: v).dropWhile isSpace = "ms".toList ++ rest := hv
  have hhere : timeHere (number ++ ' ' :: v) =
      some (number, (number ++ ' ' :: v).length - rest.length) := by
    rw [timeHere_of_item hfloat, if_pos hword, hgap]
    rfl
  obtain ⟨k, hk⟩ : ∃ k, (number ++ ' ' :: v) = k ++ rest := by
    refine ⟨number ++ (' ' :: v).takeWhile isSpace ++ "ms".toList, ?_⟩
    rw [List.append_assoc, List.append_assoc, ← hgap, List.takeWhile_append_dropWhile]
  obtain ⟨n, hn⟩ : ∃ n, (number ++ ' ' :: v).length - rest.length = n + 1 :=
    Nat.exists_eq_succ_of_ne_zero (timeHere_pos hhere).ne'
  have hkn : k.length = n + 1 := by
    rw [hk, List.length_append] at hn
    omega
  rw [hn, hk] at hhere
  rw [hk]
  cases k with
  | nil => cases hkn
  | cons c k =>
      rw [List.cons_append] at hhere ⊢
      rw [found_of_time hhere, ← Nat.succ.inj hkn, List.drop_left]

end Words

section Names

/-- A name that ends in a number and the unit. -/
def EndsInTime (name : List Char) : Prop :=
  ∃ front number, name = front ++ (number ++ "ms".toList) ∧
    floatItem (number ++ "ms".toList) = some (number, "ms".toList)

theorem wordTime_eq_some {u number : List Char} : wordTime u = some number ↔
    u = number ++ "ms".toList ∧ floatItem u = some (number, "ms".toList) := by
  constructor
  · intro h
    obtain ⟨⟨text, rest⟩, hitem, h⟩ := Option.bind_eq_some_iff.mp h
    dsimp only at h
    split_ifs at h with hms
    obtain rfl := Option.some.inj h
    rw [hms] at hitem
    exact ⟨(floatItem_append hitem).symm, hitem⟩
  · rintro ⟨-, hitem⟩
    unfold wordTime
    rw [hitem]
    rfl

theorem strays_eq_nil {name : List Char} : strays name = [] ↔ ¬ EndsInTime name := by
  induction name with
  | nil =>
      refine iff_of_true rfl ?_
      rintro ⟨front, number, h, -⟩
      simp at h
  | cons c u ih =>
      unfold strays
      cases hword : wordTime (c :: u) with
      | some number =>
          obtain ⟨hsplit, hitem⟩ := wordTime_eq_some.mp hword
          refine iff_of_false (by simp) (not_not_intro ⟨[], number, hsplit, ?_⟩)
          rw [← hsplit, hitem]
      | none =>
          refine ih.trans (not_congr ⟨?_, ?_⟩)
          · rintro ⟨front, number, rfl, hitem⟩
            exact ⟨c :: front, number, rfl, hitem⟩
          · rintro ⟨front, number, hsplit, hitem⟩
            cases front with
            | nil =>
                have hsome := wordTime_eq_some.mpr ⟨hsplit, hsplit ▸ hitem⟩
                rw [hword] at hsome
                cases hsome
            | cons d front => exact ⟨front, number, (List.cons.inj hsplit).2, hitem⟩

theorem not_endsInTime {u v : List Char} (hne : v ≠ []) (h : v.getLast? ≠ some 's') :
    ¬ EndsInTime (u ++ v) := by
  rintro ⟨front, number, hsplit, -⟩
  have hlast := congrArg List.getLast? hsplit
  rw [List.getLast?_append_of_ne_nil u hne, ← List.append_assoc,
    List.getLast?_append_of_ne_nil _ (by decide)] at hlast
  exact h hlast

end Names

end Iputils.LineTimes
