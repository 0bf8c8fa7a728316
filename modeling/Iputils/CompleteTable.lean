import Iputils.HopTable

/-!
# Complete tables of hops

The table of an output is right when its rows are the lines of the hops in order, and
the row for the light-floor is that of the last hop with an answer. That takes room for
all hops, and that no other piece of the output starts with a positive number before the
table is full.
-/
set_option autoImplicit false

namespace Iputils.CompleteTable
open ScanText HopLine TracerouteText HopTable

section Lists
variable {α β : Type*}

/-- The first `none` of a list comes within the number of elements that it can have
before it. -/
theorem none_mem_take {L L' : List (Option α)} {cap : ℕ} (hbegin : L' <+: L) (hmem : none ∈ L')
    (hcount : L'.countP Option.isSome < cap) : none ∈ L.take cap := by
  induction L' generalizing L cap with
  | nil => exact absurd hmem List.not_mem_nil
  | cons x L' ih =>
      obtain ⟨L'', rfl⟩ := hbegin
      obtain ⟨cap, rfl⟩ : ∃ k, cap = k + 1 := ⟨cap - 1, by omega⟩
      rw [List.cons_append, List.take_succ_cons]
      cases x with
      | none => exact List.mem_cons_self
      | some a =>
          rw [List.countP_cons_of_pos rfl] at hcount
          obtain hmem | hmem := List.mem_cons.mp hmem
          · cases hmem
          · exact List.mem_cons_of_mem _ (ih (List.prefix_append L' L'') hmem (by omega))

/-- Two searches find the same image exactly when what the wider one finds passes the
narrower test. -/
theorem find?_map_eq_iff {p q : α → Bool} {f : α → β} (hpq : ∀ x, p x = true → q x = true)
    (hf : ∀ x y, f x = f y → p x = p y) (xs : List α) :
    (xs.find? p).map f = (xs.find? q).map f ↔ ∀ x, xs.find? q = some x → p x = true := by
  induction xs with
  | nil => simp
  | cons x xs ih =>
      by_cases hq : q x = true
      · rw [List.find?_cons_of_pos hq]
        by_cases hp : p x = true
        · rw [List.find?_cons_of_pos hp]
          exact iff_of_true rfl fun y hy => by rw [← Option.some.inj hy]; exact hp
        · rw [List.find?_cons_of_neg hp]
          refine iff_of_false (fun heq => ?_) fun hall => hp (hall x rfl)
          obtain ⟨y, hy, hxy⟩ := Option.map_eq_some_iff.mp heq
          exact hp ((hf y x hxy).symm.trans (List.find?_some hy))
      · have hp : ¬ p x = true := fun hp => hq (hpq x hp)
        rw [List.find?_cons_of_neg hq, List.find?_cons_of_neg hp]
        exact ih

end Lists

section Quiet

/-- The pieces of an output, up to some hop, that are not the start of a hop line. -/
def straysOf (out : Output) (xs : List (HopOutput × ℕ)) : List (List Char) :=
  overflow out.header ++ xs.flatMap fun x => x.1.strays x.2

/-- The hops whose strays are read before a table with room for `cap` rows is full. -/
def beforeFull (out : Output) (cap : ℕ) : List (HopOutput × ℕ) :=
  if out.hops.length < cap then out.numbered else out.numbered.dropLast

/-- No stray piece starts with a positive number. -/
def Quiet (out : Output) (cap : ℕ) : Prop :=
  ∀ piece ∈ straysOf out (beforeFull out cap), ¬ Numbered piece

/-- The row that the line of a hop is to become. -/
def lineRow (x : HopOutput × ℕ) : Option ℕ × List Char := (some x.2, lineStart x)

/-- What an output up to some hop becomes. -/
def candidates (out : Output) (xs : List (HopOutput × ℕ)) : List (Option ℕ × List Char) :=
  strayRows (overflow out.header) ++ xs.flatMap hopRows

theorem length_numbered (out : Output) : out.numbered.length = out.hops.length :=
  List.length_zipIdx

theorem strayRows_quiet {strays : List (List Char)} (h : ∀ piece ∈ strays, ¬ Numbered piece) :
    strayRows strays = [] := by
  unfold strayRows
  rw [List.filter_eq_nil_iff.mpr, List.map_nil]
  intro piece hpiece
  simpa using h piece hpiece

theorem candidates_quiet {out : Output} {xs : List (HopOutput × ℕ)}
    (h : ∀ piece ∈ straysOf out xs, ¬ Numbered piece) : candidates out xs = xs.map lineRow := by
  have hhops : xs.flatMap hopRows = xs.flatMap fun x => [lineRow x] := by
    refine List.flatMap_congr fun x hx => ?_
    unfold hopRows
    rw [strayRows_quiet fun piece hpiece => h piece (List.mem_append_right _
      (List.mem_flatMap.mpr ⟨x, hx, hpiece⟩))]
    rfl
  unfold candidates
  rw [strayRows_quiet fun piece hpiece => h piece (List.mem_append_left _ hpiece), hhops,
    List.nil_append, List.map_eq_flatMap]

theorem strayRows_fst (strays : List (List Char)) : ∀ m ∈ (strayRows strays).map Prod.fst, m = none := by
  intro m hm
  unfold strayRows at hm
  rw [List.map_map] at hm
  obtain ⟨piece, -, rfl⟩ := List.mem_map.mp hm
  rfl

theorem countP_strayRows (strays : List (List Char)) :
    ((strayRows strays).map Prod.fst).countP Option.isSome = 0 := by
  refine List.countP_eq_zero.mpr fun m hm => ?_
  rw [strayRows_fst strays m hm]
  exact nofun

/-- Only the hop lines bring rows with a mark. -/
theorem countP_candidates (out : Output) (xs : List (HopOutput × ℕ)) :
    ((candidates out xs).map Prod.fst).countP Option.isSome = xs.length := by
  unfold candidates
  rw [List.map_append, List.countP_append, countP_strayRows, Nat.zero_add]
  induction xs with
  | nil => rfl
  | cons x xs ih =>
      unfold hopRows at ih ⊢
      rw [List.flatMap_cons, List.map_append, List.countP_append, ih, List.map_cons,
        List.countP_cons_of_pos rfl, countP_strayRows, List.length_cons]
      omega

theorem none_mem_strayRows {strays : List (List Char)} {piece : List Char} (hpiece : piece ∈ strays)
    (hnum : Numbered piece) : none ∈ (strayRows strays).map Prod.fst := by
  refine List.mem_map.mpr ⟨(none, stripped piece), ?_, rfl⟩
  exact List.mem_map.mpr ⟨piece, List.mem_filter.mpr ⟨hpiece, by simpa using hnum⟩, rfl⟩

theorem none_mem_candidates {out : Output} {xs : List (HopOutput × ℕ)} {piece : List Char}
    (hpiece : piece ∈ straysOf out xs) (hnum : Numbered piece) :
    none ∈ (candidates out xs).map Prod.fst := by
  unfold candidates
  rw [List.map_append]
  obtain hpiece | hpiece := List.mem_append.mp hpiece
  · exact List.mem_append_left _ (none_mem_strayRows hpiece hnum)
  · obtain ⟨x, hx, hpiece⟩ := List.mem_flatMap.mp hpiece
    refine List.mem_append_right _ ?_
    rw [List.map_flatMap]
    exact List.mem_flatMap.mpr ⟨x, hx, List.mem_cons_of_mem _ (none_mem_strayRows hpiece hnum)⟩

theorem candidates_append (out : Output) (xs ys : List (HopOutput × ℕ)) :
    candidates out (xs ++ ys) = candidates out xs ++ ys.flatMap hopRows := by
  unfold candidates
  rw [List.flatMap_append, List.append_assoc]

end Quiet

section Complete
variable {out : Output} {cap : ℕ}

/-- The rows are made from the lines of the hops, from all of them and in order. -/
def Complete (cap : ℕ) (out : Output) : Prop :=
  (rowsFrom cap true 0 out.marked).map Prod.fst = out.numbered.map fun x => some x.2

theorem rows_of_quiet (hle : out.hops.length ≤ cap) (hquiet : Quiet out cap) :
    rowsFrom cap true 0 out.marked = out.numbered.map lineRow := by
  have hlen := length_numbered out
  rw [rows_marked]
  change (candidates out out.numbered).take cap = _
  unfold Quiet beforeFull at hquiet
  by_cases hlt : out.hops.length < cap
  · rw [if_pos hlt] at hquiet
    rw [candidates_quiet hquiet, List.take_of_length_le (by rw [List.length_map]; omega)]
  · rw [if_neg hlt] at hquiet
    rcases List.eq_nil_or_concat' out.numbered with hnil | ⟨ys, z, hyz⟩
    · rw [hnil, List.length_nil] at hlen
      rw [show cap = 0 by omega, List.take_zero, hnil, List.map_nil]
    · rw [hyz, List.dropLast_concat] at hquiet
      rw [hyz, List.length_append, List.length_singleton] at hlen
      -- what follows the line of the last hop finds the table full
      have hys : (ys.map lineRow).length + 1 = cap := by
        rw [List.length_map]
        omega
      rw [hyz, candidates_append, candidates_quiet hquiet, List.flatMap_singleton, hopRows,
        ← hys, List.take_length_add_append, List.take_succ_cons, List.take_zero, List.map_append]
      rfl

theorem complete_iff (hcap : 0 < cap) :
    Complete cap out ↔ out.hops.length ≤ cap ∧ Quiet out cap := by
  have hlen := length_numbered out
  constructor
  · intro h
    unfold Complete at h
    rw [rows_marked] at h
    change ((candidates out out.numbered).take cap).map Prod.fst = _ at h
    have hle : out.hops.length ≤ cap := by
      have hl := congrArg List.length h
      rw [List.length_map, List.length_map, List.length_take] at hl
      omega
    refine ⟨hle, fun piece hpiece hnum => ?_⟩
    have hbegin : beforeFull out cap <+: out.numbered := by
      unfold beforeFull
      split_ifs
      · exact List.prefix_rfl
      · exact List.dropLast_prefix _
    have hcount : (beforeFull out cap).length < cap := by
      unfold beforeFull
      split_ifs
      · omega
      · rw [List.length_dropLast]
        omega
    obtain ⟨ys, hys⟩ := hbegin
    have hnone : none ∈ ((candidates out out.numbered).map Prod.fst).take cap := none_mem_take
      (by rw [← hys, candidates_append, List.map_append]; exact List.prefix_append _ _)
      (none_mem_candidates hpiece hnum) (by rw [countP_candidates]; exact hcount)
    rw [← List.map_take, h] at hnone
    obtain ⟨x, -, hx⟩ := List.mem_map.mp hnone
    cases hx
  · rintro ⟨hle, hquiet⟩
    unfold Complete
    rw [rows_of_quiet hle hquiet, List.map_map]
    rfl

/-- The rows of a complete table, as the programs have them. -/
theorem rows_complete (hle : out.hops.length ≤ cap) (hquiet : Quiet out cap) :
    rows cap out.text = out.numbered.map lineStart := by
  unfold rows
  rw [Output.text, ← marked_snd out.lines (newline_lines out), List.map_map]
  change (rowsFrom cap true 0 (out.marked.map fun x => ((), x.2))).map Prod.snd = _
  rw [rowsFrom_unmarked, rows_of_quiet hle hquiet, List.map_map]
  rfl

theorem numbers_complete (out : Output) :
    (out.numbered.map lineStart).map hopNumber =
      (List.range' 1 out.hops.length).map fun n : ℕ => (n : ℤ) := by
  have hsnd : out.numbered.map Prod.snd = List.range' 1 out.hops.length := List.zipIdx_map_snd 1 _
  rw [← hsnd, List.map_map, List.map_map]
  refine List.map_congr_left fun x hx => ?_
  rw [Function.comp_apply, Function.comp_apply, hopNumber_lineStart (numbered_bounds out x hx).2]

end Complete

section Average
variable {D : Type*} (F : Doubles D)

/-- The word behind a number stands in the text. -/
theorem scanTime_unit_mem {s number unit rest : List Char}
    (h : scanTime s = some (number, unit, rest)) : ∀ c ∈ unit, c ∈ s := by
  obtain ⟨item, hitem, h⟩ := Option.bind_eq_some_iff.mp h
  dsimp only at h
  split_ifs at h
  cases h
  intro c hc
  have h₁ : c ∈ item.2 :=
    (List.dropWhile_sublist _).mem ((List.takeWhile_sublist _).mem (List.mem_of_mem_take hc))
  have h₂ : c ∈ s.dropWhile isSpace := by
    rw [← floatItem_append hitem]
    exact List.mem_append_right _ h₁
  exact (List.dropWhile_sublist _).mem h₂

theorem timeHere_of_not_mem {s : List Char} (h : 'm' ∉ s) : timeHere s = none := by
  unfold timeHere
  cases hscan : scanTime s with
  | none => rfl
  | some item =>
      obtain ⟨number, unit, rest⟩ := item
      refine if_neg ?_
      rintro rfl
      exact h (scanTime_unit_mem hscan 'm' (by decide +kernel))

theorem sumTimes_of_not_mem {line : List Char} (h : 'm' ∉ line) (skip : ℕ) (acc : D × ℕ) :
    sumTimes F skip acc line = acc := by
  induction line generalizing skip with
  | nil => cases skip <;> rfl
  | cons c s ih =>
      have hs : 'm' ∉ s := fun hm => h (List.mem_cons_of_mem c hm)
      cases skip with
      | succ skip => exact ih hs skip
      | zero =>
          have hadd : addTime F acc (c :: s) = acc := by
            unfold addTime
            rw [timeHere_of_not_mem h]
          unfold sumTimes
          rw [hadd, ih hs]

theorem not_mem_numberText (n : ℕ) : 'm' ∉ numberText n := by
  intro hm
  obtain hm | hm := List.mem_append.mp hm
  · obtain hm | hm := List.mem_append.mp hm
    · exact absurd (List.eq_of_mem_replicate hm) (by decide)
    · exact absurd (PrintfText.isDigit_toDigits hm) (by decide)
  · exact absurd (List.mem_singleton.mp hm) (by decide)

theorem not_mem_unanswered {ps : List Probe} (h : ∀ p ∈ ps, p = none) (prev : Option Responder) :
    'm' ∉ probesText prev ps := by
  induction ps generalizing prev with
  | nil => exact List.not_mem_nil
  | cons p ps ih =>
      obtain rfl := h p List.mem_cons_self
      have hstar : 'm' ∉ " *".toList := by decide +kernel
      exact fun hm => (List.mem_append.mp hm).elim hstar
        (ih (fun p hp => h p (List.mem_cons_of_mem _ hp)) _)

/-- A hop without an answer has no average. -/
theorem avg_unanswered {x : HopOutput × ℕ} (h : x.1.answered = false) :
    bsLineAvgRtt F (lineStart x) = F.minusOne := by
  have hnone : ∀ p ∈ x.1.probes, p = none := by
    intro p hp
    have := List.any_eq_false.mp h p hp
    simpa using this
  have hline : 'm' ∉ lineStart x := fun hm =>
    (List.mem_append.mp (List.mem_of_mem_take hm)).elim (not_mem_numberText x.2)
      (not_mem_unanswered hnone none)
  unfold bsLineAvgRtt
  rw [sumTimes_of_not_mem F hline]
  rfl

/-- The last hop with an answer. -/
def lastAnswered (out : Output) : Option (HopOutput × ℕ) :=
  out.numbered.reverse.find? fun x => x.1.answered

theorem lastReachable_iff (out : Output) :
    lastReachable F ((out.numbered.map lineStart).map (hopOf F)) =
        (lastAnswered out).map (fun x => hopOf F (lineStart x)) ↔
      ∀ x, lastAnswered out = some x → F.nonneg (bsLineAvgRtt F (lineStart x)) = true := by
  have hpq : ∀ x : HopOutput × ℕ, F.nonneg (hopOf F (lineStart x)).avgMs = true →
      x.1.answered = true := by
    intro x hx
    by_contra hnot
    rw [hopOf_avgMs, avg_unanswered F (Bool.eq_false_iff.mpr hnot), F.minusOne_neg] at hx
    cases hx
  have hf : ∀ x y : HopOutput × ℕ, hopOf F (lineStart x) = hopOf F (lineStart y) →
      F.nonneg (hopOf F (lineStart x)).avgMs = F.nonneg (hopOf F (lineStart y)).avgMs := by
    intro x y hxy
    rw [hxy]
  have hiff := find?_map_eq_iff hpq hf out.numbered.reverse
  unfold lastReachable lastAnswered
  rw [List.map_map, ← List.map_reverse, List.find?_map]
  simp only [hopOf_avgMs, Function.comp_def] at hiff ⊢
  exact hiff

end Average

section Programs
variable {D : Type*}

/-- The tables of both programs are complete and in order, and the light-floor of
`btraceroute` comes from the last hop with an answer. -/
structure Right (F : Doubles D) (out : Output) : Prop where
  numbers : (hops F out.text).map Hop.num =
    (List.range' 1 out.hops.length).map fun n : ℕ => (n : ℤ)
  complete : Complete maxHops out
  last : lastReachable F (hops F out.text) =
    (lastAnswered out).map fun x => hopOf F (lineStart x)
  bmtr : ∀ maxhops, 1 ≤ maxhops → maxhops ≤ maxHops → out.hops.length ≤ maxhops →
    (discoverHops maxhops out.text).map BmtrHop.num =
      ((List.range' 1 out.hops.length).map fun n : ℕ => (n : ℤ)) ∧ Complete maxhops out

theorem quiet_mono {out : Output} {cap : ℕ} (h : Quiet out maxHops) (hcap : cap ≤ maxHops) :
    Quiet out cap := by
  have hbegin : beforeFull out cap <+: beforeFull out maxHops := by
    unfold beforeFull
    by_cases hlt : out.hops.length < maxHops
    · rw [if_pos hlt]
      split_ifs
      · exact List.prefix_rfl
      · exact List.dropLast_prefix _
    · rw [if_neg hlt]
      split_ifs
      · omega
      · exact List.prefix_rfl
  obtain ⟨ys, hys⟩ := hbegin
  intro piece hpiece
  refine h piece ?_
  unfold straysOf at hpiece ⊢
  rw [← hys, List.flatMap_append, ← List.append_assoc]
  exact List.mem_append_left _ hpiece

theorem right_of_quiet (F : Doubles D) {out : Output} (hle : out.hops.length ≤ maxHops)
    (hquiet : Quiet out maxHops)
    (hlast : ∀ x, lastAnswered out = some x → F.nonneg (bsLineAvgRtt F (lineStart x)) = true) :
    Right F out := by
  have hrows : ∀ cap, cap ≤ maxHops → out.hops.length ≤ cap →
      rows cap out.text = out.numbered.map lineStart :=
    fun cap hcap hle => rows_complete hle (quiet_mono hquiet hcap)
  have hhops : hops F out.text = (out.numbered.map lineStart).map (hopOf F) := by
    unfold hops
    rw [hrows maxHops le_rfl hle]
  refine ⟨?_, (complete_iff (by decide)).mpr ⟨hle, hquiet⟩, ?_, ?_⟩
  · rw [hhops, List.map_map, ← numbers_complete]
    rfl
  · rw [hhops]
    exact (lastReachable_iff F out).mpr hlast
  · intro maxhops hpos hmax hle'
    refine ⟨?_, (complete_iff hpos).mpr ⟨hle', quiet_mono hquiet hmax⟩⟩
    unfold discoverHops
    rw [hrows maxhops hmax hle', List.map_map, ← numbers_complete]
    rfl

/-- The tables are right exactly when the output has at most 30 hops, nothing but the
hop lines starts with a positive number before the table is full, and the average of the
last hop with an answer is not negative. -/
theorem table_right_iff (F : Doubles D) (out : Output) :
    Right F out ↔ out.hops.length ≤ 30 ∧ Quiet out 30 ∧
      ∀ x, lastAnswered out = some x → F.nonneg (bsLineAvgRtt F (lineStart x)) = true := by
  constructor
  · intro h
    obtain ⟨hle, hquiet⟩ := (complete_iff (by decide)).mp h.complete
    refine ⟨hle, hquiet, (lastReachable_iff F out).mp ?_⟩
    rw [← rows_complete hle hquiet]
    exact h.last
  · rintro ⟨hle, hquiet, hlast⟩
    exact right_of_quiet F hle hquiet hlast

/-- Exact arithmetic in thousandths, for numbers with three decimals. -/
def thousandths : Doubles ℤ where
  ofText := fun s => (Nat.ofDigitChars 10 (s.filter Char.isDigit) 0 : ℕ)
  zero := 0
  add := fun x y => x + y
  divCount := fun x n => x / n
  minusOne := -1000
  nonneg := fun x => decide (0 ≤ x)
  minusOne_neg := by decide

/-- Two hops, with two responders at the first of them. -/
def twoResponders : Output where
  header := "traceroute to host (10.0.0.9), 30 hops max".toList
  hops :=
    [⟨[some ⟨gateway, 1234⟩], [⟨4, gateway, 1500, by decide⟩], nofun⟩,
     ⟨[some ⟨gateway, 2345⟩], [], nofun⟩]
  header_line := by decide +kernel
  hops_length := by decide

/-- The address on the line of the second responder passes for hop number 10. -/
theorem responder_taken_for_hop :
    rows 30 twoResponders.text =
        [" 1  10.0.0.1 (10.0.0.1)  1.234 ms".toList, "    10.0.0.1 (10.0.0.1)  1.500 ms".toList,
         " 2  10.0.0.1 (10.0.0.1)  2.345 ms".toList] ∧
      (hops thousandths twoResponders.text).map Hop.num = [1, 10, 2] ∧
      ¬ Right thousandths twoResponders := by
  have hnum : (hops thousandths twoResponders.text).map Hop.num = [1, 10, 2] := by decide +kernel
  refine ⟨by decide +kernel, hnum, fun h => ?_⟩
  have hright := h.numbers
  rw [hnum] at hright
  exact absurd hright (by decide)

end Programs

end Iputils.CompleteTable
