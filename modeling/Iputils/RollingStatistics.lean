import Mathlib.Analysis.Real.Sqrt
import Iputils.SampleStatistics

/-!
# The rolling statistics of bmtr

A hop keeps its last 512 round-trip times in a ring, and beside it the sum of the
times and the sum of their squares. `hop_add_sample` overwrites the oldest entry of
a full ring but takes nothing out of the sums, so that the average and the deviation
are those of all times since the start. Doubles are kept exact here.
-/
set_option autoImplicit false

namespace Iputils.RollingStatistics
open SampleStatistics

/-- `MAX_SAMPLES`, the rolling window of a hop. -/
def maxSamples : ℕ := 512

/-- The rolling statistics of `bmtr_hop_t`, as `discover_hops` initialises them. `nsamp`
is an `int` in the source; the probes of a hop stay below 2^31. -/
structure BmtrHop where
  samples : List ℚ := List.replicate maxSamples 0
  nsamp : ℕ := 0
  ntimeout : ℕ := 0
  nprobes : ℕ := 0
  sum : ℚ := 0
  sumsq : ℚ := 0
  smin : ℚ := 1000000000
  smax : ℚ := 0
deriving Repr, DecidableEq

/-- The part of `hop_add_sample` for a probe that was answered. -/
def addAnswer (h : BmtrHop) (rttMs : ℚ) : BmtrHop :=
  let idx := h.nsamp % maxSamples
  let h := { h with
    samples := h.samples.set idx rttMs
    nsamp := h.nsamp + 1
    sum := h.sum + rttMs
    sumsq := h.sumsq + rttMs * rttMs }
  let h := { h with smin := if h.nsamp = 1 ∨ rttMs < h.smin then rttMs else h.smin }
  { h with smax := if h.nsamp = 1 ∨ rttMs > h.smax then rttMs else h.smax }

def hopAddSample (h : BmtrHop) (rttMs : ℚ) : BmtrHop :=
  let h := { h with nprobes := h.nprobes + 1 }
  if rttMs < 0 then { h with ntimeout := h.ntimeout + 1 } else addAnswer h rttMs

def hopAvg (h : BmtrHop) : ℚ := if h.nsamp > 0 then h.sum / h.nsamp else 0

/-- The number under the root in `hop_stddev`. -/
def hopVar (h : BmtrHop) : ℚ := h.sumsq / h.nsamp - hopAvg h * hopAvg h

noncomputable def hopStddev (h : BmtrHop) : ℝ :=
  if h.nsamp < 2 then 0 else if hopVar h > 0 then Real.sqrt (hopVar h) else 0

/-- A hop after these results of probes; a negative one is a time-out. -/
def probed (rtts : List ℚ) : BmtrHop := rtts.foldl hopAddSample {}

/-- The times of the answered probes. -/
def answers (rtts : List ℚ) : List ℚ := rtts.filter fun rtt => 0 ≤ rtt

/-- The last `MAX_SAMPLES` of them, or all if there are fewer. -/
def lastAnswers (rtts : List ℚ) : List ℚ :=
  (answers rtts).drop ((answers rtts).length - maxSamples)

/-- The times that were overwritten in the ring. -/
def overwritten (rtts : List ℚ) : List ℚ :=
  (answers rtts).take ((answers rtts).length - maxSamples)

/-- The times that the ring holds, from the oldest on. -/
def BmtrHop.window (h : BmtrHop) : List ℚ :=
  let n := min h.nsamp maxSamples
  (List.range n).map fun k => h.samples.getD ((h.nsamp - n + k) % maxSamples) 0

/-- The average and the deviation are those of these times. -/
structure Describes (h : BmtrHop) (times : List ℚ) : Prop where
  avg : hopAvg h = mean times
  stddev : hopStddev h ^ 2 = (variance times : ℚ)

section Ring

/-- The last entries of `xs` stand in the ring, each at its index modulo the size. -/
structure Holds (ring xs : List ℚ) : Prop where
  size : ring.length = maxSamples
  entry : ∀ i < xs.length, xs.length ≤ i + maxSamples → ring[i % maxSamples]? = xs[i]?

theorem Holds.put {ring xs : List ℚ} (h : Holds ring xs) (x : ℚ) :
    Holds (ring.set (xs.length % maxSamples) x) (xs ++ [x]) := by
  have hidx : xs.length % maxSamples < ring.length := by
    rw [h.size]
    exact Nat.mod_lt _ (by decide)
  refine ⟨by rw [List.length_set, h.size], fun i hi hlast => ?_⟩
  rw [List.length_append, List.length_singleton] at hi hlast
  rcases Nat.lt_succ_iff_lt_or_eq.mp hi with hlt | rfl
  · have hne : xs.length % maxSamples ≠ i % maxSamples := by
      unfold maxSamples at hlast ⊢
      omega
    rw [List.getElem?_set_ne hne, h.entry i hlt (by omega), List.getElem?_append_left hlt]
  · rw [List.getElem?_set_self hidx, List.getElem?_append_right (Nat.le_refl _)]
    simp

end Ring

/-- The ring holds the last times, the sums are those of all. -/
structure Inv (h : BmtrHop) (times : List ℚ) : Prop where
  nsamp : h.nsamp = times.length
  ring : Holds h.samples times
  sum : h.sum = times.sum
  sumsq : h.sumsq = (squares times).sum

section Runs
variable {h : BmtrHop} {times : List ℚ}

theorem inv_start : Inv {} [] := by
  refine ⟨rfl, ⟨?_, nofun⟩, rfl, rfl⟩
  simp

theorem inv_addAnswer (hi : Inv h times) (rtt : ℚ) : Inv (addAnswer h rtt) (times ++ [rtt]) := by
  refine ⟨?_, ?_, ?_, ?_⟩
  · simp [addAnswer, hi.nsamp]
  · have hput := hi.ring.put rtt
    rw [← hi.nsamp] at hput
    exact hput
  · simp [addAnswer, hi.sum]
  · simp [addAnswer, hi.sumsq, squares, pow_two]

theorem inv_hopAddSample (hi : Inv h times) (rtt : ℚ) :
    Inv (hopAddSample h rtt) (times ++ answers [rtt]) := by
  unfold hopAddSample
  by_cases hneg : rtt < 0
  · have hnone : answers [rtt] = [] := by simp [answers, hneg]
    rw [hnone, List.append_nil]
    dsimp only
    rw [if_pos hneg]
    exact ⟨hi.nsamp, hi.ring, hi.sum, hi.sumsq⟩
  · have hone : answers [rtt] = [rtt] := by simp [answers, not_lt.mp hneg]
    rw [hone]
    dsimp only
    rw [if_neg hneg]
    have hcounted : Inv { h with nprobes := h.nprobes + 1 } times :=
      ⟨hi.nsamp, hi.ring, hi.sum, hi.sumsq⟩
    exact inv_addAnswer hcounted rtt

theorem inv_foldl (hi : Inv h times) (rtts : List ℚ) :
    Inv (rtts.foldl hopAddSample h) (times ++ answers rtts) := by
  induction rtts generalizing h times with
  | nil => simpa [answers] using hi
  | cons rtt rtts ih =>
      have hstep := ih (inv_hopAddSample hi rtt)
      have happend : answers [rtt] ++ answers rtts = answers (rtt :: rtts) := by
        rw [answers, answers, answers, ← List.filter_append]
        rfl
      rw [List.append_assoc, happend] at hstep
      exact hstep

theorem inv_probed (rtts : List ℚ) : Inv (probed rtts) (answers rtts) :=
  inv_foldl inv_start rtts

/-- The ring holds the last times. -/
theorem Inv.window (hi : Inv h times) : h.window = times.drop (times.length - maxSamples) := by
  apply List.ext_getElem?
  intro k
  unfold BmtrHop.window
  dsimp only
  rw [hi.nsamp, List.getElem?_map, List.getElem?_drop]
  by_cases hk : k < min times.length maxSamples
  · have hindex : times.length - min times.length maxSamples + k =
        times.length - maxSamples + k := by omega
    have hlt : times.length - maxSamples + k < times.length := by omega
    rw [List.getElem?_range hk, Option.map_some, hindex, List.getD_eq_getElem?_getD,
      hi.ring.entry _ hlt (by omega), List.getElem?_eq_getElem hlt]
    rfl
  · rw [List.getElem?_eq_none (by rw [List.length_range]; omega), Option.map_none,
      List.getElem?_eq_none (by omega)]

theorem Inv.avg (hi : Inv h times) : hopAvg h = mean times := by
  unfold hopAvg mean
  rw [hi.nsamp, hi.sum]
  cases times with
  | nil => simp
  | cons x xs => rw [if_pos (by simp)]

theorem Inv.var (hi : Inv h times) : hopVar h = variance times := by
  have hsquares : mean (squares times) = (squares times).sum / (times.length : ℚ) := by
    rw [mean, squares, List.length_map]
  rw [hopVar, hi.avg, hi.nsamp, hi.sumsq, variance_eq, pow_two, hsquares]

theorem variance_short {xs : List ℚ} (h : xs.length < 2) : variance xs = 0 := by
  match xs, h with
  | [], _ => simp [variance, spread]
  | [x], _ => simp [variance, spread, mean]

theorem Inv.stddev (hi : Inv h times) : hopStddev h ^ 2 = (variance times : ℚ) := by
  have hnonneg := variance_nonneg times
  unfold hopStddev
  rw [hi.var, hi.nsamp]
  split_ifs with hshort hpos
  · simp [variance_short hshort]
  · exact Real.sq_sqrt (by exact_mod_cast hnonneg)
  · have hzero : variance times = 0 := le_antisymm (not_lt.mp hpos) hnonneg
    simp [hzero]

end Runs

/-- The ring of a hop always holds its last times. The average and the deviation are
those of these times exactly when nothing was overwritten, or when the overwritten
times have the same mean and the same variance. -/
theorem rolling_right_iff (rtts : List ℚ) :
    (probed rtts).window = lastAnswers rtts ∧
    (Describes (probed rtts) (lastAnswers rtts) ↔
      (answers rtts).length ≤ maxSamples ∨
        mean (overwritten rtts) = mean (lastAnswers rtts) ∧
          variance (overwritten rtts) = variance (lastAnswers rtts)) := by
  have hi := inv_probed rtts
  refine ⟨hi.window, ?_⟩
  have hsplit : answers rtts = overwritten rtts ++ lastAnswers rtts :=
    (List.take_append_drop _ _).symm
  have hdescribes : Describes (probed rtts) (lastAnswers rtts) ↔
      mean (answers rtts) = mean (lastAnswers rtts) ∧
        variance (answers rtts) = variance (lastAnswers rtts) := by
    constructor
    · intro hd
      have havg := hd.avg
      have hstddev := hd.stddev
      rw [hi.avg] at havg
      rw [hi.stddev] at hstddev
      exact ⟨havg, by exact_mod_cast hstddev⟩
    · rintro ⟨hm, hv⟩
      exact ⟨by rw [hi.avg, hm], by rw [hi.stddev, hv]⟩
  rw [hdescribes]
  rcases Nat.lt_or_ge maxSamples (answers rtts).length with hlong | hshort
  · have hne : lastAnswers rtts ≠ [] := by
      have hlen : (lastAnswers rtts).length = maxSamples := by
        rw [lastAnswers, List.length_drop]
        omega
      intro hnil
      rw [hnil] at hlen
      cases hlen
    have hover : overwritten rtts ≠ [] := by
      have hlen : (overwritten rtts).length = (answers rtts).length - maxSamples := by
        rw [overwritten, List.length_take]
        omega
      intro hnil
      rw [hnil, List.length_nil] at hlen
      omega
    have hiff : mean (overwritten rtts ++ lastAnswers rtts) = _ ∧
        variance (overwritten rtts ++ lastAnswers rtts) = _ ↔ _ := append_statistics_iff hne
    rw [← hsplit] at hiff
    simp only [hiff, hover, false_or, not_le.mpr hlong]
  · have hall : lastAnswers rtts = answers rtts := by
      rw [lastAnswers, Nat.sub_eq_zero_of_le hshort, List.drop_zero]
    simp [hall, hshort]

/-- One slow answer, and then as many fast ones as the ring has room for. -/
def slowStart : List ℚ := 513 :: List.replicate maxSamples 0

theorem answers_slowStart : answers slowStart = slowStart := by
  unfold answers
  rw [List.filter_eq_self]
  intro x hx
  rcases List.mem_cons.mp hx with rfl | hx
  · decide
  · rw [List.eq_of_mem_replicate hx]
    decide

theorem lastAnswers_slowStart : lastAnswers slowStart = List.replicate maxSamples 0 := by
  rw [lastAnswers, answers_slowStart, slowStart, List.length_cons, List.length_replicate,
    Nat.add_sub_cancel_left, List.drop_one, List.tail_cons]

/-- The window holds only zeros, and the average is one. -/
theorem window_not_described :
    lastAnswers slowStart = List.replicate maxSamples 0 ∧ hopAvg (probed slowStart) = 1 ∧
      ¬ Describes (probed slowStart) (lastAnswers slowStart) := by
  have havg : hopAvg (probed slowStart) = 1 := by
    rw [(inv_probed slowStart).avg, answers_slowStart, slowStart, mean, List.sum_cons,
      List.sum_replicate, List.length_cons, List.length_replicate, maxSamples]
    norm_num
  have hmean : mean (lastAnswers slowStart) = 0 := by
    rw [lastAnswers_slowStart, mean, List.sum_replicate, smul_zero, zero_div]
  refine ⟨lastAnswers_slowStart, havg, fun h => ?_⟩
  have hne := h.avg
  rw [havg, hmean] at hne
  exact one_ne_zero hne

end Iputils.RollingStatistics
