import Iputils.RoundTrip

/-!
# The wait for the last replies

`__schedule_exit` with the types of its operations. The product of the interval is made
once in `unsigned long` for a comparison and once in `int` for the assignment, and the
milliseconds are returned as an `int`. The main result says for which intervals and trip
times the timer is set to the wait that the two products stand for.
-/
set_option autoImplicit false

namespace Iputils.FinalWait
open MachineInt PingState RoundTrip

def FitsInt (x : ℤ) : Prop := -2147483648 ≤ x ∧ x ≤ intMax

instance (x : ℤ) : Decidable (FitsInt x) := inferInstanceAs (Decidable (_ ∧ _))

/-- The result of an operation on `int`, `none` for an overflow. -/
def fitInt (x : ℤ) : Option ℤ := if FitsInt x then some x else none

theorem fitInt_of_fits {x : ℤ} (h : FitsInt x) : fitInt x = some x := if_pos h

theorem fitInt_eq_some {x y : ℤ} : fitInt x = some y ↔ FitsInt x ∧ x = y := by
  unfold fitInt
  rw [Option.ite_none_right_eq_some, Option.some.injEq]

theorem fitInt_of_not {x : ℤ} (h : ¬ FitsInt x) : fitInt x = none := if_neg h

section Code

/-- What is assigned to `waittime`. -/
def newWaittime (r : Rts) : Option ℤ :=
  if r.nreceived ≠ 0 then do
    let waittime := u64 (← fit64 (2 * r.tmax))
    if waittime < u64 (1000 * u64 r.interval) then
      let product ← fitInt (1000 * r.interval)
      pure (u64 product)
    else pure waittime
  else pure r.lingertime

/-- A call that returns: the static variable behind it, the argument of `setitimer` and
the result. -/
structure Call where
  waittime : ℤ
  timer : Option Timeval
  next : ℤ
deriving Repr, DecidableEq

/-- `__schedule_exit` -/
def scheduleExitCall (waittime : ℤ) (r : Rts) (next : ℤ) : Option Call :=
  if waittime ≠ 0 then some ⟨waittime, none, next⟩
  else do
    let waittime ← newWaittime r
    pure ⟨waittime, some ⟨i64 (waittime / 1000000), i64 (waittime % 1000000)⟩,
      if next < 0 ∨ u64 next < waittime / 1000 then i32 (waittime / 1000) else next⟩

/-- Calls in their order, each with the state it finds and its argument. -/
def calls : ℤ → List (Rts × ℤ) → Option (List Call)
  | _, [] => some []
  | waittime, (r, next) :: rest => do
      let c ← scheduleExitCall waittime r next
      let cs ← calls c.waittime rest
      pure (c :: cs)

end Code

section Waits

/-- The wait in microseconds. -/
def wait (r : Rts) : ℤ := max (2 * r.tmax) (1000 * r.interval)

/-- The intervals that `-i` and `setup` let pass. -/
structure Admitted (r : Rts) : Prop where
  preload : 1 ≤ r.preload
  nonneg : 0 ≤ r.interval
  below : r.interval < intMax / r.preload

/-- The first call sets the timer to the wait and returns as many milliseconds at least, and no
later call changes anything. -/
def LongEnough (r : Rts) (next : ℤ) : Prop :=
  ∃ c, scheduleExitCall 0 r next = some c ∧
    c.timer = some ⟨wait r / 1000000, wait r % 1000000⟩ ∧ wait r / 1000 ≤ c.next ∧
    ∀ later, calls c.waittime later = some (later.map fun l => ⟨c.waittime, none, l.2⟩)

/-- Both products stand for the wait in their types, and there is something to wait for. -/
structure Waitable (r : Rts) : Prop where
  product : 1000 * r.interval ≤ intMax ∨ 1000 * r.interval ≤ 2 * r.tmax
  milliseconds : wait r / 1000 ≤ intMax
  positive : wait r ≠ 0

variable {r : Rts} {next : ℤ}

theorem Admitted.le (h : Admitted r) : r.interval ≤ intMax :=
  h.below.le.trans (Int.ediv_le_self r.preload (by decide))

/-- The comparison is made without overflow, the product behind it is not. -/
theorem newWaittime_compared (hr : Admitted r) (ht : 0 ≤ r.tmax) (hn : 0 < r.nreceived)
    (hdouble : 2 * r.tmax ≤ longMax) :
    newWaittime r =
      if 2 * r.tmax < 1000 * r.interval then (fitInt (1000 * r.interval)).map u64
      else some (2 * r.tmax) := by
  have hle : r.interval ≤ 2147483647 := hr.le
  have hnonneg := hr.nonneg
  have hlong : longMax = 9223372036854775807 := rfl
  have hfits : Fits64 (2 * r.tmax) := ⟨by unfold int64Min; omega, hdouble⟩
  have hunsigned : u64 (2 * r.tmax) = 2 * r.tmax := by
    unfold u64
    omega
  have hproduct : u64 (1000 * u64 r.interval) = 1000 * r.interval := by
    unfold u64
    omega
  unfold newWaittime
  rw [if_pos hn.ne', fit64_some hfits, Option.bind_eq_bind, Option.bind_some, hunsigned, hproduct]
  cases fitInt (1000 * r.interval) <;> rfl

theorem newWaittime_received (hr : Admitted r) (ht : 0 ≤ r.tmax) (hn : 0 < r.nreceived) :
    newWaittime r =
      if 2 * r.tmax ≤ longMax ∧ (1000 * r.interval ≤ intMax ∨ 1000 * r.interval ≤ 2 * r.tmax) then
        some (wait r)
      else none := by
  have hnonneg := hr.nonneg
  by_cases hdouble : 2 * r.tmax ≤ longMax
  · rw [newWaittime_compared hr ht hn hdouble]
    by_cases hless : 2 * r.tmax < 1000 * r.interval
    · rw [if_pos hless]
      by_cases hfit : 1000 * r.interval ≤ intMax
      · have hsame : u64 (1000 * r.interval) = 1000 * r.interval := by
          unfold intMax at hfit
          unfold u64
          omega
        rw [fitInt_of_fits ⟨by omega, hfit⟩, Option.map_some, hsame, if_pos ⟨hdouble, Or.inl hfit⟩,
          wait, max_eq_right hless.le]
      · rw [fitInt_of_not fun h => hfit h.2, if_neg (by omega)]
        rfl
    · rw [if_neg hless, if_pos ⟨hdouble, Or.inr (by omega)⟩, wait, max_eq_left (by omega)]
  · unfold newWaittime
    rw [if_pos hn.ne', fit64, if_neg fun h => hdouble h.2, if_neg fun h => hdouble h.1]
    rfl

/-- A call that finds the static variable set does nothing. -/
theorem calls_armed {waittime : ℤ} (h : waittime ≠ 0) (later : List (Rts × ℤ)) :
    calls waittime later = some (later.map fun l => ⟨waittime, none, l.2⟩) := by
  induction later with
  | nil => rfl
  | cons l later ih =>
      obtain ⟨r, next⟩ := l
      rw [calls, scheduleExitCall, if_pos h, Option.bind_eq_bind, Option.bind_some,
        Option.bind_eq_bind, ih]
      rfl

/-- The call that computes the wait. -/
def firstCall (w next : ℤ) : Call where
  waittime := w
  timer := some ⟨i64 (w / 1000000), i64 (w % 1000000)⟩
  next := if next < 0 ∨ u64 next < w / 1000 then i32 (w / 1000) else next

theorem scheduleExitCall_zero :
    scheduleExitCall 0 r next = (newWaittime r).map (firstCall · next) := by
  rw [scheduleExitCall, if_neg (not_not.mpr rfl)]
  cases newWaittime r <;> rfl

theorem firstCall_next_le {w : ℤ} (h : FitsInt next) : (firstCall w next).next ≤ intMax := by
  obtain ⟨-, h⟩ := h
  unfold firstCall
  dsimp only
  split_ifs
  · unfold i32 intMax
    omega
  · exact h

/-- With no wait at all the next call computes it again. -/
theorem calls_zero (h : newWaittime r = some 0) :
    calls 0 [(r, -1)] = some [⟨0, some ⟨0, 0⟩, 0⟩] := by
  rw [calls, scheduleExitCall_zero, h]
  rfl

theorem LongEnough.waitable (hr : Admitted r) (ht : 0 ≤ r.tmax) (hn : 0 < r.nreceived)
    (hnext : FitsInt next) (h : LongEnough r next) : Waitable r := by
  obtain ⟨c, hc, -, hms, hlater⟩ := h
  rw [scheduleExitCall_zero, Option.map_eq_some_iff] at hc
  obtain ⟨w, hw, rfl⟩ := hc
  have hnew := newWaittime_received hr ht hn
  rw [hw] at hnew
  split_ifs at hnew with hproduct
  rw [Option.some.injEq] at hnew
  refine ⟨hproduct.2, hms.trans (firstCall_next_le hnext), fun hzero => ?_⟩
  rw [hnew, hzero] at hw hlater
  have htwice := hlater [(r, -1)]
  change calls 0 [(r, -1)] = _ at htwice
  rw [calls_zero hw] at htwice
  cases htwice

theorem Waitable.longEnough (hr : Admitted r) (ht : 0 ≤ r.tmax) (hn : 0 < r.nreceived)
    (hnext : FitsInt next) (h : Waitable r) : LongEnough r next := by
  have hms : wait r / 1000 ≤ 2147483647 := h.milliseconds
  have hwait : 0 < wait r :=
    lt_of_le_of_ne (le_max_of_le_left (by omega)) h.positive.symm
  have hdouble : 2 * r.tmax ≤ wait r := le_max_left _ _
  have hw : newWaittime r = some (wait r) := by
    rw [newWaittime_received hr ht hn, if_pos ⟨by unfold longMax; omega, h.product⟩]
  refine ⟨firstCall (wait r) next, by rw [scheduleExitCall_zero, hw, Option.map_some], ?_, ?_,
    calls_armed hwait.ne'⟩
  · have hsec : i64 (wait r / 1000000) = wait r / 1000000 := by
      unfold i64
      omega
    have husec : i64 (wait r % 1000000) = wait r % 1000000 := by
      unfold i64
      omega
    rw [firstCall, hsec, husec]
  · obtain ⟨hnext0, hnext1⟩ := hnext
    have hint : intMax = 2147483647 := rfl
    unfold firstCall
    dsimp only
    split_ifs with hshort
    · unfold i32
      omega
    · have hunsigned : u64 next = next := by
        unfold u64
        omega
      omega

/-- The final wait is right exactly for the intervals and trip times whose products fit. -/
theorem longEnough_iff (hr : Admitted r) (ht : 0 ≤ r.tmax) (hn : 0 < r.nreceived)
    (hnext : FitsInt next) : LongEnough r next ↔ Waitable r :=
  ⟨fun h => h.waitable hr ht hn hnext, fun h => h.longEnough hr ht hn hnext⟩

theorem longEnough_second :
    LongEnough { nreceived := 1, tmax := 1500, interval := 1000 } 990 ↔
      Waitable { nreceived := 1, tmax := 1500, interval := 1000 } :=
  longEnough_iff ⟨by decide, by decide, by decide⟩ (by decide) (by decide) (by decide)

/-- An interval of 3000 seconds is admitted, and its microseconds do not fit into `int`. -/
theorem long_interval_overflows :
    ¬ ∀ (r : Rts) (next : ℤ), Admitted r → 0 ≤ r.tmax → 0 < r.nreceived → FitsInt next →
      LongEnough r next := by
  intro h
  obtain ⟨c, hc, -⟩ := h { nreceived := 1, interval := 3000000 } 2999999
    ⟨by decide, by decide, by decide⟩ (by decide) (by decide) (by decide)
  have hnone : newWaittime { nreceived := 1, interval := 3000000 } = none := by decide
  rw [scheduleExitCall_zero, hnone] at hc
  cases hc

end Waits

end Iputils.FinalWait
