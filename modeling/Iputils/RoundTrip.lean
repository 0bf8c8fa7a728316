import Iputils.GatherStatistics

/-!
# The arithmetic of a round trip

The block of `gather_statistics` from the label `restamp` to the trip time, with each
operation on `time_t` and `suseconds_t` checked for overflow and with the jumps back to
the label counted. The time of sending is read from the payload, so it is whatever the
remote host has put there. The main result says exactly which times of sending and of
receiving the block copes with.
-/
set_option autoImplicit false

namespace Iputils.RoundTrip
open MachineInt PingState GatherStatistics

def int64Min : ℤ := -9223372036854775808

def Fits64 (x : ℤ) : Prop := int64Min ≤ x ∧ x ≤ longMax

instance (x : ℤ) : Decidable (Fits64 x) := inferInstanceAs (Decidable (_ ∧ _))

/-- The result of a signed 64-bit operation, `none` for an overflow. -/
def fit64 (x : ℤ) : Option ℤ := if Fits64 x then some x else none

/-- `tvsub` with its operations in their order. -/
def tvsub64 (out tv : Timeval) : Option Timeval := do
  let usec ← fit64 (out.tvUsec - tv.tvUsec)
  if usec < 0 then
    let sec ← fit64 (out.tvSec - 1)
    let usec ← fit64 (usec + 1000000)
    let sec ← fit64 (sec - tv.tvSec)
    pure ⟨sec, usec⟩
  else
    let sec ← fit64 (out.tvSec - tv.tvSec)
    pure ⟨sec, usec⟩

/-- The two checks on `tv_usec`. -/
def clampUsec (usec : ℤ) : ℤ :=
  let usec := if usec ≥ 1000000 then 999999 else usec
  if usec < 0 then 0 else usec

/-- How one pass from the label ends. -/
inductive Pass
  | overflow
  | jump
  | done (tv : Timeval) (triptime : ℤ)
deriving Repr, DecidableEq

def pass (optLatency : Bool) (tv sent : Timeval) : Pass :=
  match tvsub64 tv sent with
  | none => .overflow
  | some d =>
      let d : Timeval := ⟨d.tvSec, clampUsec d.tvUsec⟩
      if d.tvSec > tvSecMaxVal then .done d 0
      else if d.tvSec < 0 then if optLatency then .done d 0 else .jump
      else
        match (fit64 (d.tvSec * 1000000)).bind fun us => fit64 (us + d.tvUsec) with
        | none => .overflow
        | some triptime => .done d triptime

/-- The variables behind the block, and the number of jumps. -/
structure Stamp where
  tv : Timeval
  triptime : ℤ
  optLatency : Bool
  jumps : ℕ
deriving Repr, DecidableEq

inductive Result
  | unfinished
  | overflow (jumps : ℕ)
  | done (st : Stamp)
deriving Repr, DecidableEq

/-- The block with at most `fuel` passes; `clock` gives the readings of the clock. -/
def restamp (sent : Timeval) (clock : ℕ → Timeval) : ℕ → ℕ → Bool → Timeval → Result
  | 0, _, _, _ => .unfinished
  | fuel + 1, jumps, optLatency, tv =>
      match pass optLatency tv sent with
      | .overflow => .overflow jumps
      | .done d triptime => .done ⟨d, triptime, optLatency, jumps⟩
      | .jump => restamp sent clock fuel (jumps + 1) true (clock jumps)

/-- What the block is to achieve. -/
def Safe : Result → Prop
  | .done st =>
      (0 ≤ st.tv.tvUsec ∧ st.tv.tvUsec ≤ 999999) ∧ (0 ≤ st.triptime ∧ st.triptime ≤ intMax) ∧
        st.jumps ≤ 1
  | .unfinished | .overflow _ => False

/-! ## One pass -/

/-- The second that the microseconds borrow. -/
def borrow (tv sent : Timeval) : ℤ := if tv.tvUsec < sent.tvUsec then 1 else 0

/-- The whole seconds between two times. -/
def seconds (tv sent : Timeval) : ℤ := tv.tvSec - borrow tv sent - sent.tvSec

/-- No operation of `tvsub` overflows. -/
structure Subtractable (tv sent : Timeval) : Prop where
  usec : tv.tvUsec - sent.tvUsec ≤ longMax
  sec : int64Min ≤ tv.tvSec - borrow tv sent
  low : int64Min ≤ seconds tv sent
  high : seconds tv sent ≤ longMax

/-- 2147 seconds and so many microseconds that the trip time exceeds `INT32_MAX`. -/
def BeyondInt32 (tv sent : Timeval) : Prop :=
  seconds tv sent = tvSecMaxVal ∧
    483647 < tv.tvUsec - sent.tvUsec + if tv.tvUsec < sent.tvUsec then 1000000 else 0

/-- A time of day as the kernel gives it. -/
structure Normalized (tv : Timeval) : Prop where
  sec : Fits64 tv.tvSec
  low : 0 ≤ tv.tvUsec
  high : tv.tvUsec ≤ 999999

/-- Two words of the payload. -/
structure Words (sent : Timeval) : Prop where
  sec : Fits64 sent.tvSec
  usec : Fits64 sent.tvUsec

section Arithmetic
variable {tv sent : Timeval}

theorem fit64_some {x : ℤ} (h : Fits64 x) : fit64 x = some x := if_pos h

theorem of_fit64_some {x y : ℤ} (h : fit64 x = some y) : Fits64 x ∧ y = x := by
  unfold fit64 at h
  split_ifs at h with hfit
  exact ⟨hfit, (Option.some.inj h).symm⟩

/-- `tvsub` succeeds on times that can be subtracted, with the result of the model
without checks. -/
theorem tvsub64_eq (htv : Normalized tv) (hsent : Words sent) (h : Subtractable tv sent) :
    tvsub64 tv sent = some (tvsub tv sent) := by
  obtain ⟨⟨hs₀, hs₁⟩, hu₀, hu₁⟩ := htv
  obtain ⟨-, hv₀, hv₁⟩ := hsent
  obtain ⟨husec, hsec, hlow, hhigh⟩ := h
  unfold seconds at hlow hhigh
  unfold borrow at hsec hlow hhigh
  have hfit : Fits64 (tv.tvUsec - sent.tvUsec) := by
    unfold Fits64 int64Min longMax at *
    omega
  by_cases hneg : tv.tvUsec < sent.tvUsec
  · rw [if_pos hneg] at hsec hlow hhigh
    have hneg' : tv.tvUsec - sent.tvUsec < 0 := by omega
    have hfit₁ : Fits64 (tv.tvSec - 1) := ⟨hsec, by omega⟩
    have hfit₂ : Fits64 (tv.tvUsec - sent.tvUsec + 1000000) := by
      unfold Fits64 int64Min longMax at *
      omega
    have hfit₃ : Fits64 (tv.tvSec - 1 - sent.tvSec) := ⟨hlow, hhigh⟩
    simp [tvsub64, tvsub, fit64_some, hfit, hfit₁, hfit₂, hfit₃, hneg']
  · rw [if_neg hneg] at hsec hlow hhigh
    have hneg' : ¬ tv.tvUsec - sent.tvUsec < 0 := by omega
    have hfit₁ : Fits64 (tv.tvSec - sent.tvSec) := ⟨by omega, by omega⟩
    simp [tvsub64, tvsub, fit64_some, hfit, hfit₁, hneg']

theorem subtractable_of_some {d : Timeval} (htv : Normalized tv)
    (h : tvsub64 tv sent = some d) : Subtractable tv sent := by
  unfold tvsub64 at h
  obtain ⟨usec, husec, hrest⟩ := Option.bind_eq_some_iff.mp h
  obtain ⟨hfit, rfl⟩ := of_fit64_some husec
  by_cases hneg : tv.tvUsec - sent.tvUsec < 0
  · have hborrow : borrow tv sent = 1 := if_pos (by omega)
    rw [if_pos hneg] at hrest
    obtain ⟨sec, hsec, hrest⟩ := Option.bind_eq_some_iff.mp hrest
    obtain ⟨hfit₁, rfl⟩ := of_fit64_some hsec
    obtain ⟨usec', -, hrest⟩ := Option.bind_eq_some_iff.mp hrest
    obtain ⟨sec', hsec', -⟩ := Option.bind_eq_some_iff.mp hrest
    obtain ⟨hfit₂, -⟩ := of_fit64_some hsec'
    refine ⟨hfit.2, ?_, ?_, ?_⟩
    · rw [hborrow]
      exact hfit₁.1
    · rw [seconds, hborrow]
      exact hfit₂.1
    · rw [seconds, hborrow]
      exact hfit₂.2
  · have hborrow : borrow tv sent = 0 := if_neg (by omega)
    rw [if_neg hneg] at hrest
    obtain ⟨sec, hsec, -⟩ := Option.bind_eq_some_iff.mp hrest
    obtain ⟨hfit₁, -⟩ := of_fit64_some hsec
    refine ⟨hfit.2, ?_, ?_, ?_⟩
    · rw [hborrow, sub_zero]
      exact htv.sec.1
    · rw [seconds, hborrow, sub_zero]
      exact hfit₁.1
    · rw [seconds, hborrow, sub_zero]
      exact hfit₁.2

theorem tvsub_eq (tv sent : Timeval) :
    tvsub tv sent = ⟨seconds tv sent,
      tv.tvUsec - sent.tvUsec + if tv.tvUsec < sent.tvUsec then 1000000 else 0⟩ := by
  unfold tvsub seconds borrow
  by_cases hneg : tv.tvUsec < sent.tvUsec
  · simp [hneg]
  · simp [hneg]

/-- The checks are those of the model without overflow. -/
theorem elapsed_eq (tv sent : Timeval) :
    elapsed tv sent = ⟨seconds tv sent, clampUsec (tvsub tv sent).tvUsec⟩ := by
  have hsec : (tvsub tv sent).tvSec = seconds tv sent := by rw [tvsub_eq]
  rw [← hsec]
  unfold elapsed clampUsec
  generalize tvsub tv sent = d
  dsimp only
  split_ifs <;> first | rfl | omega

/-- One pass on times that can be subtracted. -/
theorem pass_eq (htv : Normalized tv) (hsent : Words sent) (h : Subtractable tv sent)
    (optLatency : Bool) :
    pass optLatency tv sent =
      if seconds tv sent < 0 ∧ optLatency = false then .jump
      else .done (elapsed tv sent) (tripOf (elapsed tv sent)) := by
  have hrange := elapsed_usec tv sent
  rw [elapsed_eq] at hrange ⊢
  have hsec : (tvsub tv sent).tvSec = seconds tv sent := by rw [tvsub_eq]
  simp only [pass, tvsub64_eq htv hsent h, hsec, tripOf]
  by_cases hbig : seconds tv sent > tvSecMaxVal
  · have hpos : ¬ seconds tv sent < 0 := by
      unfold tvSecMaxVal at hbig
      omega
    simp only [hbig, hpos, if_true, false_and, if_false]
  · by_cases hneg : seconds tv sent < 0
    · cases optLatency <;> simp [hbig, hneg]
    · have hfit₁ : Fits64 (seconds tv sent * 1000000) := by
        unfold Fits64 int64Min longMax
        unfold tvSecMaxVal at hbig
        omega
      have hfit₂ : Fits64 (seconds tv sent * 1000000 + clampUsec (tvsub tv sent).tvUsec) := by
        unfold Fits64 int64Min longMax
        unfold tvSecMaxVal at hbig
        dsimp only at hrange
        omega
      simp [hbig, hneg, fit64_some hfit₁, fit64_some hfit₂]

theorem pass_overflow (htv : Normalized tv) (h : ¬ Subtractable tv sent) (optLatency : Bool) :
    pass optLatency tv sent = .overflow := by
  cases hd : tvsub64 tv sent with
  | none => rw [pass, hd]
  | some d => exact absurd (subtractable_of_some htv hd) h

/-- The trip time fits 31 bits unless it is just above the largest `int32_t`. -/
theorem tripOf_le_iff (tv sent : Timeval) :
    (0 ≤ tripOf (elapsed tv sent) ∧ tripOf (elapsed tv sent) ≤ intMax) ↔
      ¬ BeyondInt32 tv sent := by
  have hrange := elapsed_usec tv sent
  rw [elapsed_eq] at hrange ⊢
  rw [tvsub_eq] at hrange ⊢
  unfold BeyondInt32
  generalize seconds tv sent = sec at *
  generalize tv.tvUsec - sent.tvUsec + (if tv.tvUsec < sent.tvUsec then 1000000 else 0) = usec at *
  unfold tripOf clampUsec intMax tvSecMaxVal at *
  dsimp only at *
  split_ifs at * <;> omega

end Arithmetic

/-! ## The block -/

theorem pass_latency (tv sent : Timeval) : pass true tv sent ≠ .jump := by
  unfold pass
  split
  · simp
  · dsimp only
    simp only [if_true]
    split_ifs
    · simp
    · simp
    · split <;> simp

section Block
variable (sent : Timeval) (clock : ℕ → Timeval)

/-- Once `opt_latency` is set, the next pass is the last one. -/
theorem restamp_latency (fuel jumps : ℕ) (tv : Timeval) :
    restamp sent clock (fuel + 1) jumps true tv = .overflow jumps ∨
      ∃ d triptime, pass true tv sent = .done d triptime ∧
        restamp sent clock (fuel + 1) jumps true tv = .done ⟨d, triptime, true, jumps⟩ := by
  unfold restamp
  cases hp : pass true tv sent with
  | overflow => exact Or.inl rfl
  | jump => exact absurd hp (pass_latency tv sent)
  | done d triptime => exact Or.inr ⟨d, triptime, rfl, rfl⟩

/-- The block ends after at most two passes, the second with `opt_latency` set. -/
theorem restamp_cases (fuel : ℕ) (optLatency : Bool) (tv : Timeval) :
    (∃ jumps, restamp sent clock (fuel + 2) 0 optLatency tv = .overflow jumps ∧
        jumps ≤ if optLatency then 0 else 1) ∨
      ∃ st, restamp sent clock (fuel + 2) 0 optLatency tv = .done st ∧
        (st.jumps = 0 ∧ st.optLatency = optLatency ∨
          st.jumps = 1 ∧ optLatency = false ∧ st.optLatency = true) := by
  rw [restamp]
  cases hp : pass optLatency tv sent with
  | overflow => exact Or.inl ⟨0, rfl, Nat.zero_le _⟩
  | done d triptime => exact Or.inr ⟨_, rfl, Or.inl ⟨rfl, rfl⟩⟩
  | jump =>
      have hoff : optLatency = false := by
        cases optLatency with
        | false => rfl
        | true => exact absurd hp (pass_latency tv sent)
      subst hoff
      rcases restamp_latency sent clock fuel 1 (clock 0) with h | ⟨d, triptime, -, h⟩
      · exact Or.inl ⟨1, h, le_rfl⟩
      · exact Or.inr ⟨_, h, Or.inr ⟨rfl, rfl, rfl⟩⟩

end Block

/-- The times with which the block copes: `now` is the reading after a jump. -/
def Copes (optLatency : Bool) (tv sent now : Timeval) : Prop :=
  Subtractable tv sent ∧
    if seconds tv sent < 0 ∧ optLatency = false then Subtractable now sent ∧ ¬ BeyondInt32 now sent
    else ¬ BeyondInt32 tv sent

section Safety
variable {sent : Timeval} {clock : ℕ → Timeval}

/-- The last pass, at a time from which there is no jump. -/
theorem safe_last_iff {tv : Timeval} (htv : Normalized tv) (hsent : Words sent)
    (optLatency : Bool) (hlast : ¬ (seconds tv sent < 0 ∧ optLatency = false)) (fuel : ℕ)
    {jumps : ℕ} (hjumps : jumps ≤ 1) :
    Safe (restamp sent clock (fuel + 1) jumps optLatency tv) ↔
      Subtractable tv sent ∧ ¬ BeyondInt32 tv sent := by
  by_cases hsub : Subtractable tv sent
  · have hp := pass_eq htv hsent hsub optLatency
    rw [if_neg hlast] at hp
    rw [restamp, hp, ← tripOf_le_iff]
    exact ⟨fun h => ⟨hsub, h.2.1⟩, fun h => ⟨elapsed_usec tv sent, h.2, hjumps⟩⟩
  · rw [restamp, pass_overflow htv hsub]
    exact ⟨False.elim, fun h => hsub h.1⟩

theorem safe_iff {tv : Timeval} (htv : Normalized tv) (hclock : ∀ n, Normalized (clock n))
    (hsent : Words sent) (fuel : ℕ) (optLatency : Bool) :
    Safe (restamp sent clock (fuel + 2) 0 optLatency tv) ↔ Copes optLatency tv sent (clock 0) := by
  unfold Copes
  by_cases hback : seconds tv sent < 0 ∧ optLatency = false
  · rw [if_pos hback]
    by_cases hsub : Subtractable tv sent
    · have hp := pass_eq htv hsent hsub optLatency
      rw [if_pos hback] at hp
      rw [restamp, hp]
      have hlast : Safe (restamp sent clock (fuel + 1) 1 true (clock 0)) ↔
          Subtractable (clock 0) sent ∧ ¬ BeyondInt32 (clock 0) sent :=
        safe_last_iff (hclock 0) hsent true (fun h => Bool.noConfusion h.2) fuel le_rfl
      exact hlast.trans ⟨fun h => ⟨hsub, h⟩, fun h => h.2⟩
    · rw [restamp, pass_overflow htv hsub]
      exact ⟨False.elim, fun h => hsub h.1⟩
  · rw [if_neg hback]
    exact safe_last_iff htv hsent optLatency hback (fuel + 1) (Nat.zero_le 1)

/-- Where nothing overflows, the block computes what the model without checks does. -/
theorem restamp_triptime {p : Reply} {fuel : ℕ} {optLatency : Bool} {st : Stamp}
    (htv : Normalized p.tv) (hnow : Normalized p.now) (hsent : Words p.sent)
    (h : restamp p.sent (fun _ => p.now) (fuel + 2) 0 optLatency p.tv = .done st) :
    (st.triptime, st.optLatency) = triptime optLatency p := by
  have hsecs : (elapsed p.tv p.sent).tvSec = seconds p.tv p.sent := by rw [elapsed_eq]
  unfold triptime
  dsimp only
  rw [hsecs]
  rw [restamp] at h
  by_cases hsub : Subtractable p.tv p.sent
  · rw [pass_eq htv hsent hsub] at h
    by_cases hback : seconds p.tv p.sent < 0 ∧ optLatency = false
    · rw [if_pos hback] at h ⊢
      dsimp only at h
      rw [restamp] at h
      by_cases hsub' : Subtractable p.now p.sent
      · rw [pass_eq hnow hsent hsub', if_neg (fun hb => Bool.noConfusion hb.2)] at h
        obtain rfl := Result.done.inj h
        rfl
      · rw [pass_overflow hnow hsub'] at h
        cases h
    · rw [if_neg hback] at h ⊢
      obtain rfl := Result.done.inj h
      rfl
  · rw [pass_overflow htv hsub] at h
    cases h

end Safety

/-! ## The jumps of a run -/

/-- A reply that is timed: when it was received, the words of its payload, and the
readings of the clock that it may cause. -/
structure Arrival where
  tv : Timeval
  sent : Timeval
  clock : ℕ → Timeval

/-- The jumps of a run, up to an overflow if there is one. -/
def jumpsOf : Bool → List Arrival → ℕ
  | _, [] => 0
  | optLatency, a :: as =>
      match restamp a.sent a.clock 2 0 optLatency a.tv with
      | .unfinished => 0
      | .overflow jumps => jumps
      | .done st => st.jumps + jumpsOf st.optLatency as

theorem jumpsOf_le (optLatency : Bool) (as : List Arrival) :
    jumpsOf optLatency as ≤ if optLatency then 0 else 1 := by
  induction as generalizing optLatency with
  | nil => exact Nat.zero_le _
  | cons a as ih =>
      rw [jumpsOf]
      rcases restamp_cases a.sent a.clock 0 optLatency a.tv with
        ⟨jumps, h, hle⟩ | ⟨st, h, ⟨hj, ho⟩ | ⟨hj, hoff, ho⟩⟩
      · rw [h]
        exact hle
      · have hrest := ih optLatency
        rw [h]
        dsimp only
        rw [hj, ho]
        omega
      · have hrest := ih true
        rw [h]
        dsimp only
        rw [hj, ho, hoff]
        simpa using hrest

/-- The block is safe exactly for the times with which it copes, and a run jumps back at
most once. -/
theorem round_trip_safe_iff (fuel : ℕ) (optLatency : Bool) (tv sent : Timeval)
    (clock : ℕ → Timeval) (htv : Normalized tv) (hclock : ∀ n, Normalized (clock n))
    (hsent : Words sent) :
    (Safe (restamp sent clock (fuel + 2) 0 optLatency tv) ↔
      Copes optLatency tv sent (clock 0)) ∧ ∀ as : List Arrival, jumpsOf optLatency as ≤ 1 := by
  refine ⟨safe_iff htv hclock hsent fuel optLatency, ?_⟩
  intro as
  refine (jumpsOf_le optLatency as).trans ?_
  split_ifs <;> decide

theorem round_trip_safe_second :
    Safe (restamp ⟨1, 999999⟩ (fun _ => ⟨9, 0⟩) (0 + 2) 0 false ⟨3, 0⟩) ↔
      Copes false ⟨3, 0⟩ ⟨1, 999999⟩ ⟨9, 0⟩ :=
  (round_trip_safe_iff 0 false ⟨3, 0⟩ ⟨1, 999999⟩ (fun _ => ⟨9, 0⟩)
    ⟨by decide, by decide, by decide⟩ (fun _ => ⟨by decide, by decide, by decide⟩)
    ⟨by decide, by decide⟩).1

/-- A trip of almost 2148 seconds does not fit an `int32_t`, and a payload whose
microseconds are the smallest number overflows in the first subtraction. -/
theorem round_trip_unsafe :
    restamp ⟨0, 0⟩ (fun _ => ⟨0, 0⟩) 2 0 false ⟨2147, 999999⟩ =
        .done ⟨⟨2147, 999999⟩, 2147999999, false, 0⟩ ∧
      ¬ Safe (restamp ⟨0, 0⟩ (fun _ => ⟨0, 0⟩) 2 0 false ⟨2147, 999999⟩) ∧
      restamp ⟨0, int64Min⟩ (fun _ => ⟨0, 0⟩) 2 0 false ⟨2147, 999999⟩ = .overflow 0 ∧
      ¬ Safe (restamp ⟨0, int64Min⟩ (fun _ => ⟨0, 0⟩) 2 0 false ⟨2147, 999999⟩) := by
  have hlong : restamp ⟨0, 0⟩ (fun _ => ⟨0, 0⟩) 2 0 false ⟨2147, 999999⟩ =
      .done ⟨⟨2147, 999999⟩, 2147999999, false, 0⟩ := by decide
  have hwild : restamp ⟨0, int64Min⟩ (fun _ => ⟨0, 0⟩) 2 0 false ⟨2147, 999999⟩ = .overflow 0 := by
    decide
  refine ⟨hlong, ?_, hwild, ?_⟩
  · rw [hlong]
    exact fun h => absurd h.2.1.2 (by decide)
  · rw [hwild]
    exact fun h => h

end Iputils.RoundTrip
