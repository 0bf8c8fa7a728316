import Iputils.FinalWait
import Iputils.TripStatistics

/-!
# The pace of adaptive ping

With `-A` the interval follows the moving average of the trip times, and each time a
probe finds no buffer space an addend grows that slows the pace down. All of it is
computed in `int`. Along a run of replies and failures the interval is the one that was
meant as long as every sum fits, and the first sum that does not fit spoils it.
-/
set_option autoImplicit false

namespace Iputils.AdaptivePacing
open MachineInt PingState AckWindow GatherStatistics TripStatistics FinalWait
open Pinger (slowDown PingerState Verdict outOfMemory hardLocalError)

section Code

/-- The local variable `est`. -/
def checkedEst (r : Rts) : Option ℤ :=
  if r.rtt ≠ 0 then some (i32 (r.rtt / 8)) else fitInt (r.interval * 1000)

/-- `update_interval` with every operation on `int` checked. -/
def checkedUpdate (r : Rts) : Option Rts := do
  let est ← checkedEst r
  let sum ← fitInt (est + r.rttAddend)
  let sum ← fitInt (sum + 500)
  let interval := sum.tdiv 1000
  pure { r with
    interval :=
      if r.uid ≠ 0 ∧ interval < minUserIntervalMs then minUserIntervalMs else interval }

theorem checkedUpdate_cases {r r' : Rts} (h : checkedUpdate r = some r') :
    ∃ est, checkedEst r = some est ∧ FitsInt (est + r.rttAddend + 500) ∧
      r' = { r with
        interval :=
          if r.uid ≠ 0 ∧ (est + r.rttAddend + 500).tdiv 1000 < minUserIntervalMs then
            minUserIntervalMs
          else (est + r.rttAddend + 500).tdiv 1000 } := by
  simp only [checkedUpdate, Option.bind_eq_bind, Option.bind_eq_some_iff, fitInt_eq_some,
    Option.pure_def, Option.some.injEq] at h
  obtain ⟨est, hest, _, ⟨-, rfl⟩, _, ⟨hfits, rfl⟩, rfl⟩ := h
  exact ⟨est, hest, hfits, rfl⟩

/-- Where nothing overflows this is `update_interval` of the model. -/
theorem checkedUpdate_eq {r r' : Rts} (h : checkedUpdate r = some r') : r' = updateInterval r := by
  obtain ⟨est, hest, -, rfl⟩ := checkedUpdate_cases h
  have hsame : est = if r.rtt ≠ 0 then i32 (r.rtt / 8) else r.interval * 1000 := by
    unfold checkedEst at hest
    split_ifs at hest ⊢
    · exact (Option.some.inj hest).symm
    · exact (fitInt_eq_some.mp hest).2.symm
  rw [hsame]
  rfl

/-- What a run of `ping -A` consists of: replies, and probes for which there is no buffer. -/
inductive Event
  | reply (p : Reply)
  | noBuffers

def addendOf (r : Rts) : ℤ := if r.rtt < 8 * 50000 then r.rtt / 8 else 50000

/-- The state in which `update_interval` is called. -/
def atUpdate (r : Rts) : Event → Option Rts
  | .reply p =>
      let r := countReply r p
      (sampleOf r p).map (addTrip { r with optLatency := (triptime r.optLatency p).2 })
  | .noBuffers => some { r with rttAddend := i32 (r.rttAddend + addendOf r) }

def step (r : Rts) : Event → Rts
  | .reply p => (gatherStatistics r p).1
  | .noBuffers => slowDown r

/-- Every event of a run is as `P` says of it and of the state that it finds. -/
def Along (P : Rts → Event → Prop) : Rts → List Event → Prop
  | _, [] => True
  | r, e :: es => P r e ∧ Along P (step r e) es

end Code

section Tempo

/-- The fields that the pace depends on. -/
structure Tempo where
  uid : ℤ
  interval : ℤ
  rtt : ℤ
  rttAddend : ℤ
  optAdaptive : Bool

def tempo (r : Rts) : Tempo := ⟨r.uid, r.interval, r.rtt, r.rttAddend, r.optAdaptive⟩

theorem tempo_countReply (r : Rts) (p : Reply) : tempo (countReply r p) = tempo r := by
  rw [countReply_frame]
  rfl

theorem sampleOf_countReply (r : Rts) (p : Reply) : sampleOf (countReply r p) p = sampleOf r p := by
  rw [countReply_frame]
  rfl

theorem tempo_settleReply (r : Rts) (p : Reply) : tempo (settleReply r p).1 = tempo r := by
  unfold settleReply
  split_ifs <;> rfl

theorem tempo_recordTrip {r : Rts} (h : r.optAdaptive = true) (p : Reply) :
    tempo (recordTrip r p) =
      (((sampleOf r p).map
        (addTrip { r with optLatency := (triptime r.optLatency p).2 })).map
          updateInterval).elim (tempo r) tempo := by
  unfold recordTrip sampleOf
  dsimp only
  by_cases htimed : r.timing = true ∧ p.cc ≥ 8 + timevalSize
  · rw [if_pos htimed]
    by_cases hdamaged : p.csfailed = true
    · rw [if_pos hdamaged, if_neg fun hall => by simp [hdamaged] at hall]
      rfl
    · rw [if_neg hdamaged, if_pos h, if_pos ⟨htimed.1, htimed.2, Bool.not_eq_true _ ▸ hdamaged⟩]
      rfl
  · rw [if_neg htimed, if_neg fun hall => htimed ⟨hall.1, hall.2.1⟩]
    rfl

/-- Between two updates the pace stays. -/
theorem tempo_step {r : Rts} (h : r.optAdaptive = true) (e : Event) :
    tempo (step r e) = ((atUpdate r e).map updateInterval).elim (tempo r) tempo := by
  cases e with
  | noBuffers =>
      change tempo (slowDown r) = _
      unfold slowDown
      dsimp only
      rw [if_pos h]
      rfl
  | reply p =>
      have hcount := tempo_countReply r p
      have hadaptive : (countReply r p).optAdaptive = true :=
        (congrArg Tempo.optAdaptive hcount).trans h
      change tempo (settleReply (recordTrip (countReply r p) p) p).1 = _
      rw [tempo_settleReply, tempo_recordTrip hadaptive, hcount]
      rfl

end Tempo

section Sums

/-- The estimate of the trip time in microseconds that the interval is made from. -/
def estimate (rtt interval : ℤ) : ℤ := if rtt ≠ 0 then rtt / 8 else 1000 * interval

/-- The integer before the division. -/
def demand (r : Rts) : ℤ := estimate r.rtt r.interval + r.rttAddend + 500

/-- The interval that is meant. -/
def meantInterval (r : Rts) : ℤ :=
  if r.uid ≠ 0 ∧ demand r / 1000 < minUserIntervalMs then minUserIntervalMs else demand r / 1000

/-- The event leaves an interval that is not negative, and an update computes the one that is
meant without overflow. -/
def Sane (r : Rts) (e : Event) : Prop :=
  0 ≤ (step r e).interval ∧ ∀ r₁ ∈ atUpdate r e, (checkedUpdate r₁).isSome = true ∧
    (step r e).interval = meantInterval r₁ ∧
    ((step r e).uid ≠ 0 → minUserIntervalMs ≤ (step r e).interval)

/-- The moving average with one more trip time. -/
def nextRtt (rtt t : ℤ) : ℤ := if rtt = 0 then 8 * t else rtt - rtt / 8 + t

/-- The sum that the event asks for fits into `int`. -/
def Fits (r : Rts) : Event → Prop
  | .reply p => ∀ t ∈ sampleOf r p,
      estimate (nextRtt r.rtt t) r.interval + r.rttAddend + 500 ≤ intMax
  | .noBuffers => estimate r.rtt r.interval + (r.rttAddend + addendOf r) + 500 ≤ intMax

/-- The largest trip time is 2147 seconds and 999999 microseconds. -/
def maxTrip : ℤ := 2147999999

structure Ready (t : Tempo) : Prop where
  adaptive : t.optAdaptive = true
  interval : 0 ≤ t.interval
  user : t.uid ≠ 0 → minUserIntervalMs ≤ t.interval
  rtt : 0 ≤ t.rtt ∧ t.rtt ≤ 8 * maxTrip
  addend : 0 ≤ t.rttAddend ∧ t.rttAddend ≤ intMax
  start : t.rtt = 0 → t.rttAddend = 0

/-- Between two updates the addend still fits beside the average. -/
structure Steady (t : Tempo) : Prop extends Ready t where
  room : t.rttAddend = 0 ∨ t.rtt / 8 + t.rttAddend + 500 ≤ intMax

theorem Ready.demand_nonneg {r : Rts} (h : Ready (tempo r)) : 500 ≤ demand r := by
  have hinterval : 0 ≤ r.interval := h.interval
  have hrtt : 0 ≤ r.rtt := h.rtt.1
  have haddend : 0 ≤ r.rttAddend := h.addend.1
  unfold demand estimate
  split_ifs <;> omega

/-- The sum fits: the update computes the interval that is meant. -/
theorem checkedUpdate_fits {r : Rts} (h : Ready (tempo r)) (hfit : demand r ≤ intMax) :
    checkedUpdate r = some { r with interval := meantInterval r } := by
  have hint : intMax = 2147483647 := rfl
  have hinterval : 0 ≤ r.interval := h.interval
  have hrtt : 0 ≤ r.rtt := h.rtt.1
  have haddend : 0 ≤ r.rttAddend := h.addend.1
  have hest : checkedEst r = some (estimate r.rtt r.interval) := by
    unfold demand at hfit
    unfold checkedEst
    unfold estimate at hfit ⊢
    split_ifs at hfit ⊢
    · congr 1
      unfold i32
      omega
    · rw [mul_comm, fitInt_of_fits ⟨by omega, by omega⟩]
  have hest0 : 0 ≤ estimate r.rtt r.interval := by
    unfold estimate
    split_ifs <;> omega
  have hdemand : demand r = estimate r.rtt r.interval + r.rttAddend + 500 := rfl
  rw [checkedUpdate, hest, Option.bind_eq_bind, Option.bind_some,
    fitInt_of_fits ⟨by omega, by omega⟩, Option.bind_some, fitInt_of_fits ⟨by omega, by omega⟩,
    Option.bind_some, ← hdemand,
    Int.tdiv_eq_ediv_of_nonneg (by omega)]
  rfl

/-- The sum does not fit: the update overflows, or the average wraps to a negative estimate. -/
theorem checkedUpdate_exceeds {r r' : Rts} (h : Ready (tempo r)) (hbig : intMax < demand r)
    (hr : checkedUpdate r = some r') : r'.interval ≠ meantInterval r := by
  have hint : intMax = 2147483647 := rfl
  have htrip : maxTrip = 2147999999 := rfl
  have hmin : minUserIntervalMs = 2 := rfl
  have hrtt : 0 ≤ r.rtt ∧ r.rtt ≤ 8 * maxTrip := h.rtt
  have haddend : 0 ≤ r.rttAddend ∧ r.rttAddend ≤ intMax := h.addend
  obtain ⟨est, hest, ⟨-, hsum⟩, rfl⟩ := checkedUpdate_cases hr
  have hmeant : meantInterval r = demand r / 1000 := by
    unfold meantInterval
    exact if_neg fun hlow => by omega
  rw [hmeant]
  unfold checkedEst at hest
  unfold demand estimate at hbig ⊢
  dsimp only
  by_cases hzero : r.rtt = 0
  · -- the product of the interval is exact, so it is the sum that overflows
    rw [if_neg (not_not.mpr hzero)] at hest hbig
    obtain ⟨-, rfl⟩ := fitInt_eq_some.mp hest
    omega
  · rw [if_pos hzero] at hest hbig ⊢
    obtain rfl := Option.some.inj hest
    have hwrapped : i32 (r.rtt / 8) = r.rtt / 8 - 4294967296 := by
      unfold i32 at hsum ⊢
      omega
    have hsmall : (i32 (r.rtt / 8) + r.rttAddend + 500).tdiv 1000 ≤ 516 := by
      rcases le_or_gt 0 (i32 (r.rtt / 8) + r.rttAddend + 500) with hnonneg | hneg
      · rw [Int.tdiv_eq_ediv_of_nonneg hnonneg]
        omega
      · have hnonneg := Int.tdiv_nonneg (neg_nonneg.mpr hneg.le) (show (0 : ℤ) ≤ 1000 by decide)
        rw [Int.neg_tdiv] at hnonneg
        omega
    split_ifs <;> omega

/-- An update computes what is meant exactly if its sum fits. -/
theorem update_right_iff {r : Rts} (h : Ready (tempo r)) :
    (checkedUpdate r).isSome = true ∧ (updateInterval r).interval = meantInterval r ↔
      demand r ≤ intMax := by
  constructor
  · rintro ⟨hsome, hmeant⟩
    obtain ⟨r', hr'⟩ := Option.isSome_iff_exists.mp hsome
    rw [← checkedUpdate_eq hr'] at hmeant
    by_contra hbig
    exact checkedUpdate_exceeds h (by omega) hr' hmeant
  · intro hfit
    have hupdate := checkedUpdate_fits h hfit
    exact ⟨by rw [hupdate]; rfl, by rw [← checkedUpdate_eq hupdate]⟩

theorem steady_update {r : Rts} (h : Ready (tempo r)) (hfit : demand r ≤ intMax) :
    Steady (tempo (updateInterval r)) := by
  have hupdate := checkedUpdate_fits h hfit
  have hlow := h.demand_nonneg
  rw [← checkedUpdate_eq hupdate]
  have hinterval : 0 ≤ meantInterval r := by
    unfold meantInterval minUserIntervalMs
    split_ifs <;> omega
  have huser : r.uid ≠ 0 → minUserIntervalMs ≤ meantInterval r := by
    intro huid
    unfold meantInterval
    split_ifs with hclamp
    · exact le_rfl
    · exact not_lt.mp fun hlt => hclamp ⟨huid, hlt⟩
  refine ⟨⟨h.adaptive, hinterval, huser, h.rtt, h.addend, h.start⟩, ?_⟩
  by_cases hzero : r.rtt = 0
  · exact Or.inl (h.start hzero)
  · unfold demand estimate at hfit
    rw [if_pos hzero] at hfit
    exact Or.inr hfit

/-- The moving average cannot wrap. -/
theorem addTrip_rtt {r : Rts} {t : ℤ} (hrtt : 0 ≤ r.rtt ∧ r.rtt ≤ 8 * maxTrip)
    (ht : 0 ≤ t ∧ t ≤ maxTrip) :
    (addTrip r t).rtt = nextRtt r.rtt t ∧
      (0 ≤ nextRtt r.rtt t ∧ nextRtt r.rtt t ≤ 8 * maxTrip) ∧
      (nextRtt r.rtt t = 0 → r.rtt = 0) := by
  have htrip : maxTrip = 2147999999 := rfl
  unfold addTrip nextRtt
  dsimp only
  split_ifs with hzero
  · exact ⟨by unfold u64; omega, by omega, fun _ => hzero⟩
  · exact ⟨by unfold u64; omega, by omega, by omega⟩

theorem addendOf_bounds {r : Rts} (h : 0 ≤ r.rtt) :
    0 ≤ addendOf r ∧ addendOf r ≤ r.rtt / 8 ∧ addendOf r ≤ 50000 := by
  unfold addendOf
  split_ifs <;> omega

theorem demand_of_tempo {r r₁ : Rts} {rtt : ℤ} (h : tempo r₁ = { tempo r with rtt := rtt }) :
    demand r₁ = estimate rtt r.interval + r.rttAddend + 500 := by
  have hrtt : r₁.rtt = rtt := congrArg Tempo.rtt h
  have hinterval : r₁.interval = r.interval := congrArg Tempo.interval h
  have haddend : r₁.rttAddend = r.rttAddend := congrArg Tempo.rttAddend h
  rw [demand, hrtt, hinterval, haddend]

theorem fits_reply {r : Rts} {p : Reply} {t : ℤ} (ht : sampleOf r p = some t) :
    Fits r (.reply p) ↔ estimate (nextRtt r.rtt t) r.interval + r.rttAddend + 500 ≤ intMax := by
  constructor
  · exact fun hall => hall t ht
  · intro hfit t' ht'
    rw [ht, Option.mem_some] at ht'
    rwa [← ht']

theorem sampleOf_range {r : Rts} {p : Reply} {t : ℤ} (ht : sampleOf r p = some t) :
    0 ≤ t ∧ t ≤ maxTrip := by
  unfold sampleOf at ht
  split_ifs at ht
  obtain rfl := Option.some.inj ht
  exact triptime_range r.optLatency p

/-- A failed probe raises the addend by less than the room that is left. -/
theorem ready_noBuffers {r : Rts} (h : Steady (tempo r)) :
    i32 (r.rttAddend + addendOf r) = r.rttAddend + addendOf r ∧
      Ready (tempo { r with rttAddend := r.rttAddend + addendOf r }) := by
  have hint : intMax = 2147483647 := rfl
  have haddend : 0 ≤ r.rttAddend := h.addend.1
  have hroom : r.rttAddend = 0 ∨ r.rtt / 8 + r.rttAddend + 500 ≤ intMax := h.room
  have hbounds := addendOf_bounds (show 0 ≤ r.rtt from h.rtt.1)
  have hmost : r.rttAddend + addendOf r ≤ intMax := by omega
  refine ⟨?_, h.adaptive, h.interval, h.user, h.rtt, ⟨?_, hmost⟩, fun hzero => ?_⟩
  · unfold i32
    omega
  · exact Int.add_nonneg haddend hbounds.1
  · have hstart : r.rttAddend = 0 := h.start hzero
    have hnone : r.rtt = 0 := hzero
    change r.rttAddend + addendOf r = 0
    omega

/-- The state of an update, and the sum that it computes. -/
theorem ready_atUpdate {r r₁ : Rts} {e : Event} (h : Steady (tempo r))
    (hr : atUpdate r e = some r₁) :
    Ready (tempo r₁) ∧ (Fits r e ↔ demand r₁ ≤ intMax) := by
  cases e with
  | noBuffers =>
      obtain rfl := Option.some.inj hr
      obtain ⟨hnarrow, hready⟩ := ready_noBuffers h
      rw [hnarrow]
      exact ⟨hready, Iff.rfl⟩
  | reply p =>
      change (sampleOf (countReply r p) p).map _ = some r₁ at hr
      rw [sampleOf_countReply, Option.map_eq_some_iff] at hr
      obtain ⟨t, ht, rfl⟩ := hr
      obtain ⟨hrtt, hbounds, hstart⟩ := addTrip_rtt (r := r) h.rtt (sampleOf_range ht)
      have htempo : tempo (addTrip { countReply r p with
          optLatency := (triptime (countReply r p).optLatency p).2 } t) =
          { tempo r with rtt := nextRtt r.rtt t } := by
        rw [← hrtt, countReply_frame]
        rfl
      rw [htempo, fits_reply ht, demand_of_tempo htempo]
      exact ⟨⟨h.adaptive, h.interval, h.user, hbounds, h.addend, fun hz => h.start (hstart hz)⟩,
        Iff.rfl⟩

end Sums

section Runs
variable {r : Rts} {e : Event}

theorem fits_of_idle (h : atUpdate r e = none) : Fits r e := by
  cases e with
  | noBuffers => cases h
  | reply p =>
      change (sampleOf (countReply r p) p).map _ = none at h
      rw [sampleOf_countReply, Option.map_eq_none_iff] at h
      intro t ht
      rw [h] at ht
      cases ht

theorem step_of_idle (h : Steady (tempo r)) (hidle : atUpdate r e = none) :
    tempo (step r e) = tempo r := by
  rw [tempo_step h.adaptive, hidle]
  rfl

theorem step_of_update {r₁ : Rts} (h : Steady (tempo r)) (hr : atUpdate r e = some r₁) :
    tempo (step r e) = tempo (updateInterval r₁) := by
  rw [tempo_step h.adaptive, hr]
  rfl

theorem steady_step (h : Steady (tempo r)) (hfit : Fits r e) : Steady (tempo (step r e)) := by
  cases hr : atUpdate r e with
  | none => rwa [step_of_idle h hr]
  | some r₁ =>
      obtain ⟨hready, hiff⟩ := ready_atUpdate h hr
      rw [step_of_update h hr]
      exact steady_update hready (hiff.mp hfit)

/-- An event is handled as it is meant exactly if the sum that it asks for fits. -/
theorem sane_iff_fits (h : Steady (tempo r)) : Sane r e ↔ Fits r e := by
  constructor
  · rintro ⟨-, hupdate⟩
    cases hr : atUpdate r e with
    | none => exact fits_of_idle hr
    | some r₁ =>
        obtain ⟨hready, hiff⟩ := ready_atUpdate h hr
        obtain ⟨hsome, hmeant, -⟩ := hupdate r₁ hr
        have hinterval : (step r e).interval = (updateInterval r₁).interval :=
          congrArg Tempo.interval (step_of_update h hr)
        rw [hiff, ← update_right_iff hready]
        exact ⟨hsome, hinterval ▸ hmeant⟩
  · intro hfit
    have hsteady := steady_step h hfit
    refine ⟨hsteady.interval, fun r₁ hr => ?_⟩
    obtain ⟨hready, hiff⟩ := ready_atUpdate h hr
    obtain ⟨hsome, hmeant⟩ := (update_right_iff hready).mpr (hiff.mp hfit)
    have hinterval : (step r e).interval = (updateInterval r₁).interval :=
      congrArg Tempo.interval (step_of_update h hr)
    exact ⟨hsome, hinterval.trans hmeant, hsteady.user⟩

theorem along_sane_iff (h : Steady (tempo r)) (es : List Event) :
    Along Sane r es ↔ Along Fits r es := by
  induction es generalizing r with
  | nil => exact Iff.rfl
  | cons e es ih =>
      rw [Along, Along, sane_iff_fits h]
      exact and_congr_right fun hfit => ih (steady_step h hfit)

/-- `ping -A` behind the checks of `setup`, before the first reply. -/
structure Fresh (r : Rts) : Prop extends Admitted r where
  adaptive : r.optAdaptive = true
  rtt : r.rtt = 0
  addend : r.rttAddend = 0
  user : r.uid ≠ 0 → minUserIntervalMs ≤ r.interval

theorem Fresh.steady (h : Fresh r) : Steady (tempo r) where
  adaptive := h.adaptive
  interval := h.nonneg
  user := h.user
  rtt := by
    change 0 ≤ r.rtt ∧ r.rtt ≤ 8 * maxTrip
    rw [h.rtt]
    decide
  addend := by
    change 0 ≤ r.rttAddend ∧ r.rttAddend ≤ intMax
    rw [h.addend]
    decide
  start := fun _ => h.addend
  room := Or.inl h.addend

/-- A run keeps its pace exactly if every sum along it fits into `int`. -/
theorem pacing_sane_iff (h : Fresh r) (es : List Event) : Along Sane r es ↔ Along Fits r es :=
  along_sane_iff h.steady es

/-- One undamaged reply after `t` microseconds, `t` below a second. -/
def quickReply (t : ℤ) : Reply where
  cc := 64
  seq := 1
  csfailed := false
  tv := ⟨1, t⟩
  sent := ⟨1, 0⟩

def rootRun : Rts := { timing := true, optAdaptive := true }

theorem pacing_sane_quick :
    Along Sane rootRun [.reply (quickReply 1500), .noBuffers] ↔
      Along Fits rootRun [.reply (quickReply 1500), .noBuffers] :=
  pacing_sane_iff (r := rootRun)
    ⟨⟨by decide, by decide, by decide⟩, rfl, rfl, rfl, fun h => absurd rfl h⟩ _

/-- The largest trip time that is admitted makes the interval of root negative. -/
theorem slow_reply_insane : ¬ ∀ (r : Rts) (es : List Event), Fresh r → Along Sane r es := by
  intro h
  have hsane := h rootRun [.reply { quickReply 0 with tv := ⟨2148, 999999⟩ }]
    ⟨⟨by decide, by decide, by decide⟩, rfl, rfl, rfl, fun h => absurd rfl h⟩
  exact absurd hsane.1.1 (by decide +kernel)

end Runs

end Iputils.AdaptivePacing
