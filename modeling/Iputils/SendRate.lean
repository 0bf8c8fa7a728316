import Iputils.Pinger
import Mathlib.Logic.Relation
import Mathlib.Tactic.Ring

/-!
# The send rate over whole runs

A session is a run of `pinger` calls with clock readings that never go back, and
with anything that leaves the pace alone in between. The bucket is an amortised
account: every counted probe costs `interval` tokens, and a call earns at most
the milliseconds since the previous one, plus one for the rounding of the
nanoseconds. Times are kept in nanoseconds, so that elapsed times are exact.
-/
set_option autoImplicit false

namespace Iputils.SendRate
open MachineInt PingState AckWindow Pinger

def nanos (t : Timespec) : ℤ := t.tvSec * 1000000000 + t.tvNsec

/-- A normalised clock reading that is not before `t`. -/
structure Later (t now : Timespec) : Prop where
  sec : 0 ≤ now.tvSec
  nsec : 0 ≤ now.tvNsec
  nsec_lt : now.tvNsec < 1000000000
  le : nanos t ≤ nanos now

/-- The state of `pinger` with the history the bound speaks of: the latest clock
reading, the readings of the first and the last call that reached `send_probe`,
and the number of such calls. -/
structure Session where
  state : PingerState
  clock : Timespec := {}
  first : Timespec := {}
  last : Timespec := {}
  calls : ℤ := 0

inductive Step : Session → Session → Prop
  | wait (s : Session) (now : Timespec) (next : ℤ) (hl : Later s.clock now)
      (ha : openGate s.state now = .ok (.wait next)) : Step s { s with clock := now }
  | send (s : Session) (now : Timespec) (t u : PingerState) (as : List Attempt) (next : ℤ)
      (hl : Later s.clock now) (ha : openGate s.state now = .ok (.send t))
      (ht : transmit t as = .ok (u, next)) :
      Step s {
        state := u
        clock := now
        first := if s.calls = 0 then now else s.first
        last := now
        calls := s.calls + 1 }
  | other (s : Session) (r : Rts) (hr : pace r = pace s.state.rts) :
      Step s { s with state := { s.state with rts := r } }

/-- The options with which `setup` lets a non-adaptive run begin. -/
structure Config (r : Rts) : Prop where
  interval_pos : 0 < r.interval
  preload_pos : 1 ≤ r.preload
  bound : r.interval < intMax.tdiv r.preload
  fixed : r.optAdaptive = false
  fresh : r.ntransmitted = 0
  unset : r.curTime = {}

def Session.start (r : Rts) : Session := { state := { rts := r } }

theorem Config.capacity_le {r : Rts} (h : Config r) : r.interval * r.preload ≤ intMax := by
  have hp : 0 < r.preload := by linarith [h.preload_pos]
  have hb := h.bound
  rw [Int.tdiv_eq_ediv_of_nonneg (by decide)] at hb
  calc r.interval * r.preload ≤ intMax / r.preload * r.preload :=
        Int.mul_le_mul_of_nonneg_right hb.le hp.le
    _ ≤ intMax := Int.ediv_mul_le intMax hp.ne'

/-- The two truncations never lose the sign and round up by less than one. -/
theorem earned_bounds {t now : Timespec} (h₀ : 0 ≤ t.tvNsec ∧ t.tvNsec < 1000000000)
    (h₁ : 0 ≤ now.tvNsec ∧ now.tvNsec < 1000000000) (hle : nanos t ≤ nanos now) :
    0 ≤ earned t now ∧ 1000000 * earned t now ≤ nanos now - nanos t + 1000000 := by
  obtain ⟨ht₀, ht₁⟩ := h₀
  obtain ⟨hn₀, hn₁⟩ := h₁
  unfold nanos at hle ⊢
  unfold earned
  rcases le_or_gt 0 (now.tvNsec - t.tvNsec) with hpos | hneg
  · rw [Int.tdiv_eq_ediv_of_nonneg hpos]
    omega
  · have hq : (now.tvNsec - t.tvNsec).tdiv 1000000 = -((t.tvNsec - now.tvNsec) / 1000000) := by
      rw [← neg_sub, Int.neg_tdiv, Int.tdiv_eq_ediv_of_nonneg (by omega)]
    rw [hq]
    omega

theorem grant_send {s t : PingerState} {now : Timespec} {n : ℤ}
    (h : grant s now n = .ok (.send t)) :
    pace t.rts = { pace s.rts with curTime := now } ∧ t.tokens = n := by
  have hv := checkInt_bind_ok h
  obtain rfl := Gate.send.inj (Except.ok.inj hv)
  exact ⟨rfl, rfl⟩

theorem curTime_unset {r : Rts} : r.curTime = {} ↔ r.curTime.tvSec = 0 ∧ r.curTime.tvNsec = 0 := by
  cases r.curTime
  simp

/-- What the gate does before the first probe and after it. -/
theorem openGate_send {s t : PingerState} {now : Timespec} (h : openGate s now = .ok (.send t)) :
    pace t.rts = { pace s.rts with curTime := now } ∧
    (s.rts.curTime = {} ∧ t.tokens = s.rts.interval * (s.rts.preload - 1) ∨
     s.rts.curTime ≠ {} ∧ t.tokens = refill s now - s.rts.interval ∧ 0 ≤ t.tokens) := by
  simp only [openGate] at h
  split_ifs at h with hx hz hf hlow
  · simp at h
  · obtain ⟨hp, ht⟩ := grant_send h
    exact ⟨hp, Or.inl ⟨curTime_unset.mpr hz, ht⟩⟩
  · simp at h
  · simp at h
  · obtain ⟨hp, ht⟩ := grant_send h
    exact ⟨hp, Or.inr ⟨fun hc => hz (curTime_unset.mp hc), ht, by omega⟩⟩

theorem refill_le (s : PingerState) (now : Timespec) :
    refill s now ≤ s.rts.interval * s.rts.preload ∧
    refill s now ≤ earned s.rts.curTime now + s.tokens := by
  simp only [refill]
  split_ifs <;> omega

theorem grant_ne_overflow {s : PingerState} {now : Timespec} {n : ℤ} (h₀ : 0 ≤ n)
    (h₁ : n ≤ intMax) : grant s now n ≠ .error .overflow :=
  checkInt_bind_ne (by omega) h₁ (by simp [pure, Except.pure])

theorem openGate_ne_overflow {s : PingerState} {now : Timespec} (h₀ : 0 ≤ s.rts.interval)
    (h₁ : 1 ≤ s.rts.preload) (h₂ : s.rts.interval * s.rts.preload ≤ intMax) :
    openGate s now ≠ .error .overflow := by
  have hfirst : 0 ≤ s.rts.interval * (s.rts.preload - 1) := mul_nonneg h₀ (by omega)
  have hexpand : s.rts.interval * (s.rts.preload - 1) =
      s.rts.interval * s.rts.preload - s.rts.interval := by ring
  have hr := refill_le s now
  simp only [openGate]
  split_ifs with hx hz hf hlow
  · simp
  · exact grant_ne_overflow hfirst (by omega)
  · simp
  · simp
  · exact grant_ne_overflow (by omega) (by omega)

/-- The static balance is a balance of this bucket. -/
structure Balanced (r : Rts) (s : Session) : Prop where
  interval : s.state.rts.interval = r.interval
  preload : s.state.rts.preload = r.preload
  fixed : s.state.rts.optAdaptive = false
  nonneg : 0 ≤ s.state.tokens
  le : s.state.tokens ≤ r.interval * r.preload

/-- After a call to `send_probe` the last reading is in `cur_time`, and what the
counted probes have cost and the tokens still in the bucket have been paid for. -/
structure Paid (r : Rts) (s : Session) : Prop where
  idle : s.calls = 0 → s.state.rts.ntransmitted = 0 ∧ s.state.rts.curTime = {} ∧ s.last = s.first
  calls : 0 ≤ s.calls
  last : 0 < s.calls → s.state.rts.curTime = s.last ∧ nanos s.last ≤ nanos s.clock ∧
    nanos s.first ≤ nanos s.last ∧ 0 ≤ s.last.tvNsec ∧ s.last.tvNsec < 1000000000
  budget : 0 < s.calls → 0 < nanos s.first →
    1000000 * (r.interval * s.state.rts.ntransmitted + s.state.tokens - r.interval * r.preload) ≤
      nanos s.last - nanos s.first + 1000000 * (s.calls - 1)

theorem balanced_start {r : Rts} (h : Config r) : Balanced r (Session.start r) :=
  ⟨rfl, rfl, h.fixed, le_rfl,
    mul_nonneg h.interval_pos.le (by linarith [h.preload_pos])⟩

theorem paid_start {r : Rts} (h : Config r) : Paid r (Session.start r) :=
  ⟨fun _ => ⟨h.fresh, h.unset, rfl⟩, le_rfl, fun hc => absurd hc (lt_irrefl 0),
    fun hc => absurd hc (lt_irrefl 0)⟩

/-- An admitted call has room for the refund of its own interval. -/
theorem Balanced.granted {r : Rts} {s : Session} (hc : Config r) (hb : Balanced r s)
    {now : Timespec} {t : PingerState} (h : openGate s.state now = .ok (.send t)) :
    t.rts.interval = r.interval ∧ t.rts.preload = r.preload ∧ t.rts.optAdaptive = false ∧
    t.rts.ntransmitted = s.state.rts.ntransmitted ∧ t.rts.curTime = now ∧
    0 ≤ t.tokens ∧ t.tokens + r.interval ≤ r.interval * r.preload := by
  obtain ⟨hp, ht⟩ := openGate_send h
  have hi : t.rts.interval = s.state.rts.interval := congrArg Pace.interval hp
  have hl : t.rts.preload = s.state.rts.preload := congrArg Pace.preload hp
  have ha : t.rts.optAdaptive = s.state.rts.optAdaptive := congrArg Pace.adaptive hp
  refine ⟨hi.trans hb.interval, hl.trans hb.preload, ha.trans hb.fixed,
    congrArg Pace.sent hp, congrArg Pace.curTime hp, ?_⟩
  rw [hb.interval, hb.preload] at ht
  rcases ht with ⟨-, ht⟩ | ⟨-, ht, hnonneg⟩
  · have hnonneg : 0 ≤ r.interval * (r.preload - 1) :=
      mul_nonneg hc.interval_pos.le (by linarith [hc.preload_pos])
    have hexpand : r.interval * (r.preload - 1) = r.interval * r.preload - r.interval := by ring
    omega
  · have hr := (refill_le s.state now).1
    rw [hb.interval, hb.preload] at hr
    omega

theorem balanced_step {r : Rts} (hc : Config r) {s t : Session} (hb : Balanced r s)
    (h : Step s t) : Balanced r t := by
  cases h with
  | wait now next hl ha => exact ⟨hb.interval, hb.preload, hb.fixed, hb.nonneg, hb.le⟩
  | other r' hr =>
      exact ⟨(congrArg Pace.interval hr).trans hb.interval,
        (congrArg Pace.preload hr).trans hb.preload,
        (congrArg Pace.adaptive hr).trans hb.fixed, hb.nonneg, hb.le⟩
  | send now t u as next hl ha ht =>
      obtain ⟨hi, hp, hna, -, -, h₀, h₁⟩ := hb.granted hc ha
      have hpos := hc.interval_pos
      rcases transmit_spent hna ht with ⟨hq, hk⟩ | ⟨hq, hk⟩
      · refine ⟨(congrArg Pace.interval hq).trans hi, (congrArg Pace.preload hq).trans hp,
          (congrArg Pace.adaptive hq).trans hna, ?_, ?_⟩ <;> dsimp only <;> omega
      · refine ⟨(congrArg Pace.interval hq).trans hi, (congrArg Pace.preload hq).trans hp,
          (congrArg Pace.adaptive hq).trans hna, ?_, ?_⟩ <;> dsimp only <;> omega

/-- A call costs at most one interval on top of the tokens it leaves. -/
theorem spent_cost {s t : PingerState} (h : Spent s t) (h₀ : 0 ≤ s.tokens)
    (h₁ : 0 ≤ s.rts.interval) :
    s.rts.interval * t.rts.ntransmitted + t.tokens ≤
      s.rts.interval * s.rts.ntransmitted + s.tokens + s.rts.interval := by
  rcases h with ⟨hp, ht⟩ | ⟨hp, ht⟩
  · have hn : t.rts.ntransmitted = s.rts.ntransmitted + 1 := congrArg Pace.sent hp
    rw [hn, mul_add, mul_one]
    omega
  · have hn : t.rts.ntransmitted = s.rts.ntransmitted := congrArg Pace.sent hp
    rw [hn]
    omega

theorem spent_curTime {s t : PingerState} (h : Spent s t) : t.rts.curTime = s.rts.curTime := by
  rcases h with ⟨hp, -⟩ | ⟨hp, -⟩ <;> exact congrArg Pace.curTime hp

theorem paid_step {r : Rts} (hc : Config r) {s t : Session} (hb : Balanced r s)
    (hp : Paid r s) (h : Step s t) : Paid r t := by
  cases h with
  | wait now next hl ha =>
      refine ⟨hp.idle, hp.calls, fun hpos => ?_, hp.budget⟩
      obtain ⟨h₁, h₂, h₃⟩ := hp.last hpos
      exact ⟨h₁, h₂.trans hl.le, h₃⟩
  | other r' hr =>
      have hn : r'.ntransmitted = s.state.rts.ntransmitted := congrArg Pace.sent hr
      have ht : r'.curTime = s.state.rts.curTime := congrArg Pace.curTime hr
      refine ⟨?_, hp.calls, ?_, ?_⟩
      · simpa only [hn, ht] using hp.idle
      · simpa only [ht] using hp.last
      · simpa only [hn] using hp.budget
  | send now t u as next hl ha ht =>
      obtain ⟨hi, -, hna, hn, hcur, h₀, h₁⟩ := hb.granted hc ha
      have hspent := transmit_spent hna ht
      have hcost := spent_cost hspent h₀ (by rw [hi]; exact hc.interval_pos.le)
      rw [hi, hn] at hcost
      have hcalls := hp.calls
      refine ⟨fun h => absurd h (by dsimp only; omega), by dsimp only; omega, fun _ => ?_,
        fun _ hfirst => ?_⟩
      · refine ⟨(spent_curTime hspent).trans hcur, le_rfl, ?_, hl.nsec, hl.nsec_lt⟩
        dsimp only
        split_ifs with hz
        · exact le_rfl
        · obtain ⟨-, h₂, h₃, -⟩ := hp.last (by omega)
          exact h₃.trans (h₂.trans hl.le)
      · dsimp only at hfirst ⊢
        split_ifs at hfirst ⊢ with hz
        · -- The first call: the bucket starts full, less the probe being sent.
          rw [(hp.idle hz).1, mul_zero] at hcost
          rw [hz]
          omega
        · have hpos : 0 < s.calls := by omega
          obtain ⟨h₂, h₃, h₄, h₅⟩ := hp.last hpos
          have hset : s.state.rts.curTime ≠ {} := by
            intro hzero
            rw [← h₂, hzero] at h₄
            exact absurd h₄ (not_le.mpr hfirst)
          have hbudget := hp.budget hpos hfirst
          have hearn := (earned_bounds h₅ ⟨hl.nsec, hl.nsec_lt⟩ (h₃.trans hl.le)).2
          rcases (openGate_send ha).2 with ⟨hzero, -⟩ | ⟨-, htok, -⟩
          · exact absurd hzero hset
          · have hfill := (refill_le s.state now).2
            rw [h₂] at hfill
            rw [hb.interval] at htok
            omega

theorem balanced_reachable {r : Rts} (hc : Config r) {s : Session}
    (h : Relation.ReflTransGen Step (Session.start r) s) : Balanced r s ∧ Paid r s := by
  induction h with
  | refl => exact ⟨balanced_start hc, paid_start hc⟩
  | tail _ hs ih => exact ⟨balanced_step hc ih.1 hs, paid_step hc ih.1 ih.2 hs⟩

/-- In every reachable state the balance is within its bounds and no call can
overflow; unless the clock read zero when the first probe went out, `n` counted
probes need `interval * (n - preload)` milliseconds, give or take one for each call. -/
theorem send_rate_bound {r : Rts} (hc : Config r) {s : Session}
    (h : Relation.ReflTransGen Step (Session.start r) s) :
    (0 ≤ s.state.tokens ∧ s.state.tokens ≤ r.interval * r.preload) ∧
    (∀ (now : Timespec) (as : List Attempt), pinger s.state now as ≠ .error .overflow) ∧
    (s.calls = 0 ∨ 0 < nanos s.first →
      1000000 * (r.interval * (s.state.rts.ntransmitted - r.preload)) ≤
        nanos s.last - nanos s.first + 1000000 * s.calls) := by
  obtain ⟨hb, hp⟩ := balanced_reachable hc h
  have hcap := hc.capacity_le
  have hpos := hc.interval_pos
  refine ⟨⟨hb.nonneg, hb.le⟩, ?_, ?_⟩
  · intro now as
    have hgate : openGate s.state now ≠ .error .overflow :=
      openGate_ne_overflow (by rw [hb.interval]; exact hpos.le) (by rw [hb.preload]; exact hc.preload_pos)
        (by rw [hb.interval, hb.preload]; exact hcap)
    unfold pinger
    cases ha : openGate s.state now with
    | error e =>
        intro he
        exact hgate (ha.trans (by simpa [bind, Except.bind] using he))
    | ok g =>
        cases g with
        | wait next => simp [bind, Except.bind, pure, Except.pure]
        | send t =>
            obtain ⟨hi, -, hna, -, -, h₀, h₁⟩ := hb.granted hc ha
            exact transmit_ne_overflow hna h₀ (by omega) (by omega) as
  · intro hstart
    rw [mul_sub]
    rcases lt_or_eq_of_le hp.calls with hcalls | hcalls
    · have hbudget := hp.budget hcalls (hstart.resolve_left (by omega))
      have htok := hb.nonneg
      omega
    · have hfull : 0 ≤ r.interval * r.preload := hb.nonneg.trans hb.le
      obtain ⟨hn, -, hlast⟩ := hp.idle hcalls.symm
      rw [hn, hlast, ← hcalls, mul_zero]
      omega

/-- The session after a call that reaches `send_probe` and succeeds at once. -/
def sendNow (s : Session) (now : Timespec) (tokens : ℤ) : Session where
  state :=
    { rts := advanceNtransmitted (probeState { s.state.rts with curTime := now } [])
      tokens := tokens }
  clock := now
  first := if s.calls = 0 then now else s.first
  last := now
  calls := s.calls + 1

theorem step_sendNow {s : Session} {now : Timespec} {n : ℤ} (hl : Later s.clock now)
    (ha : openGate s.state now = grant s.state now n) (h₀ : 0 ≤ n) (h₁ : n ≤ intMax)
    (hi : checkInt (s.state.rts.interval - n) = .ok (s.state.rts.interval - n)) :
    Step s (sendNow s now n) := by
  have hg : grant s.state now n =
      .ok (.send { s.state with rts := { s.state.rts with curTime := now }, tokens := n }) := by
    unfold grant
    rw [checkInt_of_mem (by omega) h₁]
    rfl
  set t : PingerState :=
    { s.state with rts := { s.state.rts with curTime := now }, tokens := n } with ht
  have hs : sendOnce t ⟨[], .sent, .unread false⟩ =
      .ok (.done (sendNow s now n).state (s.state.rts.interval - n)) := by
    change (checkInt (s.state.rts.interval - n) >>= _) = _
    rw [hi]
    rfl
  refine Step.send s now t (sendNow s now n).state [⟨[], .sent, .unread false⟩]
    (s.state.rts.interval - n) hl
    (ha.trans hg) ?_
  simp only [transmit, hs]

/-- Two probes of a default run, the first one second after the machine came up. -/
def twoProbes : Session := sendNow (sendNow (Session.start {}) ⟨1, 0⟩ 0) ⟨2, 0⟩ 0

theorem send_rate_bound_two_probes :
    Config {} ∧ Relation.ReflTransGen Step (Session.start {}) twoProbes ∧
    1000000 * (1000 * (twoProbes.state.rts.ntransmitted - 1)) ≤
      nanos ⟨2, 0⟩ - nanos ⟨1, 0⟩ + 1000000 * 2 := by
  have hc : Config {} := ⟨by decide, by decide, by decide, rfl, rfl, rfl⟩
  have h₁ : Step (Session.start {}) (sendNow (Session.start {}) ⟨1, 0⟩ 0) :=
    step_sendNow ⟨by decide, by decide, by decide, by decide⟩ rfl (by decide) (by decide) rfl
  have h₂ : Step (sendNow (Session.start {}) ⟨1, 0⟩ 0) twoProbes :=
    step_sendNow ⟨by decide, by decide, by decide, by decide⟩ rfl (by decide) (by decide) rfl
  have hrun : Relation.ReflTransGen Step (Session.start {}) twoProbes :=
    (Relation.ReflTransGen.single h₁).tail h₂
  exact ⟨hc, hrun, (send_rate_bound hc hrun).2.2 (Or.inr (by decide))⟩

/-- When the clock reads zero for the first probe, the second one is let through
as if it were the first. -/
theorem zero_clock_exceeds_rate :
    ∃ (r : Rts) (s : Session), Config r ∧ Relation.ReflTransGen Step (Session.start r) s ∧
      ¬ 1000000 * (r.interval * (s.state.rts.ntransmitted - r.preload)) ≤
        nanos s.last - nanos s.first + 1000000 * s.calls := by
  have hc : Config {} := ⟨by decide, by decide, by decide, rfl, rfl, rfl⟩
  refine ⟨{}, sendNow (sendNow (Session.start {}) ⟨0, 0⟩ 0) ⟨0, 1⟩ 0, hc,
    .tail (.single (step_sendNow ?_ rfl ?_ ?_ rfl)) (step_sendNow ?_ rfl ?_ ?_ rfl), ?_⟩
  · exact ⟨by decide, by decide, by decide, by decide⟩
  · decide
  · decide
  · exact ⟨by decide, by decide, by decide, by decide⟩
  · decide
  · decide
  · decide

end Iputils.SendRate
