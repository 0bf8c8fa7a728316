import Mathlib.Data.List.Forall2
import Iputils.ClockdiffMeasure

/-!
# The clock offset that a measurement finds

The remote clock is ahead of the local one by `d` milliseconds, and the reply to
a request took `a` milliseconds on the way out and `b` on the way back. From the
three times of a reply the code recovers `d + a` and `b - d` in spite of the
wrap at midnight. The invariant of the message loop relates the minima to the
delays of the replies counted so far. A round trip below `RANGE` overrides both
minima, which is sound because such a reply has no delay in either direction.
-/
set_option autoImplicit false

namespace Iputils.ClockdiffOffset
open MachineInt ByteBuffer PingState ClockdiffMeasure

/-- The three times of a counted reply. -/
structure Sample where
  sendtime : ℤ
  histime : ℤ
  recvtime : ℤ
deriving Repr, DecidableEq

structure Delay where
  a : ℤ
  b : ℤ
deriving Repr, DecidableEq

/-- The delays are real, and no clock is half a day off. -/
structure Plausible (d : ℤ) (p : Delay) : Prop where
  a_nonneg : 0 ≤ p.a
  b_nonneg : 0 ≤ p.b
  out_ge : biasn ≤ d + p.a
  out_le : d + p.a ≤ biasp
  back_ge : biasn ≤ p.b - d
  back_le : p.b - d ≤ biasp

/-- The times of the reply are those of a message with these delays. -/
structure Consistent (d : ℤ) (x : Sample) (p : Delay) : Prop extends Plausible d p where
  his_nonneg : 0 ≤ x.histime
  his_lt : x.histime < modulo
  remote : x.histime % modulo = (x.sendtime + p.a + d) % modulo
  recv : x.recvtime = x.sendtime + p.a + p.b
  recv_lt : x.recvtime < modulo

/-- One wrap brings a difference of two times of day to its representative
within half a day. -/
theorem wrapDay_eq {x y : ℤ} (hmod : x % modulo = y % modulo) (hx₀ : -modulo < x)
    (hx₁ : x < modulo) (hy₀ : biasn ≤ y) (hy₁ : y ≤ biasp) : wrapDay x = y := by
  unfold wrapDay biasn biasp modulo at *
  split_ifs <;> omega

theorem Consistent.deltas {d : ℤ} {x : Sample} {p : Delay} (h : Consistent d x p)
    (hs : 0 ≤ x.sendtime) :
    wrapDay (x.histime - x.sendtime) = d + p.a ∧ wrapDay (x.recvtime - x.histime) = p.b - d := by
  have h₁ := h.his_nonneg
  have h₂ := h.his_lt
  have h₃ := h.remote
  have h₄ := h.recv
  have h₅ := h.recv_lt
  have h₆ := h.a_nonneg
  have h₇ := h.b_nonneg
  unfold modulo at h₂ h₃ h₅
  constructor
  · refine wrapDay_eq ?_ ?_ ?_ h.out_ge h.out_le <;> unfold modulo <;> omega
  · refine wrapDay_eq ?_ ?_ ?_ h.back_ge h.back_le <;> unfold modulo <;> omega

theorem forall₂_append_left {α β : Type*} {R : α → β → Prop} {xs ys : List α} {qs : List β}
    (h : List.Forall₂ R (xs ++ ys) qs) :
    ∃ qs₁ qs₂, List.Forall₂ R xs qs₁ ∧ List.Forall₂ R ys qs₂ ∧ qs = qs₁ ++ qs₂ := by
  induction xs generalizing qs with
  | nil => exact ⟨[], qs, .nil, h, rfl⟩
  | cons x xs ih =>
      obtain ⟨q, qs', hq, hqs, rfl⟩ := List.forall₂_cons_left_iff.mp h
      obtain ⟨qs₁, qs₂, h₁, h₂, rfl⟩ := ih hqs
      exact ⟨q :: qs₁, qs₂, .cons hq h₁, h₂, rfl⟩

theorem forall₂_replicate {α β : Type*} {R : α → β → Prop} {x : α} {q : β} (h : R x q) (n : ℕ) :
    List.Forall₂ R (List.replicate n x) (List.replicate n q) := by
  induction n with
  | zero => exact .nil
  | succ n ih => exact .cons h ih

theorem forall_mem_snoc {α : Type*} {P : α → Prop} {xs : List α} {x : α} :
    (∀ y ∈ xs ++ [x], P y) ↔ (∀ y ∈ xs, P y) ∧ P x := by
  rw [List.forall_mem_append, List.forall_mem_singleton]

/-- The least value of `f` over a list. -/
def Least (f : Delay → ℤ) (ps : List Delay) (v : ℤ) : Prop :=
  (∃ p ∈ ps, f p = v) ∧ ∀ p ∈ ps, v ≤ f p

theorem least_singleton (f : Delay → ℤ) (p : Delay) : Least f [p] (f p) := by simp [Least]

theorem Least.snoc {f : Delay → ℤ} {ps : List Delay} {v : ℤ} (h : Least f ps v) (p : Delay) :
    Least f (ps ++ [p]) (if f p < v then f p else v) := by
  obtain ⟨⟨q, hq, hv⟩, hle⟩ := h
  unfold Least
  rw [forall_mem_snoc]
  split_ifs with hlt
  · exact ⟨⟨p, by simp, rfl⟩, fun r hr => hlt.le.trans (hle r hr), le_rfl⟩
  · exact ⟨⟨q, List.mem_append_left _ hq, hv⟩, hle, not_lt.mp hlt⟩

/-- A value of zero is the least of nonnegative ones. -/
theorem least_of_zero {f : Delay → ℤ} {ps : List Delay} {p : Delay} (hp : p ∈ ps)
    (hz : f p = 0) (hf : ∀ q ∈ ps, 0 ≤ f q) : Least f ps (f p) :=
  ⟨⟨p, hp, rfl⟩, fun q hq => hz.le.trans (hf q hq)⟩

/-- The least value stays one when a zero overrides the minimum. -/
theorem Least.override {f : Delay → ℤ} {ps : List Delay} {v : ℤ} {p : Delay} (h : Least f ps v)
    (hf : ∀ q ∈ ps ++ [p], 0 ≤ f q) (hz : p.a + p.b < range → f p = 0) :
    Least f (ps ++ [p]) (if p.a + p.b < range then f p else if f p < v then f p else v) := by
  split_ifs with hr hlt
  · exact least_of_zero (by simp) (hz hr) hf
  · have hs := h.snoc p
    rwa [if_pos hlt] at hs
  · have hs := h.snoc p
    rwa [if_neg hlt] at hs

/-- `p` is the first of the list with the least round trip. -/
def First (ps : List Delay) (p : Delay) : Prop :=
  ∃ pre post, ps = pre ++ p :: post ∧ (∀ q ∈ pre, p.a + p.b < q.a + q.b) ∧
    ∀ q ∈ post, p.a + p.b ≤ q.a + q.b

theorem First.least {ps : List Delay} {p : Delay} (h : First ps p) :
    Least (fun q => q.a + q.b) ps (p.a + p.b) := by
  obtain ⟨pre, post, rfl, h₁, h₂⟩ := h
  unfold Least
  rw [List.forall_mem_append, List.forall_mem_cons]
  exact ⟨⟨p, by simp, rfl⟩, fun q hq => (h₁ q hq).le, le_rfl, h₂⟩

theorem First.snoc {ps : List Delay} {p : Delay} (h : First ps p) (q : Delay) :
    First (ps ++ [q]) (if q.a + q.b < p.a + p.b then q else p) := by
  have hl := h.least
  obtain ⟨pre, post, rfl, h₁, h₂⟩ := h
  split_ifs with hlt
  · exact ⟨pre ++ p :: post, [], by simp, fun r hr => hlt.trans_le (hl.2 r hr), by simp⟩
  · exact ⟨pre, post ++ [q], by simp, h₁, forall_mem_snoc.mpr ⟨h₂, not_lt.mp hlt⟩⟩

/-- The variables that the result of a measurement depends on. -/
structure Core where
  ipOptLen : ℤ
  minRtt : ℤ
  measureDelta1 : ℤ
  msgcount : ℤ
  min1 : ℤ
  min2 : ℤ

def core (ctl : RunState) (mv : MeasureVars) : Core :=
  ⟨ctl.ipOptLen, ctl.minRtt, ctl.measureDelta1, mv.msgcount, mv.min1, mv.min2⟩

/-- What the variables hold after the replies with delays `ps`. -/
structure Measured (d : ℤ) (ps : List Delay) (c : Core) : Prop where
  out : ∃ A, Least Delay.a ps A ∧ c.min1 = d + A
  back : ∃ B, Least Delay.b ps B ∧ c.min2 = B - d
  best : ∃ p, First ps p ∧ c.minRtt = p.a + p.b ∧ c.measureDelta1 = (2 * d + p.a - p.b).tdiv 2

/-- Nothing counted yet, or the minima of what has been counted. -/
structure Inv (d : ℤ) (ps : List Delay) (c : Core) : Prop where
  mode : c.ipOptLen = 0
  delays : ∀ p ∈ ps, Plausible d p
  count : c.msgcount = ps.length
  minima : (ps = [] ∧ c.min1 = 0x7fffffff ∧ c.min2 = 0x7fffffff ∧ c.minRtt = 0x7fffffff) ∨
    Measured d ps c

/-- The effect of one counted reply. -/
def Core.settle (c : Core) (delta1 delta2 diff : ℤ) : Core where
  ipOptLen := c.ipOptLen
  minRtt := if delta1 + delta2 < c.minRtt then delta1 + delta2 else c.minRtt
  measureDelta1 :=
    if delta1 + delta2 < c.minRtt then i32 ((delta1 - delta2).tdiv 2 + processingTime)
    else c.measureDelta1
  msgcount := c.msgcount + 1
  min1 := if diff < range then delta1 else if delta1 < c.min1 then delta1 else c.min1
  min2 := if diff < range then delta2 else if delta2 < c.min2 then delta2 else c.min2

theorem core_settle (ctl : RunState) (mv : MeasureVars) (delta1 delta2 diff : ℤ) :
    let res := settle ctl { mv with msgcount := mv.msgcount + 1 } delta1 delta2 diff
    core res.ctl res.mv = (core ctl mv).settle delta1 delta2 diff := by
  simp only [settle]
  split_ifs with h₁ h₂ h₃ h₄ h₅ <;> simp [core, Core.settle, *]

/-- The halved difference of two deltas fits an `int`. -/
theorem half_fits {d : ℤ} {a b : ℤ} (h₁ : biasn ≤ d + a) (h₂ : d + a ≤ biasp)
    (h₃ : biasn ≤ b - d) (h₄ : b - d ≤ biasp) :
    i32 ((d + a - (b - d)).tdiv 2 + processingTime) = (2 * d + a - b).tdiv 2 := by
  have he : d + a - (b - d) = 2 * d + a - b := by omega
  have hn : ((2 * d + a - b).tdiv 2).natAbs = (2 * d + a - b).natAbs / 2 := Int.natAbs_tdiv _ _
  unfold biasn biasp at *
  rw [he, processingTime, add_zero]
  exact i32_of_mem (by omega) (by unfold intMax; omega)

/-- The minima after one more reply. -/
theorem Measured.settle {d : ℤ} {ps : List Delay} {c : Core} {p : Delay} (h : Measured d ps c)
    (hall : ∀ q ∈ ps ++ [p], Plausible d q) :
    Measured d (ps ++ [p]) (c.settle (d + p.a) (p.b - d) (p.a + p.b)) := by
  obtain ⟨⟨A, hA, hm₁⟩, ⟨B, hB, hm₂⟩, q, hq, hr, hd⟩ := h
  have hp := (forall_mem_snoc.mp hall).2
  have ha := hp.a_nonneg
  have hb := hp.b_nonneg
  have hsum : d + p.a + (p.b - d) = p.a + p.b := by omega
  constructor
  · refine ⟨_, hA.override (fun q hq => (hall q hq).a_nonneg) (fun h => ?_), ?_⟩
    · unfold range at h
      omega
    · simp only [Core.settle, hm₁]
      split_ifs <;> omega
  · refine ⟨_, hB.override (fun q hq => (hall q hq).b_nonneg) (fun h => ?_), ?_⟩
    · unfold range at h
      omega
    · simp only [Core.settle, hm₂]
      split_ifs <;> omega
  · refine ⟨_, hq.snoc p, ?_, ?_⟩
    · simp only [Core.settle, hr, hsum]
      split_ifs <;> rfl
    · simp only [Core.settle, hr, hsum, hd, half_fits hp.out_ge hp.out_le hp.back_ge hp.back_le]
      split_ifs <;> rfl

/-- The first reply sets all the minima. -/
theorem measured_first {d : ℤ} {c : Core} {p : Delay} (hp : Plausible d p)
    (h₁ : c.min1 = 0x7fffffff) (h₂ : c.min2 = 0x7fffffff) (hr : c.minRtt = 0x7fffffff) :
    Measured d [p] (c.settle (d + p.a) (p.b - d) (p.a + p.b)) := by
  have hout := hp.out_le
  have hback := hp.back_le
  have hsum : d + p.a + (p.b - d) = p.a + p.b := by omega
  unfold biasp at hout hback
  constructor
  · refine ⟨p.a, least_singleton _ p, ?_⟩
    simp only [Core.settle, h₁]
    rw [if_pos (by omega : d + p.a < 0x7fffffff), ite_self]
  · refine ⟨p.b, least_singleton _ p, ?_⟩
    simp only [Core.settle, h₂]
    rw [if_pos (by omega : p.b - d < 0x7fffffff), ite_self]
  · refine ⟨p, ⟨[], [], rfl, by simp, by simp⟩, ?_, ?_⟩
    · simp only [Core.settle, hr, hsum]
      exact if_pos (by omega)
    · simp only [Core.settle, hr, hsum, half_fits hp.out_ge hp.out_le hp.back_ge hp.back_le]
      exact if_pos (by omega)

theorem inv_settle {d : ℤ} {ps : List Delay} {c : Core} (h : Inv d ps c) {p : Delay}
    (hx : Plausible d p) : Inv d (ps ++ [p]) (c.settle (d + p.a) (p.b - d) (p.a + p.b)) := by
  have hall : ∀ q ∈ ps ++ [p], Plausible d q := forall_mem_snoc.mpr ⟨h.delays, hx⟩
  refine ⟨h.mode, hall, by simp [Core.settle, h.count], Or.inr ?_⟩
  rcases h.minima with ⟨rfl, h₁, h₂, hr⟩ | hm
  · exact measured_first hx h₁ h₂ hr
  · exact hm.settle hall

section
variable (order : IdOrder)

/-- The times of the datagram, if the call counts it. -/
def counted (ctl : RunState) (mv : MeasureVars) : Poll → Option Sample
  | .datagram bytes ts1 =>
      let packet := (receive mv bytes).packet
      let res := measureInnerLoop order ctl mv (.datagram bytes ts1)
      if res.mv.msgcount = mv.msgcount then none
      else (clockdiffPacketIcmp packet (bytes.take packetIn).length).map fun icp =>
        ⟨be32At packet (icp + 8), be32At packet (icp + 12), dayTime ts1⟩
  | _ => none

variable {order}

/-- A counted reply either settles the minima or has a non-standard time. -/
theorem countReply_spec {ctl : RunState} (h₀ : ctl.ipOptLen = 0) (mv : MeasureVars) (icp : ℕ)
    (t : Times) :
    let res := countReply ctl mv icp t
    let his := be32At mv.packet (icp + 12)
    core res.ctl res.mv = core ctl mv ∨
    res.mv.msgcount ≠ mv.msgcount ∧
      (his ≥ 0x80000000 ∧ res.ret = nonstdtime ∨
        core res.ctl res.mv = (core ctl mv).settle (wrapDay (his - t.sendtime))
          (wrapDay (t.recvtime - his)) (t.recvtime - t.sendtime)) := by
  intro res his
  have hmode : (updateRtt ctl (t.recvtime - t.sendtime)).ipOptLen = 0 := h₀
  by_cases hd : t.recvtime - t.sendtime < 0
  · left
    simp only [res, countReply, if_pos hd]
  · right
    by_cases hh : his ≥ 0x80000000
    · have hres : res = ⟨updateRtt ctl (t.recvtime - t.sendtime),
          { mv with msgcount := mv.msgcount + 1 }, nonstdtime⟩ := by
        simp only [res, countReply, if_neg hd, hmode, if_true, true_and]
        exact if_pos hh
      rw [hres]
      exact ⟨by simp, Or.inl ⟨hh, rfl⟩⟩
    · have hres : res = settle (updateRtt ctl (t.recvtime - t.sendtime))
          { mv with msgcount := mv.msgcount + 1 } (wrapDay (his - t.sendtime))
          (wrapDay (t.recvtime - his)) (t.recvtime - t.sendtime) := by
        simp only [res, countReply, if_neg hd, hmode, if_true, true_and]
        exact if_neg hh
      have hc := core_settle (updateRtt ctl (t.recvtime - t.sendtime)) mv
        (wrapDay (his - t.sendtime)) (wrapDay (t.recvtime - his)) (t.recvtime - t.sendtime)
      rw [← hres] at hc
      have hcount : res.mv.msgcount = mv.msgcount + 1 := congrArg Core.msgcount hc
      exact ⟨by omega, Or.inr hc⟩

/-- A datagram is passed over, or it is a reply that is taken up for counting. -/
theorem parseDatagram_spec {ctl : RunState} (h₀ : ctl.ipOptLen = 0) (mv : MeasureVars) (cc : ℤ)
    (ts1 : Timespec) :
    let res := parseDatagram order ctl mv cc ts1
    core res.ctl res.mv = core ctl mv ∨
    ∃ icp acked, clockdiffPacketIcmp mv.packet cc = some icp ∧
      res = countReply { ctl with acked := acked } mv icp
        { sendtime := be32At mv.packet (icp + 8), recvtime := dayTime ts1 } := by
  intro res
  cases hicp : clockdiffPacketIcmp mv.packet cc with
  | none =>
      left
      simp only [res, parseDatagram, hicp]
  | some icp =>
      by_cases hw : Wanted order ctl mv.packet icp
      · by_cases hlen : clockdiffIcmpOctets cc icp < 20
        · left
          simp only [res, parseDatagram, hicp, hw, not_true_eq_false, if_false]
          rw [if_pos ⟨h₀, hlen⟩]
        · right
          refine ⟨icp, if ctl.acked < clockdiffIcmpSeq order mv.packet icp then
            clockdiffIcmpSeq order mv.packet icp else ctl.acked, rfl, ?_⟩
          simp only [res]
          unfold parseDatagram
          rw [hicp]
          simp only
          rw [if_neg (not_not.mpr hw), if_neg (fun h => hlen h.2), if_neg (not_not.mpr h₀)]
      · left
        simp only [res, parseDatagram, hicp, if_pos hw]

/-- What one pass through the inner loop does to the variables. -/
theorem inner_spec {ctl : RunState} (h₀ : ctl.ipOptLen = 0) (mv : MeasureVars) (p : Poll) :
    let res := measureInnerLoop order ctl mv p
    (counted order ctl mv p = none ∧ core res.ctl res.mv = core ctl mv) ∨
    ∃ x, counted order ctl mv p = some x ∧ 0 ≤ x.sendtime ∧
      (x.histime ≥ 0x80000000 ∧ res.ret = nonstdtime ∨
        core res.ctl res.mv = (core ctl mv).settle (wrapDay (x.histime - x.sendtime))
          (wrapDay (x.recvtime - x.histime)) (x.recvtime - x.sendtime)) := by
  intro res
  cases p with
  | quiet | interrupted | failed => exact Or.inl ⟨rfl, rfl⟩
  | datagram bytes ts1 =>
      have hskip : core res.ctl res.mv = core ctl mv →
          counted order ctl mv (.datagram bytes ts1) = none ∧
            core res.ctl res.mv = core ctl mv := by
        intro hc
        exact ⟨if_pos (congrArg Core.msgcount hc), hc⟩
      rcases @parseDatagram_spec order ctl h₀ (receive mv bytes)
        (bytes.take packetIn).length ts1 with hc | ⟨icp, acked, hicp, hrep⟩
      · exact Or.inl (hskip hc)
      · have hm : ({ ctl with acked := acked } : RunState).ipOptLen = 0 := h₀
        have hspec := countReply_spec hm (receive mv bytes) icp
          { sendtime := be32At (receive mv bytes).packet (icp + 8), recvtime := dayTime ts1 }
        rw [← hrep] at hspec
        rcases hspec with hc | ⟨hne, hc⟩
        · exact Or.inl (hskip hc)
        · refine Or.inr ⟨⟨be32At (receive mv bytes).packet (icp + 8),
            be32At (receive mv bytes).packet (icp + 12), dayTime ts1⟩, ?_, be32At_nonneg _ _, hc⟩
          have hne' : ¬ (measureInnerLoop order ctl mv (.datagram bytes ts1)).mv.msgcount =
              mv.msgcount := hne
          simp only [counted, if_neg hne', hicp, Option.map_some]

theorem breakCode_ne_good : breakCode ≠ good := by decide

theorem continueCode_ne_good : continueCode ≠ good := by decide

theorem nonstdtime_ne_good : nonstdtime ≠ good := by decide

theorem failed_ne_good : (-1 : ℤ) ≠ good := by decide

theorem settle_ne_good (ctl : RunState) (mv : MeasureVars) (delta1 delta2 diff : ℤ) :
    (settle ctl mv delta1 delta2 diff).ret ≠ good := by
  simp only [settle]
  by_cases h : diff < range
  · rw [if_pos h]
    exact breakCode_ne_good
  · rw [if_neg h]
    exact continueCode_ne_good

theorem countReply_ne_good (ctl : RunState) (mv : MeasureVars) (icp : ℕ) (t : Times) :
    (countReply ctl mv icp t).ret ≠ good := by
  unfold countReply
  dsimp only
  split
  · exact continueCode_ne_good
  · split
    all_goals
      split
      · exact nonstdtime_ne_good
      · exact settle_ne_good _ _ _ _ _

theorem optionTimes_ne_good {packet : List UInt8} {opt : ℕ} {len ret : ℤ}
    (h : optionTimes packet opt len = .error ret) : ret ≠ good := by
  simp only [optionTimes] at h
  split_ifs at h
  · cases h
    exact nonstdtime_ne_good
  · cases h
    exact continueCode_ne_good
  · split at h
    · cases h
      exact nonstdtime_ne_good
    · split_ifs at h
      cases h
      exact failed_ne_good

/-- The inner loop never returns the code for success itself. -/
theorem inner_ne_good (ctl : RunState) (mv : MeasureVars) (p : Poll) :
    (measureInnerLoop order ctl mv p).ret ≠ good := by
  cases p with
  | quiet | interrupted => exact breakCode_ne_good
  | failed => exact failed_ne_good
  | datagram bytes ts1 =>
      unfold measureInnerLoop parseDatagram
      dsimp only
      split
      · exact continueCode_ne_good
      · split
        · exact continueCode_ne_good
        · split
          · exact continueCode_ne_good
          · split
            · split
              · next h => exact optionTimes_ne_good h
              · exact countReply_ne_good _ _ _ _
            · exact countReply_ne_good _ _ _ _

variable (order) in
/-- The reply that this event makes the run accept. -/
def reply (m : Machine) : Event → Option Sample
  | .poll p => if m.phase = .waiting then counted order m.ctl m.mv p else none
  | .send _ => none

variable (order) in
/-- The replies that a run accepts, in their order. -/
def replies (m : Machine) (es : List Event) : List Sample :=
  match m.verdict, es with
  | some _, _ => []
  | none, [] => []
  | none, e :: es =>
      (reply order m e).toList ++
        match m.next order e with
        | some (.inl m') => replies m' es
        | _ => []

variable (order) in
def acceptedReplies (ctl : RunState) (es : List Event) : List Sample :=
  replies order (Machine.start ctl) es

/-- The invariant of a whole run: nothing is counted while the queue is emptied. -/
structure RunInv (d : ℤ) (ps : List Delay) (m : Machine) : Prop where
  vars : Inv d ps (core m.ctl m.mv)
  drained : m.phase = .draining → ps = []

theorem runInv_start {ctl : RunState} (h₀ : ctl.ipOptLen = 0) (d : ℤ) :
    RunInv d [] (Machine.start ctl) where
  vars := ⟨h₀, by simp, rfl, Or.inl ⟨rfl, rfl, rfl, rfl⟩⟩
  drained _ := rfl

/-- One pass through the inner loop keeps the invariant, unless the run is over. -/
theorem inv_inner {d : ℤ} {ps qs : List Delay} {ctl : RunState} {mv : MeasureVars} {p : Poll}
    (h : Inv d ps (core ctl mv))
    (hx : List.Forall₂ (Consistent d) (counted order ctl mv p).toList qs) :
    let res := measureInnerLoop order ctl mv p
    Inv d (ps ++ qs) (core res.ctl res.mv) := by
  intro res
  have hmode : ctl.ipOptLen = 0 := h.mode
  rcases @inner_spec order ctl hmode mv p with ⟨hn, hc⟩ | ⟨x, hs, hsend, hc⟩
  · rw [hn] at hx
    cases hx
    rw [hc, List.append_nil]
    exact h
  · rw [hs] at hx
    obtain ⟨q, qs', hq, hnil, rfl⟩ := List.forall₂_cons_left_iff.mp hx
    cases hnil
    have hhis := hq.his_lt
    unfold modulo at hhis
    rcases hc with ⟨hbig, -⟩ | hc
    · omega
    · obtain ⟨hd₁, hd₂⟩ := hq.deltas hsend
      have hdiff : x.recvtime - x.sendtime = q.a + q.b := by
        have := hq.recv
        omega
      rw [hc, hd₁, hd₂, hdiff]
      exact inv_settle h hq.toPlausible

/-- One event keeps the invariant. -/
theorem runInv_next {d : ℤ} {ps qs : List Delay} {m m' : Machine} {e : Event}
    (h : RunInv d ps m) (hx : List.Forall₂ (Consistent d) (reply order m e).toList qs)
    (hn : m.next order e = some (.inl m')) : RunInv d (ps ++ qs) m' := by
  obtain ⟨ctl, mv, phase⟩ := m
  cases phase with
  | draining =>
      have hps : ps = [] := h.drained rfl
      subst hps
      rcases e with ok | _ | _ | _ | ⟨bytes, ts1⟩
      · simp [Machine.next] at hn
      · simp only [Machine.next, Option.some.injEq, Sum.inl.injEq] at hn
        subst hn
        cases hx
        have hv := h.vars
        rcases hv.minima with hm | hm
        · exact ⟨⟨hv.mode, by simp, rfl, Or.inl ⟨rfl, hm.2⟩⟩, by simp⟩
        · obtain ⟨A, ⟨⟨p, hp, -⟩, -⟩, -⟩ := hm.out
          exact absurd hp List.not_mem_nil
      · simp [Machine.next] at hn
      · simp [Machine.next] at hn
      · simp only [Machine.next, Option.some.injEq, Sum.inl.injEq] at hn
        subst hn
        cases hx
        exact ⟨h.vars, fun _ => rfl⟩
  | sending =>
      cases e with
      | poll p => simp [Machine.next] at hn
      | send ok =>
          cases ok with
          | false => simp [Machine.next] at hn
          | true =>
              simp only [Machine.next, if_true, Option.some.injEq, Sum.inl.injEq] at hn
              subst hn
              cases hx
              rw [List.append_nil]
              exact ⟨h.vars, by simp⟩
  | waiting =>
      cases e with
      | send ok => simp [Machine.next] at hn
      | poll p =>
          have hi := inv_inner h.vars (p := p) hx
          simp only [Machine.next] at hn
          split_ifs at hn
          · simp only [Option.some.injEq, Sum.inl.injEq] at hn
            subst hn
            exact ⟨hi, by simp⟩
          · simp only [Option.some.injEq, Sum.inl.injEq] at hn
            subst hn
            exact ⟨hi, by simp⟩
          · simp at hn

/-- No single event ends a run with success. -/
theorem next_ne_good {m : Machine} {e : Event} {ctl' : RunState} {ret : ℤ}
    (hn : m.next order e = some (.inr (ctl', ret))) : ret ≠ good := by
  obtain ⟨ctl, mv, phase⟩ := m
  cases phase with
  | draining =>
      rcases e with ok | _ | _ | _ | ⟨bytes, ts1⟩ <;> simp [Machine.next] at hn
      rw [← hn.2]
      exact failed_ne_good
  | sending =>
      cases e with
      | poll p => simp [Machine.next] at hn
      | send ok =>
          cases ok with
          | true => simp [Machine.next] at hn
          | false =>
              simp [Machine.next] at hn
              rw [← hn.2]
              decide
  | waiting =>
      cases e with
      | send ok => simp [Machine.next] at hn
      | poll p =>
          simp only [Machine.next] at hn
          split_ifs at hn
          · simp at hn
          · simp at hn
          · simp only [Option.some.injEq, Sum.inr.injEq, Prod.mk.injEq] at hn
            rw [← hn.2]
            exact inner_ne_good _ _ _

/-- What a measurement says of an offset `d` when the accepted replies had the
delays `ps`: the least delays in each direction give the difference, and the
first reply with the least round trip gives the other estimate. -/
structure Offset (d : ℤ) (ps : List Delay) (ctl : RunState) : Prop where
  delta : ∃ A B, Least Delay.a ps A ∧ Least Delay.b ps B ∧
    ctl.measureDelta = (2 * d + A - B).tdiv 2
  rtt : Least (fun p => p.a + p.b) ps ctl.minRtt
  delta1 : ∃ p, First ps p ∧ ctl.measureDelta1 = (2 * d + p.a - p.b).tdiv 2

/-- The message loop ends with success only with the offset found. -/
theorem offset_of_verdict {d : ℤ} {ps : List Delay} {m : Machine} {ctl' : RunState}
    (h : RunInv d ps m) (hv : m.verdict = some (ctl', good)) : Offset d ps ctl' := by
  obtain ⟨ctl, mv, phase⟩ := m
  have hcount : mv.msgcount = ps.length := h.vars.count
  cases phase with
  | draining | waiting => simp [Machine.verdict] at hv
  | sending =>
      simp only [Machine.verdict] at hv
      split_ifs at hv with hmsgs htrials
      · simp only [Option.some.injEq, Prod.mk.injEq] at hv
        exact absurd hv.2 (by decide)
      · simp only [Option.some.injEq, Prod.mk.injEq, and_true] at hv
        subst hv
        rcases h.vars.minima with ⟨rfl, -⟩ | hm
        · simp [msgs, hcount] at hmsgs
        · obtain ⟨⟨A, hA, hm₁⟩, ⟨B, hB, hm₂⟩, p, hp, hr, hd⟩ := hm
          obtain ⟨pa, hpa, hA'⟩ := hA.1
          obtain ⟨pb, hpb, hB'⟩ := hB.1
          have ha := h.vars.delays pa hpa
          have hb := h.vars.delays pb hpb
          refine ⟨⟨A, B, hA, hB, ?_⟩, ?_, p, hp, hd⟩
          · have hfit := half_fits (d := d) (a := A) (b := B) (hA' ▸ ha.out_ge) (hA' ▸ ha.out_le)
              (hB' ▸ hb.back_ge) (hB' ▸ hb.back_le)
            have hm₁' : mv.min1 = d + A := hm₁
            have hm₂' : mv.min2 = B - d := hm₂
            simp only [hm₁', hm₂', hfit]
          · have hr' : ctl.minRtt = p.a + p.b := hr
            simp only [hr']
            exact hp.least

/-- The head of the message loop ends the run whatever events are left. -/
theorem run_of_verdict {m : Machine} {res : RunState × ℤ} (hv : m.verdict = some res)
    (es : List Event) : m.run order es = some res ∧ replies order m es = [] := by
  unfold Machine.run replies
  cases es <;> simp [hv]

theorem offset_of_over {d : ℤ} {ps qs : List Delay} {m : Machine} {es : List Event}
    {res : RunState × ℤ} {ctl' : RunState} (h : RunInv d ps m) (hv : m.verdict = some res)
    (hx : List.Forall₂ (Consistent d) (replies order m es) qs)
    (hr : m.run order es = some (ctl', good)) : Offset d (ps ++ qs) ctl' := by
  rw [(run_of_verdict hv es).1] at hr
  rw [(run_of_verdict hv es).2] at hx
  cases hx
  rw [List.append_nil]
  exact offset_of_verdict h (hv.trans hr)

/-- The run from any state that satisfies the invariant. -/
theorem offset_of_run {d : ℤ} {es : List Event} {ctl' : RunState} :
    ∀ {m : Machine} {ps qs : List Delay}, RunInv d ps m →
      List.Forall₂ (Consistent d) (replies order m es) qs →
      m.run order es = some (ctl', good) → Offset d (ps ++ qs) ctl' := by
  induction es with
  | nil =>
      intro m ps qs h hx hr
      cases hv : m.verdict with
      | none =>
          unfold Machine.run at hr
          simp [hv] at hr
      | some res => exact offset_of_over h hv hx hr
  | cons e es ih =>
      intro m ps qs h hx hr
      cases hv : m.verdict with
      | some res => exact offset_of_over h hv hx hr
      | none =>
          unfold Machine.run at hr
          unfold replies at hx
          simp only [hv] at hr hx
          cases hn : m.next order e with
          | none => simp [hn] at hr
          | some out =>
              cases out with
              | inr res =>
                  simp only [hn, Option.some.injEq] at hr
                  exact absurd rfl (next_ne_good (hr ▸ hn))
              | inl m' =>
                  simp only [hn] at hr hx
                  obtain ⟨qs₁, qs₂, h₁, h₂, rfl⟩ := forall₂_append_left hx
                  rw [← List.append_assoc]
                  exact ih (runInv_next h h₁ hn) h₂ hr

/-- The result of a whole measurement with ICMP timestamps, for every order and
number of datagrams, time-outs and duplicates. -/
theorem measure_offset {d : ℤ} {ctl ctl' : RunState} {es : List Event} {ps : List Delay}
    (h₀ : ctl.ipOptLen = 0)
    (hx : List.Forall₂ (Consistent d) (acceptedReplies order ctl es) ps)
    (hr : measure order ctl es = some (ctl', good)) : Offset d ps ctl' :=
  offset_of_run (runInv_start h₀ d) hx hr

/-- A reply to the first probe of the process 7, sent at 1000 and stamped 1500. -/
def timestampReply : List UInt8 :=
  [0x45, 0, 0, 40] ++ List.replicate 16 0 ++
    [14, 0, 0, 0, 7, 0, 1, 0, 0, 0, 3, 0xe8, 0, 0, 5, 0xdc, 0, 0, 5, 0xdc]

/-- One probe, a late reply, and 49 duplicates of a reply that took 10 ms. -/
def duplicatesRun : List Event :=
  [.poll .quiet, .send true, .poll (.datagram timestampReply ⟨1, 20000000⟩)] ++
    List.replicate 49 (.poll (.datagram timestampReply ⟨1, 10000000⟩)) ++ [.poll .quiet]

theorem measure_offset_duplicates : ∃ ctl',
    measure .host { id := 7 } duplicatesRun = some (ctl', good) ∧
    Offset 497 (⟨3, 17⟩ :: List.replicate 49 ⟨3, 7⟩) ctl' := by
  have hx : acceptedReplies .host { id := 7 } duplicatesRun =
      ⟨1000, 1500, 1020⟩ :: List.replicate 49 ⟨1000, 1500, 1010⟩ := by decide +kernel
  have hr : measure .host { id := 7 } duplicatesRun = some
      ({ id := 7, measureDelta := 495, measureDelta1 := 495, seqno := 1, acked := 1, rtt := 10,
         minRtt := 10 }, good) := by
    decide +kernel
  have hlate : Consistent 497 ⟨1000, 1500, 1020⟩ ⟨3, 17⟩ :=
    ⟨by constructor <;> decide, by decide, by decide, by decide, by decide, by decide⟩
  have hdup : Consistent 497 ⟨1000, 1500, 1010⟩ ⟨3, 7⟩ :=
    ⟨by constructor <;> decide, by decide, by decide, by decide, by decide, by decide⟩
  refine ⟨_, hr, measure_offset rfl ?_ hr⟩
  rw [hx]
  exact .cons hlate (forall₂_replicate hdup 49)

end

end Iputils.ClockdiffOffset
