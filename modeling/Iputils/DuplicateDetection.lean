import Iputils.GatherStatistics
import Mathlib.Algebra.Order.Field.Rat
import Mathlib.Tactic.Positivity
import Mathlib.Tactic.FieldSimp

/-!
# Duplicate detection against an ideal record of replies

The ideal record is the list of replies handed to `gather_statistics`, each with
the full number of the probe it answers. From it `tally` counts first good
replies, further good replies and damaged ones. The real state only has one bit
per 16-bit sequence number and clears bits on every transmission attempt, also
on attempts that are given up. The invariant says that inside the window of the
last 65535 probes the bits and the counters agree with the record.
-/
set_option autoImplicit false

namespace Iputils.DuplicateDetection
open MachineInt PingState ReceivedTable AckWindow GatherStatistics

/-- One call of `gather_statistics`: the probe answered, and whether the checksum held. -/
structure Processed where
  probe : ℤ
  good : Bool
deriving Repr, DecidableEq

/-- Probes with at least one good reply on record. -/
def answeredBy (h : List Processed) : Finset ℤ :=
  ((h.filter fun p => p.good).map Processed.probe).toFinset

@[ext] structure Tally where
  received : ℤ := 0
  repeats : ℤ := 0
  corrupted : ℤ := 0
deriving Repr, DecidableEq

/-- The ideal counters, latest reply first. -/
def tally : List Processed → Tally
  | [] => {}
  | p :: ps =>
      let t := tally ps
      if p.good = false then { t with corrupted := t.corrupted + 1 }
      else if p.probe ∈ answeredBy ps then { t with repeats := t.repeats + 1 }
      else { t with received := t.received + 1 }

theorem answeredBy_cons (p : Processed) (ps : List Processed) :
    answeredBy (p :: ps) = if p.good then insert p.probe (answeredBy ps) else answeredBy ps := by
  cases h : p.good <;> simp [answeredBy, h]

theorem tally_total (h : List Processed) :
    (tally h).received + (tally h).repeats + (tally h).corrupted = h.length := by
  induction h with
  | nil => rfl
  | cons p ps ih =>
      simp only [tally, List.length_cons]
      push_cast
      split_ifs <;> dsimp only <;> omega

/-- Each probe is counted once in `received`. -/
theorem tally_received (h : List Processed) : (tally h).received = (answeredBy h).card := by
  induction h with
  | nil => rfl
  | cons p ps ih =>
      rw [answeredBy_cons]
      cases hg : p.good with
      | false => simpa [tally, hg] using ih
      | true =>
          by_cases hm : p.probe ∈ answeredBy ps
          · rw [if_pos rfl, Finset.insert_eq_of_mem hm]
            simpa [tally, hg, hm] using ih
          · rw [if_pos rfl, Finset.card_insert_of_notMem hm]
            simp [tally, hg, hm, ih]

structure Session where
  rts : Rts
  history : List Processed

def Session.start (r : Rts) : Session :=
  ⟨{ r with
     rcvdTbl := {}, ntransmitted := 0, nreceived := 0, nrepeats := 0, nchecksum := 0 }, []⟩

/-- A transmission attempt: `send_probe` clears the bit of the next probe, and
only a counted attempt advances `ntransmitted`. -/
def attempt (r : Rts) (counted : Bool) : Rts :=
  let r := { r with rcvdTbl := rcvdClear r.rcvdTbl (r.ntransmitted + 1) }
  if counted then advanceNtransmitted r else r

def Session.attempt (s : Session) (counted : Bool) : Session :=
  ⟨DuplicateDetection.attempt s.rts counted, s.history⟩

/-- A reply to probe `k` is accounted for and goes on record. -/
def Session.reply (s : Session) (k : ℤ) (p : Reply) : Session :=
  ⟨(gatherStatistics s.rts p).1, ⟨k, !p.csfailed⟩ :: s.history⟩

/-- The window of probe numbers that 16 bits can still tell apart from the next one. -/
def InWindow (r : Rts) (k : ℤ) : Prop :=
  r.ntransmitted - 65535 < k ∧ k ≤ r.ntransmitted

/-- Probes are numbered from 1, and a reply carries the low 16 bits of its probe. -/
inductive Step : Session → Session → Prop
  | attempt (s : Session) (counted : Bool) : Step s (s.attempt counted)
  | reply (s : Session) (k : ℤ) (p : Reply) (h₁ : 1 ≤ k) (hk : InWindow s.rts k)
      (hp : p.seq = u16 k) : Step s (s.reply k p)

/-- The relation between the real state and the record. -/
structure Refines (s : Session) : Prop where
  probes : ∀ p ∈ s.history, 1 ≤ p.probe ∧ p.probe ≤ s.rts.ntransmitted
  bits : ∀ k, InWindow s.rts k →
    (rcvdTest s.rts.rcvdTbl k ≠ 0 ↔ k ∈ answeredBy s.history)
  counters : (⟨s.rts.nreceived, s.rts.nrepeats, s.rts.nchecksum⟩ : Tally) = tally s.history

theorem refines_start (r : Rts) : Refines (Session.start r) := by
  refine ⟨by simp [Session.start], ?_, rfl⟩
  intro k hk
  change rcvdTest {} k ≠ 0 ↔ _
  rw [rcvdTest_empty]
  simp [Session.start, answeredBy]

/-- Clearing the bit of the next probe leaves the rest of the window alone. -/
theorem rcvdTest_attempt (t : RcvdTable) {n k : ℤ} (h₁ : n - 65535 < k) (h₂ : k ≤ n) :
    rcvdTest (rcvdClear t (n + 1)) k ≠ 0 ↔ rcvdTest t k ≠ 0 := by
  have hne : u16 k ≠ u16 (n + 1) := by
    intro he
    have heq := u16_injOn he (by omega) (by omega)
    omega
  rw [rcvdTest_rcvdClear]
  exact and_iff_right hne

theorem refines_attempt {s : Session} (h : Refines s) (counted : Bool) :
    Refines (s.attempt counted) := by
  cases counted with
  | false =>
      refine ⟨h.probes, ?_, h.counters⟩
      intro k hk
      exact (rcvdTest_attempt s.rts.rcvdTbl hk.1 hk.2).trans (h.bits k hk)
  | true =>
      refine ⟨?_, ?_, h.counters⟩
      · intro p hp
        have hb := h.probes p hp
        exact ⟨hb.1, hb.2.trans (lt_add_one s.rts.ntransmitted).le⟩
      · intro k hk
        obtain ⟨h₂, h₃⟩ := hk
        have h₂ : s.rts.ntransmitted + 1 - 65535 < k := h₂
        have h₃ : k ≤ s.rts.ntransmitted + 1 := h₃
        change rcvdTest (rcvdClear s.rts.rcvdTbl (s.rts.ntransmitted + 1)) k ≠ 0 ↔
          k ∈ answeredBy s.history
        -- The new probe has a clear bit and no reply; the others keep theirs.
        rcases eq_or_lt_of_le h₃ with rfl | hlt
        · have hfresh : s.rts.ntransmitted + 1 ∉ answeredBy s.history := by
            intro hm
            obtain ⟨p, hp, he⟩ : ∃ p, (p ∈ s.history ∧ p.good = true) ∧
                p.probe = s.rts.ntransmitted + 1 := by simpa [answeredBy] using hm
            have hb := (h.probes p hp.1).2
            omega
          rw [rcvdTest_rcvdClear]
          simp [hfresh]
        · rw [rcvdTest_attempt _ (by omega) (by omega)]
          exact h.bits k ⟨by omega, by omega⟩

theorem refines_reply {s : Session} (h : Refines s) {k : ℤ} {p : Reply} (h₁ : 1 ≤ k)
    (hk : InWindow s.rts k) (hp : p.seq = u16 k) :
    Refines (s.reply k p) := by
  unfold Session.reply
  have hl := ledger_gatherStatistics s.rts p
  have hbit : rcvdTest s.rts.rcvdTbl p.seq ≠ 0 ↔ k ∈ answeredBy s.history := by
    rw [hp, rcvdTest_u16]
    exact h.bits k hk
  have hn : (gatherStatistics s.rts p).1.ntransmitted = s.rts.ntransmitted := by
    have := congrArg Ledger.transmitted hl
    split_ifs at this <;> exact this
  have hprobes : ∀ q ∈ (⟨k, !p.csfailed⟩ :: s.history : List Processed),
      1 ≤ q.probe ∧ q.probe ≤ s.rts.ntransmitted := by
    intro q hq
    rcases List.mem_cons.mp hq with rfl | hq
    · exact ⟨h₁, hk.2⟩
    · exact h.probes q hq
  have hc := h.counters
  simp only [Tally.ext_iff] at hc
  obtain ⟨hc₁, hc₂, hc₃⟩ := hc
  simp only [ledger] at hl
  split_ifs at hl with hcs hset
  · simp only [Ledger.mk.injEq] at hl
    obtain ⟨ht, -, hr, hd, hb⟩ := hl
    refine ⟨by simpa only [hn] using hprobes, ?_, ?_⟩
    · intro j hj
      simp only [InWindow, hn] at hj
      rw [ht, h.bits j hj, answeredBy_cons]
      simp [hcs]
    · simp [tally, hcs, hr, hd, hb, hc₁, hc₂, hc₃]
  · simp only [Ledger.mk.injEq] at hl
    obtain ⟨ht, -, hr, hd, hb⟩ := hl
    have hm := hbit.mp hset
    refine ⟨by simpa only [hn] using hprobes, ?_, ?_⟩
    · intro j hj
      simp only [InWindow, hn] at hj
      rw [ht, h.bits j hj, answeredBy_cons, Finset.insert_eq_of_mem hm]
      simp
    · simp [tally, hcs, hm, hr, hd, hb, hc₁, hc₂, hc₃]
  · simp only [Ledger.mk.injEq] at hl
    obtain ⟨ht, -, hr, hd, hb⟩ := hl
    have hm : k ∉ answeredBy s.history := fun hm => hset (hbit.mpr hm)
    refine ⟨by simpa only [hn] using hprobes, ?_, ?_⟩
    · intro j hj
      simp only [InWindow, hn] at hj
      have hjk : u16 j = u16 p.seq ↔ j = k := by
        rw [hp, u16_of_mem (u16_nonneg k) (u16_lt k)]
        constructor
        · intro he
          exact u16_injOn he (by have := hk.1; omega) (by have := hk.2; omega)
        · intro heq
          subst heq
          rfl
      rw [ht, rcvdTest_rcvdSet, hjk, h.bits j hj, answeredBy_cons]
      simp [hcs]
    · simp [tally, hcs, hm, hr, hd, hb, hc₁, hc₂, hc₃]

theorem refines_step {s t : Session} (h : Refines s) (hs : Step s t) : Refines t := by
  cases hs with
  | attempt counted => exact refines_attempt h counted
  | reply k p h₁ hk hp => exact refines_reply h h₁ hk hp

theorem refines_reachable (r : Rts) {s : Session}
    (h : Relation.ReflTransGen Step (Session.start r) s) : Refines s := by
  induction h with
  | refl => exact refines_start r
  | tail _ hs ih => exact refines_step ih hs

/-- The answered probes are among the transmitted ones, and each is counted once. -/
theorem Refines.received_le {s : Session} (h : Refines s) (h₀ : 0 ≤ s.rts.ntransmitted) :
    s.rts.nreceived ≤ s.rts.ntransmitted := by
  have hsub : answeredBy s.history ⊆ Finset.Icc 1 s.rts.ntransmitted := by
    intro k hk
    obtain ⟨p, hp, rfl⟩ : ∃ p, (p ∈ s.history ∧ p.good = true) ∧ p.probe = k := by
      simpa [answeredBy] using hk
    exact Finset.mem_Icc.mpr (h.probes p hp.1)
  have hcard := Finset.card_le_card hsub
  rw [Int.card_Icc] at hcard
  have hr : s.rts.nreceived = (tally s.history).received := congrArg Tally.received h.counters
  rw [hr, tally_received]
  omega

theorem Step.ntransmitted_le {s t : Session} (h : Step s t) :
    s.rts.ntransmitted ≤ t.rts.ntransmitted := by
  cases h with
  | attempt counted =>
      cases counted with
      | false => exact le_refl _
      | true => exact (lt_add_one _).le
  | reply k p h₁ hk hp =>
      have := congrArg Ledger.transmitted (ledger_gatherStatistics s.rts p)
      split_ifs at this <;> exact this.ge

theorem ntransmitted_nonneg (r : Rts) {s : Session}
    (h : Relation.ReflTransGen Step (Session.start r) s) : 0 ≤ s.rts.ntransmitted := by
  induction h with
  | refl => exact le_refl 0
  | tail _ hs ih => exact ih.trans hs.ntransmitted_le

/-- The integer percentage that `status` prints. -/
def statusLoss (r : Rts) : ℤ :=
  if r.ntransmitted ≠ 0 then
    i32 (((r.ntransmitted - r.nreceived) * 100).tdiv r.ntransmitted)
  else 0

/-- The percentage of `ping_print_finish`, before it is rounded to a float; nothing
is printed for a run without transmissions. -/
def finishLoss (r : Rts) : Option ℚ :=
  if r.ntransmitted ≠ 0 then
    some (((r.ntransmitted - r.nreceived : ℤ) : ℚ) * 100 / r.ntransmitted)
  else none

theorem statusLoss_mem {r : Rts} (h₀ : 0 ≤ r.nreceived) (h₁ : r.nreceived ≤ r.ntransmitted) :
    0 ≤ statusLoss r ∧ statusLoss r ≤ 100 := by
  unfold statusLoss
  split_ifs with hn
  · have hpos : 0 < r.ntransmitted := by omega
    have hnum : 0 ≤ (r.ntransmitted - r.nreceived) * 100 := by omega
    have hlow : 0 ≤ ((r.ntransmitted - r.nreceived) * 100) / r.ntransmitted :=
      Int.ediv_nonneg hnum hpos.le
    have hhigh : ((r.ntransmitted - r.nreceived) * 100) / r.ntransmitted ≤ 100 :=
      Int.ediv_le_of_le_mul hpos (by linarith)
    rw [Int.tdiv_eq_ediv_of_nonneg hnum, i32_of_mem (by omega) (by unfold intMax; omega)]
    exact ⟨hlow, hhigh⟩
  · omega

theorem finishLoss_mem {r : Rts} (h₀ : 0 ≤ r.nreceived) (h₁ : r.nreceived ≤ r.ntransmitted) :
    ∀ x ∈ finishLoss r, 0 ≤ x ∧ x ≤ 100 := by
  intro x hx
  unfold finishLoss at hx
  split_ifs at hx with hn
  · obtain rfl := Option.some.inj hx
    have hpos : (0 : ℚ) < r.ntransmitted := by exact_mod_cast (by omega : 0 < r.ntransmitted)
    have hr₀ : (0 : ℚ) ≤ r.nreceived := by exact_mod_cast h₀
    have hr₁ : (r.nreceived : ℚ) ≤ r.ntransmitted := by exact_mod_cast h₁
    push_cast
    constructor
    · exact div_nonneg (by linarith) hpos.le
    · rw [div_le_iff₀ hpos]
      linarith
  · cases hx

/-- In every reachable state the bits of the window and the three counters are
those of the record, no call goes uncounted, and both loss figures are
percentages. -/
theorem duplicate_detection_refines (r : Rts) {s : Session}
    (h : Relation.ReflTransGen Step (Session.start r) s) :
    (∀ k, InWindow s.rts k →
      (rcvdTest s.rts.rcvdTbl k ≠ 0 ↔ k ∈ answeredBy s.history)) ∧
    (⟨s.rts.nreceived, s.rts.nrepeats, s.rts.nchecksum⟩ : Tally) = tally s.history ∧
    s.rts.nreceived + s.rts.nrepeats + s.rts.nchecksum = s.history.length ∧
    s.rts.nreceived ≤ s.rts.ntransmitted ∧
    (0 ≤ statusLoss s.rts ∧ statusLoss s.rts ≤ 100) ∧
    (∀ x ∈ finishLoss s.rts, 0 ≤ x ∧ x ≤ 100) := by
  have hR := refines_reachable r h
  have hle := hR.received_le (ntransmitted_nonneg r h)
  have hc := Tally.ext_iff.mp hR.counters
  have h₀ : 0 ≤ s.rts.nreceived := by
    have hr : s.rts.nreceived = (tally s.history).received := hc.1
    rw [hr, tally_received]
    exact Int.natCast_nonneg _
  refine ⟨hR.bits, hR.counters, ?_, hle, statusLoss_mem h₀ hle, finishLoss_mem h₀ hle⟩
  rw [← tally_total, ← hR.counters]

/-- Two attempts, the first given up, then a damaged and a good reply to probe 1. -/
def lateSession : Session :=
  (((Session.start {}).attempt false).attempt true).reply 1 { cc := 64, seq := 1, csfailed := true }
    |>.reply 1 { cc := 64, seq := 1, csfailed := false }

theorem duplicate_detection_refines_late :
    Relation.ReflTransGen Step (Session.start {}) lateSession ∧
    lateSession.rts.nreceived + lateSession.rts.nrepeats + lateSession.rts.nchecksum = 2 := by
  have hrun : Relation.ReflTransGen Step (Session.start {}) lateSession := by
    refine Relation.ReflTransGen.tail (Relation.ReflTransGen.tail (Relation.ReflTransGen.tail
      (Relation.ReflTransGen.single (Step.attempt _ false)) (Step.attempt _ true))
      (Step.reply _ 1 _ ?_ ⟨?_, ?_⟩ rfl)) (Step.reply _ 1 _ ?_ ⟨?_, ?_⟩ rfl)
    all_goals decide
  exact ⟨hrun, (duplicate_detection_refines {} hrun).2.2.1⟩

end Iputils.DuplicateDetection
