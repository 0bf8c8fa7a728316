import Iputils.AckWindow

/-!
# Accounting of one echo reply

`gather_statistics` up to the point where the counters are final: it counts the
reply, acknowledges it, measures the round trip and consults the table of
answered sequence numbers. A reply with a bad checksum is first counted and then
taken back, and it leaves the table alone. Printing is not part of this module.

The body is cut at its own joints into three helpers. Each has field lemmas, so
that later modules never unfold it.
-/
set_option autoImplicit false

namespace Iputils.GatherStatistics
open MachineInt PingState ReceivedTable AckWindow

/-- The arguments that reach the counters: `sent` is the timeval found in the
payload, `now` the clock reading that a backwards clock makes the code take. -/
structure Reply where
  cc : ℤ
  seq : ℤ
  csfailed : Bool
  tv : Timeval := {}
  sent : Timeval := {}
  now : Timeval := {}
deriving Repr, DecidableEq

def updateInterval (r : Rts) : Rts :=
  let est := if r.rtt ≠ 0 then i32 (r.rtt / 8) else r.interval * 1000
  let interval := (est + r.rttAddend + 500).tdiv 1000
  { r with
    interval :=
      if r.uid ≠ 0 ∧ interval < minUserIntervalMs then minUserIntervalMs else interval }

/-- Difference of two times of day with the microseconds forced into `0 .. 999999`. -/
def elapsed (tv sent : Timeval) : Timeval :=
  let d := tvsub tv sent
  if d.tvUsec ≥ 1000000 then ⟨d.tvSec, 999999⟩
  else if d.tvUsec < 0 then ⟨d.tvSec, 0⟩
  else d

def tripOf (d : Timeval) : ℤ :=
  if d.tvSec > tvSecMaxVal then 0
  else if d.tvSec < 0 then 0
  else d.tvSec * 1000000 + d.tvUsec

/-- The trip time in microseconds and the new `opt_latency`. A negative
difference is measured a second time against a fresh clock reading, once. -/
def triptime (optLatency : Bool) (p : Reply) : ℤ × Bool :=
  let d := elapsed p.tv p.sent
  if d.tvSec < 0 ∧ optLatency = false then (tripOf (elapsed p.now p.sent), true)
  else (tripOf d, optLatency)

/-- `++nreceived`, and the acknowledgement of an undamaged reply. -/
def countReply (r : Rts) (p : Reply) : Rts :=
  let r := { r with nreceived := r.nreceived + 1 }
  if p.csfailed then r else acknowledge r p.seq

/-- One more sample for the sums, the extremes and the moving average. -/
def addTrip (r : Rts) (triptime : ℤ) : Rts :=
  { r with
    tsum := r.tsum + triptime
    tsum2 := r.tsum2 + triptime * triptime
    tmin := if triptime < r.tmin then triptime else r.tmin
    tmax := if triptime > r.tmax then triptime else r.tmax
    rtt := if r.rtt = 0 then u64 (u64 triptime * 8) else u64 (r.rtt + (triptime - r.rtt / 8)) }

def recordTrip (r : Rts) (p : Reply) : Rts :=
  if r.timing = true ∧ p.cc ≥ 8 + timevalSize then
    let t := triptime r.optLatency p
    let r := { r with optLatency := t.2 }
    if p.csfailed then r
    else if r.optAdaptive then updateInterval (addTrip r t.1)
    else addTrip r t.1
  else r

/-- The final bookkeeping: a damaged or repeated reply is taken back. -/
def settleReply (r : Rts) (p : Reply) : Rts × Bool :=
  if p.csfailed then
    ({ r with
       nchecksum := r.nchecksum + 1
       nreceived := r.nreceived - 1
       confirm := r.confirmFlag }, false)
  else if rcvdTest r.rcvdTbl p.seq ≠ 0 then
    ({ r with
       nrepeats := r.nrepeats + 1
       nreceived := r.nreceived - 1
       confirm := r.confirmFlag }, true)
  else
    ({ r with
       rcvdTbl := rcvdSet r.rcvdTbl p.seq
       confirm := r.confirmFlag }, false)

/-- The new state and `dupflag`. -/
def gatherStatistics (r : Rts) (p : Reply) : Rts × Bool :=
  settleReply (recordTrip (countReply r p) p) p

theorem elapsed_usec (tv sent : Timeval) :
    0 ≤ (elapsed tv sent).tvUsec ∧ (elapsed tv sent).tvUsec ≤ 999999 := by
  unfold elapsed
  dsimp only
  split_ifs with h₁ h₂
  · exact ⟨(by decide : (0 : ℤ) ≤ 999999), le_rfl⟩
  · exact ⟨le_rfl, (by decide : (0 : ℤ) ≤ 999999)⟩
  · exact ⟨by omega, by omega⟩

/-- The fields that an acknowledgement may write. -/
theorem acknowledge_frame (r : Rts) (seq : ℤ) :
    acknowledge r seq =
      { r with pipesize := (acknowledge r seq).pipesize, acked := (acknowledge r seq).acked } := by
  simp only [acknowledge]
  split_ifs <;> rfl

theorem countReply_frame (r : Rts) (p : Reply) :
    countReply r p =
      { r with
        nreceived := (countReply r p).nreceived
        pipesize := (countReply r p).pipesize
        acked := (countReply r p).acked } := by
  unfold countReply
  dsimp only
  split_ifs
  · rfl
  · rw [acknowledge_frame]

theorem recordTrip_frame (r : Rts) (p : Reply) :
    recordTrip r p =
      { r with
        optLatency := (recordTrip r p).optLatency
        tsum := (recordTrip r p).tsum
        tsum2 := (recordTrip r p).tsum2
        tmin := (recordTrip r p).tmin
        tmax := (recordTrip r p).tmax
        rtt := (recordTrip r p).rtt
        interval := (recordTrip r p).interval } := by
  simp only [recordTrip]
  split_ifs <;> rfl

/-- The fields that a reply may write. -/
theorem gatherStatistics_frame (r : Rts) (p : Reply) :
    (gatherStatistics r p).1 =
      { r with
        nreceived := (gatherStatistics r p).1.nreceived
        nrepeats := (gatherStatistics r p).1.nrepeats
        nchecksum := (gatherStatistics r p).1.nchecksum
        pipesize := (gatherStatistics r p).1.pipesize
        acked := (gatherStatistics r p).1.acked
        optLatency := (gatherStatistics r p).1.optLatency
        tsum := (gatherStatistics r p).1.tsum
        tsum2 := (gatherStatistics r p).1.tsum2
        tmin := (gatherStatistics r p).1.tmin
        tmax := (gatherStatistics r p).1.tmax
        rtt := (gatherStatistics r p).1.rtt
        interval := (gatherStatistics r p).1.interval
        rcvdTbl := (gatherStatistics r p).1.rcvdTbl
        confirm := (gatherStatistics r p).1.confirm } := by
  unfold gatherStatistics settleReply
  rw [recordTrip_frame, countReply_frame]
  dsimp only
  split_ifs <;> rfl

/-- An undamaged reply is flagged when its number is in the table. -/
theorem dupflag_iff (r : Rts) (p : Reply) (h : p.csfailed = false) :
    (gatherStatistics r p).2 = true ↔ rcvdTest r.rcvdTbl p.seq ≠ 0 := by
  have htable : (recordTrip (countReply r p) p).rcvdTbl = r.rcvdTbl := by
    rw [recordTrip_frame, countReply_frame]
  unfold gatherStatistics settleReply
  rw [if_neg (by simp [h]), htable]
  split_ifs with hold
  · exact iff_of_true rfl hold
  · exact iff_of_false (by simp) hold

/-- The part of the state that duplicate detection is about. -/
structure Ledger where
  table : RcvdTable
  transmitted : ℤ
  received : ℤ
  repeats : ℤ
  corrupted : ℤ

def ledger (r : Rts) : Ledger :=
  ⟨r.rcvdTbl, r.ntransmitted, r.nreceived, r.nrepeats, r.nchecksum⟩

@[simp] theorem ledger_acknowledge (r : Rts) (seq : ℤ) :
    ledger (acknowledge r seq) = ledger r := by
  simp only [acknowledge]
  split_ifs <;> rfl

@[simp] theorem ledger_countReply (r : Rts) (p : Reply) :
    ledger (countReply r p) = { ledger r with received := r.nreceived + 1 } := by
  unfold countReply
  split_ifs
  · rfl
  · rw [ledger_acknowledge]
    rfl

@[simp] theorem ledger_recordTrip (r : Rts) (p : Reply) :
    ledger (recordTrip r p) = ledger r := by
  simp only [recordTrip]
  split_ifs <;> rfl

/-- What a reply does to the ledger, by its three possible outcomes. -/
theorem ledger_gatherStatistics (r : Rts) (p : Reply) :
    ledger (gatherStatistics r p).1 =
      if p.csfailed then { ledger r with corrupted := r.nchecksum + 1 }
      else if rcvdTest r.rcvdTbl p.seq ≠ 0 then { ledger r with repeats := r.nrepeats + 1 }
      else { ledger r with
        table := rcvdSet r.rcvdTbl p.seq
        received := r.nreceived + 1 } := by
  have h : ledger (recordTrip (countReply r p) p) =
      { ledger r with received := r.nreceived + 1 } := by
    rw [ledger_recordTrip, ledger_countReply]
  simp only [ledger, Ledger.mk.injEq] at h
  obtain ⟨ht, hn, hr, hd, hc⟩ := h
  simp only [gatherStatistics, settleReply, ht]
  split_ifs <;> simp [ledger, hn, hr, hd, hc]

end Iputils.GatherStatistics
