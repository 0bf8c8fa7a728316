import Iputils.ClockdiffOptions

/-!
# The deltas and the refusals of clockdiff

The differences of the times of a reply are brought into the range of half a day by
adding or taking away one day. The times in a reply are arbitrary numbers of 31 bits,
which is almost 25 days, so that one day need not be enough. With the timestamp option
the code asks whether one of the four times is missing by joining them bit by bit,
which refuses times without a common bit too.
-/
set_option autoImplicit false

namespace Iputils.ClockdiffDeltas
open MachineInt ByteBuffer PingState ClockdiffMeasure ClockdiffOffset ClockdiffOptions

section
variable (order : IdOrder)

/-- In timestamp mode the remote time is taken from the packet. -/
def withRemote (ctl : RunState) (packet : List UInt8) (icp : ℕ) (t : Times) : Times :=
  if ctl.ipOptLen = 0 then
    { t with histime := be32At packet (icp + 12), histime1 := be32At packet (icp + 12) }
  else t

/-- The times of a reply, unless it crosses midnight or has no standard time. -/
def countedTimes (ctl : RunState) (packet : List UInt8) (icp : ℕ) (t : Times) : Option Times :=
  let t := withRemote ctl packet icp t
  if t.recvtime < t.sendtime ∨ ctl.ipOptLen = 0 ∧ t.histime ≥ 0x80000000 then none else some t

/-- The times of a datagram of `cc` bytes in the buffer, if it is a reply that is not
rejected. -/
def datagramTimes (ctl : RunState) (packet : List UInt8) (cc : ℤ) (ts1 : Timespec) :
    Option Times :=
  match clockdiffPacketIcmp packet cc with
  | none => none
  | some icp =>
      if ¬ Wanted order ctl packet icp then none
      else if ctl.ipOptLen = 0 ∧ clockdiffIcmpOctets cc icp < 20 then none
      else if ctl.ipOptLen ≠ 0 then
        match optionTimes packet (clockdiffIpopts icp) ctl.ipOptLen with
        | .error _ => none
        | .ok t => countedTimes ctl packet icp t
      else
        countedTimes ctl packet icp { sendtime := be32At packet (icp + 8), recvtime := dayTime ts1 }

def replyTimes (ctl : RunState) (mv : MeasureVars) : Poll → Option Times
  | .quiet | .interrupted | .failed => none
  | .datagram bytes ts1 =>
      datagramTimes order ctl (receive mv bytes).packet (bytes.take packetIn).length ts1

variable {order}

theorem withRemote_times (ctl : RunState) (packet : List UInt8) (icp : ℕ) (t : Times) :
    (withRemote ctl packet icp t).sendtime = t.sendtime ∧
      (withRemote ctl packet icp t).recvtime = t.recvtime := by
  unfold withRemote
  split_ifs
  · exact ⟨rfl, rfl⟩
  · exact ⟨rfl, rfl⟩

/-- A reply that is not rejected enters the minima with its two differences. -/
theorem core_countReply {ctl ctl' : RunState} {mv : MeasureVars} {icp : ℕ} {t t' : Times}
    (hctl : core ctl' mv = core ctl mv) (h : countedTimes ctl mv.packet icp t = some t') :
    core (countReply ctl' mv icp t).ctl (countReply ctl' mv icp t).mv =
      (core ctl mv).settle (wrapDay (t'.histime - t'.sendtime))
        (wrapDay (t'.recvtime - t'.histime1)) (t'.recvtime - t'.sendtime) := by
  have hmode : ctl'.ipOptLen = ctl.ipOptLen := congrArg Core.ipOptLen hctl
  unfold countedTimes at h
  dsimp only at h
  split_ifs at h with hrej
  obtain rfl := Option.some.inj h
  obtain ⟨hsend, hrecv⟩ := withRemote_times ctl mv.packet icp t
  rw [hsend, hrecv] at hrej ⊢
  obtain ⟨hdiff, hstd⟩ := not_or.mp hrej
  have hres : countReply ctl' mv icp t = settle (updateRtt ctl' (t.recvtime - t.sendtime))
      { mv with msgcount := mv.msgcount + 1 }
      (wrapDay ((withRemote ctl mv.packet icp t).histime - t.sendtime))
      (wrapDay (t.recvtime - (withRemote ctl mv.packet icp t).histime1))
      (t.recvtime - t.sendtime) := by
    have hforward : ¬ t.recvtime - t.sendtime < 0 := by omega
    have hmode' : (updateRtt ctl' (t.recvtime - t.sendtime)).ipOptLen = ctl.ipOptLen := hmode
    unfold countReply
    simp only [if_neg hforward, hmode']
    unfold withRemote at hstd ⊢
    by_cases hzero : ctl.ipOptLen = 0
    · simp only [hzero, if_true, true_and] at hstd ⊢
      exact if_neg hstd
    · simp only [hzero, if_false, false_and]
  rw [hres, core_settle, ← hctl]
  rfl

/-- The minima are those before the call. -/
def SameMinima (res : InnerResult) (ctl : RunState) (mv : MeasureVars) : Prop :=
  res.mv.min1 = mv.min1 ∧ res.mv.min2 = mv.min2 ∧ res.ctl.minRtt = ctl.minRtt ∧
    res.ctl.measureDelta1 = ctl.measureDelta1

theorem sameMinima_countReply {ctl ctl' : RunState} {mv : MeasureVars} {icp : ℕ} {t : Times}
    (hctl : core ctl' mv = core ctl mv) (h : countedTimes ctl mv.packet icp t = none) :
    SameMinima (countReply ctl' mv icp t) ctl mv := by
  have hmode : ctl'.ipOptLen = ctl.ipOptLen := congrArg Core.ipOptLen hctl
  have hrtt : ctl'.minRtt = ctl.minRtt := congrArg Core.minRtt hctl
  have hdelta : ctl'.measureDelta1 = ctl.measureDelta1 := congrArg Core.measureDelta1 hctl
  unfold countedTimes at h
  dsimp only at h
  split_ifs at h with hrej
  obtain ⟨hsend, hrecv⟩ := withRemote_times ctl mv.packet icp t
  rw [hsend, hrecv] at hrej
  unfold countReply
  dsimp only
  by_cases hdiff : t.recvtime - t.sendtime < 0
  · rw [if_pos hdiff]
    exact ⟨rfl, rfl, hrtt, hdelta⟩
  · obtain ⟨hzero, hstd⟩ := hrej.resolve_left (by omega)
    have hmode' : (updateRtt ctl' (t.recvtime - t.sendtime)).ipOptLen = 0 := hmode.trans hzero
    rw [withRemote, if_pos hzero] at hstd
    simp only [if_neg hdiff, hmode', if_true, true_and]
    rw [if_pos hstd]
    exact ⟨rfl, rfl, hrtt, hdelta⟩

/-- The differences of the times enter the minima, and nothing else does. -/
def Enters (res : InnerResult) (ctl : RunState) (mv : MeasureVars) : Option Times → Prop
  | some t => core res.ctl res.mv = (core ctl mv).settle (wrapDay (t.histime - t.sendtime))
      (wrapDay (t.recvtime - t.histime1)) (t.recvtime - t.sendtime)
  | none => SameMinima res ctl mv

theorem enters_countReply {ctl ctl' : RunState} {mv : MeasureVars} (icp : ℕ) (t : Times)
    (hctl : core ctl' mv = core ctl mv) :
    Enters (countReply ctl' mv icp t) ctl mv (countedTimes ctl mv.packet icp t) := by
  cases h : countedTimes ctl mv.packet icp t with
  | none => exact sameMinima_countReply hctl h
  | some t' => exact core_countReply hctl h

theorem enters_parseDatagram (ctl : RunState) (mv : MeasureVars) (cc : ℤ) (ts1 : Timespec) :
    Enters (parseDatagram order ctl mv cc ts1) ctl mv
      (datagramTimes order ctl mv.packet cc ts1) := by
  unfold parseDatagram datagramTimes
  cases clockdiffPacketIcmp mv.packet cc with
  | none => exact ⟨rfl, rfl, rfl, rfl⟩
  | some icp =>
      dsimp only
      by_cases hwanted : ¬ Wanted order ctl mv.packet icp
      · rw [if_pos hwanted, if_pos hwanted]
        exact ⟨rfl, rfl, rfl, rfl⟩
      rw [if_neg hwanted, if_neg hwanted]
      by_cases hshort : ctl.ipOptLen = 0 ∧ clockdiffIcmpOctets cc icp < 20
      · rw [if_pos hshort, if_pos hshort]
        exact ⟨rfl, rfl, rfl, rfl⟩
      rw [if_neg hshort, if_neg hshort]
      by_cases hmode : ctl.ipOptLen ≠ 0
      · rw [if_pos hmode, if_pos hmode]
        cases optionTimes mv.packet (clockdiffIpopts icp) ctl.ipOptLen with
        | error ret => exact ⟨rfl, rfl, rfl, rfl⟩
        | ok t => exact enters_countReply icp t rfl
      · rw [if_neg hmode, if_neg hmode]
        exact enters_countReply icp _ rfl

/-- What a call of `measure_inner_loop` does with the times of a reply. -/
theorem enters_measureInnerLoop (ctl : RunState) (mv : MeasureVars) (p : Poll) :
    Enters (measureInnerLoop order ctl mv p) ctl mv (replyTimes order ctl mv p) := by
  cases p with
  | quiet => exact ⟨rfl, rfl, rfl, rfl⟩
  | interrupted => exact ⟨rfl, rfl, rfl, rfl⟩
  | failed => exact ⟨rfl, rfl, rfl, rfl⟩
  | datagram bytes ts1 =>
      have h : Enters (parseDatagram order ctl (receive mv bytes) (bytes.take packetIn).length ts1)
          ctl (receive mv bytes) _ := enters_parseDatagram ctl _ _ ts1
      cases ht : replyTimes order ctl mv (.datagram bytes ts1) with
      | none => exact (show datagramTimes order _ _ _ _ = none from ht) ▸ h
      | some t => exact (show datagramTimes order _ _ _ _ = some t from ht) ▸ h

/-- Both differences are within half a day, and right up to whole days. -/
structure DeltasRight (t : Times) (delta1 delta2 : ℤ) : Prop where
  out_ge : biasn ≤ delta1
  out_le : delta1 ≤ biasp
  back_ge : biasn ≤ delta2
  back_le : delta2 ≤ biasp
  out_mod : delta1 % modulo = (t.histime - t.sendtime) % modulo
  back_mod : delta2 % modulo = (t.recvtime - t.histime1) % modulo

/-- One day is enough to bring the difference into the range of half a day. -/
def WithinDay (x : ℤ) : Prop := biasn - modulo ≤ x ∧ x ≤ biasp + modulo

theorem wrapDay_range_iff (x : ℤ) : (biasn ≤ wrapDay x ∧ wrapDay x ≤ biasp) ↔ WithinDay x := by
  unfold WithinDay wrapDay biasn biasp modulo
  split_ifs <;> omega

theorem wrapDay_emod (x : ℤ) : wrapDay x % modulo = x % modulo := by
  unfold wrapDay
  split_ifs
  · exact Int.add_emod_right x modulo
  · exact Int.sub_emod_right x modulo
  · rfl

/-- The differences of a reply that is not rejected enter the minima. They are right
exactly when the times are at most one and a half days apart. -/
theorem deltas_right_iff {ctl : RunState} {mv : MeasureVars} {p : Poll} {t : Times}
    (h : replyTimes order ctl mv p = some t) :
    ∃ delta1 delta2,
      core (measureInnerLoop order ctl mv p).ctl (measureInnerLoop order ctl mv p).mv =
        (core ctl mv).settle delta1 delta2 (t.recvtime - t.sendtime) ∧
      (DeltasRight t delta1 delta2 ↔
        WithinDay (t.histime - t.sendtime) ∧ WithinDay (t.recvtime - t.histime1)) := by
  have henters : Enters (measureInnerLoop order ctl mv p) ctl mv _ :=
    enters_measureInnerLoop ctl mv p
  rw [h] at henters
  refine ⟨_, _, henters, ?_⟩
  rw [← wrapDay_range_iff, ← wrapDay_range_iff]
  constructor
  · intro hright
    exact ⟨⟨hright.out_ge, hright.out_le⟩, hright.back_ge, hright.back_le⟩
  · rintro ⟨⟨h₁, h₂⟩, h₃, h₄⟩
    exact ⟨h₁, h₂, h₃, h₄, wrapDay_emod _, wrapDay_emod _⟩

end

/-- A timestamp reply to a probe sent at midnight, with this remote time. -/
def timestampReply (remote : List UInt8) : List UInt8 :=
  0x45 :: List.replicate 19 0 ++ [14, 0, 0, 0, 7, 0, 1, 0] ++ [0, 0, 0, 0] ++ remote ++ remote

theorem deltas_right_noon :
    ∃ delta1 delta2, DeltasRight ⟨0, 256, 256, 1000⟩ delta1 delta2 ∧
      core (measureInnerLoop .host { id := 7, seqno := 1 } {}
          (.datagram (timestampReply [0, 0, 1, 0]) ⟨1, 0⟩)).ctl
        (measureInnerLoop .host { id := 7, seqno := 1 } {}
          (.datagram (timestampReply [0, 0, 1, 0]) ⟨1, 0⟩)).mv =
        (core { id := 7, seqno := 1 } {}).settle delta1 delta2 1000 := by
  have htimes : replyTimes .host { id := 7, seqno := 1 } {}
      (.datagram (timestampReply [0, 0, 1, 0]) ⟨1, 0⟩) = some ⟨0, 256, 256, 1000⟩ := by
    decide +kernel
  obtain ⟨delta1, delta2, hcore, hright⟩ := deltas_right_iff htimes
  exact ⟨delta1, delta2, hright.mpr ⟨⟨by decide, by decide⟩, by decide, by decide⟩, hcore⟩

/-- A remote clock that is more than a day and a half ahead: the first difference is
almost 24 days. -/
theorem delta_beyond_range :
    replyTimes .host { id := 7, seqno := 1 } {}
        (.datagram (timestampReply [0x7f, 0xff, 0xff, 0xff]) ⟨1, 0⟩) =
      some ⟨0, 2147483647, 2147483647, 1000⟩ ∧
    (measureInnerLoop .host { id := 7, seqno := 1 } {}
        (.datagram (timestampReply [0x7f, 0xff, 0xff, 0xff]) ⟨1, 0⟩)).mv.min1 = 2061083647 ∧
    ¬ ∃ delta1 delta2, DeltasRight ⟨0, 2147483647, 2147483647, 1000⟩ delta1 delta2 ∧
      core (measureInnerLoop .host { id := 7, seqno := 1 } {}
          (.datagram (timestampReply [0x7f, 0xff, 0xff, 0xff]) ⟨1, 0⟩)).ctl
        (measureInnerLoop .host { id := 7, seqno := 1 } {}
          (.datagram (timestampReply [0x7f, 0xff, 0xff, 0xff]) ⟨1, 0⟩)).mv =
        (core { id := 7, seqno := 1 } {}).settle delta1 delta2 1000 := by
  have hmin : (measureInnerLoop .host { id := 7, seqno := 1 } {}
      (.datagram (timestampReply [0x7f, 0xff, 0xff, 0xff]) ⟨1, 0⟩)).mv.min1 = 2061083647 := by
    decide +kernel
  refine ⟨by decide +kernel, hmin, ?_⟩
  rintro ⟨delta1, delta2, hright, hcore⟩
  have hsettled : (2061083647 : ℤ) = if delta1 < 0x7fffffff then delta1 else 0x7fffffff :=
    hmin.symm.trans (congrArg Core.min1 hcore)
  have hle := hright.out_le
  unfold biasp at hle
  rw [if_pos (by omega)] at hsettled
  omega

/-! ## The times of the option -/

/-- The time in slot `i` of the option at `opt`. -/
def slotAt (packet : List UInt8) (opt i : ℕ) : ℤ := be32At packet (opt + 4 + i * 8 + 4)

/-- The four times that are used of an option with `n` slots: the last two stand in
the last slots. -/
def usedTimes (packet : List UInt8) (opt n : ℕ) : Times where
  sendtime := slotAt packet opt 0
  histime := slotAt packet opt 1
  histime1 := slotAt packet opt (n - 2)
  recvtime := slotAt packet opt (n - 1)

def Times.missing (t : Times) : Prop :=
  t.sendtime = 0 ∨ t.histime = 0 ∨ t.histime1 = 0 ∨ t.recvtime = 0

/-- The four times have bit `k` in common. -/
def Times.shareBit (t : Times) (k : ℕ) : Prop :=
  t.sendtime.toNat.testBit k ∧ t.histime.toNat.testBit k ∧ t.histime1.toNat.testBit k ∧
    t.recvtime.toNat.testBit k

section
variable (order : IdOrder)

/-- The datagram of `cc` bytes is taken for a reply, with its ICMP header at `icp`: what stands
there is read as the option. -/
def Taken (ctl : RunState) (packet : List UInt8) (cc : ℤ) (icp : ℕ) : Prop :=
  clockdiffPacketIcmp packet cc = some icp ∧ Wanted order ctl packet icp

/-- The packet has an option at `opt` with the `n` slots that were requested, all of them
filled with standard times. -/
structure FilledOption (ctl : RunState) (packet : List UInt8) (opt n : ℕ) : Prop where
  mode : n = 3 ∨ n = 4
  optLen : ctl.ipOptLen = 4 + 8 * n
  prespec : byteAt packet (opt + 3) % 16 = ipoptTsPrespec
  filled : (byteAt packet (opt + 2) - 5).tdiv 8 = n
  standard : ∀ i < n, slotAt packet opt i < 0x80000000

/-- What no slot gives is 0. -/
def slotTimes (packet : List UInt8) (ipOptLen : ℤ) (opt m : ℕ) : Times where
  sendtime := slotAt packet opt 0
  histime := if 2 ≤ m then slotAt packet opt 1 else 0
  histime1 :=
    if 3 ≤ m ∧ ipOptLen = 4 + 4 * 8 then slotAt packet opt 2
    else if 2 ≤ m then slotAt packet opt 1
    else 0
  recvtime :=
    if m = 4 then slotAt packet opt 3
    else if m = 3 ∧ ipOptLen ≠ 4 + 4 * 8 then slotAt packet opt 2
    else 0

/-- What stands at `opt` reads as an option with `m` slots of standard times that have no bit in
common. -/
structure Apart (ctl : RunState) (packet : List UInt8) (opt m : ℕ) : Prop where
  few : 1 ≤ m ∧ m ≤ 4
  prespec : byteAt packet (opt + 3) % 16 = ipoptTsPrespec
  filled : (byteAt packet (opt + 2) - 5).tdiv 8 = m
  standard : ∀ i < m, slotAt packet opt i < 0x80000000
  apart : ¬ ∃ k, Times.shareBit (slotTimes packet ctl.ipOptLen opt m) k

variable {order}

theorem commonBit_iff (t : Times) : t.commonBit = true ↔ ∃ k, Times.shareBit t k := by
  unfold Times.commonBit
  rw [decide_eq_true_iff]
  constructor
  · intro hne
    obtain ⟨k, hk⟩ := Nat.exists_testBit_of_ne_zero hne
    simp only [Nat.testBit_and, Bool.and_eq_true] at hk
    exact ⟨k, hk.1.1.1, hk.1.1.2, hk.1.2, hk.2⟩
  · rintro ⟨k, h₁, h₂, h₃, h₄⟩ hzero
    have hk := congrArg (fun x => x.testBit k) hzero
    simp [Nat.testBit_and, h₁, h₂, h₃, h₄] at hk

theorem not_shareBit_of_missing {t : Times} (h : Times.missing t) :
    ¬ ∃ k, Times.shareBit t k := by
  rintro ⟨k, h₁, h₂, h₃, h₄⟩
  rcases h with h | h | h | h
  · simp [h] at h₁
  · simp [h] at h₂
  · simp [h] at h₃
  · simp [h] at h₄

/-- The loop over the slots finds their times. -/
theorem readSlots_standard {packet : List UInt8} {opt m : ℕ} (ipOptLen : ℤ) (hm : 1 ≤ m ∧ m ≤ 4)
    (hstd : ∀ i < m, slotAt packet opt i < 0x80000000) :
    readSlots packet opt ipOptLen m 0 {} = some (slotTimes packet ipOptLen opt m) := by
  have hpass : ∀ i < m, ¬ be32At packet (opt + 4 + i * 8 + 4) ≥ 0x80000000 :=
    fun i hi => not_le.mpr (hstd i hi)
  have hcases : m = 1 ∨ m = 2 ∨ m = 3 ∨ m = 4 := by omega
  rcases hcases with rfl | rfl | rfl | rfl
  · simp only [readSlots, if_neg (hpass 0 (by decide))]
    rfl
  · simp only [readSlots, if_neg (hpass 0 (by decide)), if_neg (hpass 1 (by decide))]
    rfl
  · simp only [readSlots, if_neg (hpass 0 (by decide)), if_neg (hpass 1 (by decide)),
      if_neg (hpass 2 (by decide))]
    by_cases hlen : ipOptLen = 36 <;> simp [Times.assign, slotTimes, slotAt, hlen]
  · simp only [readSlots, if_neg (hpass 0 (by decide)), if_neg (hpass 1 (by decide)),
      if_neg (hpass 2 (by decide)), if_neg (hpass 3 (by decide))]
    by_cases hlen : ipOptLen = 36 <;> simp [Times.assign, slotTimes, slotAt, hlen]

/-- A time that is not standard ends it. -/
theorem readSlots_nonstandard {packet : List UInt8} {opt : ℕ} {ipOptLen : ℤ} {m i : ℕ} {t t' : Times}
    (h : readSlots packet opt ipOptLen m i t = some t') :
    ∀ j < m, slotAt packet opt (i + j) < 0x80000000 := by
  induction m generalizing i t with
  | zero => exact fun j hj => absurd hj (Nat.not_lt_zero j)
  | succ m ih =>
      rw [readSlots] at h
      split_ifs at h with hstd
      intro j hj
      cases j with
      | zero => exact not_le.mp hstd
      | succ j =>
          have hrest := ih h j (by omega)
          rwa [show i + 1 + j = i + (j + 1) by omega] at hrest

theorem slotTimes_filled (packet : List UInt8) (opt : ℕ) {n : ℕ} (hn : n = 3 ∨ n = 4) :
    slotTimes packet (4 + 8 * n) opt n = usedTimes packet opt n := by
  rcases hn with rfl | rfl <;> rfl

theorem optionTimes_refused {ctl : RunState} {packet : List UInt8} {opt : ℕ} :
    optionTimes packet opt ctl.ipOptLen = .error (-1) ↔ ∃ m, Apart ctl packet opt m := by
  unfold optionTimes
  dsimp only
  constructor
  · intro h
    by_cases hprespec : byteAt packet (opt + 3) % 16 ≠ ipoptTsPrespec
    · rw [if_pos hprespec] at h
      cases h
    rw [if_neg hprespec] at h
    by_cases hfew : (byteAt packet (opt + 2) - 5).tdiv 8 ≤ 0 ∨ (byteAt packet (opt + 2) - 5).tdiv 8 > 4
    · rw [if_pos hfew] at h
      cases h
    rw [if_neg hfew] at h
    obtain ⟨m, hm⟩ := Int.eq_ofNat_of_zero_le (show 0 ≤ (byteAt packet (opt + 2) - 5).tdiv 8 by omega)
    rw [hm] at hfew
    rw [hm, Int.toNat_natCast] at h
    have hfew' : 1 ≤ m ∧ m ≤ 4 := by omega
    cases hread : readSlots packet opt ctl.ipOptLen m 0 {} with
    | none =>
        rw [hread] at h
        cases h
    | some t =>
        have hstd : ∀ i < m, slotAt packet opt i < 0x80000000 := fun i hi => by
          have hslot := readSlots_nonstandard hread i hi
          rwa [Nat.zero_add] at hslot
        obtain rfl := Option.some.inj ((readSlots_standard ctl.ipOptLen hfew' hstd).symm.trans hread)
        refine ⟨m, hfew', not_not.mp hprespec, hm, hstd, fun hshare => ?_⟩
        simp only [hread, if_pos ((commonBit_iff _).mpr hshare)] at h
        cases h
  · rintro ⟨m, h⟩
    have hm := h.few
    rw [if_neg (not_not.mpr h.prespec), h.filled, if_neg (by omega), Int.toNat_natCast,
      readSlots_standard ctl.ipOptLen h.few h.standard]
    exact if_neg fun hbit => h.apart ((commonBit_iff _).mp hbit)

theorem countReply_ne_refused (ctl : RunState) (mv : MeasureVars) (icp : ℕ) (t : Times) :
    (countReply ctl mv icp t).ret ≠ -1 := by
  have hsettle : ∀ ctl mv delta1 delta2 diff,
      (settle ctl mv delta1 delta2 diff).ret ≠ -1 := by
    intro ctl mv delta1 delta2 diff
    simp only [settle]
    by_cases hr : diff < range
    · rw [if_pos hr]
      exact (by decide : breakCode ≠ -1)
    · rw [if_neg hr]
      exact (by decide : continueCode ≠ -1)
  unfold countReply
  dsimp only
  by_cases hdiff : t.recvtime - t.sendtime < 0
  · rw [if_pos hdiff]
    exact (by decide : continueCode ≠ -1)
  · rw [if_neg hdiff]
    split_ifs
    all_goals first | exact hsettle _ _ _ _ _ | exact (by decide : nonstdtime ≠ -1)

theorem taken_unique {ctl : RunState} {packet : List UInt8} {cc : ℤ} {icp icp' : ℕ}
    (h : Taken order ctl packet cc icp) (h' : Taken order ctl packet cc icp') : icp' = icp :=
  Option.some.inj (h'.1.symm.trans h.1)

theorem apart_taken {ctl : RunState} {packet : List UInt8} {cc : ℤ} {icp : ℕ}
    (h : Taken order ctl packet cc icp) :
    (∃ icp', Taken order ctl packet cc icp' ∧ ∃ m, Apart ctl packet icp' m) ↔
      ∃ m, Apart ctl packet icp m := by
  constructor
  · rintro ⟨icp', h', hapart⟩
    exact taken_unique h h' ▸ hapart
  · exact fun hapart => ⟨icp, h, hapart⟩

/-- The code refuses what it takes for an option whose times have no bit in common. -/
theorem refused_iff {ctl : RunState} {mv : MeasureVars} {cc : ℤ} (ts1 : Timespec)
    (hmode : ctl.ipOptLen ≠ 0) :
    (parseDatagram order ctl mv cc ts1).ret = -1 ↔
      ∃ icp, Taken order ctl mv.packet cc icp ∧ ∃ m, Apart ctl mv.packet icp m := by
  have hskip : continueCode ≠ -1 := by decide
  unfold parseDatagram
  cases hicp : clockdiffPacketIcmp mv.packet cc with
  | none =>
      refine iff_of_false hskip ?_
      rintro ⟨icp, htaken, -⟩
      cases hicp.symm.trans htaken.1
  | some icp =>
      dsimp only
      by_cases hwanted : Wanted order ctl mv.packet icp
      · have htaken : Taken order ctl mv.packet cc icp := ⟨hicp, hwanted⟩
        rw [if_neg (not_not.mpr hwanted), if_neg fun hshort => hmode hshort.1, if_pos hmode,
          apart_taken htaken, ← optionTimes_refused, clockdiffIpopts]
        cases optionTimes mv.packet icp ctl.ipOptLen with
        | error ret => simp
        | ok t => exact iff_of_false (countReply_ne_refused _ _ _ _) (by simp)
      · rw [if_pos hwanted]
        refine iff_of_false hskip ?_
        rintro ⟨icp', htaken, -⟩
        obtain rfl := Option.some.inj (hicp.symm.trans htaken.1)
        exact hwanted htaken.2

theorem apart_filled {ctl : RunState} {packet : List UInt8} {opt n : ℕ}
    (h : FilledOption ctl packet opt n) :
    (∃ m, Apart ctl packet opt m) ↔ ¬ ∃ k, Times.shareBit (usedTimes packet opt n) k := by
  have hn := h.mode
  have htimes : slotTimes packet ctl.ipOptLen opt n = usedTimes packet opt n := by
    rw [h.optLen, slotTimes_filled packet opt h.mode]
  constructor
  · rintro ⟨m, hapart⟩
    obtain rfl : m = n := by
      have hm := hapart.filled.symm.trans h.filled
      omega
    exact htimes ▸ hapart.apart
  · exact fun hapart => ⟨n, by omega, h.prespec, h.filled, h.standard, htimes ▸ hapart⟩

/-- The option of an answer to a probe stands behind the fixed part of the IP header. -/
theorem filled_optionReply {ctl : RunState} (mv : MeasureVars) {n : ℕ} {bytes : List UInt8}
    (h : OptionReply order ctl n bytes) :
    FilledOption ctl (receive mv bytes).packet optionStart n := by
  have hn := h.mode
  have hheader := h.header
  have hcomplete := h.complete
  have hle := headerLen_le bytes
  have hbyte : ∀ i < optionStart + 4 + 8 * n, byteAt (receive mv bytes).packet i = byteAt bytes i :=
    fun i hi => byteAt_receive mv (by omega) (by unfold packetIn; omega)
  refine ⟨h.mode, h.optLen, ?_, ?_, fun i hi => ?_⟩
  · rw [hbyte _ (by omega)]
    exact h.prespec
  · rw [hbyte _ (by omega), h.pointer, h.optLen]
    rcases h.mode with rfl | rfl <;> rfl
  · have hslot : slotAt (receive mv bytes).packet optionStart i = slotTime bytes i := by
      have haddr : optionStart + 4 + i * 8 + 4 = optionStart + 8 + 8 * i := by omega
      unfold slotAt slotTime
      rw [haddr]
      unfold be32At be16At
      rw [hbyte _ (by omega), hbyte _ (by omega), hbyte _ (by omega), hbyte _ (by omega)]
    rw [hslot]
    exact (h.standard i hi).2

/-- An echo reply is never taken for an answer, whatever options it has. -/
theorem echo_not_taken {ctl : RunState} {mv : MeasureVars} {bytes : List UInt8} {cc : ℤ} {icp : ℕ}
    (hlen : headerLen bytes < bytes.length)
    (hecho : byteAt bytes (headerLen bytes) = icmpEchoreply) :
    ¬ Taken order ctl (receive mv bytes).packet cc icp := by
  rintro ⟨hicp, hwanted⟩
  have hle := headerLen_le bytes
  have hfirst : headerLen (receive mv bytes).packet = headerLen bytes := by
    unfold headerLen
    rw [byteAt_receive mv (by omega) (by decide)]
  refine echo_not_wanted ?_ hwanted
  rw [packetIcmp_eq hicp, hfirst, byteAt_receive mv hlen (by unfold packetIn; omega)]
  exact hecho

/-- A measurement is refused for missing times of its option and for no other reason: if the
option stands where it is read, exactly when a time is missing or the times that are used have
a bit in common; if nothing is read, exactly when none is missing; and by coincidence if
something else is read in its place. -/
theorem refusal_right_iff {ctl : RunState} {mv : MeasureVars} {bytes : List UInt8}
    {ts1 : Timespec} {opt n : ℕ} (h : FilledOption ctl (receive mv bytes).packet opt n) :
    ((measureInnerLoop order ctl mv (.datagram bytes ts1)).ret = -1 ↔
        Times.missing (usedTimes (receive mv bytes).packet opt n)) ↔
      Taken order ctl (receive mv bytes).packet (bytes.take packetIn).length opt ∧
          (Times.missing (usedTimes (receive mv bytes).packet opt n) ∨
            ∃ k, Times.shareBit (usedTimes (receive mv bytes).packet opt n) k) ∨
        (∀ icp, ¬ Taken order ctl (receive mv bytes).packet (bytes.take packetIn).length icp) ∧
          ¬ Times.missing (usedTimes (receive mv bytes).packet opt n) ∨
        ∃ icp, icp ≠ opt ∧
          Taken order ctl (receive mv bytes).packet (bytes.take packetIn).length icp ∧
          ((∃ m, Apart ctl (receive mv bytes).packet icp m) ↔
            Times.missing (usedTimes (receive mv bytes).packet opt n)) := by
  have hn := h.mode
  have hrefused : (measureInnerLoop order ctl mv (.datagram bytes ts1)).ret = -1 ↔ _ :=
    refused_iff ts1 (by rw [h.optLen]; omega)
  rw [hrefused]
  constructor
  · intro hiff
    by_cases hread : ∃ icp, Taken order ctl (receive mv bytes).packet (bytes.take packetIn).length icp
    · obtain ⟨icp, htaken⟩ := hread
      rw [apart_taken htaken] at hiff
      by_cases hicp : icp = opt
      · subst hicp
        rw [apart_filled h] at hiff
        refine Or.inl ⟨htaken, ?_⟩
        by_cases hshare : ∃ k, Times.shareBit (usedTimes (receive mv bytes).packet icp n) k
        · exact Or.inr hshare
        · exact Or.inl (hiff.mp hshare)
      · exact Or.inr (Or.inr ⟨icp, hicp, htaken, hiff⟩)
    · refine Or.inr (Or.inl ⟨fun icp htaken => hread ⟨icp, htaken⟩, fun hmissing => ?_⟩)
      obtain ⟨icp, htaken, -⟩ := hiff.mpr hmissing
      exact hread ⟨icp, htaken⟩
  · rintro (⟨htaken, hmissing | hshare⟩ | ⟨hnone, hpresent⟩ | ⟨icp, -, htaken, hiff⟩)
    · rw [apart_taken htaken, apart_filled h]
      exact iff_of_true (not_shareBit_of_missing hmissing) hmissing
    · rw [apart_taken htaken, apart_filled h]
      exact iff_of_false (not_not.mpr hshare) fun hmissing => not_shareBit_of_missing hmissing hshare
    · refine iff_of_false ?_ hpresent
      rintro ⟨icp, htaken, -⟩
      exact hnone icp htaken
    · rw [apart_taken htaken]
      exact hiff

end

/-- A timestamp reply that the code takes for an option with three slots: type, pointer
and flags are its type and its checksum. -/
def slotReply (histime recvtime word : UInt8) : List UInt8 :=
  0x45 :: List.replicate 19 0 ++ [14, 0, 29, 3, 7, 0, 1, 0] ++ [0, 0, 0, 1] ++
    [0, 0, 0xcc, word] ++ [0, 0, 0, histime] ++ [0, 0, 0, 0] ++ [0, 0, 0, recvtime]

/-- A run with `-o1`. -/
def threeSlots : RunState := { id := 7, ipOptLen := 28, seqno := 1 }

/-- Three times that share a bit are counted; and a reply to `-o` whose option stands in the IP
header is passed over, with all its times present. -/
theorem refusal_right_odd :
    ((measureInnerLoop .host threeSlots {} (.datagram (slotReply 3 5 0xf3) ⟨1, 0⟩)).ret = -1 ↔
      Times.missing ⟨1, 3, 3, 5⟩) ∧
    ((measureInnerLoop .host { id := 7, ipOptLen := 36, seqno := 1 } {}
        (.datagram fourSlots ⟨1, 0⟩)).ret = -1 ↔
      Times.missing ⟨257, 259, 261, 263⟩) := by
  constructor
  · have hfilled : FilledOption threeSlots (receive {} (slotReply 3 5 0xf3)).packet 20 3 :=
      ⟨by decide, by decide, by decide +kernel, by decide +kernel, by decide +kernel⟩
    have hused : usedTimes (receive {} (slotReply 3 5 0xf3)).packet 20 3 = ⟨1, 3, 3, 5⟩ := by
      decide +kernel
    have htaken : Taken .host threeSlots (receive {} (slotReply 3 5 0xf3)).packet
        ((slotReply 3 5 0xf3).take packetIn).length 20 := ⟨by decide +kernel, by decide +kernel⟩
    have hright : ((measureInnerLoop .host threeSlots {}
        (.datagram (slotReply 3 5 0xf3) ⟨1, 0⟩)).ret = -1 ↔ _) ↔ _ := refusal_right_iff hfilled
    rw [hused] at hright
    exact hright.mpr (.inl ⟨htaken, .inr ⟨0, by decide, by decide, by decide, by decide⟩⟩)
  · have hfilled := filled_optionReply {} fourSlots_optionReply
    have hused : usedTimes (receive {} fourSlots).packet optionStart 4 = ⟨257, 259, 261, 263⟩ := by
      decide +kernel
    have hright : ((measureInnerLoop .host { id := 7, ipOptLen := 36, seqno := 1 } {}
        (.datagram fourSlots ⟨1, 0⟩)).ret = -1 ↔ _) ↔ _ := refusal_right_iff hfilled
    rw [hused] at hright
    refine hright.mpr (.inr (.inl ⟨fun icp => echo_not_taken (by decide) (by decide), ?_⟩))
    unfold Times.missing
    decide

/-- An ICMP timestamp reply with three times that are all present and have no bit in common. -/
theorem present_times_refused :
    FilledOption threeSlots (receive {} (slotReply 2 4 0xf5)).packet 20 3 ∧
    Taken .host threeSlots (receive {} (slotReply 2 4 0xf5)).packet
      ((slotReply 2 4 0xf5).take packetIn).length 20 ∧
    usedTimes (receive {} (slotReply 2 4 0xf5)).packet 20 3 = ⟨1, 2, 2, 4⟩ ∧
    (measureInnerLoop .host threeSlots {} (.datagram (slotReply 2 4 0xf5) ⟨1, 0⟩)).ret = -1 ∧
    ¬ Times.missing ⟨1, 2, 2, 4⟩ := by
  refine ⟨?_, ⟨by decide +kernel, by decide +kernel⟩, by decide +kernel, by decide +kernel, ?_⟩
  · exact ⟨by decide, by decide, by decide +kernel, by decide +kernel, by decide +kernel⟩
  · unfold Times.missing
    decide

end Iputils.ClockdiffDeltas
