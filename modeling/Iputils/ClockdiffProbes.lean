import Iputils.ClockdiffMeasure
import Mathlib.Tactic.Ring

/-!
# How many probes a measurement sends

The message loop has two ways out: enough counted replies, or too many probes
beyond the newest acknowledged one. A reply that seems to have been received
before it was sent may advance `acked` and is not counted. The account charges
each early reply that advances `acked` like a counted one: every `TRIALS + 1`
probes have to be paid for by one of the two. The run of early replies at the end
pays forever, and the loop never comes to an end.
-/
set_option autoImplicit false

namespace Iputils.ClockdiffProbes
open MachineInt ByteBuffer PingState ClockdiffMeasure

section
variable (order : IdOrder)

/-- A datagram that advances `acked` and whose difference is negative. -/
def Early (ctl : RunState) (packet : List UInt8) (cc : ℤ) (ts1 : Timespec) (icp : ℕ) : Prop :=
  Wanted order ctl packet icp ∧ 20 ≤ clockdiffIcmpOctets cc icp ∧
    ctl.acked < clockdiffIcmpSeq order packet icp ∧ dayTime ts1 < be32At packet (icp + 8)

instance (ctl : RunState) (packet : List UInt8) (cc : ℤ) (ts1 : Timespec) (icp : ℕ) :
    Decidable (Early order ctl packet cc ts1 icp) := inferInstanceAs (Decidable (_ ∧ _))

def earlyDatagram (ctl : RunState) (packet : List UInt8) (cc : ℤ) (ts1 : Timespec) : Bool :=
  (clockdiffPacketIcmp packet cc).any fun icp => Early order ctl packet cc ts1 icp

def earlyReply (ctl : RunState) (mv : MeasureVars) : Poll → Bool
  | .datagram bytes ts1 =>
      earlyDatagram order ctl (receive mv bytes).packet (bytes.take packetIn).length ts1
  | _ => false

/-- One for a call of `sendto`. -/
def sendCost (_ : Machine) : Event → ℕ
  | .send _ => 1
  | .poll _ => 0

/-- One for an early reply. -/
def earlyCost (m : Machine) : Event → ℕ
  | .send _ => 0
  | .poll p => if m.phase = .waiting ∧ earlyReply order m.ctl m.mv p = true then 1 else 0

/-- The cost of the events that a run takes before it returns. -/
def total (cost : Machine → Event → ℕ) (m : Machine) : List Event → ℕ
  | [] => 0
  | e :: es =>
      if m.verdict.isSome then 0
      else
        match m.next order e with
        | none => 0
        | some (.inr _) => cost m e
        | some (.inl m') => cost m e + total cost m' es

/-- The probes that one call of `measure` sends. -/
def probesSent (ctl : RunState) (es : List Event) : ℕ :=
  total order sendCost (Machine.start ctl) es

def earlyReplies (ctl : RunState) (es : List Event) : ℕ :=
  total order (earlyCost order) (Machine.start ctl) es

end

variable {order : IdOrder}

/-- What the account is about. -/
structure Counters where
  ipOptLen : ℤ
  seqno : ℤ
  acked : ℤ
  msgcount : ℤ

def counters (ctl : RunState) (mv : MeasureVars) : Counters :=
  ⟨ctl.ipOptLen, ctl.seqno, ctl.acked, mv.msgcount⟩

theorem counters_settle (ctl : RunState) (mv : MeasureVars) (delta1 delta2 diff : ℤ) :
    counters (settle ctl mv delta1 delta2 diff).ctl (settle ctl mv delta1 delta2 diff).mv =
      counters ctl mv := by
  simp only [settle, counters]
  split_ifs <;> rfl

theorem counters_countReply {ctl : RunState} (h₀ : ctl.ipOptLen = 0) (mv : MeasureVars) (icp : ℕ)
    (t : Times) :
    counters (countReply ctl mv icp t).ctl (countReply ctl mv icp t).mv =
      { counters ctl mv with
        msgcount := if t.recvtime < t.sendtime then mv.msgcount else mv.msgcount + 1 } := by
  have hopt : (updateRtt ctl (t.recvtime - t.sendtime)).ipOptLen = 0 := h₀
  by_cases hneg : t.recvtime < t.sendtime
  · have hdiff : t.recvtime - t.sendtime < 0 := by omega
    simp only [countReply, if_pos hdiff, if_pos hneg]
    rfl
  · have hdiff : ¬ t.recvtime - t.sendtime < 0 := by omega
    simp only [countReply, if_neg hdiff, if_neg hneg, hopt, if_true, true_and]
    split_ifs
    · rfl
    · rw [counters_settle]
      rfl

/-- The acknowledgement of a reply with sequence number `seq`. -/
def acknowledged (acked seq : ℤ) : ℤ := if acked < seq then seq else acked

/-- What a datagram that is early or not does to the counters. -/
def Follows (ctl : RunState) (mv : MeasureVars) (early : Bool) (res : InnerResult) : Prop :=
  (counters res.ctl res.mv = counters ctl mv ∧ early = false) ∨
  ∃ seq ≤ ctl.seqno, counters res.ctl res.mv =
    { counters ctl mv with
      acked := acknowledged ctl.acked seq
      msgcount := if early then mv.msgcount else mv.msgcount + 1 }

/-- A datagram is passed over, or it acknowledges a probe; then it is counted
unless it is early. A negative difference that acknowledges nothing new leaves the
counters as they are. -/
theorem parseDatagram_follows {ctl : RunState} (h₀ : ctl.ipOptLen = 0) (mv : MeasureVars)
    (cc : ℤ) (ts1 : Timespec) :
    Follows ctl mv (earlyDatagram order ctl mv.packet cc ts1)
      (parseDatagram order ctl mv cc ts1) := by
  unfold parseDatagram earlyDatagram
  cases clockdiffPacketIcmp mv.packet cc with
  | none => exact Or.inl ⟨rfl, rfl⟩
  | some icp =>
      simp only [Option.any_some]
      by_cases hw : Wanted order ctl mv.packet icp
      · by_cases hlen : clockdiffIcmpOctets cc icp < 20
        · rw [if_neg (not_not.mpr hw), if_pos ⟨h₀, hlen⟩]
          exact Or.inl ⟨rfl, decide_eq_false fun h => absurd h.2.1 (not_le.mpr hlen)⟩
        · rw [if_neg (not_not.mpr hw), if_neg (fun h => hlen h.2), if_neg (not_not.mpr h₀)]
          have hearly : Early order ctl mv.packet cc ts1 icp ↔
              ctl.acked < clockdiffIcmpSeq order mv.packet icp ∧
                dayTime ts1 < be32At mv.packet (icp + 8) :=
            ⟨fun h => h.2.2, fun h => ⟨hw, not_lt.mp hlen, h⟩⟩
          rw [Follows, counters_countReply (by exact h₀)]
          simp only [decide_eq_true_eq, decide_eq_false_iff_not, hearly]
          by_cases hnew : ctl.acked < clockdiffIcmpSeq order mv.packet icp
          · refine Or.inr ⟨clockdiffIcmpSeq order mv.packet icp, hw.2.2.2, ?_⟩
            simp only [acknowledged, counters, hnew, true_and]
          · by_cases hneg : dayTime ts1 < be32At mv.packet (icp + 8)
            · refine Or.inl ⟨?_, fun h => hnew h.1⟩
              simp only [if_neg hnew, if_pos hneg]
              rfl
            · refine Or.inr ⟨clockdiffIcmpSeq order mv.packet icp, hw.2.2.2, ?_⟩
              simp only [hneg, and_false, if_false]
              rfl
      · rw [if_pos hw]
        exact Or.inl ⟨rfl, decide_eq_false fun h => hw h.1⟩

theorem inner_follows {ctl : RunState} (h₀ : ctl.ipOptLen = 0) (mv : MeasureVars) (p : Poll) :
    Follows ctl mv (earlyReply order ctl mv p) (measureInnerLoop order ctl mv p) := by
  cases p with
  | quiet | interrupted | failed => exact Or.inl ⟨rfl, rfl⟩
  | datagram bytes ts1 => exact parseDatagram_follows h₀ (receive mv bytes) _ ts1

/-- The account after `sent` probes and `early` early replies. -/
structure Budget (m : Machine) (sent early : ℕ) : Prop where
  ipOptLen : m.ctl.ipOptLen = 0
  fresh : m.phase = .draining → sent = 0
  sent_le : sent ≤ 11 * (50 + early)
  seqno : m.phase ≠ .draining → m.ctl.seqno = sent
  acked_le : m.phase ≠ .draining → m.ctl.acked ≤ m.ctl.seqno
  paid : m.phase ≠ .draining → m.ctl.acked ≤ 11 * (m.mv.msgcount + early)
  gap : m.phase ≠ .draining → m.ctl.seqno ≤ m.ctl.acked + 11

theorem budget_start {ctl : RunState} (h₀ : ctl.ipOptLen = 0) :
    Budget (Machine.start ctl) 0 0 := by
  refine ⟨h₀, fun _ => rfl, by omega, ?_, ?_, ?_, ?_⟩ <;> intro h <;> exact absurd rfl h

/-- The checks at the head of the loop leave room for one more probe. -/
theorem verdict_none {m : Machine} (hp : m.phase = .sending) (hv : m.verdict = none) :
    m.mv.msgcount < 50 ∧ m.ctl.seqno - m.ctl.acked ≤ 10 := by
  simp only [Machine.verdict, hp] at hv
  split_ifs at hv with h₁ h₂
  unfold msgs at h₁
  unfold trials at h₂
  omega

theorem Budget.send_le {m : Machine} {sent early : ℕ} (h : Budget m sent early)
    (hp : m.phase = .sending) (hv : m.verdict = none) : sent + 1 ≤ 11 * (50 + early) := by
  have hne : m.phase ≠ .draining := by simp [hp]
  obtain ⟨h₁, h₂⟩ := verdict_none hp hv
  have h₃ := h.seqno hne
  have h₄ := h.paid hne
  omega

theorem budget_send {m : Machine} {sent early : ℕ} (h : Budget m sent early)
    (hp : m.phase = .sending) (hv : m.verdict = none) (hsmall : 11 * (50 + early) < 65536) :
    Budget { m with ctl := { m.ctl with seqno := u16 (m.ctl.seqno + 1) }, phase := .waiting }
      (sent + 1) early := by
  have hne : m.phase ≠ .draining := by simp [hp]
  have hle := h.send_le hp hv
  have hseq := h.seqno hne
  have hnext : u16 (m.ctl.seqno + 1) = sent + 1 := by
    rw [hseq]
    exact u16_of_mem (by omega) (by omega)
  have hacked := h.acked_le hne
  have hroom := (verdict_none hp hv).2
  refine ⟨h.ipOptLen, fun hd => by simp at hd, hle, fun _ => ?_, fun _ => ?_,
    fun _ => h.paid hne, fun _ => ?_⟩
  · simpa using hnext
  · simp only [hnext]
    omega
  · simp only [hnext]
    omega

theorem budget_poll {m : Machine} {sent early : ℕ} (h : Budget m sent early)
    (hp : m.phase = .waiting) (p : Poll) {phase : Phase} (hnd : phase ≠ .draining) :
    Budget ⟨(measureInnerLoop order m.ctl m.mv p).ctl, (measureInnerLoop order m.ctl m.mv p).mv,
        phase⟩
      sent (early + earlyCost order m (.poll p)) := by
  have hne : m.phase ≠ .draining := by simp [hp]
  have hseq := h.seqno hne
  have hacked := h.acked_le hne
  have hpaid := h.paid hne
  have hgap := h.gap hne
  have hsent := h.sent_le
  rcases @inner_follows order m.ctl h.ipOptLen m.mv p with ⟨hc, hearly⟩ | ⟨seq, hle, hc⟩
  · simp only [counters, Counters.mk.injEq] at hc
    obtain ⟨h₁, h₂, h₃, h₄⟩ := hc
    have hcost : earlyCost order m (.poll p) = 0 := if_neg fun hx => by simp [hearly] at hx
    rw [hcost]
    refine ⟨h₁.trans h.ipOptLen, fun hd => absurd hd hnd, hsent, ?_, ?_, ?_, ?_⟩ <;> intro _ <;>
      dsimp only <;> omega
  · simp only [counters, Counters.mk.injEq, acknowledged] at hc
    obtain ⟨h₁, h₂, h₃, h₄⟩ := hc
    have hcost : earlyCost order m (.poll p) = if earlyReply order m.ctl m.mv p then 1 else 0 := by
      simp only [earlyCost, hp, true_and]
    rw [hcost]
    refine ⟨h₁.trans h.ipOptLen, fun hd => absurd hd hnd, by omega, ?_, ?_, ?_, ?_⟩ <;> intro _ <;>
      dsimp only <;> push_cast <;> split_ifs at h₃ h₄ ⊢ <;> omega

/-- What one event costs and leaves of the account; a run that returns has sent no
more than the account allows. -/
theorem budget_next {m : Machine} {e : Event} {sent early : ℕ} {next : Machine ⊕ (RunState × ℤ)}
    (h : Budget m sent early) (hv : m.verdict = none) (hsmall : 11 * (50 + early) < 65536)
    (hn : m.next order e = some next) :
    match next with
    | .inl m' => Budget m' (sent + sendCost m e) (early + earlyCost order m e)
    | .inr _ => sent + sendCost m e ≤ 11 * (50 + early) := by
  cases hp : m.phase with
  | draining =>
      have hzero := h.fresh hp
      have hquiet : ∀ p, earlyCost order m (.poll p) = 0 := fun p => if_neg (by simp [hp])
      cases e with
      | send ok => simp [Machine.next, hp] at hn
      | poll p =>
          rw [hquiet]
          cases p with
          | quiet =>
              simp only [Machine.next, hp, Option.some.injEq] at hn
              subst hn
              refine ⟨h.ipOptLen, fun hd => by simp at hd, h.sent_le, ?_, ?_, ?_, ?_⟩ <;>
                intro _ <;> simp [hzero, sendCost]
          | interrupted => simp [Machine.next, hp] at hn
          | failed =>
              simp only [Machine.next, hp, Option.some.injEq] at hn
              subst hn
              exact h.sent_le
          | datagram bytes ts1 =>
              simp only [Machine.next, hp, Option.some.injEq] at hn
              subst hn
              exact ⟨h.ipOptLen, fun _ => hzero, h.sent_le, fun hd => absurd rfl hd,
                fun hd => absurd rfl hd, fun hd => absurd rfl hd, fun hd => absurd rfl hd⟩
  | sending =>
      cases e with
      | poll p => simp [Machine.next, hp] at hn
      | send ok =>
          simp only [Machine.next, hp] at hn
          split_ifs at hn
          · obtain rfl := Option.some.inj hn
            exact budget_send h hp hv hsmall
          · obtain rfl := Option.some.inj hn
            exact h.send_le hp hv
  | waiting =>
      cases e with
      | send ok => simp [Machine.next, hp] at hn
      | poll p =>
          simp only [Machine.next, hp] at hn
          split_ifs at hn
          · obtain rfl := Option.some.inj hn
            exact budget_poll h hp p (by simp)
          · obtain rfl := Option.some.inj hn
            exact budget_poll h hp p (by simp)
          · obtain rfl := Option.some.inj hn
            exact h.sent_le

/-- Over a whole run, every eleven probes have been paid for by a counted reply or
by an early one. -/
theorem total_sendCost_le {m : Machine} {es : List Event} {sent early : ℕ}
    (h : Budget m sent early)
    (hsmall : 11 * (50 + (early + total order (earlyCost order) m es)) < 65536) :
    sent + total order sendCost m es ≤
      11 * (50 + (early + total order (earlyCost order) m es)) := by
  induction es generalizing m sent early with
  | nil =>
      have hle := h.sent_le
      simpa [total] using hle
  | cons e es ih =>
      have hle := h.sent_le
      simp only [total] at hsmall ⊢
      cases hv : m.verdict with
      | some res =>
          simp only [hv, Option.isSome_some, if_true, Nat.add_zero] at hsmall ⊢
          exact hle
      | none =>
          simp only [hv, Option.isSome_none, Bool.false_eq_true, if_false] at hsmall ⊢
          cases hn : m.next order e with
          | none => simpa [hn] using hle
          | some next =>
              simp only [hn] at hsmall ⊢
              cases next with
              | inl m' =>
                  dsimp only at hsmall ⊢
                  have hb := budget_next h hv (by omega) hn
                  have hrun := ih hb (by omega)
                  omega
              | inr res =>
                  dsimp only at hsmall ⊢
                  have hb := budget_next h hv (by omega) hn
                  dsimp only at hb
                  omega

/-- In timestamp mode a call in which at most five early replies advance `acked` sends
at most `(MSGS + 1) * (TRIALS + 2)` probes. -/
theorem probes_bounded {ctl : RunState} (h₀ : ctl.ipOptLen = 0) {es : List Event}
    (hearly : earlyReplies order ctl es ≤ 5) :
    (probesSent order ctl es : ℤ) ≤ (msgs + 1) * (trials + 2) := by
  unfold earlyReplies at hearly
  have hle := @total_sendCost_le order _ es 0 0 (budget_start h₀) (by omega)
  unfold probesSent msgs trials
  omega

/-- A host that does not answer: eleven probes, each with a poll that times out. -/
def silentRun : List Event :=
  .poll .quiet :: (List.replicate 11 [Event.send true, .poll .quiet]).flatten

theorem probes_bounded_silent :
    earlyReplies .host { id := 7 } silentRun ≤ 5 ∧
      (probesSent .host { id := 7 } silentRun : ℤ) ≤ (msgs + 1) * (trials + 2) := by
  have h : earlyReplies .host { id := 7 } silentRun ≤ 5 := by decide +kernel
  exact ⟨h, probes_bounded rfl h⟩

/-- A timestamp reply to probe `n` that claims to have been sent at one
millisecond past midnight. -/
def earlyBytes (n : ℤ) : List UInt8 :=
  [0x45, 0, 0, 40, 0, 0, 0, 0, 64, 1, 0, 0, 10, 0, 0, 1, 10, 0, 0, 2] ++
  [14, 0, 0, 0] ++ le16 7 ++ le16 n ++ [0, 0, 0, 1, 0, 0, 0, 1, 0, 0, 0, 1]

/-- Probe `n`, the early reply to it received at midnight, and a timeout. -/
def stalledRound (n : ℤ) : List Event :=
  [.send true, .poll (.datagram (earlyBytes n) {}), .poll .quiet]

def stalledRounds : ℕ → ℤ → List Event
  | 0, _ => []
  | k + 1, n => stalledRound n ++ stalledRounds k (n + 1)

def stalledRun (k : ℕ) : List Event := .poll .quiet :: stalledRounds k 1

/-- Every probe has been acknowledged and no reply counted. -/
structure Stalled (m : Machine) (n : ℤ) : Prop where
  id : m.ctl.id = 7
  ipOptLen : m.ctl.ipOptLen = 0
  seqno0 : m.ctl.seqno0 = 0
  seqno : m.ctl.seqno = n
  acked : m.ctl.acked = n
  msgcount : m.mv.msgcount = 0
  phase : m.phase = .sending

theorem receive_earlyBytes (mv : MeasureVars) (n : ℤ) :
    (receive mv (earlyBytes n)).packet = earlyBytes n ++ mv.packet.drop 40 := rfl

theorem seq_earlyBytes {n : ℤ} (h₀ : 0 ≤ n) (h₁ : n < 65536) (rest : List UInt8) :
    clockdiffIcmpSeq .host (earlyBytes n ++ rest) 20 = n := by
  change byteVal (byteOf n) + 256 * byteVal (byteOf (n / 256)) = n
  rw [byteVal_byteOf, byteVal_byteOf]
  omega

theorem stalled_datagram {ctl : RunState} {mv : MeasureVars} {n : ℤ} (hid : ctl.id = 7)
    (h₀ : ctl.ipOptLen = 0) (hs₀ : ctl.seqno0 = 0) (hseq : ctl.seqno = n) (hack : ctl.acked < n)
    (hn₀ : 0 ≤ n) (hn₁ : n < 65536) :
    measureInnerLoop .host ctl mv (.datagram (earlyBytes n) {}) =
      ⟨{ ctl with acked := n }, receive mv (earlyBytes n), continueCode⟩ := by
  have hicp : clockdiffPacketIcmp (receive mv (earlyBytes n)).packet
      ((earlyBytes n).take packetIn).length = some 20 := by
    have hfirst : byteAt (receive mv (earlyBytes n)).packet 0 = 69 := by
      rw [receive_earlyBytes]
      rfl
    have hlen : ((earlyBytes n).take packetIn).length = 40 := rfl
    rw [clockdiffPacketIcmp, hfirst, hlen]
    decide
  have hs : clockdiffIcmpSeq .host (receive mv (earlyBytes n)).packet 20 = n := by
    rw [receive_earlyBytes]
    exact seq_earlyBytes hn₀ hn₁ _
  have hi : clockdiffIcmpId .host (receive mv (earlyBytes n)).packet 20 = ctl.id := by
    rw [receive_earlyBytes, hid]
    rfl
  have htype : byteAt (receive mv (earlyBytes n)).packet 20 = icmpTimestampreply := by
    rw [receive_earlyBytes]
    rfl
  have hw : Wanted .host ctl (receive mv (earlyBytes n)).packet 20 :=
    ⟨Or.inr htype, hi, by omega, by omega⟩
  have hoct : ¬ clockdiffIcmpOctets ((earlyBytes n).take packetIn).length 20 < 20 := by
    change ¬ ((40 : ℤ) - 20 < 20)
    omega
  have htime : be32At (receive mv (earlyBytes n)).packet (20 + 8) = 1 := by
    rw [receive_earlyBytes]
    rfl
  have hmidnight : dayTime {} = 0 := rfl
  change parseDatagram .host ctl (receive mv (earlyBytes n))
    ((earlyBytes n).take packetIn).length {} = _
  rw [parseDatagram, hicp]
  dsimp only
  rw [if_neg (not_not.mpr hw), if_neg (fun h => hoct h.2), if_neg (not_not.mpr h₀), hs,
    if_pos hack]
  unfold countReply
  rw [htime, hmidnight, if_pos (by decide)]

/-- A round is one more probe, one more acknowledgement and no counted reply. -/
theorem stalled_round {m : Machine} {n : ℤ} (h : Stalled m n) (hn₀ : 0 ≤ n) (hn₁ : n + 1 < 65536)
    (es : List Event) :
    ∃ m', Stalled m' (n + 1) ∧
      total .host sendCost m (stalledRound (n + 1) ++ es) = 1 + total .host sendCost m' es ∧
      m.run .host (stalledRound (n + 1) ++ es) = m'.run .host es := by
  obtain ⟨hid, hopt, hs₀, hseq, hack, hcount, hphase⟩ := h
  have hv : m.verdict = none := by
    simp only [Machine.verdict, hphase, hcount, hseq, hack, msgs, trials]
    rw [if_neg (by omega), if_neg (by omega)]
  have hnext : u16 (m.ctl.seqno + 1) = n + 1 := by
    rw [hseq]
    exact u16_of_mem (by omega) (by omega)
  -- The three states behind the send, the early reply and the timeout.
  obtain ⟨m₁, hm₁⟩ : ∃ m₁ : Machine, m₁ =
      { m with ctl := { m.ctl with seqno := n + 1 }, phase := .waiting } := ⟨_, rfl⟩
  obtain ⟨m₂, hm₂⟩ : ∃ m₂ : Machine, m₂ =
      ⟨{ m.ctl with seqno := n + 1, acked := n + 1 }, receive m.mv (earlyBytes (n + 1)),
        .waiting⟩ := ⟨_, rfl⟩
  have h₁ : m.next .host (.send true) = some (.inl m₁) := by
    simp only [Machine.next, hphase, hnext, if_true, hm₁]
  have h₂ : m₁.next .host (.poll (.datagram (earlyBytes (n + 1)) {})) = some (.inl m₂) := by
    have hd := @stalled_datagram { m.ctl with seqno := n + 1 } m.mv (n + 1) hid hopt hs₀ rfl
      (by dsimp only; omega) (by omega) hn₁
    simp only [Machine.next, hm₁, hd, hm₂]
    rfl
  have h₃ : m₂.next .host (.poll .quiet) = some (.inl { m₂ with phase := .sending }) := by
    simp only [Machine.next, hm₂]
    rfl
  have hv₁ : m₁.verdict = none := by simp only [Machine.verdict, hm₁]
  have hv₂ : m₂.verdict = none := by simp only [Machine.verdict, hm₂]
  refine ⟨{ m₂ with phase := .sending }, ?_, ?_, ?_⟩
  · rw [hm₂]
    exact ⟨hid, hopt, hs₀, rfl, rfl, hcount, rfl⟩
  · simp [stalledRound, total, hv, hv₁, hv₂, h₁, h₂, h₃, sendCost]
  · simp [stalledRound, Machine.run, hv, hv₁, hv₂, h₁, h₂, h₃]

theorem stalled_rounds {m : Machine} {n : ℤ} (h : Stalled m n) (hn₀ : 0 ≤ n) {k : ℕ}
    (hk : n + k < 65536) :
    total .host sendCost m (stalledRounds k (n + 1)) = k ∧
      m.run .host (stalledRounds k (n + 1)) = none := by
  induction k generalizing m n with
  | zero =>
      obtain ⟨-, -, -, hseq, hack, hcount, hphase⟩ := h
      refine ⟨rfl, ?_⟩
      simp [stalledRounds, Machine.run, Machine.verdict, hphase, hcount, hseq, hack, msgs, trials]
  | succ k ih =>
      push_cast at hk
      obtain ⟨m', hs, ht, hr⟩ := stalled_round h hn₀ (by omega) (stalledRounds k (n + 1 + 1))
      obtain ⟨ht', hr'⟩ := ih hs (by omega) (by omega)
      refine ⟨?_, ?_⟩
      · rw [stalledRounds, ht, ht']
        omega
      · rw [stalledRounds, hr, hr']

/-- 613 probes, each answered by a reply whose originate time lies ahead of the
local clock: the call has not returned. -/
theorem stalled_run_exceeds :
    ({ id := 7 } : RunState).ipOptLen = 0 ∧
    (probesSent .host { id := 7 } (stalledRun 613) : ℤ) > (msgs + 1) * (trials + 2) ∧
    ClockdiffMeasure.measure .host { id := 7 } (stalledRun 613) = none := by
  obtain ⟨m, hm⟩ : ∃ m : Machine,
      (Machine.start { id := 7 }).next .host (.poll .quiet) = some (.inl m) ∧ Stalled m 0 :=
    ⟨_, rfl, ⟨rfl, rfl, rfl, rfl, rfl, rfl, rfl⟩⟩
  obtain ⟨hnext, hs⟩ := hm
  obtain ⟨ht, hr⟩ := @stalled_rounds m 0 hs le_rfl 613 (by omega)
  have hv : (Machine.start { id := 7 }).verdict = none := rfl
  refine ⟨rfl, ?_, ?_⟩
  · have hcount : probesSent .host { id := 7 } (stalledRun 613) = 613 := by
      simp only [probesSent, stalledRun, total, hv, Option.isSome_none, Bool.false_eq_true,
        if_false, hnext]
      rw [zero_add] at ht
      simp [sendCost, ht]
    rw [hcount]
    decide
  · rw [zero_add] at hr
    simp only [ClockdiffMeasure.measure, stalledRun, Machine.run, hv, hnext, hr]

end Iputils.ClockdiffProbes
