import Iputils.ClockdiffMeasure

/-!
# Only received bytes are measured

`recvfrom` overwrites the front of the packet buffer of clockdiff and leaves the rest.
In timestamp mode the checks on the lengths of the datagram, of its IP header and of
its ICMP part all precede the bytes they guard, so that leftovers of earlier datagrams
never reach the measurement, and only a complete timestamp reply to one of our probes
has an effect.
-/
set_option autoImplicit false

namespace Iputils.ClockdiffBytes
open MachineInt ByteBuffer PingState ClockdiffMeasure

/-- The length of the IP header. -/
def headerLen (packet : List UInt8) : ℕ := (byteAt packet 0 % 16).toNat * 4

/-- The first `cc` bytes are a complete timestamp reply to one of our probes. -/
structure TimestampReply (order : IdOrder) (ctl : RunState) (packet : List UInt8) (cc : ℕ) :
    Prop where
  header : 20 ≤ headerLen packet
  complete : headerLen packet + 20 ≤ cc
  type : byteAt packet (headerLen packet) = icmpTimestampreply
  ours : clockdiffIcmpId order packet (headerLen packet) = ctl.id
  fresh : ctl.seqno0 ≤ clockdiffIcmpSeq order packet (headerLen packet)
  sent : clockdiffIcmpSeq order packet (headerLen packet) ≤ ctl.seqno

/-- The same code and the same changes; the buffers may differ. -/
structure SameResult (res res' : InnerResult) : Prop where
  ret : res'.ret = res.ret
  ctl : res'.ctl = res.ctl
  mv : res'.mv = { res.mv with packet := res'.mv.packet }

/-- The call has no effect and asks to go on. -/
structure Skipped (ctl : RunState) (mv : MeasureVars) (res : InnerResult) : Prop where
  ret : res.ret = continueCode
  ctl : res.ctl = ctl
  mv : res.mv = { mv with packet := res.mv.packet }

section
variable {order : IdOrder} {ctl : RunState} {mv : MeasureVars} {cc : ℕ} {ts1 : Timespec}
  {packet packet' : List UInt8}

theorem settle_sameResult (ctl : RunState) (mv : MeasureVars) (packet' : List UInt8)
    (delta1 delta2 diff : ℤ) :
    SameResult (settle ctl mv delta1 delta2 diff)
      (settle ctl { mv with packet := packet' } delta1 delta2 diff) := by
  unfold settle
  dsimp only
  split_ifs <;> exact ⟨rfl, rfl, rfl⟩

/-- The remote time is all that a counted reply still takes from the buffer. -/
theorem countReply_sameResult {icp : ℕ} (h : be32At packet' (icp + 12) = be32At mv.packet (icp + 12))
    (t : Times) :
    SameResult (countReply ctl mv icp t) (countReply ctl { mv with packet := packet' } icp t) := by
  unfold countReply
  dsimp only
  rw [h]
  split_ifs
  · exact ⟨rfl, rfl, rfl⟩
  · exact ⟨rfl, rfl, rfl⟩
  · exact settle_sameResult _ _ packet' _ _ _
  · exact ⟨rfl, rfl, rfl⟩
  · exact settle_sameResult _ _ packet' _ _ _

/-- An ICMP header that is found lies behind a full IP header and was received. -/
theorem packetIcmp_some {icp : ℕ} (h : clockdiffPacketIcmp packet cc = some icp) :
    icp = headerLen packet ∧ 20 ≤ icp ∧ icp + 8 ≤ cc := by
  simp only [clockdiffPacketIcmp] at h
  split_ifs at h with hlong hhead
  have hicp := Option.some.inj h
  refine ⟨hicp.symm, ?_, ?_⟩ <;> omega

theorem packetIcmp_agree (h : Agree cc packet packet') :
    clockdiffPacketIcmp packet' cc = clockdiffPacketIcmp packet cc := by
  by_cases hcc : cc < 20
  · simp only [clockdiffPacketIcmp, Nat.cast_lt_ofNat, if_pos hcc]
  · rw [clockdiffPacketIcmp, clockdiffPacketIcmp, h.byteAt (by omega : 0 < cc)]

theorem load16_agree (h : Agree cc packet packet') {i : ℕ} (hi : i + 2 ≤ cc) :
    load16 order packet' i = load16 order packet i := by
  cases order with
  | host => exact (h.le16At hi).symm
  | network => exact (h.be16At hi).symm

theorem wanted_agree (h₀ : ctl.ipOptLen = 0) (h : Agree cc packet packet') {icp : ℕ}
    (hicp : icp + 8 ≤ cc) : Wanted order ctl packet' icp ↔ Wanted order ctl packet icp := by
  simp only [Wanted, h₀, ne_eq, not_true_eq_false, false_and, false_or, clockdiffIcmpId,
    clockdiffIcmpSeq, load16_agree h (by omega : icp + 4 + 2 ≤ cc),
    load16_agree h (by omega : icp + 6 + 2 ≤ cc), h.byteAt (by omega : icp < cc)]

theorem long_of_octets (h₀ : ctl.ipOptLen = 0) {icp : ℕ}
    (h : ¬ (ctl.ipOptLen = 0 ∧ clockdiffIcmpOctets cc icp < 20)) : icp + 20 ≤ cc := by
  have hnot : ¬ clockdiffIcmpOctets cc icp < 20 := fun hx => h ⟨h₀, hx⟩
  unfold clockdiffIcmpOctets at hnot
  split_ifs at hnot <;> omega

/-- The part of `measure_inner_loop` behind `recvfrom`. -/
theorem parseDatagram_sameResult (mv : MeasureVars) (h₀ : ctl.ipOptLen = 0) (h : Agree cc mv.packet packet') :
    SameResult (parseDatagram order ctl mv cc ts1)
      (parseDatagram order ctl { mv with packet := packet' } cc ts1) := by
  unfold parseDatagram
  dsimp only
  rw [packetIcmp_agree h]
  cases hicp : clockdiffPacketIcmp mv.packet cc with
  | none => exact ⟨rfl, rfl, rfl⟩
  | some icp =>
      obtain ⟨-, -, hcc⟩ := packetIcmp_some hicp
      dsimp only
      rw [if_neg (not_not_intro h₀), if_neg (not_not_intro h₀), clockdiffIcmpSeq, clockdiffIcmpSeq,
        load16_agree h (by omega : icp + 6 + 2 ≤ cc)]
      simp only [wanted_agree h₀ h hcc]
      by_cases hw : Wanted order ctl mv.packet icp
      · rw [if_neg (not_not_intro hw), if_neg (not_not_intro hw)]
        by_cases hoctets : ctl.ipOptLen = 0 ∧ clockdiffIcmpOctets cc icp < 20
        · rw [if_pos hoctets, if_pos hoctets]
          exact ⟨rfl, rfl, rfl⟩
        · -- only here the times behind the header are read
          have hlong := long_of_octets h₀ hoctets
          rw [if_neg hoctets, if_neg hoctets, ← h.be32At (by omega : icp + 8 + 4 ≤ cc)]
          exact countReply_sameResult (h.be32At (by omega)).symm _
      · rw [if_pos hw, if_pos hw]
        exact ⟨rfl, rfl, rfl⟩

/-- What is not a complete reply to one of our probes is passed over. -/
theorem parseDatagram_skipped (mv : MeasureVars) (ts1 : Timespec) (h₀ : ctl.ipOptLen = 0)
    (h : ¬ TimestampReply order ctl mv.packet cc) :
    Skipped ctl mv (parseDatagram order ctl mv cc ts1) := by
  unfold parseDatagram
  cases hicp : clockdiffPacketIcmp mv.packet cc with
  | none => exact ⟨rfl, rfl, rfl⟩
  | some icp =>
      obtain ⟨hhead, hlong, hcc⟩ := packetIcmp_some hicp
      dsimp only
      by_cases hw : Wanted order ctl mv.packet icp
      · rw [if_neg (not_not_intro hw)]
        by_cases hoctets : ctl.ipOptLen = 0 ∧ clockdiffIcmpOctets cc icp < 20
        · rw [if_pos hoctets]
          exact ⟨rfl, rfl, rfl⟩
        · have hreply := long_of_octets h₀ hoctets
          obtain ⟨htype, hid, hge, hle⟩ := hw
          rw [hhead] at hlong hreply htype hid hge hle
          refine absurd ⟨hlong, hreply, ?_, hid, hge, hle⟩ h
          rcases htype with ⟨hopt, -⟩ | htype
          · exact absurd h₀ hopt
          · exact htype
      · rw [if_pos hw]
        exact ⟨rfl, rfl, rfl⟩

theorem agree_receive (packet packet' bytes : List UInt8) :
    Agree (bytes.take packetIn).length (store packet 0 (bytes.take packetIn))
      (store packet' 0 (bytes.take packetIn)) := by
  simp only [Agree, store, List.take_zero, List.nil_append, List.take_left']

end

/-- With `ip_opt_len = 0`, what stood in the buffer does not matter, and nothing but a
complete timestamp reply to one of our probes has an effect. -/
theorem timestamp_uses_received (order : IdOrder) (ctl : RunState) (mv : MeasureVars)
    (ts1 : Timespec) (h₀ : ctl.ipOptLen = 0) :
    (∀ (cc : ℕ) (packet packet' : List UInt8), cc ≤ packetIn → Agree cc packet packet' →
      SameResult (parseDatagram order ctl { mv with packet := packet } cc ts1)
          (parseDatagram order ctl { mv with packet := packet' } cc ts1) ∧
        (¬ TimestampReply order ctl packet cc →
          Skipped ctl mv (parseDatagram order ctl { mv with packet := packet } cc ts1))) ∧
    (∀ (bytes packet packet' : List UInt8),
      SameResult (measureInnerLoop order ctl { mv with packet := packet } (.datagram bytes ts1))
        (measureInnerLoop order ctl { mv with packet := packet' } (.datagram bytes ts1))) := by
  constructor
  · intro cc packet packet' _ hagree
    have hres : SameResult (parseDatagram order ctl { mv with packet := packet } cc ts1)
        (parseDatagram order ctl { mv with packet := packet' } cc ts1) :=
      parseDatagram_sameResult { mv with packet := packet } h₀ hagree
    refine ⟨hres, fun hnot => ?_⟩
    obtain ⟨hret, hctl, hmv⟩ :=
      parseDatagram_skipped { mv with packet := packet } ts1 h₀ hnot
    exact ⟨hret, hctl, hmv⟩
  · intro bytes packet packet'
    exact parseDatagram_sameResult (receive { mv with packet := packet } bytes) h₀
      (agree_receive packet packet' bytes)

/-- A timestamp reply to probe 1. -/
def timestampReply : List UInt8 :=
  [0x45, 0, 0, 40, 0, 0, 0, 0, 64, 1, 0, 0, 10, 0, 0, 1, 10, 0, 0, 2,
    14, 0, 0, 0, 7, 0, 1, 0, 0, 0, 0, 1, 0, 0, 0, 1, 0, 0, 0, 1]

theorem timestamp_uses_received_reply :
    SameResult
      (parseDatagram .host { id := 7, seqno := 1 } { packet := timestampReply ++ [1] } 40 ⟨1, 0⟩)
      (parseDatagram .host { id := 7, seqno := 1 } { packet := timestampReply ++ [2] } 40 ⟨1, 0⟩) ∧
    Skipped { id := 7, seqno := 1 } {}
      (parseDatagram .host { id := 7, seqno := 1 } { packet := timestampReply ++ [1] } 39 ⟨1, 0⟩) := by
  have hall := (timestamp_uses_received .host { id := 7, seqno := 1 } {} ⟨1, 0⟩ rfl).1
  refine ⟨(hall 40 (timestampReply ++ [1]) (timestampReply ++ [2]) (by decide) (by decide)).1, ?_⟩
  refine (hall 39 (timestampReply ++ [1]) (timestampReply ++ [1]) (by decide) rfl).2 ?_
  intro hreply
  exact absurd hreply.complete (by decide)

end Iputils.ClockdiffBytes
