import Iputils.ClockdiffOffset

/-!
# Clock offsets from the IP timestamp option

With `-o` or `-o1` the probes are echo requests that carry an IP timestamp
option, and the times of a reply stand in its IP header, behind the twenty
fixed bytes. `clockdiff_ipopts` adds the length of the whole header to the
packet instead, which is where the ICMP header starts: the byte that must be
the option type is the ICMP type. No echo reply passes that test.
-/
set_option autoImplicit false

namespace Iputils.ClockdiffOptions
open MachineInt ByteBuffer PingState ClockdiffMeasure ClockdiffOffset

/-- The length of the fixed part of the IP header. -/
def optionStart : ℕ := 20

def headerLen (bytes : List UInt8) : ℕ := (byteAt bytes 0 % 16).toNat * 4

/-- The time in slot `i` of the option at the start of the option area. -/
def slotTime (bytes : List UInt8) (i : ℕ) : ℤ := be32At bytes (optionStart + 8 + 8 * i)

section
variable (order : IdOrder)

/-- An echo reply to one of our probes whose option area starts with a timestamp
option with `n` prespecified and filled slots. -/
structure OptionReply (ctl : RunState) (n : ℕ) (bytes : List UInt8) : Prop where
  mode : n = 3 ∨ n = 4
  optLen : ctl.ipOptLen = 4 + 8 * n
  version : byteAt bytes 0 / 16 = 4
  header : optionStart + 4 + 8 * n ≤ headerLen bytes
  complete : headerLen bytes + 8 ≤ bytes.length
  echo : byteAt bytes (headerLen bytes) = icmpEchoreply
  ours : clockdiffIcmpId order bytes (headerLen bytes) = ctl.id
  fresh : clockdiffIcmpSeq order bytes (headerLen bytes) ≥ ctl.seqno0
  sent : clockdiffIcmpSeq order bytes (headerLen bytes) ≤ ctl.seqno
  option : byteAt bytes optionStart = ipoptTimestamp
  length : byteAt bytes (optionStart + 1) = ctl.ipOptLen
  pointer : byteAt bytes (optionStart + 2) = ctl.ipOptLen + 1
  prespec : byteAt bytes (optionStart + 3) % 16 = ipoptTsPrespec
  standard : ∀ i < n, 0 < slotTime bytes i ∧ slotTime bytes i < 0x80000000
  common : ∃ k, ∀ i < n, (slotTime bytes i).toNat.testBit k
  forward : slotTime bytes 0 ≤ slotTime bytes (n - 1)

/-- The datagram is counted, with the differences of its slot times. -/
def UsesSlots (ctl : RunState) (mv : MeasureVars) (n : ℕ) (bytes : List UInt8) (ts1 : Timespec) :
    Prop :=
  let res := measureInnerLoop order ctl mv (.datagram bytes ts1)
  core res.ctl res.mv = (core ctl mv).settle
    (wrapDay (slotTime bytes 1 - slotTime bytes 0))
    (wrapDay (slotTime bytes (n - 1) - slotTime bytes (n - 2)))
    (slotTime bytes (n - 1) - slotTime bytes 0)

variable {order}

theorem byteAt_receive (mv : MeasureVars) {bytes : List UInt8} {i : ℕ} (h₁ : i < bytes.length)
    (h₂ : i < packetIn) : byteAt (receive mv bytes).packet i = byteAt bytes i := by
  have hi : i < (bytes.take packetIn).length := by
    simp only [List.length_take]
    omega
  simp only [byteAt, receive, store, List.take_zero, List.nil_append]
  rw [List.getD_eq_getElem?_getD, List.getElem?_append_left hi, List.getElem?_take_of_lt h₂,
    List.getD_eq_getElem?_getD]

theorem headerLen_le (bytes : List UInt8) : headerLen bytes ≤ 60 := by
  unfold headerLen
  omega

theorem packetIcmp_eq {packet : List UInt8} {cc : ℤ} {icp : ℕ}
    (h : clockdiffPacketIcmp packet cc = some icp) : icp = headerLen packet := by
  simp only [clockdiffPacketIcmp] at h
  split_ifs at h
  exact (Option.some.inj h).symm

/-- The type byte of an echo reply is not the type of the option. -/
theorem echo_not_wanted {ctl : RunState} {packet : List UInt8} {icp : ℕ}
    (h : byteAt packet icp = icmpEchoreply) : ¬ Wanted order ctl packet icp := by
  intro hx
  rcases hx with ⟨⟨-, -, hopt⟩ | hts, -⟩
  · have hne : icmpEchoreply ≠ ipoptTimestamp := by decide
    exact hne (h.symm.trans hopt)
  · have hne : icmpEchoreply ≠ icmpTimestampreply := by decide
    exact hne (h.symm.trans hts)

/-- Every echo reply is passed over, whatever its options are. -/
theorem echo_skipped {ctl : RunState} {mv : MeasureVars} {bytes : List UInt8} {ts1 : Timespec}
    (hlen : headerLen bytes < bytes.length)
    (hecho : byteAt bytes (headerLen bytes) = icmpEchoreply) :
    measureInnerLoop order ctl mv (.datagram bytes ts1) =
      ⟨ctl, receive mv bytes, continueCode⟩ := by
  have hle := headerLen_le bytes
  have hfirst : headerLen (receive mv bytes).packet = headerLen bytes := by
    unfold headerLen
    rw [byteAt_receive mv (by omega) (by decide)]
  cases hicp : clockdiffPacketIcmp (receive mv bytes).packet (bytes.take packetIn).length with
  | none => simp only [measureInnerLoop, parseDatagram, hicp]
  | some icp =>
      have htype : byteAt (receive mv bytes).packet icp = icmpEchoreply := by
        rw [packetIcmp_eq hicp, hfirst, byteAt_receive mv hlen (by unfold packetIn; omega)]
        exact hecho
      simp only [measureInnerLoop, parseDatagram, hicp]
      exact if_pos (echo_not_wanted htype)

theorem not_usesSlots_of_echo {ctl : RunState} {mv : MeasureVars} {n : ℕ} {bytes : List UInt8}
    {ts1 : Timespec} (hlen : headerLen bytes < bytes.length)
    (hecho : byteAt bytes (headerLen bytes) = icmpEchoreply) :
    ¬ UsesSlots order ctl mv n bytes ts1 := by
  intro h
  simp only [UsesSlots, echo_skipped hlen hecho] at h
  have hcount : mv.msgcount = mv.msgcount + 1 := congrArg Core.msgcount h
  omega

/-- The option mode never counts a reply to its own probes. -/
theorem option_reply_not_used {ctl : RunState} {mv : MeasureVars} {n : ℕ} {bytes : List UInt8}
    {ts1 : Timespec} (h : OptionReply order ctl n bytes) :
    ¬ UsesSlots order ctl mv n bytes ts1 := by
  have hlen := h.complete
  exact not_usesSlots_of_echo (by omega) h.echo

/-- A reply to `-o`: 56 bytes of IP header with four slots, and an echo reply. -/
def fourSlots : List UInt8 :=
  [0x4e, 0, 0, 64] ++ List.replicate 16 0 ++
    [68, 36, 37, 3] ++ [127, 0, 0, 1, 0, 0, 1, 1] ++ [127, 0, 0, 2, 0, 0, 1, 3] ++
    [127, 0, 0, 2, 0, 0, 1, 5] ++ [127, 0, 0, 1, 0, 0, 1, 7] ++ [0, 0, 0, 0, 7, 0, 1, 0]

theorem fourSlots_optionReply :
    OptionReply .host { id := 7, ipOptLen := 36, seqno := 1 } 4 fourSlots := by
  constructor <;> try decide
  exact ⟨0, by decide⟩

theorem option_reply_not_used_four : ¬ UsesSlots .host { id := 7, ipOptLen := 36, seqno := 1 } {} 4
    fourSlots ⟨1, 0⟩ :=
  option_reply_not_used fourSlots_optionReply

theorem four_slots_skipped : ¬ ∀ (order : IdOrder) (ctl : RunState) (mv : MeasureVars) (n : ℕ)
    (bytes : List UInt8) (ts1 : Timespec),
    OptionReply order ctl n bytes → UsesSlots order ctl mv n bytes ts1 := by
  intro h
  have huse := h .host { id := 7, ipOptLen := 36, seqno := 1 } {} 4 fourSlots ⟨1, 0⟩
    fourSlots_optionReply
  exact not_usesSlots_of_echo (by decide) (by decide) huse

end

end Iputils.ClockdiffOptions
