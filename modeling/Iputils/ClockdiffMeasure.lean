import Iputils.MachineInt
import Iputils.ByteBuffer
import Iputils.PingState

/-!
# One measurement of clockdiff

`measure` and `measure_inner_loop` over the bytes of the received datagrams. The
kernel is a list of events: clock readings with the outcome of `sendto`, and
what `ppoll` and `recvfrom` deliver. A datagram overwrites the front of the
packet buffer and leaves what earlier ones stored behind it. `ts1` of an event
is the reading of the real-time clock that the code takes at that point. The
outgoing packet and the poll timeout influence nothing here and are left out.
-/
set_option autoImplicit false

namespace Iputils.ClockdiffMeasure
open MachineInt ByteBuffer PingState

def range : ℤ := 1
def msgs : ℤ := 50
def trials : ℤ := 10
def good : ℤ := 0
def unreachable : ℤ := 2
def nonstdtime : ℤ := 3
def breakCode : ℤ := 4
def continueCode : ℤ := 5
def hostdown : ℤ := 0x7fffffff
def biasp : ℤ := 43199999
def biasn : ℤ := -43200000
def modulo : ℤ := 86400000
def processingTime : ℤ := 0
def packetIn : ℕ := 1024

def icmpEchoreply : ℤ := 0
def icmpTimestampreply : ℤ := 14
def ipoptTimestamp : ℤ := 68
def ipoptTsPrespec : ℤ := 3

structure RunState where
  id : ℤ
  ipOptLen : ℤ := 0
  measureDelta : ℤ := 0
  measureDelta1 : ℤ := 0
  seqno : ℤ := 0
  seqno0 : ℤ := 0
  acked : ℤ := 0
  rtt : ℤ := 1000
  minRtt : ℤ := 0
  rttSigma : ℤ := 0
deriving Repr, DecidableEq

structure MeasureVars where
  packet : List UInt8 := List.replicate packetIn 0
  msgcount : ℤ := 0
  min1 : ℤ := 0x7fffffff
  min2 : ℤ := 0x7fffffff
deriving DecidableEq

/-- The byte order of the identifier: `CLOCKDIFF_ICMP_ID_NET_ORDER`. -/
inductive IdOrder
  | host
  | network
deriving Repr, DecidableEq

section
variable (order : IdOrder)

/-- Offset of the ICMP header, which is also the length of the IP header. -/
def clockdiffPacketIcmp (packet : List UInt8) (pktLen : ℤ) : Option ℕ :=
  let ihl := (byteAt packet 0 % 16).toNat
  let hlen := ihl * 4
  if pktLen < 20 then none
  else if ihl < 5 ∨ (hlen : ℤ) > pktLen ∨ pktLen - hlen < 8 then none
  else some hlen

/-- The offset at which the code looks for the options. -/
def clockdiffIpopts (ipHdrLen : ℕ) : ℕ := ipHdrLen

def clockdiffIcmpOctets (pktLen : ℤ) (ipHdrLen : ℕ) : ℤ :=
  if pktLen - ipHdrLen ≥ 0 then pktLen - ipHdrLen else 0

def load16 (packet : List UInt8) (i : ℕ) : ℤ :=
  match order with
  | .host => le16At packet i
  | .network => be16At packet i

def clockdiffIcmpId (packet : List UInt8) (icp : ℕ) : ℤ := load16 order packet (icp + 4)

def clockdiffIcmpSeq (packet : List UInt8) (icp : ℕ) : ℤ := load16 order packet (icp + 6)

/-- The condition under which a datagram is not skipped. -/
def Wanted (ctl : RunState) (packet : List UInt8) (icp : ℕ) : Prop :=
  ((ctl.ipOptLen ≠ 0 ∧ byteAt packet icp = icmpEchoreply ∧
      byteAt packet (clockdiffIpopts icp) = ipoptTimestamp) ∨
    byteAt packet icp = icmpTimestampreply) ∧
  clockdiffIcmpId order packet icp = ctl.id ∧
  clockdiffIcmpSeq order packet icp ≥ ctl.seqno0 ∧
  clockdiffIcmpSeq order packet icp ≤ ctl.seqno

instance (ctl : RunState) (packet : List UInt8) (icp : ℕ) :
    Decidable (Wanted order ctl packet icp) := inferInstanceAs (Decidable (_ ∧ _))

structure Times where
  sendtime : ℤ := 0
  histime : ℤ := 0
  histime1 : ℤ := 0
  recvtime : ℤ := 0
deriving Repr, DecidableEq

def Times.assign (t : Times) (ipOptLen : ℤ) (i : ℕ) (v : ℤ) : Times :=
  if i = 0 then { t with sendtime := v }
  else if i = 1 then { t with histime := v, histime1 := v }
  else if i = 2 then
    if ipOptLen = 4 + 4 * 8 then { t with histime1 := v } else { t with recvtime := v }
  else if i = 3 then { t with recvtime := v }
  else t

/-- The loop over the slots of the option; a time with its high bit set ends it. -/
def readSlots (packet : List UInt8) (opt : ℕ) (ipOptLen : ℤ) : ℕ → ℕ → Times → Option Times
  | 0, _, t => some t
  | left + 1, i, t =>
      let v := be32At packet (opt + 4 + i * 8 + 4)
      if v ≥ 0x80000000 then none
      else readSlots packet opt ipOptLen left (i + 1) (t.assign ipOptLen i v)

/-- Whether the four times have a bit in common. -/
def Times.commonBit (t : Times) : Bool :=
  (t.sendtime.toNat &&& t.histime.toNat &&& t.histime1.toNat &&& t.recvtime.toNat) ≠ 0

/-- The times of the IP timestamp option, or the code with which the call returns. -/
def optionTimes (packet : List UInt8) (opt : ℕ) (ipOptLen : ℤ) : Except ℤ Times :=
  if byteAt packet (opt + 3) % 16 ≠ ipoptTsPrespec then .error nonstdtime
  else
    let nslots := (byteAt packet (opt + 2) - 5).tdiv 8
    if nslots ≤ 0 ∨ nslots > 4 then .error continueCode
    else
      match readSlots packet opt ipOptLen nslots.toNat 0 {} with
      | none => .error nonstdtime
      | some t => if t.commonBit then .ok t else .error (-1)

/-- Milliseconds since midnight. -/
def dayTime (ts : Timespec) : ℤ := ts.tvSec.tmod 86400 * 1000 + ts.tvNsec.tdiv 1000000

/-- Handles wrap-around, so that small differences around midnight stay small. -/
def wrapDay (delta : ℤ) : ℤ :=
  if delta < biasn then delta + modulo
  else if delta > biasp then delta - modulo
  else delta

/-- The new round-trip estimates. -/
def updateRtt (ctl : RunState) (diff : ℤ) : RunState :=
  let rtt := (ctl.rtt * 3 + diff).tdiv 4
  { ctl with rtt := rtt, rttSigma := (ctl.rttSigma * 3 + |diff - rtt|).tdiv 4 }

structure InnerResult where
  ctl : RunState
  mv : MeasureVars
  ret : ℤ

/-- The minima of one counted reply. -/
def settle (ctl : RunState) (mv : MeasureVars) (delta1 delta2 diff : ℤ) : InnerResult :=
  let mv := { mv with
    min1 := if delta1 < mv.min1 then delta1 else mv.min1
    min2 := if delta2 < mv.min2 then delta2 else mv.min2 }
  let ctl :=
    if delta1 + delta2 < ctl.minRtt then
      { ctl with
        minRtt := delta1 + delta2
        measureDelta1 := i32 ((delta1 - delta2).tdiv 2 + processingTime) }
    else ctl
  if diff < range then ⟨ctl, { mv with min1 := delta1, min2 := delta2 }, breakCode⟩
  else ⟨ctl, mv, continueCode⟩

/-- A reply whose times are known: counted unless it crosses midnight. In
timestamp mode the remote time is read here. -/
def countReply (ctl : RunState) (mv : MeasureVars) (icp : ℕ) (t : Times) : InnerResult :=
  let diff := t.recvtime - t.sendtime
  if diff < 0 then ⟨ctl, mv, continueCode⟩
  else
    let ctl := updateRtt ctl diff
    let mv := { mv with msgcount := mv.msgcount + 1 }
    let t :=
      if ctl.ipOptLen = 0 then
        { t with histime := be32At mv.packet (icp + 12), histime1 := be32At mv.packet (icp + 12) }
      else t
    if ctl.ipOptLen = 0 ∧ t.histime ≥ 0x80000000 then ⟨ctl, mv, nonstdtime⟩
    else settle ctl mv (wrapDay (t.histime - t.sendtime)) (wrapDay (t.recvtime - t.histime1)) diff

/-- A datagram of `cc` bytes in the buffer. -/
def parseDatagram (ctl : RunState) (mv : MeasureVars) (cc : ℤ) (ts1 : Timespec) : InnerResult :=
  match clockdiffPacketIcmp mv.packet cc with
  | none => ⟨ctl, mv, continueCode⟩
  | some icp =>
      if ¬ Wanted order ctl mv.packet icp then ⟨ctl, mv, continueCode⟩
      else if ctl.ipOptLen = 0 ∧ clockdiffIcmpOctets cc icp < 20 then ⟨ctl, mv, continueCode⟩
      else
        let seq := clockdiffIcmpSeq order mv.packet icp
        let ctl := { ctl with acked := if ctl.acked < seq then seq else ctl.acked }
        if ctl.ipOptLen ≠ 0 then
          match optionTimes mv.packet (clockdiffIpopts icp) ctl.ipOptLen with
          | .error ret => ⟨ctl, mv, ret⟩
          | .ok t => countReply ctl mv icp t
        else
          countReply ctl mv icp
            { sendtime := be32At mv.packet (icp + 8), recvtime := dayTime ts1 }

/-- What `ppoll` and the `recvfrom` behind it do. -/
inductive Poll
  | quiet
  | interrupted
  | failed
  | datagram (bytes : List UInt8) (ts1 : Timespec)

/-- `recvfrom` into the buffer. -/
def receive (mv : MeasureVars) (bytes : List UInt8) : MeasureVars :=
  { mv with packet := store mv.packet 0 (bytes.take packetIn) }

def measureInnerLoop (ctl : RunState) (mv : MeasureVars) : Poll → InnerResult
  | .quiet | .interrupted => ⟨ctl, mv, breakCode⟩
  | .failed => ⟨ctl, mv, -1⟩
  | .datagram bytes ts1 =>
      parseDatagram order ctl (receive mv bytes) (bytes.take packetIn).length ts1

/-- Where `measure` is: emptying the input queue, about to send, or waiting. -/
inductive Phase
  | draining
  | sending
  | waiting
deriving Repr, DecidableEq

inductive Event
  | send (ok : Bool)
  | poll (p : Poll)

structure Machine where
  ctl : RunState
  mv : MeasureVars := {}
  phase : Phase := .draining

/-- The assignments before the queue is emptied. -/
def Machine.start (ctl : RunState) : Machine :=
  { ctl := { ctl with minRtt := 0x7fffffff, measureDelta := hostdown, measureDelta1 := hostdown } }

/-- The checks at the head of the message loop: the result, if the loop is over. -/
def Machine.verdict (m : Machine) : Option (RunState × ℤ) :=
  match m.phase with
  | .draining | .waiting => none
  | .sending =>
      if ¬ m.mv.msgcount < msgs then
        some ({ m.ctl with
          measureDelta := i32 ((m.mv.min1 - m.mv.min2).tdiv 2 + processingTime) }, good)
      else if m.ctl.seqno - m.ctl.acked > trials then some (m.ctl, hostdown)
      else none

/-- One event; `none` when it cannot happen at this point. -/
def Machine.next (m : Machine) (e : Event) : Option (Machine ⊕ (RunState × ℤ)) :=
  match m.phase, e with
  | .draining, .poll .quiet =>
      some (.inl { m with
        ctl := { m.ctl with acked := 0, seqno := 0, seqno0 := 0 }
        mv := { m.mv with msgcount := 0 }
        phase := .sending })
  | .draining, .poll (.datagram bytes _) => some (.inl { m with mv := receive m.mv bytes })
  | .draining, .poll .failed => some (.inr (m.ctl, -1))
  | .sending, .send ok =>
      let ctl := { m.ctl with seqno := u16 (m.ctl.seqno + 1) }
      if ok then some (.inl { m with ctl := ctl, phase := .waiting })
      else some (.inr (ctl, unreachable))
  | .waiting, .poll p =>
      let res := measureInnerLoop order m.ctl m.mv p
      if res.ret = breakCode then some (.inl ⟨res.ctl, res.mv, .sending⟩)
      else if res.ret = continueCode then some (.inl ⟨res.ctl, res.mv, .waiting⟩)
      else some (.inr (res.ctl, res.ret))
  | _, _ => none

/-- The run over a list of events; `none` while it has not returned. -/
def Machine.run (m : Machine) (es : List Event) : Option (RunState × ℤ) :=
  match m.verdict, es with
  | some res, _ => some res
  | none, [] => none
  | none, e :: es =>
      match m.next order e with
      | none => none
      | some (.inr res) => some res
      | some (.inl m') => m'.run es

def measure (ctl : RunState) (es : List Event) : Option (RunState × ℤ) :=
  (Machine.start ctl).run order es

end

end Iputils.ClockdiffMeasure
