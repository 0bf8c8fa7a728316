import Iputils.ByteBuffer
import Iputils.PrintfText

/-!
# The frames of arping

`send_pack` builds an ARP frame for the hardware type and address of the local
device, `recv_pack` decides whether a frame answers it. Both know the same
exceptions: FDDI devices use the hardware type of Ethernet, AX.25 and NET/ROM use
the AX.25 number for the protocol. The main result is that the two agree: an
answer with the fields of the request is accepted for every device, and what is
accepted has the addresses of an answer.
-/
set_option autoImplicit false

namespace Iputils.Arping
open ByteBuffer PrintfText

def arphrdNetrom : ℤ := 0
def arphrdEther : ℤ := 1
def arphrdAx25 : ℤ := 3
def arphrdFddi : ℤ := 774
def ethPIp : ℤ := 0x0800
def ax25PIp : ℤ := 0xcc
def arpopRequest : ℤ := 1
def arpopReply : ℤ := 2
def packetHost : ℤ := 0
def packetBroadcast : ℤ := 1
def packetMulticast : ℤ := 2

/-- `FINAL_PACKS` -/
def finalPacks : ℕ := 2

/-- `sizeof(struct arphdr)` -/
def arphdrSize : ℕ := 8

/-- The fields of `struct sockaddr_ll` that are used. -/
structure SockaddrLl where
  hatype : UInt16
  pkttype : UInt8
  halen : UInt8
  addr : List UInt8
deriving Repr, DecidableEq

/-- The first `sll_halen` bytes of `sll_addr`. -/
def SockaddrLl.hw (s : SockaddrLl) : List UInt8 := bytesAt s.addr 0 s.halen.toNat

structure InAddr where
  bytes : List UInt8
  four : bytes.length = 4
deriving Repr, DecidableEq

structure Timespec where
  sec : ℤ
  nsec : ℤ
deriving Repr, DecidableEq

/-- The counters are `int` in the source; the frames of a run stay below 2^31. -/
structure RunState where
  me : SockaddrLl
  he : SockaddrLl
  gsrc : InAddr
  gdst : InAddr
  count : ℤ
  timeout : ℤ
  last : Timespec := ⟨0, 0⟩
  sent : ℤ := 0
  brdSent : ℤ := 0
  received : ℤ := 0
  brdRecv : ℤ := 0
  reqRecv : ℤ := 0
  advert : Bool := false
  broadcastOnly : Bool := false
  dad : Bool := false
  quiet : Bool := false
  quitOnReply : Bool := false
  unicasting : Bool := false
  unsolicited : Bool := false
deriving Repr, DecidableEq

/-! ## Sending -/

/-- `ar_hrd` of a frame that is sent. -/
def requestHrd (me : SockaddrLl) : ℤ :=
  if (me.hatype.toNat : ℤ) = arphrdFddi then arphrdEther else me.hatype.toNat

def requestPro (me : SockaddrLl) : ℤ :=
  if requestHrd me = arphrdAx25 ∨ requestHrd me = arphrdNetrom then ax25PIp else ethPIp

/-- The bytes that `send_pack` passes to `sendto`. -/
def sendPackFrame (ctl : RunState) : List UInt8 :=
  be16 (requestHrd ctl.me) ++ be16 (requestPro ctl.me) ++ [ctl.me.halen, 4] ++
    be16 (if ctl.advert then arpopReply else arpopRequest) ++
    ctl.me.hw ++ ctl.gsrc.bytes ++
    (if ctl.advert then ctl.me.hw else bytesAt ctl.he.addr 0 ctl.me.halen.toNat) ++
    ctl.gdst.bytes

/-- What the system answers to a send: the clock, and the result of `sendto`. -/
structure Sent where
  now : Timespec
  err : ℤ
deriving Repr, DecidableEq

def sendPack (ctl : RunState) (res : Sent) : RunState :=
  if res.err = (sendPackFrame ctl).length then
    { ctl with
      last := res.now
      sent := ctl.sent + 1
      brdSent := if ctl.unicasting then ctl.brdSent else ctl.brdSent + 1 }
  else ctl

/-! ## Receiving -/

section Fields
variable (buf : List UInt8)

def arHrd : ℤ := be16At buf 0
def arPro : ℤ := be16At buf 2
def arHln : ℕ := (buf.getD 4 0).toNat
def arPln : ℤ := byteAt buf 5
def arOp : ℤ := be16At buf 6

/-- The sender's hardware address, with the `n` bytes the reader takes. -/
def senderHw (n : ℕ) : List UInt8 := bytesAt buf arphdrSize n
def srcIp : List UInt8 := bytesAt buf (arphdrSize + arHln buf) 4
def targetHw : List UInt8 := bytesAt buf (arphdrSize + arHln buf + 4) (arHln buf)
def dstIp : List UInt8 := bytesAt buf (arphdrSize + arHln buf + 4 + arHln buf) 4

end Fields

section Recv
variable (ctl : RunState) (buf : List UInt8) (len : ℕ) (sender : SockaddrLl)

/-- `FROM` names a frame for this host or for many. -/
def tame : Bool :=
  let pkttype : ℤ := sender.pkttype.toNat
  pkttype = packetHost ∨ pkttype = packetBroadcast ∨ pkttype = packetMulticast

/-- The checks on the fields of the header, up to the one on the length. -/
def headerFits : Bool :=
  let hatype : ℤ := sender.hatype.toNat
  (arOp buf = arpopRequest ∨ arOp buf = arpopReply) ∧
  (arHrd buf = hatype ∨ hatype = arphrdFddi ∧ arHrd buf = arphrdEther) ∧
  arPro buf = (if arHrd buf = arphrdAx25 ∨ arHrd buf = arphrdNetrom then ax25PIp else ethPIp) ∧
  arPln buf = 4 ∧
  arHln buf = ctl.me.halen.toNat ∧
  arphdrSize + 2 * (4 + arHln buf) ≤ len

/-- The checks on the addresses without `-D`. -/
def answersUs : Bool :=
  srcIp buf = ctl.gdst.bytes ∧ ctl.gsrc.bytes = dstIp buf ∧
    targetHw buf = bytesAt ctl.me.addr 0 (arHln buf)

/-- The checks on the addresses with `-D`. -/
def disputesAddress : Bool :=
  srcIp buf = ctl.gdst.bytes ∧ senderHw buf ctl.me.halen.toNat ≠ ctl.me.hw ∧
    (ctl.gsrc.bytes = [0, 0, 0, 0] ∨ ctl.gsrc.bytes = dstIp buf)

/-- None of the checks of `recv_pack` returns. -/
def passes : Bool :=
  tame sender && headerFits ctl buf len sender &&
    if ctl.dad then disputesAddress ctl buf else answersUs ctl buf

def hexDigit (n : ℕ) : Char := (Nat.digitChar n).toUpper

/-- `print_hex` -/
def printHex (bytes : List UInt8) : List Char :=
  List.intercalate [':'] (bytes.map fun b => [hexDigit (b.toNat / 16), hexDigit (b.toNat % 16)])

def inetNtoa (bytes : List UInt8) : List Char :=
  List.intercalate ['.'] (bytes.map fun b => decText b.toNat)

/-- The round-trip time at the end of a line. -/
def elapsedText (ts : Timespec) : List Char :=
  if ctl.last.sec ≠ 0 then
    let usecs := (ts.sec - ctl.last.sec) * 1000000 + (ts.nsec - ctl.last.nsec + 500).tdiv 1000
    let msecs := (usecs + 500).tdiv 1000
    ' ' :: decText msecs ++ '.' :: padText 3 (usecs - (msecs * 1000 - 500)) ++ "ms\n".toList
  else " UNSOLICITED?\n".toList

/-- The line that is printed for an accepted frame. -/
def frameLine (ts : Timespec) : List Char :=
  let other := dstIp buf ≠ ctl.gsrc.bytes
  (if (sender.pkttype.toNat : ℤ) = packetHost then "Unicast " else "Broadcast ").toList ++
    (if arOp buf = arpopReply then "reply from " else "request from ").toList ++
    inetNtoa (srcIp buf) ++ " [".toList ++ printHex (senderHw buf (arHln buf)) ++ "] ".toList ++
    (if other then "for ".toList ++ inetNtoa (dstIp buf) ++ [' '] else []) ++
    (if targetHw buf ≠ bytesAt ctl.me.addr 0 (arHln buf) then
      (if other then [] else "for ".toList) ++ '[' :: printHex (targetHw buf) ++ [']']
    else []) ++ elapsedText ctl ts

structure Received where
  ret : ℕ
  ctl : RunState
  out : List Char
deriving Repr, DecidableEq

/-- The counters behind an accepted frame. -/
def countFrame : ℕ × RunState :=
  let ctl := { ctl with received := ctl.received + 1 }
  if ctl.timeout ≠ 0 ∧ ctl.received = ctl.count then (finalPacks, ctl)
  else
    let ctl :=
      { ctl with
        brdRecv :=
          if (sender.pkttype.toNat : ℤ) ≠ packetHost then ctl.brdRecv + 1 else ctl.brdRecv
        reqRecv := if arOp buf = arpopRequest then ctl.reqRecv + 1 else ctl.reqRecv }
    if ctl.quitOnReply ∨ ctl.count = 0 ∧ ctl.received = ctl.sent then (finalPacks, ctl)
    else if ctl.broadcastOnly then (1, ctl)
    else
      let n := ctl.me.halen.toNat
      (1, { ctl with
            he := { ctl.he with addr := senderHw buf n ++ ctl.he.addr.drop n }
            unicasting := true })

/-- `buf` is the whole buffer, `len` what `recvfrom` has returned. -/
def recvPack (ts : Timespec) : Received :=
  if passes ctl buf len sender then
    let res := countFrame ctl buf sender
    ⟨res.1, res.2, if ctl.quiet then [] else frameLine ctl buf sender ts⟩
  else ⟨0, ctl, []⟩

end Recv

/-! ## What a frame is accepted for -/

section Accepted
variable {ctl : RunState} {buf buf' : List UInt8} {len : ℕ} {sender : SockaddrLl}

theorem countFrame_pos : (countFrame ctl buf sender).1 ≠ 0 := by
  unfold countFrame finalPacks
  simp only [apply_ite Prod.fst]
  split_ifs <;> simp

theorem recvPack_pos (ts : Timespec) :
    (recvPack ctl buf len sender ts).ret ≠ 0 ↔ passes ctl buf len sender = true := by
  unfold recvPack
  by_cases hp : passes ctl buf len sender = true
  · simp only [hp, if_true, iff_true]
    exact countFrame_pos
  · simp [hp]

theorem headerFits_iff : headerFits ctl buf len sender = true ↔
    (arOp buf = arpopRequest ∨ arOp buf = arpopReply) ∧
    (arHrd buf = sender.hatype.toNat ∨
      (sender.hatype.toNat : ℤ) = arphrdFddi ∧ arHrd buf = arphrdEther) ∧
    arPro buf =
      (if arHrd buf = arphrdAx25 ∨ arHrd buf = arphrdNetrom then ax25PIp else ethPIp) ∧
    arPln buf = 4 ∧ arHln buf = ctl.me.halen.toNat ∧ arphdrSize + 2 * (4 + arHln buf) ≤ len := by
  unfold headerFits
  exact decide_eq_true_iff

theorem answersUs_iff : answersUs ctl buf = true ↔
    srcIp buf = ctl.gdst.bytes ∧ ctl.gsrc.bytes = dstIp buf ∧
      targetHw buf = bytesAt ctl.me.addr 0 (arHln buf) := by
  unfold answersUs
  exact decide_eq_true_iff

theorem disputesAddress_iff : disputesAddress ctl buf = true ↔
    srcIp buf = ctl.gdst.bytes ∧ senderHw buf ctl.me.halen.toNat ≠ ctl.me.hw ∧
      (ctl.gsrc.bytes = [0, 0, 0, 0] ∨ ctl.gsrc.bytes = dstIp buf) := by
  unfold disputesAddress
  exact decide_eq_true_iff

theorem passes_iff : passes ctl buf len sender = true ↔
    tame sender = true ∧ headerFits ctl buf len sender = true ∧
      (if ctl.dad then disputesAddress ctl buf else answersUs ctl buf) = true := by
  unfold passes
  rw [Bool.and_eq_true, Bool.and_eq_true, and_assoc]

/-- A frame that is long enough is read inside of its length. -/
theorem fields_agree (h : Agree len buf buf') (hlen : arphdrSize + 2 * (4 + arHln buf) ≤ len) :
    arHrd buf = arHrd buf' ∧ arPro buf = arPro buf' ∧ arHln buf = arHln buf' ∧
      arPln buf = arPln buf' ∧ arOp buf = arOp buf' ∧
      senderHw buf (arHln buf) = senderHw buf' (arHln buf) ∧ srcIp buf = srcIp buf' ∧
      targetHw buf = targetHw buf' ∧ dstIp buf = dstIp buf' := by
  have hsize : arphdrSize = 8 := rfl
  have hhln : arHln buf = arHln buf' := congrArg UInt8.toNat (h.getD (by omega))
  refine ⟨h.be16At (by omega), h.be16At (by omega), hhln, h.byteAt (by omega),
    h.be16At (by omega), h.bytesAt (by omega), ?_, ?_, ?_⟩
  · rw [srcIp, srcIp, ← hhln]
    exact h.bytesAt (by omega)
  · rw [targetHw, targetHw, ← hhln]
    exact h.bytesAt (by omega)
  · rw [dstIp, dstIp, ← hhln]
    exact h.bytesAt (by omega)

theorem passes_of_agree (h : Agree len buf buf') (hp : passes ctl buf len sender = true) :
    passes ctl buf' len sender = true := by
  obtain ⟨htame, hheader, hmode⟩ := passes_iff.mp hp
  obtain ⟨hop, hhrd, hpro, hpln, hhln, hlen⟩ := headerFits_iff.mp hheader
  obtain ⟨ehrd, epro, ehln, epln, eop, esender, esrc, etarget, edst⟩ := fields_agree h hlen
  rw [hhln] at esender
  refine passes_iff.mpr ⟨htame, headerFits_iff.mpr ?_, ?_⟩
  · rw [← ehrd, ← epro, ← ehln, ← epln, ← eop]
    exact ⟨hop, hhrd, hpro, hpln, hhln, hlen⟩
  · rw [disputesAddress, answersUs, esrc, edst, etarget, esender, ehln] at hmode
    exact hmode

/-- `recv_pack` reads nothing behind the `len` bytes that were received. -/
theorem recvPack_agree (h : Agree len buf buf') (ts : Timespec) :
    recvPack ctl buf len sender ts = recvPack ctl buf' len sender ts := by
  unfold recvPack
  by_cases hp : passes ctl buf len sender = true
  · have hp' := passes_of_agree h hp
    obtain ⟨-, hheader, -⟩ := passes_iff.mp hp
    obtain ⟨-, -, -, -, hhln, hlen⟩ := headerFits_iff.mp hheader
    obtain ⟨-, -, ehln, -, eop, esender, esrc, etarget, edst⟩ := fields_agree h hlen
    have esender' : senderHw buf ctl.me.halen.toNat = senderHw buf' ctl.me.halen.toNat := by
      rw [← hhln]
      exact esender
    have hcount : countFrame ctl buf sender = countFrame ctl buf' sender := by
      simp only [countFrame, eop, esender']
    have hline : frameLine ctl buf sender ts = frameLine ctl buf' sender ts := by
      rw [frameLine, frameLine, edst, eop, esrc, esender, etarget, ehln]
    rw [if_pos hp, if_pos hp', hcount, hline]
  · have hp' : ¬ passes ctl buf' len sender = true := fun hp' =>
      hp (passes_of_agree h.symm hp')
    rw [if_neg hp, if_neg hp']

/-- A frame for which `recv_pack` returns zero changes nothing. -/
theorem recvPack_rejected {ts : Timespec} (h : (recvPack ctl buf len sender ts).ret = 0) :
    recvPack ctl buf len sender ts = ⟨0, ctl, []⟩ := by
  have hp : ¬ passes ctl buf len sender = true := fun hp => (recvPack_pos ts).mpr hp h
  rw [recvPack, if_neg hp]

/-- The checks look at four fields of the state, which no step changes. -/
theorem passes_congr {ctl' : RunState} (hme : ctl'.me = ctl.me) (hsrc : ctl'.gsrc = ctl.gsrc)
    (hdst : ctl'.gdst = ctl.gdst) (hdad : ctl'.dad = ctl.dad) :
    passes ctl' buf len sender = passes ctl buf len sender := by
  unfold passes headerFits disputesAddress answersUs
  rw [hme, hsrc, hdst, hdad]

end Accepted

/-- The answer of a device `hw` to a request: the fields of its header with the
operation `REPLY`, and the addresses of both sides. -/
def answerTo (ctl : RunState) (hw : List UInt8) : List UInt8 :=
  (sendPackFrame ctl).take 6 ++ be16 arpopReply ++ hw ++ ctl.gdst.bytes ++ ctl.me.hw ++
    ctl.gsrc.bytes

section Answer
variable (ctl : RunState) (hw pad : List UInt8)

theorem requestHrd_range (me : SockaddrLl) : 0 ≤ requestHrd me ∧ requestHrd me < 65536 := by
  have hlt : me.hatype.toNat < 65536 := me.hatype.toNat_lt
  unfold requestHrd arphrdEther
  split_ifs
  · exact ⟨by omega, by omega⟩
  · exact ⟨by omega, by omega⟩

/-- The eight bytes before the addresses. -/
def answerHeader : List UInt8 :=
  be16 (requestHrd ctl.me) ++ be16 (requestPro ctl.me) ++ [ctl.me.halen, 4] ++ be16 arpopReply

theorem answerTo_eq : answerTo ctl hw ++ pad =
    answerHeader ctl ++ (hw ++ (ctl.gdst.bytes ++ (ctl.me.hw ++ (ctl.gsrc.bytes ++ pad)))) := by
  simp [answerTo, answerHeader, sendPackFrame, be16]

/-- What `recv_pack` reads from an answer. -/
structure ReadsAnswer (buf : List UInt8) : Prop where
  hrd : arHrd buf = requestHrd ctl.me
  pro : arPro buf = requestPro ctl.me
  hln : arHln buf = ctl.me.halen.toNat
  pln : arPln buf = 4
  op : arOp buf = arpopReply
  senderHw : senderHw buf ctl.me.halen.toNat = hw
  srcIp : srcIp buf = ctl.gdst.bytes
  targetHw : targetHw buf = ctl.me.hw
  dstIp : dstIp buf = ctl.gsrc.bytes

variable {hw}

theorem readsAnswer (hhw : hw.length = ctl.me.halen.toNat) :
    ReadsAnswer ctl hw (answerTo ctl hw ++ pad) := by
  have hme : ctl.me.hw.length = ctl.me.halen.toNat := by simp [SockaddrLl.hw, bytesAt]
  have hdst := ctl.gdst.four
  have hsrc := ctl.gsrc.four
  have hrange := requestHrd_range ctl.me
  have hhead : (answerHeader ctl).length = arphdrSize := rfl
  rw [answerTo_eq]
  generalize hrest : ctl.gsrc.bytes ++ pad = rest
  have hln : arHln (answerHeader ctl ++ (hw ++ (ctl.gdst.bytes ++ (ctl.me.hw ++ rest)))) =
      ctl.me.halen.toNat := rfl
  refine ⟨?_, ?_, hln, rfl, rfl, ?_, ?_, ?_, ?_⟩
  · have hat : arHrd (answerHeader ctl ++ (hw ++ (ctl.gdst.bytes ++ (ctl.me.hw ++ rest)))) =
        requestHrd ctl.me % 65536 := be16At_append [] _ _ rfl rfl
    rw [hat]
    omega
  · have hat : arPro (answerHeader ctl ++ (hw ++ (ctl.gdst.bytes ++ (ctl.me.hw ++ rest)))) =
        requestPro ctl.me % 65536 := be16At_append (be16 (requestHrd ctl.me)) _ _ rfl rfl
    rw [hat]
    unfold requestPro ax25PIp ethPIp
    split_ifs <;> rfl
  · exact bytesAt_append _ hw _ rfl hhead hhw
  · rw [srcIp, hln]
    refine bytesAt_append (answerHeader ctl ++ hw) _ (ctl.me.hw ++ rest) ?_ ?_ hdst
    · simp
    · simp [hhead, hhw]
  · rw [targetHw, hln]
    refine bytesAt_append (answerHeader ctl ++ hw ++ ctl.gdst.bytes) _ rest ?_ ?_ hme
    · simp
    · simp [hhead, hhw, hdst, Nat.add_assoc]
  · rw [dstIp, hln, ← hrest]
    refine bytesAt_append (answerHeader ctl ++ hw ++ ctl.gdst.bytes ++ ctl.me.hw) _ pad ?_ ?_ hsrc
    · simp
    · simp [hhead, hhw, hdst, hme, Nat.add_assoc]

theorem answerTo_length (hhw : hw.length = ctl.me.halen.toNat) :
    (answerTo ctl hw).length = arphdrSize + 2 * (4 + ctl.me.halen.toNat) := by
  have hme : ctl.me.hw.length = ctl.me.halen.toNat := by simp [SockaddrLl.hw, bytesAt]
  have hhead : (answerHeader ctl).length = arphdrSize := rfl
  have heq := congrArg List.length (answerTo_eq ctl hw [])
  simp only [List.length_append, List.length_nil, hhead, hhw, hme, ctl.gdst.four,
    ctl.gsrc.four] at heq
  omega

/-- The exceptions of the receiver are those of the sender. -/
theorem headerFits_answer {buf : List UInt8} {len : ℕ} {sender : SockaddrLl}
    (h : ReadsAnswer ctl hw buf) (hlen : arphdrSize + 2 * (4 + ctl.me.halen.toNat) ≤ len)
    (hsender : sender.hatype = ctl.me.hatype) : headerFits ctl buf len sender = true := by
  refine headerFits_iff.mpr ⟨Or.inr h.op, ?_, ?_, h.pln, h.hln, by rw [h.hln]; exact hlen⟩
  · rw [h.hrd, hsender, requestHrd]
    by_cases hfddi : (ctl.me.hatype.toNat : ℤ) = arphrdFddi
    · exact Or.inr ⟨hfddi, if_pos hfddi⟩
    · exact Or.inl (if_neg hfddi)
  · rw [h.pro, h.hrd, requestPro]

theorem passes_answer {len : ℕ} {sender : SockaddrLl} (hhw : hw.length = ctl.me.halen.toNat)
    (hlen : (answerTo ctl hw).length ≤ len) (hhost : (sender.pkttype.toNat : ℤ) = packetHost)
    (hsender : sender.hatype = ctl.me.hatype) (hdad : ctl.dad = true → hw ≠ ctl.me.hw) :
    passes ctl (answerTo ctl hw ++ pad) len sender = true := by
  have h := readsAnswer ctl pad hhw
  rw [answerTo_length ctl hhw] at hlen
  refine passes_iff.mpr ⟨by simp [tame, hhost], headerFits_answer ctl h hlen hsender, ?_⟩
  by_cases hd : ctl.dad = true
  · rw [if_pos hd]
    exact disputesAddress_iff.mpr ⟨h.srcIp, by rw [h.senderHw]; exact hdad hd, Or.inr h.dstIp.symm⟩
  · rw [if_neg hd]
    exact answersUs_iff.mpr ⟨h.srcIp, h.dstIp.symm, by rw [h.targetHw, h.hln]; rfl⟩

end Answer

/-- What an accepted frame says. -/
def Answers (ctl : RunState) (buf : List UInt8) (len : ℕ) : Prop :=
  if ctl.dad then
    srcIp buf = ctl.gdst.bytes ∧ senderHw buf ctl.me.halen.toNat ≠ ctl.me.hw ∧
      (ctl.gsrc.bytes ≠ [0, 0, 0, 0] → dstIp buf = ctl.gsrc.bytes)
  else
    arphdrSize + 2 * (4 + ctl.me.halen.toNat) ≤ len ∧ arHln buf = ctl.me.halen.toNat ∧
      arPln buf = 4 ∧ srcIp buf = ctl.gdst.bytes ∧ dstIp buf = ctl.gsrc.bytes ∧
      targetHw buf = ctl.me.hw

theorem answers_of_passes {ctl : RunState} {buf : List UInt8} {len : ℕ} {sender : SockaddrLl}
    (h : passes ctl buf len sender = true) : Answers ctl buf len := by
  obtain ⟨-, hheader, hmode⟩ := passes_iff.mp h
  obtain ⟨-, -, -, hpln, hhln, hlen⟩ := headerFits_iff.mp hheader
  unfold Answers
  by_cases hd : ctl.dad = true
  · rw [if_pos hd] at hmode ⊢
    obtain ⟨hsrc, hhw, hdst⟩ := disputesAddress_iff.mp hmode
    refine ⟨hsrc, hhw, ?_⟩
    intro hzero
    exact (hdst.resolve_left hzero).symm
  · rw [if_neg hd] at hmode ⊢
    obtain ⟨hsrc, hdst, htarget⟩ := answersUs_iff.mp hmode
    rw [hhln] at hlen htarget
    exact ⟨hlen, hhln, hpln, hsrc, hdst.symm, htarget⟩

/-- Every answer to a request is accepted, with `-D` every answer of another device,
and what is accepted is an answer. -/
theorem accepts_answers (ctl : RunState) :
    (∀ (hw pad : List UInt8) (len : ℕ) (sender : SockaddrLl) (ts : Timespec),
      hw.length = ctl.me.halen.toNat → (answerTo ctl hw).length ≤ len →
      (sender.pkttype.toNat : ℤ) = packetHost → sender.hatype = ctl.me.hatype →
      (ctl.dad = true → hw ≠ ctl.me.hw) →
        (recvPack ctl (answerTo ctl hw ++ pad) len sender ts).ret ≠ 0) ∧
    ∀ (buf : List UInt8) (len : ℕ) (sender : SockaddrLl) (ts : Timespec),
      (recvPack ctl buf len sender ts).ret ≠ 0 → Answers ctl buf len := by
  refine ⟨?_, ?_⟩
  · intro hw pad len sender ts hhw hlen hhost hsender hdad
    exact (recvPack_pos ts).mpr (passes_answer ctl pad hhw hlen hhost hsender hdad)
  · intro buf len sender ts hret
    exact answers_of_passes ((recvPack_pos ts).mp hret)

/-- The device of the FDDI exception, in the detection of a duplicate address. -/
def fddiState : RunState where
  me := ⟨774, 0, 6, [2, 0, 0, 0, 0, 1]⟩
  he := ⟨774, 0, 6, [255, 255, 255, 255, 255, 255]⟩
  gsrc := ⟨[0, 0, 0, 0], rfl⟩
  gdst := ⟨[10, 0, 0, 2], rfl⟩
  count := -1
  timeout := 0
  dad := true
  quitOnReply := true

theorem accepts_answers_fddi :
    (recvPack fddiState (answerTo fddiState [2, 0, 0, 0, 0, 7] ++ []) 28 ⟨774, 0, 6, []⟩
      ⟨0, 0⟩).ret ≠ 0 ∧
    Answers fddiState (answerTo fddiState [2, 0, 0, 0, 0, 7] ++ []) 28 := by
  have hret := (accepts_answers fddiState).1 [2, 0, 0, 0, 0, 7] [] 28 ⟨774, 0, 6, []⟩ ⟨0, 0⟩
    (by decide) (by decide) (by decide) (by decide) (by decide)
  exact ⟨hret, (accepts_answers fddiState).2 _ _ _ _ hret⟩

end Iputils.Arping
