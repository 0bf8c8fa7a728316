import Iputils.Arping
import Iputils.MachineInt

/-!
# The event loop of arping

A round of the loop looks at four descriptors in turn: signals, the interval
timer, the timeout and the socket. All frames are received into one buffer, which
keeps the bytes of earlier frames behind the current one. The main result is that
a run does not depend on those bytes, and that it takes the same course when the
frames that `recv_pack` rejects never arrive.
-/
set_option autoImplicit false

namespace Iputils.ArpingRuns
open ByteBuffer PrintfText MachineInt Arping

def finishText (ctl : RunState) : List Char :=
  if ctl.quiet then []
  else
    "Sent ".toList ++ decText ctl.sent ++ " probes (".toList ++ decText ctl.brdSent ++
      " broadcast(s))\n".toList ++ "Received ".toList ++ decText ctl.received ++
      " response(s)".toList ++
      (if ctl.brdRecv ≠ 0 ∨ ctl.reqRecv ≠ 0 then
        " (".toList ++
          (if ctl.reqRecv ≠ 0 then decText ctl.reqRecv ++ " request(s)".toList else []) ++
          (if ctl.brdRecv ≠ 0 then
            (if ctl.reqRecv ≠ 0 then ", ".toList else []) ++ decText ctl.brdRecv ++
              " broadcast(s)".toList
          else []) ++ [')']
      else []) ++ ['\n']

/-- The exit code of `finish`. -/
def finish (ctl : RunState) : ℕ :=
  if ctl.dad then (if ctl.received ≠ 0 then 1 else 0)
  else if ctl.unsolicited then 0
  else if ctl.timeout ≠ 0 ∧ 0 < ctl.count ∧ ¬ ctl.quitOnReply then
    (if ctl.count ≤ ctl.received then 0 else 1)
  else if ctl.received ≠ 0 then 0 else 1

/-- A read of the signal descriptor: `other` for a short read or another signal. -/
inductive SignalRead
  | terminate
  | other
deriving Repr, DecidableEq

/-- A read of the interval timer: it failed, or it gave a number of expirations;
`sent` is what a send would be answered. -/
inductive TimerRead
  | failed
  | expired (exp : ℤ) (sent : Sent)
deriving Repr, DecidableEq

/-- A call of `recvfrom`: an error, with the test for `ENETDOWN`, or a frame. -/
inductive SocketRead
  | failed (netdown : Bool)
  | frame (data : List UInt8) (sender : SockaddrLl) (ts : Timespec)
deriving Repr, DecidableEq

/-- The outcome of `poll`: an error, with the test for `EAGAIN`, or the descriptors
with an event and what their reads give. -/
inductive Poll
  | failed (again : Bool)
  | ready (signal : Option SignalRead) (timer : Option TimerRead) (timeout : Bool)
      (socket : Option SocketRead)
deriving Repr, DecidableEq

/-- The variables of `event_loop`, and what was printed so far. -/
structure Loop where
  ctl : RunState
  totalExpires : ℤ := 1
  exitLoop : Bool := false
  packet : List UInt8
  out : List Char := []
deriving Repr, DecidableEq

def onSignal (l : Loop) : Option SignalRead → Loop
  | some .terminate => { l with exitLoop := true }
  | some .other | none => l

def onTimer (l : Loop) : Option TimerRead → Loop
  | some (.expired exp sent) =>
      let l : Loop := { l with totalExpires := u64 (l.totalExpires + exp) }
      if 0 < l.ctl.count ∧ l.ctl.count < l.totalExpires then { l with exitLoop := true }
      else { l with ctl := sendPack l.ctl sent }
  | some .failed | none => l

def onTimeout (l : Loop) (timeout : Bool) : Loop :=
  if timeout then { l with exitLoop := true } else l

/-- `sizeof(packet)` -/
def packetSize : ℕ := 4096

/-- The buffer after a frame was received into it. -/
def fill (packet data : List UInt8) : List UInt8 :=
  data.take packetSize ++ packet.drop (data.take packetSize).length

/-- The flag says that `event_loop` returns because of `ENETDOWN`. -/
def onSocket (l : Loop) : Option SocketRead → Loop × Bool
  | none => (l, false)
  | some (.failed netdown) => (l, netdown)
  | some (.frame data sender ts) =>
      let packet := fill l.packet data
      let res := recvPack l.ctl packet (data.take packetSize).length sender ts
      ({ l with
          ctl := res.ctl
          packet := packet
          exitLoop := l.exitLoop || res.ret == finalPacks
          out := l.out ++ res.out }, false)

/-- One round behind `poll`. A descriptor is served although an earlier one has
ended the loop. -/
def round (l : Loop) : Poll → Loop × Bool
  | .failed again => ({ l with exitLoop := l.exitLoop || ! again }, false)
  | .ready signal timer timeout socket =>
      onSocket (onTimeout (onTimer (onSignal l signal) timer) timeout) socket

/-- Where a run has come to: it waits in `poll`, or it has returned. -/
inductive Outcome
  | waiting (ctl : RunState) (totalExpires : ℤ) (out : List Char)
  | returned (status : ℕ) (ctl : RunState) (out : List Char)
deriving Repr, DecidableEq

/-- The two ends of the loop before `poll`. -/
def ended (l : Loop) : Bool := l.exitLoop || l.ctl.sent == l.ctl.count && l.ctl.unsolicited

def leave (l : Loop) : Outcome :=
  .returned (finish l.ctl) l.ctl (l.out ++ finishText l.ctl)

/-- The loop of `event_loop`, for the outcomes of the successive calls of `poll`. -/
def loopRun : List Poll → Loop → Outcome
  | [], l => if ended l then leave l else .waiting l.ctl l.totalExpires l.out
  | p :: polls, l =>
      if ended l then leave l
      else if (round l p).2 then .returned 2 (round l p).1.ctl (round l p).1.out
      else loopRun polls (round l p).1

/-- `event_loop`; the buffer is not initialised. -/
def eventLoop (ctl : RunState) (packet : List UInt8) (first : Sent) (polls : List Poll) : Outcome :=
  loopRun polls { ctl := sendPack ctl first, packet := packet }

/-! ## The accepted frames of a run -/

/-- `recv_pack` does not return zero for a frame. -/
def accepts (ctl : RunState) (data : List UInt8) (sender : SockaddrLl) (ts : Timespec) : Bool :=
  (recvPack ctl (data.take packetSize) (data.take packetSize).length sender ts).ret ≠ 0

/-- A round without the frame that is rejected in it. -/
def Poll.sieve (ctl : RunState) : Poll → Poll
  | .ready signal timer timeout (some (.frame data sender ts)) =>
      .ready signal timer timeout
        (if accepts ctl data sender ts then some (.frame data sender ts) else none)
  | p => p

/-- A round in which nothing has happened. -/
def Poll.idle : Poll := .ready none none false none

/-- The rounds of a run as far as they do not consist of rejected frames. -/
def acceptedOnly (ctl : RunState) (polls : List Poll) : List Poll :=
  (polls.map (Poll.sieve ctl)).filter (· ≠ Poll.idle)

/-- The fields on which the checks of `recv_pack` depend. -/
def SameChecks (ctl ctl' : RunState) : Prop :=
  ctl'.me = ctl.me ∧ ctl'.gsrc = ctl.gsrc ∧ ctl'.gdst = ctl.gdst ∧ ctl'.dad = ctl.dad

section
variable {ctl : RunState} {l : Loop}

theorem sameChecks_sendPack (res : Sent) : SameChecks ctl (sendPack ctl res) := by
  unfold sendPack
  by_cases herr : res.err = (sendPackFrame ctl).length
  · rw [if_pos herr]
    exact ⟨rfl, rfl, rfl, rfl⟩
  · rw [if_neg herr]
    exact ⟨rfl, rfl, rfl, rfl⟩

theorem sameChecks_recvPack (buf : List UInt8) (len : ℕ) (sender : SockaddrLl) (ts : Timespec) :
    SameChecks ctl (recvPack ctl buf len sender ts).ctl := by
  unfold recvPack
  by_cases hp : passes ctl buf len sender = true
  · simp only [hp, if_true, countFrame]
    split_ifs <;> exact ⟨rfl, rfl, rfl, rfl⟩
  · simp only [hp]
    exact ⟨rfl, rfl, rfl, rfl⟩

theorem SameChecks.trans {ctl' ctl'' : RunState} (h : SameChecks ctl ctl')
    (h' : SameChecks ctl' ctl'') : SameChecks ctl ctl'' :=
  ⟨h'.1.trans h.1, h'.2.1.trans h.2.1, h'.2.2.1.trans h.2.2.1, h'.2.2.2.trans h.2.2.2⟩

/-- The three descriptors before the socket. -/
def beforeSocket (l : Loop) (signal : Option SignalRead) (timer : Option TimerRead)
    (timeout : Bool) : Loop :=
  onTimeout (onTimer (onSignal l signal) timer) timeout

/-- Neither signals nor the timeout touch the run state. -/
theorem ctl_beforeSocket (l : Loop) (signal : Option SignalRead) (timer : Option TimerRead)
    (timeout : Bool) :
    (onSignal l signal).ctl = l.ctl ∧
      (beforeSocket l signal timer timeout).ctl = (onTimer (onSignal l signal) timer).ctl := by
  constructor
  · unfold onSignal
    split <;> rfl
  · unfold beforeSocket onTimeout
    split_ifs <;> rfl

theorem sameChecks_beforeSocket (signal : Option SignalRead) (timer : Option TimerRead)
    (timeout : Bool) : SameChecks l.ctl (beforeSocket l signal timer timeout).ctl := by
  obtain ⟨hsignal, htimeout⟩ := ctl_beforeSocket l signal timer timeout
  have htimer : SameChecks (onSignal l signal).ctl (onTimer (onSignal l signal) timer).ctl := by
    unfold onTimer
    split
    · dsimp only
      split_ifs
      · exact ⟨rfl, rfl, rfl, rfl⟩
      · exact sameChecks_sendPack _
    · exact ⟨rfl, rfl, rfl, rfl⟩
    · exact ⟨rfl, rfl, rfl, rfl⟩
  rw [htimeout, ← hsignal]
  exact htimer

/-- The loop with other bytes in its buffer. -/
def Loop.withPacket (l : Loop) (packet : List UInt8) : Loop := { l with packet := packet }

theorem beforeSocket_withPacket (packet : List UInt8) (signal : Option SignalRead)
    (timer : Option TimerRead) (timeout : Bool) :
    beforeSocket (l.withPacket packet) signal timer timeout =
      (beforeSocket l signal timer timeout).withPacket packet := by
  have hsignal : onSignal (l.withPacket packet) signal = (onSignal l signal).withPacket packet := by
    unfold onSignal
    split <;> rfl
  have htimer : ∀ l : Loop, onTimer (l.withPacket packet) timer =
      (onTimer l timer).withPacket packet := by
    intro l
    unfold onTimer
    split
    · dsimp only [Loop.withPacket]
      split_ifs <;> rfl
    · rfl
    · rfl
  have htimeout : ∀ l : Loop, onTimeout (l.withPacket packet) timeout =
      (onTimeout l timeout).withPacket packet := by
    intro l
    unfold onTimeout
    split_ifs <;> rfl
  rw [beforeSocket, hsignal, htimer, htimeout]
  rfl

/-- The received bytes stand in front of the buffer. -/
theorem agree_fill (packet data : List UInt8) :
    Agree (data.take packetSize).length (fill packet data) (data.take packetSize) := by
  unfold Agree fill
  rw [List.take_left', List.take_length]
  rfl

/-- The bytes that earlier frames have left do not matter. -/
theorem recvPack_fill (packet data : List UInt8) (sender : SockaddrLl) (ts : Timespec) :
    recvPack ctl (fill packet data) (data.take packetSize).length sender ts =
      recvPack ctl (data.take packetSize) (data.take packetSize).length sender ts :=
  recvPack_agree (agree_fill packet data) ts

theorem accepts_eq_passes (data : List UInt8) (sender : SockaddrLl) (ts : Timespec) :
    accepts ctl data sender ts =
      passes ctl (data.take packetSize) (data.take packetSize).length sender := by
  rw [Bool.eq_iff_iff, ← recvPack_pos ts]
  exact decide_eq_true_iff

theorem accepts_congr {ctl' : RunState} (h : SameChecks ctl ctl') (data : List UInt8)
    (sender : SockaddrLl) (ts : Timespec) :
    accepts ctl' data sender ts = accepts ctl data sender ts := by
  rw [accepts_eq_passes, accepts_eq_passes]
  exact passes_congr h.1 h.2.1 h.2.2.1 h.2.2.2

theorem recvPack_not_accepts {packet data : List UInt8} {sender : SockaddrLl} {ts : Timespec}
    (h : accepts ctl data sender ts = false) :
    recvPack ctl (fill packet data) (data.take packetSize).length sender ts = ⟨0, ctl, []⟩ := by
  rw [recvPack_fill]
  refine recvPack_rejected ?_
  simpa [accepts] using h

/-- What the socket does to the rest of the loop is independent of the buffer. -/
theorem onSocket_withPacket (packet : List UInt8) (socket : Option SocketRead) :
    ∃ packet', onSocket (l.withPacket packet) socket =
      ((onSocket l socket).1.withPacket packet', (onSocket l socket).2) := by
  cases socket with
  | none => exact ⟨packet, rfl⟩
  | some read =>
      cases read with
      | failed netdown => exact ⟨packet, rfl⟩
      | frame data sender ts =>
          refine ⟨fill packet data, ?_⟩
          simp only [onSocket, Loop.withPacket, recvPack_fill]

/-- One round with and without the rejected frame. -/
theorem round_sieve (h : SameChecks ctl l.ctl) (packet : List UInt8) (p : Poll) :
    ∃ packet', round (l.withPacket packet) (p.sieve ctl) =
      ((round l p).1.withPacket packet', (round l p).2) := by
  cases p with
  | failed again => exact ⟨packet, rfl⟩
  | ready signal timer timeout socket =>
      have hmid := beforeSocket_withPacket packet signal timer timeout (l := l)
      have hchecks := h.trans (sameChecks_beforeSocket signal timer timeout)
      change ∃ packet', round (l.withPacket packet) _ =
        ((onSocket (beforeSocket l signal timer timeout) socket).1.withPacket packet',
          (onSocket (beforeSocket l signal timer timeout) socket).2)
      generalize hl₁ : beforeSocket l signal timer timeout = l₁ at hmid hchecks
      have hkeep : ∀ read, round (l.withPacket packet) (.ready signal timer timeout read) =
          onSocket (l₁.withPacket packet) read := by
        intro read
        rw [← hmid]
        rfl
      rcases socket with _ | ⟨netdown⟩ | ⟨data, sender, ts⟩
      · exact (hkeep none).symm ▸ onSocket_withPacket packet none
      · exact (hkeep _).symm ▸ onSocket_withPacket packet _
      · have haccepts := accepts_congr hchecks data sender ts
        by_cases ha : accepts ctl data sender ts = true
        · rw [Poll.sieve, if_pos ha, hkeep]
          exact onSocket_withPacket packet _
        · rw [Poll.sieve, if_neg ha, hkeep]
          refine ⟨packet, ?_⟩
          rw [Bool.not_eq_true] at ha
          simp only [onSocket, Loop.withPacket, recvPack_not_accepts (haccepts.trans ha)]
          simp [finalPacks]

theorem sameChecks_round (p : Poll) : SameChecks l.ctl (round l p).1.ctl := by
  cases p with
  | failed again => exact ⟨rfl, rfl, rfl, rfl⟩
  | ready signal timer timeout socket =>
      refine (sameChecks_beforeSocket signal timer timeout).trans ?_
      rcases socket with _ | ⟨netdown⟩ | ⟨data, sender, ts⟩
      · exact ⟨rfl, rfl, rfl, rfl⟩
      · exact ⟨rfl, rfl, rfl, rfl⟩
      · exact sameChecks_recvPack _ _ _ _

theorem round_idle (l : Loop) : round l Poll.idle = (l, false) := rfl

theorem loopRun_ended (h : ended l = true) (polls : List Poll) : loopRun polls l = leave l := by
  cases polls with
  | nil => rw [loopRun, if_pos h]
  | cons p polls => rw [loopRun, if_pos h]

/-- A run takes the same course without the rejected frames, whatever the buffer holds. -/
theorem loopRun_acceptedOnly (polls : List Poll) (packet : List UInt8)
    (h : SameChecks ctl l.ctl) :
    loopRun (acceptedOnly ctl polls) (l.withPacket packet) = loopRun polls l := by
  induction polls generalizing l packet with
  | nil => rfl
  | cons p polls ih =>
      by_cases hended : ended l = true
      · rw [loopRun_ended hended, loopRun_ended (l := l.withPacket packet) hended]
        rfl
      · obtain ⟨packet', hround⟩ := round_sieve h packet p
        have hnext := ih packet' (h.trans (sameChecks_round p))
        have hended' : ¬ ended (l.withPacket packet) = true := hended
        have hsplit : acceptedOnly ctl (p :: polls) =
            if p.sieve ctl = Poll.idle then acceptedOnly ctl polls
            else p.sieve ctl :: acceptedOnly ctl polls := by
          by_cases hidle : p.sieve ctl = Poll.idle
          · simp [acceptedOnly, hidle]
          · simp [acceptedOnly, hidle]
        rw [loopRun, if_neg hended, hsplit]
        by_cases hidle : p.sieve ctl = Poll.idle
        · -- nothing is left of the round: the other run does not see it
          rw [hidle, round_idle] at hround
          obtain ⟨hl, hdown⟩ := Prod.mk.inj hround
          rw [if_pos hidle, hl, hnext, if_neg (by rw [← hdown]; decide)]
        · rw [if_neg hidle, loopRun, if_neg hended', hround]
          by_cases hdown : (round l p).2 = true
          · rw [if_pos hdown, if_pos hdown]
            rfl
          · rw [if_neg hdown, if_neg hdown]
            exact hnext

end

/-! ## The actions of a run -/

/-- A send that was carried out, or a frame that was accepted. -/
inductive Action
  | send (res : Sent)
  | frame (data : List UInt8) (sender : SockaddrLl) (ts : Timespec)
deriving Repr, DecidableEq

def Action.apply (ctl : RunState) : Action → RunState
  | .send res => sendPack ctl res
  | .frame data sender ts =>
      (recvPack ctl (data.take packetSize) (data.take packetSize).length sender ts).ctl

def timerActions (l : Loop) : Option TimerRead → List Action
  | some (.expired exp sent) =>
      if 0 < l.ctl.count ∧ l.ctl.count < u64 (l.totalExpires + exp) then [] else [.send sent]
  | some .failed | none => []

def socketActions (ctl : RunState) : Option SocketRead → List Action
  | some (.frame data sender ts) =>
      if accepts ctl data sender ts then [.frame data sender ts] else []
  | some (.failed _) | none => []

def roundActions (l : Loop) : Poll → List Action
  | .failed _ => []
  | .ready signal timer timeout socket =>
      timerActions (onSignal l signal) timer ++
        socketActions (beforeSocket l signal timer timeout).ctl socket

/-- The sends and the accepted frames of a run, in their order. -/
def runActions : List Poll → Loop → List Action
  | [], _ => []
  | p :: polls, l =>
      if ended l then []
      else roundActions l p ++ if (round l p).2 then [] else runActions polls (round l p).1

def Outcome.ctl : Outcome → RunState
  | .waiting ctl _ _ | .returned _ ctl _ => ctl

def Outcome.status : Outcome → Option ℕ
  | .waiting _ _ _ => none
  | .returned status _ _ => some status

/-- The call of `recvfrom` in a round fails with `ENETDOWN`. -/
def Poll.netdown : Poll → Bool
  | .ready _ _ _ (some (.failed netdown)) => netdown
  | _ => false

section
variable {l : Loop}

theorem beforeSocket_ctl (signal : Option SignalRead) (timer : Option TimerRead)
    (timeout : Bool) :
    (beforeSocket l signal timer timeout).ctl =
      (timerActions (onSignal l signal) timer).foldl Action.apply l.ctl := by
  obtain ⟨hsignal, htimeout⟩ := ctl_beforeSocket l signal timer timeout
  rw [htimeout, ← hsignal]
  generalize onSignal l signal = l₁
  unfold onTimer timerActions
  split
  · dsimp only
    split_ifs <;> rfl
  · rfl
  · rfl

theorem onSocket_ctl (socket : Option SocketRead) :
    (onSocket l socket).1.ctl = (socketActions l.ctl socket).foldl Action.apply l.ctl := by
  rcases socket with _ | ⟨netdown⟩ | ⟨data, sender, ts⟩
  · rfl
  · rfl
  · by_cases ha : accepts l.ctl data sender ts = true
    · simp only [socketActions, if_pos ha, List.foldl_cons, List.foldl_nil, Action.apply, onSocket,
        recvPack_fill]
    · simp only [socketActions, if_neg ha]
      rw [Bool.not_eq_true] at ha
      simp only [onSocket, recvPack_not_accepts ha]
      rfl

theorem round_ctl (p : Poll) :
    (round l p).1.ctl = (roundActions l p).foldl Action.apply l.ctl := by
  cases p with
  | failed again => rfl
  | ready signal timer timeout socket =>
      rw [roundActions, List.foldl_append, ← beforeSocket_ctl signal timer timeout]
      exact onSocket_ctl socket

/-- The state at the end is the one that the actions make. -/
theorem loopRun_ctl (polls : List Poll) :
    (loopRun polls l).ctl = (runActions polls l).foldl Action.apply l.ctl := by
  induction polls generalizing l with
  | nil =>
      unfold loopRun runActions
      split_ifs <;> rfl
  | cons p polls ih =>
      by_cases hended : ended l = true
      · rw [loopRun_ended hended, runActions, if_pos hended]
        rfl
      · rw [loopRun, if_neg hended, runActions, if_neg hended, List.foldl_append, ← round_ctl]
        by_cases hdown : (round l p).2 = true
        · rw [if_pos hdown, if_pos hdown]
          rfl
        · rw [if_neg hdown, if_neg hdown]
          exact ih

theorem round_netdown (p : Poll) : (round l p).2 = p.netdown := by
  cases p with
  | failed again => rfl
  | ready signal timer timeout socket =>
      rcases socket with _ | ⟨netdown⟩ | ⟨data, sender, ts⟩ <;> rfl

theorem loopRun_status {polls : List Poll} (h : ∀ p ∈ polls, p.netdown = false) :
    (loopRun polls l).status = none ∨
      (loopRun polls l).status = some (finish (loopRun polls l).ctl) := by
  induction polls generalizing l with
  | nil =>
      unfold loopRun
      split_ifs
      · exact Or.inr rfl
      · exact Or.inl rfl
  | cons p polls ih =>
      by_cases hended : ended l = true
      · rw [loopRun_ended hended]
        exact Or.inr rfl
      · have hdown : ¬ (round l p).2 = true := by
          rw [round_netdown, h p (by simp)]
          decide
        rw [loopRun, if_neg hended, if_neg hdown]
        exact ih fun q hq => h q (by simp [hq])

end

/-- `recv_pack` reads nothing that was not received and changes nothing when it
returns zero; a run takes the same course without the rejected frames and with any
bytes in its buffer, its final state is what the sends and the accepted frames make
of the initial one, and its exit status is the one of that state. -/
theorem ignores_rejected :
    (∀ (ctl : RunState) (buf buf' : List UInt8) (len : ℕ) (sender : SockaddrLl) (ts : Timespec),
      Agree len buf buf' → recvPack ctl buf len sender ts = recvPack ctl buf' len sender ts) ∧
    (∀ (ctl : RunState) (buf : List UInt8) (len : ℕ) (sender : SockaddrLl) (ts : Timespec),
      (recvPack ctl buf len sender ts).ret = 0 → (recvPack ctl buf len sender ts).ctl = ctl) ∧
    (∀ (ctl : RunState) (packet packet' : List UInt8) (first : Sent) (polls polls' : List Poll),
      acceptedOnly ctl polls = acceptedOnly ctl polls' →
        eventLoop ctl packet first polls = eventLoop ctl packet' first polls') ∧
    ∀ (ctl : RunState) (packet : List UInt8) (first : Sent) (polls : List Poll),
      (eventLoop ctl packet first polls).ctl =
          (.send first :: runActions polls { ctl := sendPack ctl first, packet := packet }).foldl
            Action.apply ctl ∧
        ((∀ p ∈ polls, p.netdown = false) →
          (eventLoop ctl packet first polls).status = none ∨
          (eventLoop ctl packet first polls).status =
            some (finish (eventLoop ctl packet first polls).ctl)) := by
  refine ⟨?_, ?_, ?_, ?_⟩
  · intro ctl buf buf' len sender ts h
    exact recvPack_agree h ts
  · intro ctl buf len sender ts h
    rw [recvPack_rejected h]
  · intro ctl packet packet' first polls polls' h
    have hchecks : SameChecks ctl (sendPack ctl first) := sameChecks_sendPack first
    have hrun : ∀ packet polls, eventLoop ctl packet first polls =
        loopRun (acceptedOnly ctl polls) { ctl := sendPack ctl first, packet := [] } :=
      fun packet polls => (loopRun_acceptedOnly polls [] hchecks).symm
    rw [hrun packet polls, hrun packet' polls', h]
  · intro ctl packet first polls
    exact ⟨loopRun_ctl polls, loopRun_status⟩

/-- A frame of our own that the socket delivers first is ignored. -/
theorem ignores_rejected_outgoing :
    eventLoop fddiState [] ⟨⟨1, 0⟩, 28⟩
        [.ready none none false
          (some (.frame (answerTo fddiState [2, 0, 0, 0, 0, 7]) ⟨774, 4, 6, []⟩ ⟨1, 0⟩)),
        .ready none none false
          (some (.frame (answerTo fddiState [2, 0, 0, 0, 0, 7]) ⟨774, 0, 6, []⟩ ⟨1, 0⟩))] =
      eventLoop fddiState [9, 9] ⟨⟨1, 0⟩, 28⟩
        [.ready none none false
          (some (.frame (answerTo fddiState [2, 0, 0, 0, 0, 7]) ⟨774, 0, 6, []⟩ ⟨1, 0⟩))] :=
  ignores_rejected.2.2.1 _ _ _ _ _ _ (by decide +kernel)

end Iputils.ArpingRuns
