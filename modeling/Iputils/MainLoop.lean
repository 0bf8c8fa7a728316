import Iputils.ErrorQueue

/-!
# The main loop

`main_loop` as a machine that waits for one outcome of the outside world at a
time: a reading of the clock, the result of a send, the result of `poll`, a
datagram, an error with what the error queue holds, or a signal. Between two
outcomes it runs to the next point where it needs one. `Pc` names these points.
The static variables of `pinger` and `__schedule_exit` are part of the state.

The send and its error paths are those of the module on sending, with the
`send_probe` and the `receive_error_msg` of the address family. Output, the timeout
given to `poll` and the timer that is set for the exit are left out; the timer shows
as a signal.
-/
set_option autoImplicit false

namespace Iputils.MainLoop
open MachineInt PingState ReceivedTable AckWindow GatherStatistics ParseReply ErrorQueue
open Pinger (Errno Fault ErrorMsg PingerState Gate Verdict SendResult openGate checkInt probeState
  slowDown hardLocalError outOfMemory)

/-- What does not change in a run; `hz` is the value of the macro `HZ`. -/
structure Setup where
  env : Env
  config : Config := {}
  fam : Family
  sock : SockType
  hz : ℤ := 100

/-- Where the loop waits: at its top, for the clock in `pinger`, at `resend`, before
`poll` with the time that is left, before `recvmsg` with `polling` and `recv_error`,
behind the loop, or nowhere any more. -/
inductive Pc
  | top
  | gate
  | resend
  | wait (next : ℤ)
  | receive (polling recvError : Bool)
  | left
  | halted (f : Fault)
deriving Repr, DecidableEq

structure Loop where
  pinger : PingerState
  waittime : ℤ := 0
  statusSnapshot : Bool := false
  pc : Pc := .top

/-- The state with which `main_loop` is entered. -/
def Loop.start (r : Rts) : Loop := { pinger := { rts := r } }

/-- One pass through `resend`: the buffer that `send_probe` composes, its result, and
the error queue in case it is read. -/
structure Send where
  outpack : List UInt8
  result : SendResult
  queue : QueueRead := .failed false

/-- `wait` holds what `poll` reports in case it is called: nothing, or whether `POLLERR`
is set. `interrupted` is a `recvmsg` that fails with `EINTR`. -/
inductive Input
  | sigexit
  | sigstatus
  | check
  | clock (now : Timespec)
  | send (a : Send)
  | wait (revents : Option Bool)
  | datagram (d : Datagram)
  | interrupted
  | recvFailed (errno : Errno) (q : QueueRead)

section Sending
variable (k : Setup)

/-- The effect of `send_probe` on the state. -/
def sendState (r : Rts) (outpack : List UInt8) : Rts :=
  match k.fam with
  | .inet => probeState r outpack
  | .inet6 =>
      { probeState r outpack with
        confirm := 0
        datalen := if k.config.niqueryEnabled then 0 else r.datalen }

/-- Any other error of a send, as in the module on sending. -/
def otherError (s : PingerState) (errno : Errno) (q : QueueRead) : Except Fault Verdict := do
  let h ← receiveErrorMsg k.env k.config k.fam s.rts k.sock errno q
  if h.result > 0 then pure (hardLocalError { s with rts := h.rts })
  else if h.result = 0 ∧ h.rts.confirmFlag ≠ 0 ∧ h.errno = .einval then
    pure (.resend { s with rts := { h.rts with confirmFlag := 0 } })
  else if h.errno = .zero then pure (.resend { s with rts := h.rts })
  else pure (hardLocalError { s with rts := h.rts })

/-- What `pinger` makes of the result of `send_probe`. -/
def handleResult (s : PingerState) (a : Send) : Except Fault Verdict :=
  match a.result with
  | .sent => do
      let next ← checkInt (s.rts.interval - s.tokens)
      pure (.done { s with rts := advanceNtransmitted s.rts, oomCount := 0 } next)
  | .excess => .error .abort
  | .failed .enobufs | .failed .enomem => .ok (outOfMemory s)
  | .failed .eagain => do
      let tokens ← checkInt (s.tokens + s.rts.interval)
      pure (.done { s with tokens := tokens } minIntervalMs)
  | .failed .emsgsize =>
      .ok (hardLocalError { s with rts := { s.rts with nerrors := s.rts.nerrors + 1 } })
  | .failed errno => otherError k s errno a.queue

def sendOnce (s : PingerState) (a : Send) : Except Fault Verdict :=
  handleResult k { s with rts := sendState k s.rts a.outpack } a

end Sending

section Looping
variable (k : Setup)

/-- `schedule_exit`: once the last probe is out, the time to wait for replies. -/
def scheduleExit (s : Loop) (next : ℤ) : Loop × ℤ :=
  let r := s.pinger.rts
  if r.npackets ≠ 0 ∧ r.ntransmitted ≥ r.npackets ∧ r.deadline = 0 ∧ s.waittime = 0 then
    let waittime :=
      if r.nreceived ≠ 0 then
        if u64 (2 * r.tmax) < u64 (1000 * r.interval) then u64 (1000 * r.interval)
        else u64 (2 * r.tmax)
      else r.lingertime
    ({ s with waittime := waittime },
      if next < 0 ∨ next < waittime / 1000 then i32 (waittime / 1000) else next)
  else (s, next)

/-- The rest of the inner loop that sends what is due. -/
def afterPinger (s : Loop) (p : PingerState) (next : ℤ) : Loop :=
  let (s, next) := scheduleExit { s with pinger := p } next
  { s with pc := if next ≤ 0 then .gate else .wait next }

/-- The three exit conditions. -/
def Exits (r : Rts) : Prop :=
  r.exiting = true ∨ (r.npackets ≠ 0 ∧ r.nreceived + r.nerrors ≥ r.npackets) ∨
    (r.deadline ≠ 0 ∧ r.nerrors ≠ 0)

instance (r : Rts) : Decidable (Exits r) := inferInstanceAs (Decidable (_ ∨ _))

def checkExit (s : Loop) : Loop :=
  if Exits s.pinger.rts then { s with pc := .left }
  else { s with statusSnapshot := false, pc := .gate }

def passGate (s : Loop) (now : Timespec) : Loop :=
  match openGate s.pinger now with
  | .error f => { s with pc := .halted f }
  | .ok (.wait next) => afterPinger s s.pinger next
  | .ok (.send p) => { s with pinger := p, pc := .resend }

def trySend (s : Loop) (a : Send) : Loop :=
  match sendOnce k s.pinger a with
  | .error f => { s with pc := .halted f }
  | .ok (.done p next) => afterPinger s p next
  | .ok (.resend p) => { s with pinger := p }

/-- The timeout is shorter than a tick. -/
def Short (next : ℤ) : Prop :=
  if 1000 % k.hz = 0 then next ≤ 1000 / k.hz else next < intMax / k.hz ∧ next * k.hz ≤ 1000

instance (next : ℤ) : Decidable (Short k next) :=
  inferInstanceAs (Decidable (ite _ _ _))

/-- Whether to spin, to call `poll` or to leave the waiting to `recvmsg`. -/
def awaitInput (s : Loop) (next : ℤ) (revents : Option Bool) : Loop :=
  let r := s.pinger.rts
  let eager := r.optAdaptive = true ∨ k.config.optFloodPoll = true
  let spin := Short k next ∧ inFlight r = 0
  if eager ∨ next < schint r.interval then
    if ¬ spin ∧ (eager ∨ r.interval ≠ 0) then
      match revents with
      | none => { s with pc := .top }
      | some pollerr => { s with pc := .receive true pollerr }
    else { s with pc := .receive (decide spin) false }
  else { s with pc := .receive false false }

/-- The end of one pass through the inner loop. -/
def afterReceive (s : Loop) (r : Rts) (recvError : Bool) : Loop :=
  { s with
    pinger := { s.pinger with rts := r }
    pc := if inFlight r = 0 then .top else .receive true recvError }

def takeDatagram (s : Loop) (d : Datagram) (recvError : Bool) : Loop :=
  afterReceive s (parseReply k.env k.config k.fam s.pinger.rts k.sock d []).rts recvError

def takeError (s : Loop) (errno : Errno) (q : QueueRead) (recvError : Bool) : Loop :=
  if errno = .eagain ∧ recvError = false then { s with pc := .top }
  else
    match receiveErrorMsg k.env k.config k.fam s.pinger.rts k.sock errno q with
    | .error f => { s with pc := .halted f }
    | .ok h =>
        if h.result = 0 ∧ h.errno ≠ .zero then
          { s with pinger := { s.pinger with rts := h.rts }, pc := .top }
        else afterReceive s h.rts false

/-- An outcome that the loop does not wait for leaves the state alone. -/
def step (s : Loop) (i : Input) : Loop :=
  match s.pc, i with
  | _, .sigexit =>
      { s with pinger := { s.pinger with rts := { s.pinger.rts with exiting := true } } }
  | _, .sigstatus => { s with statusSnapshot := true }
  | .top, .check => checkExit s
  | .gate, .clock now => passGate s now
  | .resend, .send a => trySend k s a
  | .wait next, .wait revents => awaitInput k s next revents
  | .receive _ recvError, .datagram d => takeDatagram k s d recvError
  | .receive _ _, .interrupted => { s with pc := .top }
  | .receive _ recvError, .recvFailed errno q => takeError k s errno q recvError
  | _, _ => s

def run (s : Loop) (is : List Input) : Loop := is.foldl (step k) s

end Looping

section Outcomes
variable {k : Setup}

/-- The fields that composing a probe may write. -/
theorem sendState_frame (r : Rts) (outpack : List UInt8) :
    sendState k r outpack =
      { r with
        outpack := (sendState k r outpack).outpack
        rcvdTbl := (sendState k r outpack).rcvdTbl
        confirm := (sendState k r outpack).confirm
        datalen := (sendState k r outpack).datalen } := by
  unfold sendState
  cases k.fam <;> rfl

theorem sendState_ident (r : Rts) (outpack : List UInt8) :
    (sendState k r outpack).ident = r.ident := by
  rw [sendState_frame]

/-- What a failed send makes of the outcome of `receive_error_msg`. -/
def settleError (s : PingerState) (o : Rts × ℤ × Errno) : Verdict :=
  if o.2.1 > 0 then hardLocalError { s with rts := o.1 }
  else if o.2.1 = 0 ∧ o.1.confirmFlag ≠ 0 ∧ o.2.2 = .einval then
    .resend { s with rts := { o.1 with confirmFlag := 0 } }
  else if o.2.2 = .zero then .resend { s with rts := o.1 }
  else hardLocalError { s with rts := o.1 }

/-- What the receiving loop makes of it. -/
def settleReceive (s : Loop) (o : Rts × ℤ × Errno) : Loop :=
  if o.2.1 = 0 ∧ o.2.2 ≠ .zero then
    { s with pinger := { s.pinger with rts := o.1 }, pc := .top }
  else afterReceive s o.1 false

/-- The kind of a read of the error queue. -/
def Setup.kind (k : Setup) (r : Rts) (q : QueueRead) : ErrorMsg := classify k.config k.fam r k.sock q

theorem otherError_eq (s : PingerState) (errno : Errno) (q : QueueRead) :
    otherError k s errno q =
      (account k.fam s.rts errno (k.kind s.rts q)).map (settleError s) := by
  have h := @outcome_receiveErrorMsg k.env k.config s.rts k.sock errno q k.fam
  rw [Setup.kind, ← h, otherError]
  cases receiveErrorMsg k.env k.config k.fam s.rts k.sock errno q with
  | error f => rfl
  | ok x =>
      simp only [bind, Except.bind, pure, Except.pure, Except.map, Handled.outcome, settleError]
      split_ifs <;> rfl

/-- The errors after which the queue is consulted. -/
def SendResult.asks : SendResult → Option Errno
  | .failed .zero => some .zero
  | .failed .einval => some .einval
  | .failed .other => some .other
  | _ => none

/-- Everything that a pass through `resend` can do, seen from the state in which
`send_probe` returns. -/
theorem sendOnce_cases {s : PingerState} {a : Send} {v : Verdict} (h : sendOnce k s a = .ok v) :
    let t := { s with rts := sendState k s.rts a.outpack }
    (a.result = .sent ∧
      ∃ next, v = .done { t with rts := advanceNtransmitted t.rts, oomCount := 0 } next) ∨
    ((a.result = .failed .enobufs ∨ a.result = .failed .enomem) ∧ v = outOfMemory t) ∨
    (a.result = .failed .eagain ∧ ∃ tokens, v = .done { t with tokens := tokens } minIntervalMs) ∨
    (a.result = .failed .emsgsize ∧
      v = hardLocalError { t with rts := { t.rts with nerrors := t.rts.nerrors + 1 } }) ∨
    ∃ e o, SendResult.asks a.result = some e ∧
      account k.fam t.rts e (k.kind t.rts a.queue) = .ok o ∧ v = settleError t o := by
  intro t
  have hother : ∀ e, otherError k t e a.queue = .ok v →
      ∃ o, account k.fam t.rts e (k.kind t.rts a.queue) = .ok o ∧ v = settleError t o := by
    intro e he
    rw [otherError_eq] at he
    cases hacc : account k.fam t.rts e (k.kind t.rts a.queue) with
    | error f => simp [hacc, Except.map] at he
    | ok o =>
        rw [hacc] at he
        exact ⟨o, rfl, (Except.ok.inj he).symm⟩
  obtain ⟨outpack, result, queue⟩ := a
  cases result with
  | excess => cases h
  | sent =>
      simp only [sendOnce, handleResult] at h
      have hv := Pinger.checkInt_bind_ok h
      exact Or.inl ⟨rfl, _, (Except.ok.inj hv).symm⟩
  | failed errno =>
      cases errno with
      | enobufs => exact Or.inr (Or.inl ⟨Or.inl rfl, (Except.ok.inj h).symm⟩)
      | enomem => exact Or.inr (Or.inl ⟨Or.inr rfl, (Except.ok.inj h).symm⟩)
      | eagain =>
          simp only [sendOnce, handleResult] at h
          have hv := Pinger.checkInt_bind_ok h
          exact Or.inr (Or.inr (Or.inl ⟨rfl, _, (Except.ok.inj hv).symm⟩))
      | emsgsize => exact Or.inr (Or.inr (Or.inr (Or.inl ⟨rfl, (Except.ok.inj h).symm⟩)))
      | zero | einval | other =>
          obtain ⟨o, ho, hv⟩ := hother _ h
          exact Or.inr (Or.inr (Or.inr (Or.inr ⟨_, o, rfl, ho, hv⟩)))

theorem handleResult_asks {s : PingerState} {a : Send} {e : Errno}
    (h : SendResult.asks a.result = some e) : handleResult k s a = otherError k s e a.queue := by
  obtain ⟨outpack, result, queue⟩ := a
  cases result with
  | sent | excess => cases h
  | failed errno =>
      cases errno with
      | enobufs | enomem | eagain | emsgsize => cases h
      | zero | einval | other =>
          obtain rfl := Option.some.inj h
          rfl

/-- The state in which a pass through `resend` ends. -/
def verdictRts : Verdict → Rts
  | .resend p => p.rts
  | .done p _ => p.rts

theorem afterPinger_rts (s : Loop) (p : PingerState) (next : ℤ) :
    (afterPinger s p next).pinger.rts = p.rts := by
  unfold afterPinger scheduleExit
  dsimp only
  split_ifs <;> rfl

theorem trySend_rts {s : Loop} {a : Send} {v : Verdict} (h : sendOnce k s.pinger a = .ok v) :
    (trySend k s a).pinger.rts = verdictRts v := by
  rw [trySend, h]
  cases v with
  | resend p => rfl
  | done p next => exact afterPinger_rts s p next

theorem settleReceive_rts (s : Loop) (o : Rts × ℤ × Errno) :
    (settleReceive s o).pinger.rts = o.1 := by
  unfold settleReceive
  split_ifs <;> rfl

theorem takeError_eq (s : Loop) (errno : Errno) (q : QueueRead) (recvError : Bool) :
    takeError k s errno q recvError =
      if errno = .eagain ∧ recvError = false then { s with pc := .top }
      else
        match account k.fam s.pinger.rts errno (k.kind s.pinger.rts q) with
        | .error f => { s with pc := .halted f }
        | .ok o => settleReceive s o := by
  have h := @outcome_receiveErrorMsg k.env k.config s.pinger.rts k.sock errno q k.fam
  rw [Setup.kind, ← h, takeError]
  cases receiveErrorMsg k.env k.config k.fam s.pinger.rts k.sock errno q <;> rfl

theorem takeDatagram_eq (s : Loop) (d : Datagram) (recvError : Bool) :
    takeDatagram k s d recvError =
      afterReceive s ((effect k.env k.config k.fam s.pinger.rts k.sock d).apply s.pinger.rts)
        recvError := by
  rw [takeDatagram, parseReply_effect]

/-- A granted probe changes the time of sending only. -/
theorem openGate_send {s p : PingerState} {now : Timespec} (h : openGate s now = .ok (.send p)) :
    p.rts = { s.rts with curTime := now } := by
  have hgrant : ∀ tokens, Pinger.grant s now tokens = .ok (.send p) →
      p.rts = { s.rts with curTime := now } := by
    intro tokens hg
    have hp := Pinger.checkInt_bind_ok hg
    obtain rfl := Gate.send.inj (Except.ok.inj hp)
    rfl
  unfold openGate at h
  dsimp only at h
  split_ifs at h
  · cases h
  · exact hgrant _ h
  · cases h
  · cases h
  · exact hgrant _ h

end Outcomes

section Oversized

def plainSetup : Setup := { env := plainEnv, fam := .inet, sock := .dgram }

/-- The message that the kernel queues for a datagram longer than the path allows. -/
def tooLong : QueueRead :=
  .message
    { res := 0
      icmph := List.replicate 8 0
      target := [127, 0, 0, 1]
      cmsgs := [.ip { errno := .emsgsize, origin := .fromLocal, info := 1500 }] }

/-- `ping -A -c 2 -M do` with too large a size. -/
def oversizedStart : Loop := Loop.start { npackets := 2, optAdaptive := true }

/-- One probe fails with `EMSGSIZE`, `poll` reports the message in the error queue, and
it is read. -/
def oversizedRun : List Input :=
  [.check, .clock ⟨1, 0⟩, .send ⟨List.replicate maxpacket 0, .failed .emsgsize, .failed true⟩,
    .wait (some true), .recvFailed .eagain tooLong, .recvFailed .eagain (.failed true), .check]

end Oversized

end Iputils.MainLoop
