import Iputils.MachineInt
import Iputils.PingState

/-!
# The probing loop of tracepath

`main` raises the time to live hop by hop, `probe_ttl` sends probes and waits, and
`recverr` empties the error queue. The kernel is a sequence of events: outcomes of
`sendto`, of `recv` and of `recvmsg` on the error queue. The program is a machine that
waits for one event at a time; `pc` says where. `ctl` is `struct run_state` without
the socket and the addresses. The destination port of a probe carries its slot in the
history, so that an error can be matched with the probe even if its payload is cut
off. What `recverr` prints is left out.
-/
set_option autoImplicit false

namespace Iputils.Tracepath
open MachineInt PingState

def maxProbes : ℕ := 10
def hisArraySize : ℕ := 64
def maxHopsLimit : ℤ := 255
def defaultOverheadIpv4 : ℤ := 28
def defaultOverheadIpv6 : ℤ := 48
def defaultMtuIpv4 : ℤ := 65535
def defaultMtuIpv6 : ℤ := 128000
def defaultBaseport : ℤ := 44444

/-- `sizeof (struct probehdr)`. -/
def probehdrSize : ℕ := 24

structure Hhistory where
  hops : ℤ := 0
  sendtime : Timespec := {}
deriving Repr, DecidableEq

/-- `base_port` is a `uint16_t` and `ttl` a `uint8_t`. -/
structure RunState where
  his : ℕ → Hhistory := fun _ => {}
  hisptr : ℕ := 0
  basePort : ℤ := defaultBaseport
  ttl : ℤ := 0
  maxHops : ℤ := 30
  overhead : ℤ := 0
  mtu : ℤ := 0
  hopsTo : ℤ := -1
  hopsFrom : ℤ := -1

inductive Origin
  | localhost
  | icmp
  | icmp6
  | other
deriving Repr, DecidableEq

inductive Errno
  | etimedout
  | emsgsize
  | econnrefused
  | eproto
  | ehostunreach
  | enetunreach
  | eacces
  | other
deriving Repr, DecidableEq

/-- `struct sock_extended_err`; `info` is a `uint32_t`. -/
structure ExtendedErr where
  errno : Errno
  origin : Origin
  type : ℤ := 0
  code : ℤ := 0
  info : ℤ := 0
deriving Repr, DecidableEq

inductive Cmsg
  | recverr (e : ExtendedErr)
  | hoplimit (hops : ℤ)
  | other
deriving Repr, DecidableEq

/-- A message of the error queue: the port of the address, the number of bytes that
came back of the payload with the probe header in them, and the control messages. -/
structure Message where
  port : ℤ
  size : ℕ
  ttl : ℤ := -1
  ts : Timespec := ⟨-1, -1⟩
  cmsgs : List Cmsg := []
deriving Repr, DecidableEq

def Cmsg.err : Cmsg → Option ExtendedErr
  | .recverr e => some e
  | _ => none

def Cmsg.hops : Cmsg → Option ℤ
  | .hoplimit hops => some hops
  | _ => none

/-- The pointer `e` behind the loop over the control messages. -/
def Message.err (m : Message) : Option ExtendedErr := (m.cmsgs.filterMap Cmsg.err).getLast?

def Message.rethops (m : Message) : ℤ :=
  let hops := (m.cmsgs.filterMap Cmsg.hops).getLast?.getD (-1)
  if hops ≤ 64 then 65 - hops else if hops ≤ 128 then 129 - hops else 256 - hops

section Recverr

/-- The slot that the port of a message stands for. -/
def slotOf (ctl : RunState) (port : ℤ) : ℤ := -ctl.basePort + port

/-- The entry of the history that a message is matched with. -/
def historyEntry (ctl : RunState) (port : ℤ) : Option Hhistory :=
  let slot := slotOf ctl port
  if 0 ≤ slot ∧ slot < hisArraySize - 1 ∧ (ctl.his slot.toNat).hops ≠ 0 then
    some (ctl.his slot.toNat)
  else none

def RunState.setHops (ctl : RunState) (slot : ℕ) (hops : ℤ) : RunState :=
  { ctl with his := Function.update ctl.his slot { ctl.his slot with hops := hops } }

/-- An entry is used up by the first message that is matched with it. -/
def clearEntry (ctl : RunState) (port : ℤ) : RunState :=
  if (historyEntry ctl port).isSome then ctl.setHops (slotOf ctl port).toNat 0 else ctl

/-- The local variables `sndhops`, `retts` and `broken_router`. -/
structure Matched where
  sndhops : ℤ := -1
  retts : Option Timespec := none
  brokenRouter : Bool := false
deriving Repr, DecidableEq

/-- The history first, then the probe header if it came back whole. -/
def identify (ctl : RunState) (m : Message) : Matched :=
  let found : Matched :=
    match historyEntry ctl m.port with
    | some entry => { sndhops := entry.hops, retts := some entry.sendtime }
    | none => {}
  if m.size = probehdrSize then
    if m.ttl = 0 ∨ m.ts = ⟨0, 0⟩ then { found with brokenRouter := true }
    else { found with sndhops := i32 m.ttl, retts := some m.ts }
  else found

/-- A router has dropped the probe because its time to live ran out. -/
def ExtendedErr.timeExceeded (e : ExtendedErr) : Bool :=
  (e.origin = .icmp && e.type = 11 && e.code = 0) ||
    (e.origin = .icmp6 && e.type = 3 && e.code = 0)

/-- What `recvmsg` on the error queue delivers. -/
inductive Recv
  | again
  | failed
  | message (m : Message)

/-- One round of `recverr`: the new state with either the next value of `progress`
or the value that the function returns. -/
def recverr (ctl : RunState) (progress : ℤ) : Recv → RunState × (ℤ ⊕ ℤ)
  | .again => (ctl, .inr progress)
  | .failed => (ctl, .inl progress)
  | .message m =>
      let found := identify ctl m
      let ctl := clearEntry ctl m.port
      match m.err with
      | none => (ctl, .inr 0)
      | some e =>
          match e.errno with
          | .etimedout => (ctl, .inl ctl.mtu)
          | .emsgsize => ({ ctl with mtu := i32 e.info }, .inl (i32 e.info))
          | .econnrefused =>
              ({ ctl with
                 hopsTo := if found.sndhops < 0 then ctl.ttl else found.sndhops
                 hopsFrom := m.rethops }, .inr 0)
          | .ehostunreach => if e.timeExceeded then (ctl, .inl ctl.mtu) else (ctl, .inr 0)
          | .eproto | .enetunreach | .eacces | .other => (ctl, .inr 0)

end Recverr

/-- The calls of `main` that the outside sees. -/
inductive Action
  | setTtl (ttl : ℤ)
  | noReply (ttl : ℤ)
  | tooManyHops (mtu : ℤ)
  | resume (mtu hopsTo hopsFrom : ℤ)
deriving Repr, DecidableEq

/-- Where the program waits: for `sendto` with `i` failed probes behind it, in `recverr`
after a failed probe, for the answer, or in `recverr` after the wait. `exited` is a
`setsockopt` that failed. -/
inductive Pc
  | probe (i : ℕ)
  | recverrProbe (i : ℕ) (progress : ℤ)
  | wait
  | recverrWait (progress : ℤ)
  | done
  | exited
deriving Repr, DecidableEq

/-- `tries` and `oldMtu` are `i` and `old_mtu` in `main`. -/
structure Machine where
  ctl : RunState
  pc : Pc
  tries : ℕ := 0
  oldMtu : ℤ := 0
  log : List Action := []

section Main
variable (accepts : ℤ → Bool)

/-- The call of `probe_ttl` in the loop over three tries. -/
def Machine.callProbe (m : Machine) (tries : ℕ) : Machine :=
  { m with pc := .probe 0, tries := tries, oldMtu := m.ctl.mtu }

/-- From the label `done` on. -/
def Machine.finish (m : Machine) : Machine :=
  { m with pc := .done, log := m.log ++ [.resume m.ctl.mtu m.ctl.hopsTo m.ctl.hopsFrom] }

/-- The head of the loop over the hops; `accepts` are the values that `setsockopt` takes. -/
def Machine.enterHop (m : Machine) : Machine :=
  if m.ctl.ttl ≤ m.ctl.maxHops then
    if accepts m.ctl.ttl then
      Machine.callProbe { m with log := m.log ++ [.setTtl m.ctl.ttl] } 0
    else { m with pc := .exited }
  else Machine.finish { m with log := m.log ++ [.tooManyHops m.ctl.mtu] }

def Machine.nextHop (m : Machine) : Machine :=
  Machine.enterHop accepts { m with ctl := { m.ctl with ttl := u8 (m.ctl.ttl + 1) } }

/-- `main` behind the call of `probe_ttl` that has returned `res`. -/
def Machine.afterProbe (m : Machine) (res : ℤ) : Machine :=
  if m.ctl.mtu ≠ m.oldMtu then m.callProbe 0
  else if res = 0 then m.finish
  else if res > 0 then m.nextHop accepts
  else if m.tries + 1 < 3 then m.callProbe (m.tries + 1)
  else Machine.nextHop accepts { m with log := m.log ++ [.noReply m.ctl.ttl] }

end Main

inductive Event
  | send (ok : Bool) (now : Timespec)
  | recv (reply : Bool)
  | recvmsg (r : Recv)

section Step
variable (accepts : ℤ → Bool)

/-- The port that the next probe is sent to. -/
def RunState.probePort (ctl : RunState) : ℤ := u16 (ctl.basePort + ctl.hisptr)

/-- The next slot of the history. -/
def RunState.advance (ctl : RunState) : RunState :=
  { ctl with hisptr := (ctl.hisptr + 1) % hisArraySize }

/-- The entry for the probe that is about to be sent. -/
def RunState.record (ctl : RunState) (now : Timespec) : RunState :=
  { ctl with his := Function.update ctl.his ctl.hisptr ⟨ctl.ttl, now⟩ }

/-- `probe_ttl` behind a `recverr` for a failed probe. -/
def Machine.afterFailure (m : Machine) (i : ℕ) (res : ℤ) : Machine :=
  let m := { m with ctl := m.ctl.setHops m.ctl.hisptr 0 }
  if res = 0 then m.afterProbe accepts 0
  else if res > 0 then { m with pc := .probe 0 }
  else if i + 1 < maxProbes then { m with pc := .probe (i + 1) }
  else Machine.afterProbe accepts { m with ctl := m.ctl.advance } 0

/-- One event; `none` when it cannot happen at this point. -/
def Machine.step (m : Machine) (e : Event) : Option Machine :=
  match m.pc, e with
  | .probe i, .send ok now =>
      let ctl := m.ctl.record now
      if ok then some { m with ctl := ctl.advance, pc := .wait }
      else some { m with ctl := ctl, pc := .recverrProbe i (-1) }
  | .recverrProbe i progress, .recvmsg r =>
      match recverr m.ctl progress r with
      | (ctl, .inl progress) => some { m with ctl := ctl, pc := .recverrProbe i progress }
      | (ctl, .inr res) => some (Machine.afterFailure accepts { m with ctl := ctl } i res)
  | .wait, .recv reply =>
      if reply then some (m.afterProbe accepts 0) else some { m with pc := .recverrWait (-1) }
  | .recverrWait progress, .recvmsg r =>
      match recverr m.ctl progress r with
      | (ctl, .inl progress) => some { m with ctl := ctl, pc := .recverrWait progress }
      | (ctl, .inr res) => some (Machine.afterProbe accepts { m with ctl := ctl } res)
  | _, _ => none

def Machine.run (m : Machine) : List Event → Option Machine
  | [] => some m
  | e :: es => (m.step accepts e).bind fun m => m.run es

end Step

/-- The family of the target; `mapped` is an IPv4 address in an IPv6 one. -/
inductive Target
  | inet
  | inet6 (mapped : Bool)
deriving Repr, DecidableEq

/-- The options `-l`, `-m` and the port, all checked by `strtol_or_err`. -/
structure Options where
  mtu : ℤ := 0
  maxHops : ℤ := 30
  basePort : ℤ := defaultBaseport
  mtu_nonneg : 0 ≤ mtu := by decide
  mtu_le : mtu ≤ intMax := by decide
  maxHops_nonneg : 0 ≤ maxHops := by decide
  maxHops_le : maxHops ≤ maxHopsLimit := by decide
  basePort_nonneg : 0 ≤ basePort := by decide
  basePort_le : basePort ≤ 65535 := by decide

/-- Overhead and packet length for one family, `none` for `pktlen_error`. -/
def RunState.fit (ctl : RunState) (overhead defaultMtu : ℤ) : Option RunState :=
  let mtu := if ctl.mtu = 0 then defaultMtu else ctl.mtu
  if mtu ≤ overhead then none else some { ctl with overhead := overhead, mtu := mtu }

/-- `main` up to the allocation of the packet buffer. -/
def setup (o : Options) (target : Target) : Option RunState :=
  let ctl : RunState := { mtu := o.mtu, maxHops := o.maxHops, basePort := o.basePort }
  match target with
  | .inet => ctl.fit defaultOverheadIpv4 defaultMtuIpv4
  | .inet6 mapped =>
      (ctl.fit defaultOverheadIpv6 defaultMtuIpv6).bind fun ctl =>
        if mapped then ctl.fit defaultOverheadIpv4 defaultMtuIpv4 else some ctl

/-- What `main` takes over from the options. -/
theorem setup_options {o : Options} {target : Target} {ctl : RunState}
    (h : setup o target = some ctl) : ctl.maxHops = o.maxHops ∧ ctl.basePort = o.basePort ∧ ctl.hisptr = 0 := by
  have hfit : ∀ {ctl ctl' : RunState} {overhead mtu : ℤ}, ctl.fit overhead mtu = some ctl' →
      ctl'.maxHops = ctl.maxHops ∧ ctl'.basePort = ctl.basePort ∧ ctl'.hisptr = ctl.hisptr := by
    intro ctl ctl' overhead mtu h
    unfold RunState.fit at h
    dsimp only at h
    split_ifs at h
    all_goals
      cases h
      exact ⟨rfl, rfl, rfl⟩
  unfold setup at h
  dsimp only at h
  cases target with
  | inet => exact hfit h
  | inet6 mapped =>
      obtain ⟨ctl₆, h₆, h⟩ := Option.bind_eq_some_iff.mp h
      obtain ⟨hmax, hport, hptr⟩ := hfit h₆
      split_ifs at h
      · obtain ⟨hmax', hport', hptr'⟩ := hfit h
        exact ⟨hmax'.trans hmax, hport'.trans hport, hptr'.trans hptr⟩
      · cases h
        exact ⟨hmax, hport, hptr⟩

/-- The first round of the loop over the hops. -/
def Machine.start (accepts : ℤ → Bool) (ctl : RunState) : Machine :=
  Machine.enterHop accepts { ctl := { ctl with ttl := 1 }, pc := .exited }

/-- The path MTU that an event brings. -/
def Event.newMtu : Event → Option ℤ
  | .recvmsg (.message m) =>
      m.err.bind fun e => if e.errno = .emsgsize then some (i32 e.info) else none
  | _ => none

/-- The entry that an event uses up. -/
def Event.clear (ctl : RunState) : Event → RunState
  | .recvmsg (.message m) => clearEntry ctl m.port
  | _ => ctl

section Frames
variable (accepts : ℤ → Bool)

theorem clearEntry_frame (ctl : RunState) (port : ℤ) :
    clearEntry ctl port = { ctl with his := (clearEntry ctl port).his } := by
  unfold clearEntry RunState.setHops
  split_ifs <;> rfl

/-- What one round of `recverr` writes. -/
theorem recverr_frame (ctl : RunState) (progress : ℤ) (r : Recv) :
    ∃ hopsTo hopsFrom, (recverr ctl progress r).1 =
      { ctl with
        his := (Event.clear ctl (.recvmsg r)).his
        mtu := (Event.recvmsg r).newMtu.getD ctl.mtu
        hopsTo := hopsTo
        hopsFrom := hopsFrom } := by
  cases r with
  | again => exact ⟨ctl.hopsTo, ctl.hopsFrom, rfl⟩
  | failed => exact ⟨ctl.hopsTo, ctl.hopsFrom, rfl⟩
  | message m =>
      simp only [recverr, Event.newMtu, Event.clear]
      generalize hhis : (clearEntry ctl m.port).his = his
      have hclear : clearEntry ctl m.port = { ctl with his := his } := by
        rw [clearEntry_frame, hhis]
      rw [hclear]
      cases m.err with
      | none => exact ⟨ctl.hopsTo, ctl.hopsFrom, rfl⟩
      | some e =>
          obtain ⟨errno, origin, type, code, info⟩ := e
          cases errno with
          | emsgsize => exact ⟨ctl.hopsTo, ctl.hopsFrom, rfl⟩
          | econnrefused =>
              exact ⟨if (identify ctl m).sndhops < 0 then ctl.ttl else (identify ctl m).sndhops,
                m.rethops, rfl⟩
          | ehostunreach =>
              refine ⟨ctl.hopsTo, ctl.hopsFrom, ?_⟩
              dsimp only
              split_ifs
              · rfl
              · rfl
          | etimedout | eproto | enetunreach | eacces | other =>
              exact ⟨ctl.hopsTo, ctl.hopsFrom, rfl⟩

theorem enterHop_ctl (m : Machine) : (m.enterHop accepts).ctl = m.ctl := by
  unfold Machine.enterHop Machine.callProbe Machine.finish
  split_ifs <;> rfl

/-- `main` writes nothing but the time to live. -/
theorem afterProbe_ctl (m : Machine) (res : ℤ) :
    ∃ ttl, (m.afterProbe accepts res).ctl = { m.ctl with ttl := ttl } := by
  unfold Machine.afterProbe
  split_ifs
  · exact ⟨m.ctl.ttl, rfl⟩
  · exact ⟨m.ctl.ttl, rfl⟩
  · exact ⟨u8 (m.ctl.ttl + 1), enterHop_ctl accepts _⟩
  · exact ⟨m.ctl.ttl, rfl⟩
  · exact ⟨u8 (m.ctl.ttl + 1), enterHop_ctl accepts _⟩

theorem enterHop_pc (m : Machine) (h : (m.enterHop accepts).pc ≠ .done)
    (h' : (m.enterHop accepts).pc ≠ .exited) : (m.enterHop accepts).pc = .probe 0 := by
  unfold Machine.enterHop at *
  split_ifs at *
  · rfl
  · exact absurd rfl h'
  · exact absurd rfl h

/-- `main` calls `probe_ttl` again, ends or exits. -/
theorem afterProbe_pc (m : Machine) (res : ℤ) (h : (m.afterProbe accepts res).pc ≠ .done)
    (h' : (m.afterProbe accepts res).pc ≠ .exited) : (m.afterProbe accepts res).pc = .probe 0 := by
  unfold Machine.afterProbe at *
  split_ifs at *
  · rfl
  · exact absurd rfl h
  · exact enterHop_pc accepts _ h h'
  · rfl
  · exact enterHop_pc accepts _ h h'

/-- The state behind the `recverr` for a failed probe, in the same slot or the next. -/
theorem afterFailure_ctl (m : Machine) (i : ℕ) (res : ℤ) :
    ∃ ttl hisptr, (m.afterFailure accepts i res).ctl =
        { m.ctl.setHops m.ctl.hisptr 0 with ttl := ttl, hisptr := hisptr } ∧
      (hisptr = m.ctl.hisptr ∨ hisptr = (m.ctl.hisptr + 1) % hisArraySize) := by
  unfold Machine.afterFailure
  dsimp only
  split_ifs
  · obtain ⟨ttl, h⟩ := afterProbe_ctl accepts { m with ctl := m.ctl.setHops m.ctl.hisptr 0 } 0
    exact ⟨ttl, m.ctl.hisptr, h, .inl rfl⟩
  · exact ⟨m.ctl.ttl, m.ctl.hisptr, rfl, .inl rfl⟩
  · exact ⟨m.ctl.ttl, m.ctl.hisptr, rfl, .inl rfl⟩
  · obtain ⟨ttl, h⟩ := afterProbe_ctl accepts
      { m with ctl := (m.ctl.setHops m.ctl.hisptr 0).advance } 0
    exact ⟨ttl, _, h, .inr rfl⟩

theorem afterFailure_pc (m : Machine) (i : ℕ) (res : ℤ) (h : (m.afterFailure accepts i res).pc ≠ .done)
    (h' : (m.afterFailure accepts i res).pc ≠ .exited) :
    ∃ j, (m.afterFailure accepts i res).pc = .probe j := by
  unfold Machine.afterFailure at *
  dsimp only at *
  split_ifs at *
  · exact ⟨0, afterProbe_pc accepts _ _ h h'⟩
  · exact ⟨0, rfl⟩
  · exact ⟨i + 1, rfl⟩
  · exact ⟨0, afterProbe_pc accepts _ _ h h'⟩

/-- The events that a machine can take, each with its outcome. -/
theorem step_cases {m m' : Machine} {e : Event} (h : m.step accepts e = some m') :
    (∃ i ok now, m.pc = .probe i ∧ e = .send ok now ∧ m' =
      if ok then { m with ctl := (m.ctl.record now).advance, pc := .wait }
      else { m with ctl := m.ctl.record now, pc := .recverrProbe i (-1) }) ∨
    (∃ reply, m.pc = .wait ∧ e = .recv reply ∧ m' =
      if reply then m.afterProbe accepts 0 else { m with pc := .recverrWait (-1) }) ∨
    (∃ i progress r, m.pc = .recverrProbe i progress ∧ e = .recvmsg r ∧
      ((∃ p, m' = { m with ctl := (recverr m.ctl progress r).1, pc := .recverrProbe i p }) ∨
        ∃ res, m' = Machine.afterFailure accepts
          { m with ctl := (recverr m.ctl progress r).1 } i res)) ∨
    (∃ progress r, m.pc = .recverrWait progress ∧ e = .recvmsg r ∧
      ((∃ p, m' = { m with ctl := (recverr m.ctl progress r).1, pc := .recverrWait p }) ∨
        ∃ res, m' = Machine.afterProbe accepts
          { m with ctl := (recverr m.ctl progress r).1 } res)) := by
  unfold Machine.step at h
  split at h
  next i ok now hpc =>
    refine .inl ⟨i, ok, now, hpc, rfl, ?_⟩
    split_ifs at h ⊢
    · exact (Option.some.inj h).symm
    · exact (Option.some.inj h).symm
  next i progress r hpc =>
    refine .inr (.inr (.inl ⟨i, progress, r, hpc, rfl, ?_⟩))
    split at h
    next ctl p heq => exact .inl ⟨p, by rw [heq]; exact (Option.some.inj h).symm⟩
    next ctl res heq => exact .inr ⟨res, by rw [heq]; exact (Option.some.inj h).symm⟩
  next reply hpc =>
    refine .inr (.inl ⟨reply, hpc, rfl, ?_⟩)
    split_ifs at h ⊢
    · exact (Option.some.inj h).symm
    · exact (Option.some.inj h).symm
  next progress r hpc =>
    refine .inr (.inr (.inr ⟨progress, r, hpc, rfl, ?_⟩))
    split at h
    next ctl p heq => exact .inl ⟨p, by rw [heq]; exact (Option.some.inj h).symm⟩
    next ctl res heq => exact .inr ⟨res, by rw [heq]; exact (Option.some.inj h).symm⟩
  next => cases h

/-- What one event can change: the time to live, the history and the slot, the path MTU
that it brings, and the hops that are reported. -/
theorem step_frame {m m' : Machine} {e : Event} (h : m.step accepts e = some m') :
    ∃ ttl his hisptr hopsTo hopsFrom, m'.ctl =
        { m.ctl with
          ttl := ttl
          his := his
          hisptr := hisptr
          mtu := e.newMtu.getD m.ctl.mtu
          hopsTo := hopsTo
          hopsFrom := hopsFrom } ∧
      (hisptr = m.ctl.hisptr ∨ hisptr = (m.ctl.hisptr + 1) % hisArraySize) := by
  obtain ⟨i, ok, now, -, rfl, rfl⟩ | ⟨reply, -, rfl, rfl⟩ |
    ⟨i, progress, r, -, rfl, ⟨p, rfl⟩ | ⟨res, rfl⟩⟩ |
    ⟨progress, r, -, rfl, ⟨p, rfl⟩ | ⟨res, rfl⟩⟩ := step_cases accepts h
  · cases ok with
    | true => exact ⟨_, _, _, _, _, rfl, .inr rfl⟩
    | false => exact ⟨_, _, _, _, _, rfl, .inl rfl⟩
  · cases reply with
    | true =>
        obtain ⟨ttl, hctl⟩ := afterProbe_ctl accepts m 0
        exact ⟨ttl, _, _, _, _, hctl, .inl rfl⟩
    | false => exact ⟨_, _, _, _, _, rfl, .inl rfl⟩
  all_goals obtain ⟨hopsTo, hopsFrom, hrecv⟩ := recverr_frame m.ctl progress r
  all_goals rw [hrecv]
  · exact ⟨_, _, _, hopsTo, hopsFrom, rfl, .inl rfl⟩
  · obtain ⟨ttl, hisptr, hctl, hnext⟩ := afterFailure_ctl accepts { m with ctl := _ } i res
    exact ⟨ttl, _, hisptr, hopsTo, hopsFrom, hctl, hnext⟩
  · exact ⟨_, _, _, hopsTo, hopsFrom, rfl, .inl rfl⟩
  · obtain ⟨ttl, hctl⟩ := afterProbe_ctl accepts { m with ctl := _ } res
    exact ⟨ttl, _, _, hopsTo, hopsFrom, hctl, .inl rfl⟩

/-- What every event hands on with the rest of the events holds at the end of the run. -/
theorem run_invariant {P : List Event → Machine → Prop}
    (hstep : ∀ e es m m', m.step accepts e = some m' → P (e :: es) m → P es m')
    {es : List Event} {m m' : Machine} (hm : P es m) (h : m.run accepts es = some m') : P [] m' := by
  induction es generalizing m with
  | nil =>
      rw [← Option.some.inj h]
      exact hm
  | cons e es ih =>
      obtain ⟨m₁, hone, hrun⟩ := Option.bind_eq_some_iff.mp h
      exact ih (hstep e es m m₁ hone hm) hrun

theorem run_append (m : Machine) (es es' : List Event) :
    m.run accepts (es ++ es') = (m.run accepts es).bind fun m => m.run accepts es' := by
  induction es generalizing m with
  | nil => rfl
  | cons e es ih =>
      simp only [List.cons_append, Machine.run]
      cases m.step accepts e with
      | none => rfl
      | some m' => exact ih m'

end Frames

end Iputils.Tracepath
