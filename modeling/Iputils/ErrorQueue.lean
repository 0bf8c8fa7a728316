import Iputils.Pinger
import Iputils.ParseReply

/-!
# Reading the error queue

`ping4_receive_error_msg` and `ping6_receive_error_msg`. The two functions are
maintained as copies of each other, and they are modelled as such: each has its
own body. What one read of the queue is about does not depend on the family any
more, so `classify` sorts it into the six kinds that the module on sending knows,
and `account` is what either family does with a kind. Later modules argue about
`account` only.

The socket filter that the IPv4 function installs on a raw socket restricts what
the kernel delivers afterwards. It does not touch the state and is left out.
-/
set_option autoImplicit false

namespace Iputils.ErrorQueue
open MachineInt PingState ByteBuffer AckWindow GatherStatistics PrintfText PingOutput ParseReply
open Pinger (Errno Fault ErrorMsg)

/-- `ee_origin`. -/
inductive Origin
  | none | fromLocal | icmp | icmp6 | other
deriving Repr, DecidableEq

/-- `struct sock_extended_err` with the address of the offender behind it. -/
structure ExtendedErr where
  errno : Errno
  origin : Origin
  type : ℤ := 0
  code : ℤ := 0
  info : ℤ := 0
  offender : List UInt8 := []
deriving Repr, DecidableEq

/-- Control messages by level and type: `SOL_IP`/`IP_RECVERR`,
`IPPROTO_IPV6`/`IPV6_RECVERR`, and any other. -/
inductive ErrCmsg
  | ip (e : ExtendedErr)
  | ipv6 (e : ExtendedErr)
  | other
deriving Repr, DecidableEq

/-- What `recvmsg` delivers: `res` bytes of the packet that caused the error, of which
the header is looked at, and the address that packet was sent to. `stamp` is the clock
reading of option `-D`. -/
structure QueueMessage where
  res : ℕ
  icmph : List UInt8
  target : List UInt8
  cmsgs : List ErrCmsg
  stamp : Timeval := {}
deriving Repr, DecidableEq

/-- `recvmsg` on the queue; a failure is told apart by `EAGAIN` or `EINTR`. -/
inductive QueueRead
  | failed (again : Bool)
  | message (m : QueueMessage)
deriving Repr, DecidableEq

/-- The new state, the return value, `errno` and the output. -/
structure Handled where
  rts : Rts
  result : ℤ
  errno : Errno
  prints : List Print

/-- The part of the outcome that reaches the callers. -/
def Handled.outcome (h : Handled) : Rts × ℤ × Errno := (h.rts, h.result, h.errno)

/-- `ping_print_error_packet`, whose parameter `sequence` is a `uint8_t`. -/
def printErrorPacket (r : Rts) (address : List Char) (sequence : ℤ) : List Print :=
  if r.optJson then []
  else
    [.text ("From ".toList ++ address ++ " icmp_seq=".toList ++ decText (sequence % 256) ++ [' '])]

section Inet

def recverr4 (cmsgs : List ErrCmsg) : Option ExtendedErr :=
  cmsgs.foldl (fun e c => match c with | .ip e' => some e' | _ => e) none

/-- The message quotes an echo request of this process to the pinged address. -/
def Ours4 (c : Config) (r : Rts) (sock : SockType) (m : QueueMessage) : Prop :=
  ¬ (m.res < 8 ∨ m.target ≠ c.whereto ∨ byteAt m.icmph 0 ≠ icmpEcho ∨
    ¬ isOurs r sock (le16At m.icmph 4))

instance (c : Config) (r : Rts) (sock : SockType) (m : QueueMessage) :
    Decidable (Ours4 c r sock m) := inferInstanceAs (Decidable (¬ _))

def localPrints4 (r : Rts) (e : ExtendedErr) : List Print :=
  if r.optFlood then [.text ['E']]
  else if e.errno ≠ .emsgsize then []
  else [.error ("local error: message too long, mtu=".toList ++ decText e.info)]

def networkPrints4 (env : Env) (c : Config) (r : Rts) (m : QueueMessage) (e : ExtendedErr) :
    List Print :=
  if r.optFlood then [.text "\x08E".toList]
  else
    printTimestamp c.optPtimeofday m.stamp ++
      printErrorPacket r (env.names e.offender).text (be16At m.icmph 6) ++
      [.text (env.prIcmph e.type e.code e.info [])]

def ping4ReceiveErrorMsg (env : Env) (c : Config) (r : Rts) (sock : SockType) (errno : Errno) :
    QueueRead → Except Fault Handled
  | .failed again => .ok ⟨r, if again then -1 else 0, errno, []⟩
  | .message m =>
      match recverr4 m.cmsgs with
      | none => .error .abort
      | some e =>
          if e.origin = .fromLocal then
            if r.optQuiet then .ok ⟨r, -1, errno, []⟩
            else .ok ⟨{ r with nerrors := r.nerrors + 1 }, -1, errno, localPrints4 r e⟩
          else if e.origin = .icmp then
            if ¬ Ours4 c r sock m then .ok ⟨r, 0, .zero, []⟩
            else
              let r := acknowledge r (be16At m.icmph 6)
              let r := { r with nerrors := r.nerrors + 1 }
              .ok ⟨r, 1, errno, if r.optQuiet then [] else networkPrints4 env c r m e⟩
          else .ok ⟨r, 0, errno, []⟩

def classify4 (c : Config) (r : Rts) (sock : SockType) : QueueRead → ErrorMsg
  | .failed again => .unread again
  | .message m =>
      match recverr4 m.cmsgs with
      | none => .malformed
      | some e =>
          if e.origin = .fromLocal then .localError
          else if e.origin = .icmp then
            if Ours4 c r sock m then .icmp (be16At m.icmph 6) else .foreign
          else .otherOrigin

end Inet

section Inet6

def recverr6 (cmsgs : List ErrCmsg) : Option ExtendedErr :=
  cmsgs.foldl (fun e c => match c with | .ipv6 e' => some e' | _ => e) none

def Ours6 (c : Config) (r : Rts) (sock : SockType) (m : QueueMessage) : Prop :=
  ¬ (m.res < 8 ∨ m.target ≠ c.whereto6 ∨ byteAt m.icmph 0 ≠ icmp6EchoRequest ∨
    ¬ isOurs r sock (le16At m.icmph 4))

instance (c : Config) (r : Rts) (sock : SockType) (m : QueueMessage) :
    Decidable (Ours6 c r sock m) := inferInstanceAs (Decidable (¬ _))

def networkPrints6 (env : Env) (c : Config) (r : Rts) (m : QueueMessage) (e : ExtendedErr) :
    List Print :=
  if r.optFlood then [.text "\x08E".toList]
  else
    printTimestamp c.optPtimeofday m.stamp ++
      printErrorPacket r (env.names e.offender).text (be16At m.icmph 6) ++
      [.text (env.printIcmp e.type e.code e.info), .text ['\n']]

/-- Unlike its sibling it does not call `acknowledge`, and the text about the MTU goes
to standard error. -/
def ping6ReceiveErrorMsg (env : Env) (c : Config) (r : Rts) (sock : SockType) (errno : Errno) :
    QueueRead → Except Fault Handled
  | .failed again => .ok ⟨r, if again then -1 else 0, errno, []⟩
  | .message m =>
      match recverr6 m.cmsgs with
      | none => .error .abort
      | some e =>
          if e.origin = .fromLocal then
            if r.optQuiet then .ok ⟨r, -1, errno, []⟩
            else
              .ok ⟨{ r with nerrors := r.nerrors + 1 }, -1, errno,
                if r.optFlood then [.text ['E']] else []⟩
          else if e.origin = .icmp6 then
            if ¬ Ours6 c r sock m then .ok ⟨r, 0, .zero, []⟩
            else
              let r := { r with nerrors := r.nerrors + 1 }
              .ok ⟨r, 1, errno, if r.optQuiet then [] else networkPrints6 env c r m e⟩
          else .ok ⟨r, 0, errno, []⟩

def classify6 (c : Config) (r : Rts) (sock : SockType) : QueueRead → ErrorMsg
  | .failed again => .unread again
  | .message m =>
      match recverr6 m.cmsgs with
      | none => .malformed
      | some e =>
          if e.origin = .fromLocal then .localError
          else if e.origin = .icmp6 then
            if Ours6 c r sock m then .icmp (be16At m.icmph 6) else .foreign
          else .otherOrigin

end Inet6

/-- The member `receive_error_msg` of the two function sets. -/
def receiveErrorMsg (env : Env) (c : Config) (fam : Family) (r : Rts) (sock : SockType)
    (errno : Errno) (q : QueueRead) : Except Fault Handled :=
  match fam with
  | .inet => ping4ReceiveErrorMsg env c r sock errno q
  | .inet6 => ping6ReceiveErrorMsg env c r sock errno q

def classify (c : Config) (fam : Family) (r : Rts) (sock : SockType) (q : QueueRead) : ErrorMsg :=
  match fam with
  | .inet => classify4 c r sock q
  | .inet6 => classify6 c r sock q

/-- What a network error about probe number `seq` does to the state. -/
def countError (fam : Family) (r : Rts) (seq : ℤ) : Rts :=
  match fam with
  | .inet => { acknowledge r seq with nerrors := r.nerrors + 1 }
  | .inet6 => { r with nerrors := r.nerrors + 1 }

def account (fam : Family) (r : Rts) (errno : Errno) : ErrorMsg → Except Fault (Rts × ℤ × Errno)
  | .unread again => .ok (r, if again then -1 else 0, errno)
  | .malformed => .error .abort
  | .localError => .ok (if r.optQuiet then r else { r with nerrors := r.nerrors + 1 }, -1, errno)
  | .foreign => .ok (r, 0, .zero)
  | .icmp seq => .ok (countError fam r seq, 1, errno)
  | .otherOrigin => .ok (r, 0, errno)

section Accounting
variable {env : Env} {c : Config} {r : Rts} {sock : SockType} {errno : Errno} {q : QueueRead}

theorem outcome_ping4ReceiveErrorMsg :
    (ping4ReceiveErrorMsg env c r sock errno q).map Handled.outcome =
      account .inet r errno (classify4 c r sock q) := by
  cases q with
  | failed again => rfl
  | message m =>
      simp only [ping4ReceiveErrorMsg, classify4]
      cases recverr4 m.cmsgs with
      | none => rfl
      | some e =>
          dsimp only
          by_cases hl : e.origin = .fromLocal
          · rw [if_pos hl, if_pos hl, account]
            split_ifs <;> rfl
          · rw [if_neg hl, if_neg hl]
            by_cases hi : e.origin = .icmp
            · rw [if_pos hi, if_pos hi]
              by_cases ho : Ours4 c r sock m
              · rw [if_neg (not_not_intro ho), if_pos ho, account, countError,
                  ← acknowledge_nerrors r (be16At m.icmph 6)]
                rfl
              · rw [if_pos ho, if_neg ho]
                rfl
            · rw [if_neg hi, if_neg hi]
              rfl

theorem outcome_ping6ReceiveErrorMsg :
    (ping6ReceiveErrorMsg env c r sock errno q).map Handled.outcome =
      account .inet6 r errno (classify6 c r sock q) := by
  cases q with
  | failed again => rfl
  | message m =>
      simp only [ping6ReceiveErrorMsg, classify6]
      cases recverr6 m.cmsgs with
      | none => rfl
      | some e =>
          dsimp only
          by_cases hl : e.origin = .fromLocal
          · rw [if_pos hl, if_pos hl, account]
            split_ifs <;> rfl
          · rw [if_neg hl, if_neg hl]
            by_cases hi : e.origin = .icmp6
            · rw [if_pos hi, if_pos hi]
              by_cases ho : Ours6 c r sock m
              · rw [if_neg (not_not_intro ho), if_pos ho]
                rfl
              · rw [if_pos ho, if_neg ho]
                rfl
            · rw [if_neg hi, if_neg hi]
              rfl

/-- What the callers see of a read of the queue is decided by its kind. -/
theorem outcome_receiveErrorMsg (fam : Family) :
    (receiveErrorMsg env c fam r sock errno q).map Handled.outcome =
      account fam r errno (classify c fam r sock q) := by
  cases fam with
  | inet => exact outcome_ping4ReceiveErrorMsg
  | inet6 => exact outcome_ping6ReceiveErrorMsg

theorem countError_frame (fam : Family) (r : Rts) (seq : ℤ) :
    countError fam r seq =
      { r with
        nerrors := r.nerrors + 1
        pipesize := (countError fam r seq).pipesize
        acked := (countError fam r seq).acked } := by
  cases fam with
  | inet =>
      rw [countError, acknowledge_frame]
  | inet6 => rfl

/-- Whose packet a message quotes is decided by the identifier alone. -/
theorem classify_congr {r' : Rts} (h : r'.ident = r.ident) (fam : Family) :
    classify c fam r' sock q = classify c fam r sock q := by
  have h₄ : ∀ m, Ours4 c r' sock m ↔ Ours4 c r sock m := by
    intro m
    simp only [Ours4, isOurs, h]
  have h₆ : ∀ m, Ours6 c r' sock m ↔ Ours6 c r sock m := by
    intro m
    simp only [Ours6, isOurs, h]
  cases fam with
  | inet => simp only [classify, classify4, h₄]
  | inet6 => simp only [classify, classify6, h₆]

end Accounting

end Iputils.ErrorQueue
