import Iputils.MainLoop
import Mathlib

/-!
# Every probe is accounted once

Replies and errors are counted in different places, and the errors of one failed
send on up to three paths. Beside the state of the loop a register is kept of the
probes that an event was about: an accepted reply, an ICMP error or a local failure of
the send. None of the functions reads it. As long as no two events are about one
probe, the counters stay below the size of the register, provided that a failure
which `pinger` has counted itself is not counted again from the error queue.
-/
set_option autoImplicit false

namespace Iputils.ProbeAccounting
open MachineInt PingState ReceivedTable AckWindow ParseReply ErrorQueue MainLoop
open GatherStatistics (gatherStatistics gatherStatistics_frame ledger_gatherStatistics
  acknowledge_frame)
open Pinger (Errno ErrorMsg PingerState Verdict SendResult slowDown hardLocalError outOfMemory)

/-- What is taken from the socket: a first good reply or an ICMP error, with the sequence
number it carries, or a message of local origin. -/
inductive Event
  | reply (seq : ℤ)
  | network (seq : ℤ)
  | localMessage
deriving Repr, DecidableEq

def eventOfKind : ErrorMsg → Option Event
  | .icmp seq => some (.network seq)
  | .localError => some .localMessage
  | .unread _ | .malformed | .foreign | .otherOrigin => none

def eventOfEffect (r : Rts) : Effect → Option Event
  | .nothing | .acknowledged _ => none
  | .reply p =>
      if p.csfailed = false ∧ rcvdTest r.rcvdTbl p.seq = 0 then some (.reply p.seq) else none

section Events
variable (k : Setup)

def event (s : Loop) (i : Input) : Option Event :=
  let r := s.pinger.rts
  match s.pc, i with
  | .resend, .send a =>
      if (SendResult.asks a.result).isSome then eventOfKind (k.kind r a.queue) else none
  | .receive _ _, .datagram d => eventOfEffect r (effect k.env k.config k.fam r k.sock d)
  | .receive _ recvError, .recvFailed errno q =>
      if errno = .eagain ∧ recvError = false then none else eventOfKind (k.kind r q)
  | _, _ => none

/-- A send that fails and is counted all the same, and whether the error was `EMSGSIZE`,
which `pinger` adds to `nerrors` itself. -/
def failure (s : Loop) (i : Input) : Option Bool :=
  match s.pc, i with
  | .resend, .send a =>
      if a.result = .sent ∨
          (step k s i).pinger.rts.ntransmitted = s.pinger.rts.ntransmitted then none
      else some (decide (a.result = .failed .emsgsize))
  | _, _ => none

end Events

/-- The probes that an event was about, the failed sends that `pinger` has counted as
errors, and the failed sends whose message has not been read. -/
structure Register where
  closed : Finset ℤ := ∅
  charged : Finset ℤ := ∅
  queued : Finset ℤ := ∅

/-- Probe `n` could not be sent. -/
def Register.fail (g : Register) (n : ℤ) : Option Bool → Register
  | none => g
  | some charged =>
      { closed := insert n g.closed
        charged := if charged then insert n g.charged else g.charged
        queued := insert n g.queued }

/-- The event is about probe `j`. -/
def Register.settle (g : Register) (j : ℤ) : Option Event → Register
  | none => g
  | some .localMessage => { g with queued := g.queued.erase j }
  | some _ => { g with closed := insert j g.closed }

structure Books where
  loop : Loop
  register : Register

def Books.start (r : Rts) : Books :=
  ⟨Loop.start { r with ntransmitted := 0, nreceived := 0, nerrors := 0 }, {}⟩

section Steps
variable (k : Setup)

/-- The register after the failure, if there is one. -/
def Books.afterFailure (b : Books) (i : Input) : Register :=
  b.register.fail (b.loop.pinger.rts.ntransmitted + 1) (failure k b.loop i)

/-- A step with the probe that its event is about. -/
def Books.step (b : Books) (i : Input) (j : ℤ) : Books :=
  ⟨MainLoop.step k b.loop i, (b.afterFailure k i).settle j (event k b.loop i)⟩

/-- A reply or an ICMP error is about a probe that was counted, carries its number, and
no other event was about this probe. A message of local origin is the one message about
a send that failed. -/
def LegalEvent (g : Register) (n j : ℤ) : Option Event → Prop
  | none => True
  | some (.reply seq) | some (.network seq) => 1 ≤ j ∧ j ≤ n ∧ u16 j = seq ∧ j ∉ g.closed
  | some .localMessage => j ∈ g.queued

instance (g : Register) (n j : ℤ) : (e : Option Event) → Decidable (LegalEvent g n j e)
  | none => isTrue trivial
  | some (.reply _) | some (.network _) => inferInstanceAs (Decidable (_ ∧ _))
  | some .localMessage => inferInstanceAs (Decidable (_ ∈ _))

def Legal (b : Books) (i : Input) (j : ℤ) : Prop :=
  LegalEvent (b.afterFailure k i) b.loop.pinger.rts.ntransmitted j (event k b.loop i)

/-- A message of local origin is read in a quiet run, or it is about a failure that has
not been counted. -/
def Clean (b : Books) (i : Input) (j : ℤ) : Prop :=
  event k b.loop i = some .localMessage →
    b.loop.pinger.rts.optQuiet = true ∨ j ∉ (b.afterFailure k i).charged

instance (b : Books) (i : Input) (j : ℤ) : Decidable (Legal k b i j) :=
  inferInstanceAs (Decidable (LegalEvent _ _ _ _))

instance (b : Books) (i : Input) (j : ℤ) : Decidable (Clean k b i j) :=
  inferInstanceAs (Decidable (_ → _))

def Step (b b' : Books) : Prop := ∃ i j, Legal k b i j ∧ b' = b.step k i j

def CleanStep (b b' : Books) : Prop :=
  ∃ i j, (Legal k b i j ∧ Clean k b i j) ∧ b' = b.step k i j

end Steps

/-! ## What a step does to the counters -/

/-- The share of an event in `nreceived`. -/
def receiptShare : Option Event → ℤ
  | some (.reply _) => 1
  | some (.network _) | some .localMessage | none => 0

/-- The share of an event in `nerrors`. -/
def errorShare (quiet : Bool) : Option Event → ℤ
  | some (.network _) => 1
  | some .localMessage => if quiet then 0 else 1
  | some (.reply _) | none => 0

/-- The share of a failure in `nerrors`. -/
def chargeShare : Option Bool → ℤ
  | some true => 1
  | some false | none => 0

/-- The counters after a step with the failure `f` and the event `e`. -/
structure Moves (f : Option Bool) (e : Option Event) (r r' : Rts) : Prop where
  received : r'.nreceived = r.nreceived + receiptShare e
  errors : r'.nerrors = r.nerrors + chargeShare f + errorShare r.optQuiet e
  sent : r.ntransmitted ≤ r'.ntransmitted
  failed : f ≠ none → r'.ntransmitted = r.ntransmitted + 1

/-- The counters are untouched. -/
structure Still (r r' : Rts) : Prop where
  received : r'.nreceived = r.nreceived
  errors : r'.nerrors = r.nerrors
  sent : r'.ntransmitted = r.ntransmitted

theorem Still.moves {r r' : Rts} (h : Still r r') : Moves none none r r' := by
  refine ⟨?_, ?_, h.sent.ge, fun hne => absurd rfl hne⟩
  · rw [h.received, receiptShare, add_zero]
  · rw [h.errors, chargeShare, errorShare, add_zero, add_zero]

section Receiving
variable {k : Setup}

theorem still_acknowledge (r : Rts) (seq : ℤ) : Still r (acknowledge r seq) :=
  ⟨acknowledge_nreceived r seq, acknowledge_nerrors r seq, acknowledge_ntransmitted r seq⟩

/-- A reply counts once if it is good and the first, and not at all otherwise. -/
theorem moves_reply (r : Rts) (p : GatherStatistics.Reply) :
    Moves none (eventOfEffect r (.reply p)) r (gatherStatistics r p).1 := by
  have hframe := gatherStatistics_frame r p
  have herr : (gatherStatistics r p).1.nerrors = r.nerrors := by rw [hframe]
  have hsent : (gatherStatistics r p).1.ntransmitted = r.ntransmitted := by rw [hframe]
  have hrec : (gatherStatistics r p).1.nreceived = _ :=
    congrArg GatherStatistics.Ledger.received (ledger_gatherStatistics r p)
  rw [eventOfEffect]
  by_cases hck : p.csfailed = true
  · rw [if_pos hck] at hrec
    rw [if_neg (fun h => by simp [hck] at h)]
    exact Still.moves ⟨hrec, herr, hsent⟩
  · rw [if_neg hck] at hrec
    by_cases hdup : rcvdTest r.rcvdTbl p.seq ≠ 0
    · rw [if_pos hdup] at hrec
      rw [if_neg (fun h => hdup h.2)]
      exact Still.moves ⟨hrec, herr, hsent⟩
    · rw [if_neg hdup] at hrec
      rw [if_pos ⟨Bool.eq_false_of_not_eq_true hck, not_not.mp hdup⟩]
      exact ⟨hrec, by rw [herr, chargeShare, errorShare, add_zero, add_zero], hsent.ge,
        fun hne => absurd rfl hne⟩

theorem moves_effect (r : Rts) (e : Effect) : Moves none (eventOfEffect r e) r (e.apply r) := by
  cases e with
  | nothing => exact Still.moves ⟨rfl, rfl, rfl⟩
  | acknowledged seq => exact (still_acknowledge r seq).moves
  | reply p => exact moves_reply r p

/-- What a read of the error queue does to the counters is decided by its kind. -/
theorem account_counters {fam : Family} {r : Rts} {errno : Errno} {m : ErrorMsg}
    {o : Rts × ℤ × Errno} (h : account fam r errno m = .ok o) :
    o.1.nreceived = r.nreceived ∧ o.1.nerrors = r.nerrors + errorShare r.optQuiet (eventOfKind m) ∧
      o.1.ntransmitted = r.ntransmitted ∧ receiptShare (eventOfKind m) = 0 := by
  cases m with
  | malformed => cases h
  | unread again | foreign | otherOrigin =>
      obtain rfl := Except.ok.inj h
      exact ⟨rfl, (add_zero _).symm, rfl, rfl⟩
  | localError =>
      obtain rfl := Except.ok.inj h
      dsimp only [eventOfKind, errorShare]
      split_ifs
      · exact ⟨rfl, (add_zero _).symm, rfl, rfl⟩
      · exact ⟨rfl, rfl, rfl, rfl⟩
  | icmp seq =>
      obtain rfl := Except.ok.inj h
      dsimp only
      rw [countError_frame]
      exact ⟨rfl, rfl, rfl, rfl⟩

/-- A read that aborts is of no event. -/
theorem eventOfKind_of_error {fam : Family} {r : Rts} {errno : Errno} {m : ErrorMsg}
    {f : Pinger.Fault} (h : account fam r errno m = .error f) : eventOfKind m = none := by
  cases m with
  | malformed => rfl
  | unread again | foreign | otherOrigin | localError | icmp seq => cases h

theorem moves_takeError (s : Loop) (errno : Errno) (q : QueueRead) (recvError : Bool) :
    Moves none
      (if errno = .eagain ∧ recvError = false then none
        else eventOfKind (k.kind s.pinger.rts q))
      s.pinger.rts (takeError k s errno q recvError).pinger.rts := by
  rw [takeError_eq]
  by_cases he : errno = .eagain ∧ recvError = false
  · rw [if_pos he, if_pos he]
    exact Still.moves ⟨rfl, rfl, rfl⟩
  · rw [if_neg he, if_neg he]
    cases ho : account k.fam s.pinger.rts errno (k.kind s.pinger.rts q) with
    | error f =>
        rw [eventOfKind_of_error ho]
        exact Still.moves ⟨rfl, rfl, rfl⟩
    | ok o =>
        obtain ⟨hrec, herr, hsent, hshare⟩ := account_counters ho
        dsimp only
        rw [settleReceive_rts]
        refine ⟨?_, ?_, hsent.ge, fun hne => absurd rfl hne⟩
        · rw [hrec, hshare, add_zero]
        · rw [herr, chargeShare, add_zero]

end Receiving

section Sending
variable {k : Setup}

theorem still_sendState (r : Rts) (outpack : List UInt8) : Still r (sendState k r outpack) := by
  rw [sendState_frame]
  exact ⟨rfl, rfl, rfl⟩

theorem still_slowDown (r : Rts) : Still r (slowDown r) := by
  simp only [slowDown]
  split_ifs <;> exact ⟨rfl, rfl, rfl⟩

theorem Still.trans {r r' r'' : Rts} (h : Still r r') (h' : Still r' r'') : Still r r'' :=
  ⟨h'.received.trans h.received, h'.errors.trans h.errors, h'.sent.trans h.sent⟩

/-- Without buffer space the probe is tried later or counted. -/
theorem outOfMemory_cases (p : PingerState) :
    verdictRts (outOfMemory p) = slowDown p.rts ∨
      verdictRts (outOfMemory p) = advanceNtransmitted (slowDown p.rts) := by
  unfold outOfMemory
  extract_lets r nores nores' t
  split_ifs
  · exact Or.inl rfl
  · exact Or.inr rfl

/-- After a read of the queue the probe is sent again or counted. -/
theorem settleError_cases (p : PingerState) (o : Rts × ℤ × Errno) :
    Still o.1 (verdictRts (settleError p o)) ∨
      verdictRts (settleError p o) = advanceNtransmitted o.1 := by
  unfold settleError
  split_ifs
  · exact Or.inr rfl
  · exact Or.inl ⟨rfl, rfl, rfl⟩
  · exact Or.inl ⟨rfl, rfl, rfl⟩
  · exact Or.inr rfl

/-- A send that failed with another error than `EMSGSIZE`: the probe is tried again or
counted, and only what was read from the queue counts as an error. -/
theorem moves_failed {e : Option Event} {r t r' : Rts} {a : Send} (hne : a.result ≠ .sent)
    (hm : a.result ≠ .failed .emsgsize) (hrec : t.nreceived = r.nreceived)
    (herr : t.nerrors = r.nerrors + errorShare r.optQuiet e)
    (hsent : t.ntransmitted = r.ntransmitted) (hshare : receiptShare e = 0)
    (hr : Still t r' ∨ r' = advanceNtransmitted t) :
    Moves (if a.result = .sent ∨ r'.ntransmitted = r.ntransmitted then none
      else some (decide (a.result = .failed .emsgsize))) e r r' := by
  rcases hr with hr | rfl
  · have hsame : r'.ntransmitted = r.ntransmitted := hr.sent.trans hsent
    rw [if_pos (Or.inr hsame)]
    refine ⟨?_, ?_, hsame.ge, fun h => absurd rfl h⟩
    · rw [hr.received, hrec, hshare, add_zero]
    · rw [hr.errors, herr, chargeShare, add_zero]
  · have hmore : (advanceNtransmitted t).ntransmitted = r.ntransmitted + 1 := by
      rw [advanceNtransmitted_ntransmitted, hsent]
    rw [if_neg (not_or_intro hne (by omega)), decide_eq_false hm]
    refine ⟨?_, ?_, by omega, fun _ => hmore⟩
    · rw [advanceNtransmitted_nreceived, hrec, hshare, add_zero]
    · rw [advanceNtransmitted_nerrors, herr, chargeShare, add_zero]

/-- A probe that is too long is an error and counted. -/
theorem moves_emsgsize {r t : Rts} {a : Send} (h : Still r t)
    (hres : a.result = .failed .emsgsize) :
    let r' := advanceNtransmitted { t with nerrors := t.nerrors + 1 }
    Moves (if a.result = .sent ∨ r'.ntransmitted = r.ntransmitted then none
      else some (decide (a.result = .failed .emsgsize))) none r r' := by
  intro r'
  have hmore : r'.ntransmitted = r.ntransmitted + 1 := by
    rw [advanceNtransmitted_ntransmitted, h.sent]
  rw [if_neg (not_or_intro (by rw [hres]; decide) (by omega)), decide_eq_true hres]
  refine ⟨?_, ?_, by omega, fun _ => hmore⟩
  · rw [advanceNtransmitted_nreceived, h.received, receiptShare, add_zero]
  · rw [advanceNtransmitted_nerrors, h.errors, chargeShare, errorShare, add_zero]

/-- A probe that went out is counted and nothing else. -/
theorem moves_sent {r t : Rts} (h : Still r t) : Moves none none r (advanceNtransmitted t) := by
  refine ⟨?_, ?_, ?_, fun hne => absurd rfl hne⟩
  · rw [advanceNtransmitted_nreceived, h.received, receiptShare, add_zero]
  · rw [advanceNtransmitted_nerrors, h.errors, chargeShare, errorShare, add_zero, add_zero]
  · rw [advanceNtransmitted_ntransmitted, h.sent]
    omega

theorem event_asked {p : PingerState} {a : Send} {e : Errno}
    (h : SendResult.asks a.result = some e) :
    (if (SendResult.asks a.result).isSome then eventOfKind (k.kind p.rts a.queue) else none) =
      eventOfKind (k.kind (sendState k p.rts a.outpack) a.queue) := by
  have hkind : k.kind (sendState k p.rts a.outpack) a.queue = k.kind p.rts a.queue :=
    classify_congr (sendState_ident p.rts a.outpack) k.fam
  rw [h, hkind]
  rfl

/-- A send that the loop cannot handle is of no event. -/
theorem event_of_fault {p : PingerState} {a : Send} {f : Pinger.Fault}
    (h : sendOnce k p a = .error f) :
    (if (SendResult.asks a.result).isSome then eventOfKind (k.kind p.rts a.queue) else none) =
      none := by
  cases hasks : SendResult.asks a.result with
  | none => rfl
  | some e =>
      rw [← hasks, event_asked hasks]
      rw [sendOnce, handleResult_asks hasks, otherError_eq] at h
      cases ho : account k.fam (sendState k p.rts a.outpack) e
          (k.kind (sendState k p.rts a.outpack) a.queue) with
      | error f' => exact eventOfKind_of_error ho
      | ok o => simp [ho, Except.map] at h

theorem event_unasked {p : PingerState} {a : Send} (h : SendResult.asks a.result = none) :
    (if (SendResult.asks a.result).isSome then eventOfKind (k.kind p.rts a.queue) else none) =
      none := by
  rw [h]
  rfl

/-- What a pass through `resend` does to the counters. -/
theorem moves_trySend (s : Loop) (a : Send) :
    Moves
      (if a.result = .sent ∨
          (trySend k s a).pinger.rts.ntransmitted = s.pinger.rts.ntransmitted then none
        else some (decide (a.result = .failed .emsgsize)))
      (if (SendResult.asks a.result).isSome then eventOfKind (k.kind s.pinger.rts a.queue) else none)
      s.pinger.rts (trySend k s a).pinger.rts := by
  cases hs : sendOnce k s.pinger a with
  | error f =>
      have hrts : (trySend k s a).pinger.rts = s.pinger.rts := by rw [trySend, hs]
      rw [hrts, if_pos (Or.inr rfl), event_of_fault hs]
      exact Still.moves ⟨rfl, rfl, rfl⟩
  | ok v =>
      have hst := @still_sendState k s.pinger.rts a.outpack
      have hrts := trySend_rts hs
      rcases sendOnce_cases hs with ⟨hres, next, hv⟩ | ⟨hres, hv⟩ | ⟨hres, tokens, hv⟩ | ⟨hres, hv⟩ |
        ⟨e, o, hasks, ho, hv⟩
      · rw [hrts, if_pos (Or.inl hres), event_unasked (by rw [hres]; rfl), hv]
        exact moves_sent hst
      · have hne : a.result ≠ .sent ∧ a.result ≠ .failed .emsgsize ∧
            SendResult.asks a.result = none := by
          rcases hres with hres | hres <;> rw [hres] <;> exact ⟨by decide, by decide, rfl⟩
        have hslow := hst.trans (still_slowDown _)
        rw [hrts, event_unasked hne.2.2, hv]
        refine moves_failed hne.1 hne.2.1 hslow.received ?_ hslow.sent rfl ?_
        · rw [hslow.errors, errorShare, add_zero]
        · refine (outOfMemory_cases _).imp_left fun heq => ?_
          rw [heq]
          exact ⟨rfl, rfl, rfl⟩
      · rw [hrts, event_unasked (by rw [hres]; rfl), hv]
        refine moves_failed (by rw [hres]; decide) (by rw [hres]; decide) hst.received ?_ hst.sent
          rfl (Or.inl ⟨rfl, rfl, rfl⟩)
        rw [hst.errors, errorShare, add_zero]
      · rw [hrts, event_unasked (by rw [hres]; rfl), hv]
        exact moves_emsgsize hst hres
      · obtain ⟨hrec, herr, hsent, hshare⟩ := account_counters ho
        have hne : a.result ≠ .sent ∧ a.result ≠ .failed .emsgsize := by
          constructor <;> intro hres <;> rw [hres] at hasks <;> cases hasks
        have hquiet : (sendState k s.pinger.rts a.outpack).optQuiet = s.pinger.rts.optQuiet := by
          rw [sendState_frame]
        dsimp only at hrec herr hsent hshare
        rw [hst.errors, hquiet] at herr
        rw [hrts, event_asked hasks, hv]
        exact moves_failed hne.1 hne.2 (hrec.trans hst.received) herr (hsent.trans hst.sent) hshare
          (settleError_cases _ o)

end Sending

section Invariant
variable {k : Setup}

theorem still_checkExit (s : Loop) : Still s.pinger.rts (checkExit s).pinger.rts := by
  unfold checkExit
  split_ifs <;> exact ⟨rfl, rfl, rfl⟩

theorem still_passGate (s : Loop) (now : Timespec) :
    Still s.pinger.rts (passGate s now).pinger.rts := by
  unfold passGate
  cases hg : Pinger.openGate s.pinger now with
  | error f => exact ⟨rfl, rfl, rfl⟩
  | ok g =>
      cases g with
      | wait next =>
          dsimp only
          rw [afterPinger_rts]
          exact ⟨rfl, rfl, rfl⟩
      | send p =>
          dsimp only
          rw [openGate_send hg]
          exact ⟨rfl, rfl, rfl⟩

theorem still_awaitInput (s : Loop) (next : ℤ) (revents : Option Bool) :
    Still s.pinger.rts (awaitInput k s next revents).pinger.rts := by
  cases revents with
  | none =>
      simp only [awaitInput]
      split_ifs <;> exact ⟨rfl, rfl, rfl⟩
  | some pollerr =>
      simp only [awaitInput]
      split_ifs <;> exact ⟨rfl, rfl, rfl⟩

/-- What any step does to the counters. -/
theorem moves_step (s : Loop) (i : Input) :
    Moves (failure k s i) (event k s i) s.pinger.rts (step k s i).pinger.rts := by
  have hstill : Moves none none s.pinger.rts s.pinger.rts := Still.moves ⟨rfl, rfl, rfl⟩
  obtain ⟨p, waittime, snapshot, pc⟩ := s
  cases i with
  | sigexit =>
      cases pc <;> exact Still.moves ⟨rfl, rfl, rfl⟩
  | sigstatus =>
      cases pc <;> exact hstill
  | check =>
      cases pc with
      | top => exact (still_checkExit _).moves
      | gate | resend | wait next | receive polling recvError | left | halted f => exact hstill
  | clock now =>
      cases pc with
      | gate => exact (still_passGate _ now).moves
      | top | resend | wait next | receive polling recvError | left | halted f => exact hstill
  | send a =>
      cases pc with
      | resend => exact moves_trySend _ a
      | top | gate | wait next | receive polling recvError | left | halted f => exact hstill
  | wait revents =>
      cases pc with
      | wait next => exact (still_awaitInput _ next revents).moves
      | top | gate | resend | receive polling recvError | left | halted f => exact hstill
  | datagram d =>
      cases pc with
      | receive polling recvError =>
          have hm := moves_effect p.rts (effect k.env k.config k.fam p.rts k.sock d)
          change Moves none _ p.rts (takeDatagram k _ d recvError).pinger.rts
          rw [takeDatagram_eq]
          exact hm
      | top | gate | resend | wait next | left | halted f => exact hstill
  | interrupted =>
      cases pc <;> exact hstill
  | recvFailed errno q =>
      cases pc with
      | receive polling recvError => exact moves_takeError _ errno q recvError
      | top | gate | resend | wait next | left | halted f => exact hstill

/-- How much the counters may hold: one for each probe in the register, less the failures
that may still be counted from the queue. -/
def Register.margin (g : Register) : ℤ := g.closed.card - (g.queued \ g.charged).card

theorem margin_fail {g : Register} {n : ℤ} (hn : n ∉ g.closed) (f : Option Bool) :
    g.margin + chargeShare f ≤ (g.fail n f).margin := by
  cases f with
  | none => rw [Register.fail, chargeShare, add_zero]
  | some charged =>
      have hcard : (insert n g.closed).card = g.closed.card + 1 := Finset.card_insert_of_notMem hn
      cases charged with
      | true =>
          have hsub : insert n g.queued \ insert n g.charged ⊆ g.queued \ g.charged := by
            intro x hx
            simp only [Finset.mem_sdiff, Finset.mem_insert, not_or] at hx ⊢
            exact ⟨hx.1.resolve_left hx.2.1, hx.2.2⟩
          have hle := Finset.card_le_card hsub
          simp only [Register.margin, Register.fail, chargeShare, if_true, hcard]
          push_cast
          omega
      | false =>
          have hsub : insert n g.queued \ g.charged ⊆ insert n (g.queued \ g.charged) := by
            intro x hx
            simp only [Finset.mem_sdiff, Finset.mem_insert] at hx ⊢
            exact hx.1.imp_right fun hq => ⟨hq, hx.2⟩
          have hle := (Finset.card_le_card hsub).trans (Finset.card_insert_le _ _)
          simp only [Register.margin, Register.fail, chargeShare, Bool.false_eq_true, if_false,
            hcard]
          push_cast
          omega

theorem margin_close {g : Register} {j : ℤ} (hj : j ∉ g.closed) :
    ({ g with closed := insert j g.closed } : Register).margin = g.margin + 1 := by
  simp only [Register.margin, Finset.card_insert_of_notMem hj]
  push_cast
  ring

/-- Reading a message uses up the room that was kept for it. -/
theorem margin_read {g : Register} {j : ℤ} (hj : j ∈ g.queued) {quiet : Bool}
    (hclean : quiet = true ∨ j ∉ g.charged) :
    g.margin + errorShare quiet (some .localMessage) ≤
      ({ g with queued := g.queued.erase j } : Register).margin := by
  have hcomm : g.queued.erase j \ g.charged = (g.queued \ g.charged).erase j :=
    Finset.erase_sdiff_comm _ _ _
  simp only [Register.margin, hcomm]
  have hle := Finset.card_erase_le (s := g.queued \ g.charged) (a := j)
  rcases hclean with rfl | hc
  · rw [errorShare, if_pos rfl]
    omega
  · have hmem : j ∈ g.queued \ g.charged := Finset.mem_sdiff.mpr ⟨hj, hc⟩
    have hcard := Finset.card_erase_add_one hmem
    rw [errorShare]
    split_ifs <;> omega

/-- An event with its probe gives the register the room that the counters take. -/
theorem margin_settle {b : Books} {i : Input} {j : ℤ} (hl : Legal k b i j)
    (hc : Clean k b i j) :
    (b.afterFailure k i).margin + receiptShare (event k b.loop i) +
        errorShare b.loop.pinger.rts.optQuiet (event k b.loop i) ≤
      ((b.afterFailure k i).settle j (event k b.loop i)).margin := by
  unfold Legal at hl
  unfold Clean at hc
  cases he : event k b.loop i with
  | none => simp only [Register.settle, receiptShare, errorShare, add_zero, le_refl]
  | some e =>
      rw [he] at hl hc
      cases e with
      | reply seq | network seq =>
          have hm := margin_close hl.2.2.2
          simp only [Register.settle, receiptShare, errorShare, add_zero, hm, le_refl]
      | localMessage =>
          have hm := margin_read hl (hc rfl)
          simpa only [Register.settle, receiptShare, add_zero] using hm

/-- The probes in the register were counted, and the counters are within its margin. -/
structure Inv (b : Books) : Prop where
  sent : 0 ≤ b.loop.pinger.rts.ntransmitted
  counted : b.register.closed ⊆ Finset.Icc 1 b.loop.pinger.rts.ntransmitted
  covered : b.loop.pinger.rts.nreceived + b.loop.pinger.rts.nerrors ≤ b.register.margin

theorem counted_afterFailure {b : Books} (h : Inv b) (i : Input) :
    (b.afterFailure k i).closed ⊆ Finset.Icc 1 (step k b.loop i).pinger.rts.ntransmitted := by
  have hm := @moves_step k b.loop i
  have hold : b.register.closed ⊆ Finset.Icc 1 (step k b.loop i).pinger.rts.ntransmitted :=
    h.counted.trans (Finset.Icc_subset_Icc_right hm.sent)
  unfold Books.afterFailure
  cases hf : failure k b.loop i with
  | none => exact hold
  | some charged =>
      have hmore := hm.failed (by rw [hf]; exact Option.some_ne_none charged)
      have h₀ := h.sent
      exact Finset.insert_subset (Finset.mem_Icc.mpr ⟨by omega, by omega⟩) hold

theorem counted_settle {g : Register} {n j : ℤ} (h : g.closed ⊆ Finset.Icc 1 n) (e : Option Event)
    (hj : e ≠ none → e ≠ some .localMessage → 1 ≤ j ∧ j ≤ n) :
    (g.settle j e).closed ⊆ Finset.Icc 1 n := by
  cases e with
  | none => exact h
  | some e =>
      cases e with
      | localMessage => exact h
      | reply seq | network seq =>
          exact Finset.insert_subset (Finset.mem_Icc.mpr (hj (by simp) (by simp))) h

theorem inv_start (r : Rts) : Inv (Books.start r) :=
  ⟨le_rfl, Finset.empty_subset _, le_rfl⟩

theorem inv_step {b b' : Books} (h : Inv b) (hs : CleanStep k b b') : Inv b' := by
  obtain ⟨i, j, ⟨hl, hc⟩, rfl⟩ := hs
  have hm := @moves_step k b.loop i
  have h₀ := h.sent
  refine ⟨h₀.trans hm.sent, ?_, ?_⟩
  · refine counted_settle (counted_afterFailure h i) _ fun hne hlocal => ?_
    unfold Legal at hl
    cases he : event k b.loop i with
    | none => exact absurd he hne
    | some e =>
        rw [he] at hl hlocal
        cases e with
        | localMessage => exact absurd rfl hlocal
        | reply seq | network seq => exact ⟨hl.1, hl.2.1.trans hm.sent⟩
  · have hnew : b.loop.pinger.rts.ntransmitted + 1 ∉ b.register.closed := by
      intro hmem
      have hle := (Finset.mem_Icc.mp (h.counted hmem)).2
      omega
    have hfail : b.register.margin + chargeShare (failure k b.loop i) ≤
        (b.afterFailure k i).margin := margin_fail hnew _
    have hsettle := margin_settle hl hc
    have hcov := h.covered
    have hrec := hm.received
    have herr := hm.errors
    simp only [Books.step]
    omega

end Invariant

/-- In every run in which no two events are about one probe and no failure is counted
twice, replies and errors together are at most the probes counted, so that the loop is
not left for its count before that many probes. -/
theorem accounted_once (k : Setup) (r : Rts) {b : Books}
    (h : Relation.ReflTransGen (CleanStep k) (Books.start r) b) :
    let s := b.loop.pinger.rts
    s.nreceived + s.nerrors ≤ s.ntransmitted ∧
      (s.npackets ≠ 0 ∧ s.nreceived + s.nerrors ≥ s.npackets → s.npackets ≤ s.ntransmitted) := by
  have hi : Inv b := by
    induction h with
    | refl => exact inv_start r
    | tail _ hs ih => exact inv_step ih hs
  have hcard : (b.register.closed.card : ℤ) ≤ b.loop.pinger.rts.ntransmitted := by
    have hc := Finset.card_le_card hi.counted
    have h₀ := hi.sent
    rw [Int.card_Icc] at hc
    omega
  have hcov := hi.covered
  simp only [Register.margin] at hcov
  have hle : b.loop.pinger.rts.nreceived + b.loop.pinger.rts.nerrors ≤
      b.loop.pinger.rts.ntransmitted := by omega
  exact ⟨hle, fun hexit => hexit.2.trans hle⟩

section Runs

/-- A run with the probe that each step is about. -/
def Books.run (k : Setup) (b : Books) (xs : List (Input × ℤ)) : Books :=
  xs.foldl (fun b x => b.step k x.1 x.2) b

/-- Every step of the run is as `P` says. -/
def Along (k : Setup) (P : Books → Input → ℤ → Prop) : Books → List (Input × ℤ) → Prop
  | _, [] => True
  | b, x :: xs => P b x.1 x.2 ∧ Along k P (b.step k x.1 x.2) xs

instance (k : Setup) (P : Books → Input → ℤ → Prop) [∀ b i j, Decidable (P b i j)] :
    (b : Books) → (xs : List (Input × ℤ)) → Decidable (Along k P b xs)
  | _, [] => isTrue trivial
  | b, x :: xs =>
      have := instDecidableAlong k P (b.step k x.1 x.2) xs
      inferInstanceAs (Decidable (_ ∧ _))

theorem reaches_run {k : Setup} {P : Books → Input → ℤ → Prop} {b : Books} {xs : List (Input × ℤ)}
    (h : Along k P b xs) :
    Relation.ReflTransGen (fun b b' => ∃ i j, P b i j ∧ b' = b.step k i j) b (b.run k xs) := by
  induction xs generalizing b with
  | nil => exact .refl
  | cons x xs ih => exact .head ⟨x.1, x.2, h.1, rfl⟩ (ih h.2)

/-- A probe that cannot be sent, and the message about it read at once. -/
def unsendable : List (Input × ℤ) :=
  [(.check, 0), (.clock ⟨1, 0⟩, 0),
    (.send ⟨List.replicate maxpacket 0, .failed .other, tooLong⟩, 1)]

theorem accounted_once_unsendable :
    let s := (Books.run plainSetup (Books.start {}) unsendable).loop.pinger.rts
    s.nerrors = 1 ∧ s.nreceived + s.nerrors ≤ s.ntransmitted := by
  have hclean : Along plainSetup (fun b i j => Legal plainSetup b i j ∧ Clean plainSetup b i j)
      (Books.start {}) unsendable := by
    decide +kernel
  exact ⟨by decide +kernel, (accounted_once plainSetup {} (reaches_run hclean)).1⟩

/-- A probe that is too long is counted twice, and with `-c 2` the loop is left after the
first one. -/
theorem oversized_counted_twice :
    ∃ b, Relation.ReflTransGen (Step plainSetup)
        (Books.start { npackets := 2, optAdaptive := true }) b ∧
      b.loop.pc = .left ∧ b.loop.pinger.rts.ntransmitted = 1 ∧
      b.loop.pinger.rts.nreceived + b.loop.pinger.rts.nerrors = 2 := by
  have hlegal : Along plainSetup (Legal plainSetup)
      (Books.start { npackets := 2, optAdaptive := true })
      (oversizedRun.map fun i => (i, 1)) := by
    decide +kernel
  exact ⟨_, reaches_run hlegal, by decide +kernel⟩

end Runs

end Iputils.ProbeAccounting
