import Iputils.MainLoop

/-!
# Runs with and without -q

Two runs of the main loop over the same outcomes of the outside world, one with
`opt_quiet` and one without. Every operation on the state commutes with setting
the flag, so the runs go through the same values, up to the first message of local
origin that is read from the error queue: there the quiet run jumps over the count
of the error.
-/
set_option autoImplicit false

namespace Iputils.QuietRuns
open MachineInt PingState ReceivedTable AckWindow GatherStatistics ParseReply ErrorQueue MainLoop
open Pinger (Errno Fault ErrorMsg PingerState Gate Verdict SendResult openGate probeState slowDown
  hardLocalError outOfMemory)

def hush (b : Bool) (r : Rts) : Rts := { r with optQuiet := b }

def hushPinger (b : Bool) (p : PingerState) : PingerState := { p with rts := hush b p.rts }

def hushLoop (b : Bool) (s : Loop) : Loop := { s with pinger := hushPinger b s.pinger }

def hushGate (b : Bool) : Gate → Gate
  | .wait next => .wait next
  | .send p => .send (hushPinger b p)

def hushVerdict (b : Bool) : Verdict → Verdict
  | .resend p => .resend (hushPinger b p)
  | .done p next => .done (hushPinger b p) next

def hushOutcome (b : Bool) (o : Rts × ℤ × Errno) : Rts × ℤ × Errno := (hush b o.1, o.2)

/-- What the two runs are compared by: the counters, the estimates, and where the loop
stands, which holds the exit decision. -/
structure Values where
  ntransmitted : ℤ
  nreceived : ℤ
  nrepeats : ℤ
  nchecksum : ℤ
  nerrors : ℤ
  acked : ℤ
  pipesize : ℤ
  rcvdTbl : RcvdTable
  tmin : ℤ
  tmax : ℤ
  tsum : ℤ
  rtt : ℤ
  interval : ℤ
  pc : Pc

def values (s : Loop) : Values :=
  let r := s.pinger.rts
  { ntransmitted := r.ntransmitted
    nreceived := r.nreceived
    nrepeats := r.nrepeats
    nchecksum := r.nchecksum
    nerrors := r.nerrors
    acked := r.acked
    pipesize := r.pipesize
    rcvdTbl := r.rcvdTbl
    tmin := r.tmin
    tmax := r.tmax
    tsum := r.tsum
    rtt := r.rtt
    interval := r.interval
    pc := s.pc }

/-- The two runs show the same values before the first and after every outcome. -/
def SameRun (k : Setup) : Loop → Loop → List Input → Prop
  | s, t, [] => values s = values t
  | s, t, i :: is => values s = values t ∧ SameRun k (step k s i) (step k t i) is

/-- In this step a message of local origin is read from the error queue. -/
def ReadsLocal (k : Setup) (s : Loop) (i : Input) : Prop :=
  match s.pc, i with
  | .resend, .send a =>
      (SendResult.asks a.result).isSome = true ∧ k.kind s.pinger.rts a.queue = .localError
  | .receive _ recvError, .recvFailed errno q =>
      ¬ (errno = .eagain ∧ recvError = false) ∧ k.kind s.pinger.rts q = .localError
  | _, _ => False

def NoLocalRead (k : Setup) : Loop → List Input → Prop
  | _, [] => True
  | s, i :: is => ¬ ReadsLocal k s i ∧ NoLocalRead k (step k s i) is

section State
variable (b : Bool) (r : Rts)

theorem acknowledge_hush (seq : ℤ) : acknowledge (hush b r) seq = hush b (acknowledge r seq) := by
  simp only [acknowledge, apply_ite (hush b)]
  rfl

theorem countReply_hush (p : Reply) : countReply (hush b r) p = hush b (countReply r p) := by
  unfold countReply
  split_ifs
  · rfl
  · exact acknowledge_hush b { r with nreceived := r.nreceived + 1 } p.seq

theorem recordTrip_hush (p : Reply) : recordTrip (hush b r) p = hush b (recordTrip r p) := by
  simp only [recordTrip, apply_ite (hush b)]
  rfl

theorem settleReply_hush (p : Reply) :
    settleReply (hush b r) p = (hush b (settleReply r p).1, (settleReply r p).2) := by
  unfold settleReply
  by_cases hc : p.csfailed = true
  · rw [if_pos hc, if_pos hc]
    rfl
  · rw [if_neg hc, if_neg hc]
    by_cases ht : rcvdTest r.rcvdTbl p.seq ≠ 0
    · rw [if_pos ht, if_pos (by exact ht)]
      rfl
    · rw [if_neg ht, if_neg (by exact ht)]
      rfl

theorem gatherStatistics_hush (p : Reply) :
    (gatherStatistics (hush b r) p).1 = hush b (gatherStatistics r p).1 := by
  rw [gatherStatistics, countReply_hush, recordTrip_hush, settleReply_hush]
  rfl

/-- A datagram does the same in both runs. -/
theorem effect_apply_hush (e : Effect) : e.apply (hush b r) = hush b (e.apply r) := by
  cases e with
  | nothing => rfl
  | acknowledged seq => exact acknowledge_hush b r seq
  | reply p => exact gatherStatistics_hush b r p

theorem sendState_hush (k : Setup) (outpack : List UInt8) :
    sendState k (hush b r) outpack = hush b (sendState k r outpack) := by
  unfold sendState
  cases k.fam <;> rfl

theorem slowDown_hush : slowDown (hush b r) = hush b (slowDown r) := by
  simp only [slowDown, apply_ite (hush b)]
  rfl

theorem countError_hush (fam : Family) (seq : ℤ) :
    countError fam (hush b r) seq = hush b (countError fam r seq) := by
  cases fam with
  | inet =>
      rw [countError, acknowledge_hush]
      rfl
  | inet6 => rfl

/-- Every read of the queue but one does the same in both runs. -/
theorem account_hush (fam : Family) (errno : Errno) {m : ErrorMsg} (h : m ≠ .localError) :
    account fam (hush b r) errno m = (account fam r errno m).map (hushOutcome b) := by
  cases m with
  | localError => exact absurd rfl h
  | icmp seq =>
      rw [account, countError_hush]
      rfl
  | unread again | malformed | foreign | otherOrigin => rfl

end State

/-- A check in front of a computation does not look at the flag. -/
theorem checkInt_bind_map {α : Type} (g : α → α) (x : ℤ) (f : ℤ → α) :
    (Pinger.checkInt x >>= fun y => pure (g (f y))) =
      (Pinger.checkInt x >>= fun y => pure (f y)).map g := by
  unfold Pinger.checkInt
  split_ifs <;> rfl

section Sending
variable (b : Bool) (p : PingerState)

theorem openGate_hush (now : Timespec) :
    openGate (hushPinger b p) now = (openGate p now).map (hushGate b) := by
  have hgrant : ∀ tokens, Pinger.grant (hushPinger b p) now tokens =
      (Pinger.grant p now tokens).map (hushGate b) := by
    intro tokens
    unfold Pinger.grant Pinger.checkInt
    split_ifs <;> rfl
  have hflight : inFlight (hushPinger b p).rts = inFlight p.rts := rfl
  have hrefill : Pinger.refill (hushPinger b p) now = Pinger.refill p now := rfl
  simp only [openGate, hflight, hrefill, hgrant, apply_ite (Except.map (hushGate b))]
  rfl

theorem outOfMemory_hush : outOfMemory (hushPinger b p) = hushVerdict b (outOfMemory p) := by
  have hslow : slowDown (hushPinger b p).rts = hush b (slowDown p.rts) := slowDown_hush b p.rts
  simp only [outOfMemory, hslow, apply_ite (hushVerdict b)]
  rfl

theorem settleError_hush (o : Rts × ℤ × Errno) :
    settleError (hushPinger b p) (hushOutcome b o) = hushVerdict b (settleError p o) := by
  simp only [settleError, apply_ite (hushVerdict b)]
  rfl

variable {k : Setup}

theorem kind_hush (r : Rts) (q : QueueRead) : k.kind (hush b r) q = k.kind r q :=
  classify_congr rfl k.fam

theorem otherError_hush (errno : Errno) {q : QueueRead} (h : k.kind p.rts q ≠ .localError) :
    otherError k (hushPinger b p) errno q = (otherError k p errno q).map (hushVerdict b) := by
  have hr : (hushPinger b p).rts = hush b p.rts := rfl
  rw [otherError_eq, otherError_eq, hr, kind_hush, account_hush b p.rts k.fam errno h]
  cases account k.fam p.rts errno (k.kind p.rts q) with
  | error f => rfl
  | ok o => exact congrArg Except.ok (settleError_hush b p o)

theorem handleResult_hush {a : Send}
    (h : (SendResult.asks a.result).isSome = true → k.kind p.rts a.queue ≠ .localError) :
    handleResult k (hushPinger b p) a = (handleResult k p a).map (hushVerdict b) := by
  obtain ⟨outpack, result, queue⟩ := a
  cases result with
  | excess => rfl
  | sent =>
      exact checkInt_bind_map (hushVerdict b) (p.rts.interval - p.tokens) fun next =>
        .done { p with rts := advanceNtransmitted p.rts, oomCount := 0 } next
  | failed errno =>
      cases errno with
      | enobufs | enomem => exact congrArg Except.ok (outOfMemory_hush b p)
      | eagain =>
          exact checkInt_bind_map (hushVerdict b) (p.tokens + p.rts.interval) fun tokens =>
            .done { p with tokens := tokens } minIntervalMs
      | emsgsize => rfl
      | zero | einval | other => exact otherError_hush b p _ (h rfl)

theorem sendOnce_hush {a : Send}
    (h : (SendResult.asks a.result).isSome = true → k.kind p.rts a.queue ≠ .localError) :
    sendOnce k (hushPinger b p) a = (sendOnce k p a).map (hushVerdict b) := by
  have hsend : { hushPinger b p with rts := sendState k (hushPinger b p).rts a.outpack } =
      hushPinger b { p with rts := sendState k p.rts a.outpack } := by
    simp only [hushPinger, sendState_hush]
  have hkind : k.kind (sendState k p.rts a.outpack) a.queue = k.kind p.rts a.queue :=
    classify_congr (sendState_ident p.rts a.outpack) k.fam
  rw [sendOnce, sendOnce, hsend]
  exact handleResult_hush b _ (fun ha => by rw [hkind]; exact h ha)

end Sending

section Looping
variable (b : Bool) (s : Loop) {k : Setup}

theorem scheduleExit_hush (next : ℤ) :
    scheduleExit (hushLoop b s) next = Prod.map (hushLoop b) id (scheduleExit s next) := by
  simp only [scheduleExit, apply_ite (Prod.map (hushLoop b) id)]
  rfl

theorem afterPinger_hush (p : PingerState) (next : ℤ) :
    afterPinger (hushLoop b s) (hushPinger b p) next = hushLoop b (afterPinger s p next) := by
  have hp : { hushLoop b s with pinger := hushPinger b p } = hushLoop b { s with pinger := p } := rfl
  rw [afterPinger, afterPinger, hp, scheduleExit_hush]
  rfl

theorem checkExit_hush : checkExit (hushLoop b s) = hushLoop b (checkExit s) := by
  simp only [checkExit, apply_ite (hushLoop b)]
  rfl

theorem passGate_hush (now : Timespec) :
    passGate (hushLoop b s) now = hushLoop b (passGate s now) := by
  have hp : (hushLoop b s).pinger = hushPinger b s.pinger := rfl
  rw [passGate, passGate, hp, openGate_hush]
  cases openGate s.pinger now with
  | error f => rfl
  | ok g =>
      cases g with
      | wait next => exact afterPinger_hush b s s.pinger next
      | send p => rfl

theorem trySend_hush {a : Send}
    (h : (SendResult.asks a.result).isSome = true → k.kind s.pinger.rts a.queue ≠ .localError) :
    trySend k (hushLoop b s) a = hushLoop b (trySend k s a) := by
  have hp : (hushLoop b s).pinger = hushPinger b s.pinger := rfl
  rw [trySend, trySend, hp, sendOnce_hush b s.pinger h]
  cases sendOnce k s.pinger a with
  | error f => rfl
  | ok v =>
      cases v with
      | resend p => rfl
      | done p next => exact afterPinger_hush b s p next

theorem awaitInput_hush (next : ℤ) (revents : Option Bool) :
    awaitInput k (hushLoop b s) next revents = hushLoop b (awaitInput k s next revents) := by
  cases revents with
  | none =>
      simp only [awaitInput, apply_ite (hushLoop b)]
      rfl
  | some pollerr =>
      simp only [awaitInput, apply_ite (hushLoop b)]
      rfl

theorem takeDatagram_hush (d : Datagram) (recvError : Bool) :
    takeDatagram k (hushLoop b s) d recvError = hushLoop b (takeDatagram k s d recvError) := by
  have hr : (hushLoop b s).pinger.rts = hush b s.pinger.rts := rfl
  have he : effect k.env k.config k.fam (hush b s.pinger.rts) k.sock d =
      effect k.env k.config k.fam s.pinger.rts k.sock d := effect_congr rfl k.fam
  rw [takeDatagram_eq, takeDatagram_eq, hr, he, effect_apply_hush]
  rfl

theorem settleReceive_hush (o : Rts × ℤ × Errno) :
    settleReceive (hushLoop b s) (hushOutcome b o) = hushLoop b (settleReceive s o) := by
  simp only [settleReceive, apply_ite (hushLoop b)]
  rfl

theorem takeError_hush (errno : Errno) {q : QueueRead} (recvError : Bool)
    (h : ¬ (errno = .eagain ∧ recvError = false) → k.kind s.pinger.rts q ≠ .localError) :
    takeError k (hushLoop b s) errno q recvError = hushLoop b (takeError k s errno q recvError) := by
  have hr : (hushLoop b s).pinger.rts = hush b s.pinger.rts := rfl
  rw [takeError_eq, takeError_eq, hr, kind_hush]
  by_cases he : errno = .eagain ∧ recvError = false
  · rw [if_pos he, if_pos he]
    rfl
  · rw [if_neg he, if_neg he, account_hush b s.pinger.rts k.fam errno (h he)]
    cases account k.fam s.pinger.rts errno (k.kind s.pinger.rts q) with
    | error f => rfl
    | ok o => exact settleReceive_hush b s o

/-- A step that reads no message of local origin does the same in both runs. -/
theorem step_hush {i : Input} (h : ¬ ReadsLocal k s i) :
    step k (hushLoop b s) i = hushLoop b (step k s i) := by
  obtain ⟨p, waittime, snapshot, pc⟩ := s
  cases i with
  | sigexit | sigstatus => rfl
  | check =>
      cases pc with
      | top => exact checkExit_hush b _
      | gate | resend | wait next | receive polling recvError | left | halted f => rfl
  | clock now =>
      cases pc with
      | gate => exact passGate_hush b _ now
      | top | resend | wait next | receive polling recvError | left | halted f => rfl
  | send a =>
      cases pc with
      | resend => exact trySend_hush b _ fun ha hk => h ⟨ha, hk⟩
      | top | gate | wait next | receive polling recvError | left | halted f => rfl
  | wait revents =>
      cases pc with
      | wait next => exact awaitInput_hush b _ next revents
      | top | gate | resend | receive polling recvError | left | halted f => rfl
  | datagram d =>
      cases pc with
      | receive polling recvError => exact takeDatagram_hush b _ d recvError
      | top | gate | resend | wait next | left | halted f => rfl
  | interrupted =>
      cases pc with
      | receive polling recvError => rfl
      | top | gate | resend | wait next | left | halted f => rfl
  | recvFailed errno q =>
      cases pc with
      | receive polling recvError =>
          exact takeError_hush b _ errno recvError fun he hk => h ⟨he, hk⟩
      | top | gate | resend | wait next | left | halted f => rfl

/-- A failed send that finds a message of local origin in the queue. -/
theorem nerrors_trySend {a : Send} (ha : (SendResult.asks a.result).isSome = true)
    (hk : k.kind s.pinger.rts a.queue = .localError) :
    (trySend k s a).pinger.rts.nerrors =
      s.pinger.rts.nerrors + if s.pinger.rts.optQuiet then 0 else 1 := by
  obtain ⟨e, he⟩ := Option.isSome_iff_exists.mp ha
  have hkind : k.kind (sendState k s.pinger.rts a.outpack) a.queue = .localError :=
    (classify_congr (sendState_ident s.pinger.rts a.outpack) k.fam).trans hk
  have herr : (sendState k s.pinger.rts a.outpack).nerrors = s.pinger.rts.nerrors := by
    rw [sendState_frame]
  have hquiet : (sendState k s.pinger.rts a.outpack).optQuiet = s.pinger.rts.optQuiet := by
    rw [sendState_frame]
  set t : PingerState := { s.pinger with rts := sendState k s.pinger.rts a.outpack } with ht
  have hv : sendOnce k s.pinger a = .ok (settleError t
      (if t.rts.optQuiet then t.rts else { t.rts with nerrors := t.rts.nerrors + 1 }, -1, e)) := by
    rw [sendOnce, ← ht, handleResult_asks he, otherError_eq, hkind]
    rfl
  have hverdict : ∀ (p : PingerState) (r : Rts),
      (verdictRts (settleError p (r, -1, e))).nerrors = r.nerrors := by
    intro p r
    unfold settleError
    split_ifs <;> rfl
  rw [trySend_rts hv, hverdict, ← hquiet]
  split_ifs
  · rw [add_zero]
    exact herr
  · rw [← herr]

theorem nerrors_takeError {errno : Errno} {q : QueueRead} {recvError : Bool}
    (he : ¬ (errno = .eagain ∧ recvError = false)) (hk : k.kind s.pinger.rts q = .localError) :
    (takeError k s errno q recvError).pinger.rts.nerrors =
      s.pinger.rts.nerrors + if s.pinger.rts.optQuiet then 0 else 1 := by
  rw [takeError_eq, if_neg he, hk]
  dsimp only [account]
  rw [settleReceive_rts]
  split_ifs
  · rw [add_zero]
  · rfl

/-- The two places where the queue is read. -/
theorem readsLocal_cases {s : Loop} {i : Input} (h : ReadsLocal k s i) :
    (∃ a, s.pc = .resend ∧ i = .send a ∧ (SendResult.asks a.result).isSome = true ∧
      k.kind s.pinger.rts a.queue = .localError) ∨
    ∃ polling recvError errno q, s.pc = .receive polling recvError ∧ i = .recvFailed errno q ∧
      ¬ (errno = .eagain ∧ recvError = false) ∧ k.kind s.pinger.rts q = .localError := by
  obtain ⟨p, waittime, snapshot, pc⟩ := s
  cases i with
  | send a =>
      cases pc with
      | resend => exact Or.inl ⟨a, rfl, rfl, h.1, h.2⟩
      | top | gate | wait next | receive polling recvError | left | halted f => cases h
  | recvFailed errno q =>
      cases pc with
      | receive polling recvError =>
          exact Or.inr ⟨polling, recvError, errno, q, rfl, rfl, h.1, h.2⟩
      | top | gate | resend | wait next | left | halted f => cases h
  | sigexit | sigstatus | check | clock now | wait revents | datagram d | interrupted =>
      cases pc <;> cases h

/-- Reading a message of local origin counts an error in the run that is not quiet. -/
theorem nerrors_readsLocal {i : Input} (h : ReadsLocal k s i) :
    (step k s i).pinger.rts.nerrors =
      s.pinger.rts.nerrors + if s.pinger.rts.optQuiet then 0 else 1 := by
  rcases readsLocal_cases h with ⟨a, hpc, rfl, ha, hk⟩ | ⟨polling, recvError, errno, q, hpc, rfl,
    he, hk⟩
  · have hstep : step k s (.send a) = trySend k s a := by
      simp only [step, hpc]
    rw [hstep]
    exact nerrors_trySend s ha hk
  · have hstep : step k s (.recvFailed errno q) = takeError k s errno q recvError := by
      simp only [step, hpc]
    rw [hstep]
    exact nerrors_takeError s he hk

theorem readsLocal_hush {i : Input} (h : ReadsLocal k s i) : ReadsLocal k (hushLoop b s) i := by
  have hkind := fun q => @kind_hush b k s.pinger.rts q
  rcases readsLocal_cases h with ⟨a, hpc, rfl, ha, hk⟩ | ⟨polling, recvError, errno, q, hpc, rfl,
    he, hk⟩
  · have hpc' : (hushLoop b s).pc = .resend := hpc
    simp only [ReadsLocal, hpc']
    exact ⟨ha, (hkind a.queue).trans hk⟩
  · have hpc' : (hushLoop b s).pc = .receive polling recvError := hpc
    simp only [ReadsLocal, hpc']
    exact ⟨he, (hkind q).trans hk⟩

end Looping

theorem SameRun.values_eq {k : Setup} {s t : Loop} {is : List Input} (h : SameRun k s t is) :
    values s = values t := by
  cases is with
  | nil => exact h
  | cons i is => exact h.1

theorem SameRun.run_eq {k : Setup} {s t : Loop} {is : List Input} (h : SameRun k s t is) :
    values (run k s is) = values (run k t is) := by
  induction is generalizing s t with
  | nil => exact h
  | cons i is ih => exact ih h.2

/-- With and without `-q` the loop goes through the same values and takes the same exit
decision, over any outcomes, if and only if no message of local origin is read. -/
theorem quiet_alike_iff (k : Setup) (s : Loop) (is : List Input) :
    SameRun k (hushLoop true s) (hushLoop false s) is ↔ NoLocalRead k s is := by
  induction is generalizing s with
  | nil => exact iff_of_true rfl trivial
  | cons i is ih =>
      rw [SameRun, NoLocalRead]
      by_cases hread : ReadsLocal k s i
      · refine iff_of_false ?_ fun h => h.1 hread
        intro hsame
        have hq := nerrors_readsLocal _ (readsLocal_hush true s hread)
        have hl := nerrors_readsLocal _ (readsLocal_hush false s hread)
        have hv : (step k (hushLoop true s) i).pinger.rts.nerrors =
            (step k (hushLoop false s) i).pinger.rts.nerrors :=
          congrArg Values.nerrors hsame.2.values_eq
        rw [hq, hl] at hv
        change s.pinger.rts.nerrors + 0 = s.pinger.rts.nerrors + 1 at hv
        omega
      · rw [step_hush true s hread, step_hush false s hread, ih]
        exact ⟨fun h => ⟨hread, h.2⟩, fun h => ⟨rfl, h.2⟩⟩

/-- With `-q` the message about the datagram that was too long is not counted: the quiet
run goes on where the other one leaves the loop. -/
theorem oversized_differs :
    ¬ SameRun plainSetup (hushLoop true oversizedStart) (hushLoop false oversizedStart)
        oversizedRun ∧
      (run plainSetup (hushLoop true oversizedStart) oversizedRun).pinger.rts.nerrors = 1 ∧
      (run plainSetup (hushLoop false oversizedStart) oversizedRun).pinger.rts.nerrors = 2 ∧
      (run plainSetup (hushLoop true oversizedStart) oversizedRun).pc = .gate ∧
      (run plainSetup (hushLoop false oversizedStart) oversizedRun).pc = .left := by
  refine ⟨?_, by decide +kernel, by decide +kernel, by decide +kernel, by decide +kernel⟩
  intro hsame
  have hpc := congrArg Values.pc hsame.run_eq
  revert hpc
  decide +kernel

end Iputils.QuietRuns
