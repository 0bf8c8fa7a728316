import Iputils.GatherStatistics
import Iputils.SendProbe

/-!
# Pacing and sending of probes

`pinger` in two halves. `openGate` is the token bucket that decides whether a probe
may be sent now, `transmit` is the send with all its error paths and the jump
back to `resend`. The two static variables of the source, `oom_count` and
`tokens`, are part of the state. Every computation on tokens that the source
makes in type `int` is checked and faults when it leaves the range of `int`.
Output to the terminal is left out.
-/
set_option autoImplicit false

namespace Iputils.Pinger
open MachineInt PingState ReceivedTable AckWindow GatherStatistics

inductive Errno
  | zero | enobufs | enomem | eagain | emsgsize | einval | other
deriving Repr, DecidableEq

/-- Ways in which a call fails to return: undefined arithmetic, `abort`, or a
resend whose outcome is not given. -/
inductive Fault
  | overflow | abort | unfinished
deriving Repr, DecidableEq

def checkInt (x : ℤ) : Except Fault ℤ :=
  if -2147483648 ≤ x ∧ x ≤ intMax then .ok x else .error .overflow

structure PingerState where
  rts : Rts
  oomCount : ℤ := 0
  tokens : ℤ := 0

inductive Gate
  | wait (next : ℤ)
  | send (s : PingerState)

/-- Milliseconds between two readings, truncated separately in seconds and nanoseconds. -/
def earned (curTime now : Timespec) : ℤ :=
  (now.tvSec - curTime.tvSec) * 1000 + (now.tvNsec - curTime.tvNsec).tdiv 1000000

/-- `ntokens` after the refill, capped by `preload` intervals. -/
def refill (s : PingerState) (now : Timespec) : ℤ :=
  let ntokens := earned s.rts.curTime now + s.tokens
  let tmp := s.rts.interval * s.rts.preload
  if tmp < ntokens then tmp else ntokens

/-- The probe may go out: the reading becomes `cur_time` and `tokens` is set. -/
def grant (s : PingerState) (now : Timespec) (tokens : ℤ) : Except Fault Gate := do
  let tokens ← checkInt tokens
  pure (.send { s with rts := { s.rts with curTime := now }, tokens := tokens })

/-- The first half: `now` is what `clock_gettime` returns. A `cur_time` of zero
means that no probe has been sent yet. -/
def openGate (s : PingerState) (now : Timespec) : Except Fault Gate :=
  let r := s.rts
  if r.exiting = true ∨ (r.npackets ≠ 0 ∧ r.ntransmitted ≥ r.npackets ∧ r.deadline = 0) then
    .ok (.wait 1000)
  else if r.curTime.tvSec = 0 ∧ r.curTime.tvNsec = 0 then
    grant s now (r.interval * (r.preload - 1))
  else if r.interval = 0 ∧ earned r.curTime now < minIntervalMs ∧ inFlight r ≥ r.preload then
    .ok (.wait (i32 (minIntervalMs - earned r.curTime now)))
  else if refill s now < r.interval then
    .ok (.wait (i32 (r.interval - refill s now)))
  else grant s now (refill s now - r.interval)

/-- What the error queue of the socket holds when `receive_error_msg` reads it. -/
inductive ErrorMsg
  | unread (again : Bool)
  | malformed
  | localError
  | foreign
  | icmp (seq : ℤ)
  | otherOrigin
deriving Repr, DecidableEq

/-- `ping4_receive_error_msg`: the state, the return value and `errno`. -/
def receiveErrorMsg (r : Rts) (errno : Errno) : ErrorMsg → Except Fault (Rts × ℤ × Errno)
  | .unread again => .ok (r, if again then -1 else 0, errno)
  | .malformed => .error .abort
  | .localError => .ok (if r.optQuiet then r else { r with nerrors := r.nerrors + 1 }, -1, errno)
  | .foreign => .ok (r, 0, .zero)
  | .icmp seq =>
      let r := acknowledge r seq
      .ok ({ r with nerrors := r.nerrors + 1 }, 1, errno)
  | .otherOrigin => .ok (r, 0, errno)

/-- Result of `send_probe`: zero, positive, or negative with its `errno`. -/
inductive SendResult
  | sent
  | excess
  | failed (errno : Errno)
deriving Repr, DecidableEq

/-- One pass through `resend`: the buffer that `send_probe` composes, its result,
and the error queue in case it is read. -/
structure Attempt where
  outpack : List UInt8
  result : SendResult
  message : ErrorMsg := .unread false

/-- The effect of `send_probe` on the state, common to both protocols. -/
def probeState (r : Rts) (outpack : List UInt8) : Rts :=
  { r with outpack := outpack, rcvdTbl := rcvdClear r.rcvdTbl (r.ntransmitted + 1) }

inductive Verdict
  | resend (s : PingerState)
  | done (s : PingerState) (next : ℤ)

/-- The label `hard_local_error`: pretend the packet was sent. -/
def hardLocalError (s : PingerState) : Verdict :=
  .done { s with rts := advanceNtransmitted s.rts, tokens := 0 } (schint s.rts.interval)

/-- The slowdown after an overflow of the device queue, for adaptive mode. -/
def slowDown (r : Rts) : Rts :=
  let r := { r with
    rttAddend := i32 (r.rttAddend + if r.rtt < 8 * 50000 then r.rtt / 8 else 50000) }
  if r.optAdaptive then updateInterval r else r

/-- No buffer space: retry soon, until the retries add up to `lingertime`. -/
def outOfMemory (s : PingerState) : Verdict :=
  let r := slowDown s.rts
  let nores := schint (r.interval.tdiv 2)
  let nores := if nores > 500 then 500 else nores
  let s := { s with rts := r, tokens := 0, oomCount := s.oomCount + 1 }
  if u32 (s.oomCount * nores) < r.lingertime / 1000 then .done s nores else hardLocalError s

/-- Any other error: consult the error queue, and send again if `errno` was cleared. -/
def otherError (s : PingerState) (errno : Errno) (m : ErrorMsg) : Except Fault Verdict := do
  let (r, i, errno) ← receiveErrorMsg s.rts errno m
  if i > 0 then pure (hardLocalError { s with rts := r })
  else if i = 0 ∧ r.confirmFlag ≠ 0 ∧ errno = .einval then
    pure (.resend { s with rts := { r with confirmFlag := 0 } })
  else if errno = .zero then pure (.resend { s with rts := r })
  else pure (hardLocalError { s with rts := r })

def sendOnce (s : PingerState) (a : Attempt) : Except Fault Verdict :=
  let s := { s with rts := probeState s.rts a.outpack }
  match a.result with
  | .sent => do
      let next ← checkInt (s.rts.interval - s.tokens)
      pure (.done { s with rts := advanceNtransmitted s.rts, oomCount := 0 } next)
  | .excess => .error .abort
  | .failed .enobufs | .failed .enomem => .ok (outOfMemory s)
  | .failed .eagain => do
      let tokens ← checkInt (s.tokens + s.rts.interval)
      pure (.done { s with tokens := tokens } minIntervalMs)
  | .failed .emsgsize =>
      .ok (hardLocalError { s with rts := { s.rts with nerrors := s.rts.nerrors + 1 } })
  | .failed errno => otherError s errno a.message

/-- The second half: attempts are made until one of them does not jump back. -/
def transmit : PingerState → List Attempt → Except Fault (PingerState × ℤ)
  | _, [] => .error .unfinished
  | s, a :: as =>
      match sendOnce s a with
      | .error e => .error e
      | .ok (.done s' next) => .ok (s', next)
      | .ok (.resend s') => transmit s' as

def pinger (s : PingerState) (now : Timespec) (as : List Attempt) :
    Except Fault (PingerState × ℤ) := do
  match ← openGate s now with
  | .wait next => pure (s, next)
  | .send s => transmit s as

theorem checkInt_of_mem {x : ℤ} (h₀ : -2147483648 ≤ x) (h₁ : x ≤ intMax) :
    checkInt x = .ok x :=
  if_pos ⟨h₀, h₁⟩

/-- A computation that continues past a check has passed it. -/
theorem checkInt_bind_ok {α : Type} {x : ℤ} {f : ℤ → Except Fault α} {v : α}
    (h : (checkInt x >>= f) = .ok v) : f x = .ok v := by
  unfold checkInt at h
  split_ifs at h
  · exact h
  · cases h

/-- The part of the state that the token bucket depends on. -/
structure Pace where
  interval : ℤ
  preload : ℤ
  adaptive : Bool
  curTime : Timespec
  sent : ℤ
deriving DecidableEq

def pace (r : Rts) : Pace :=
  ⟨r.interval, r.preload, r.optAdaptive, r.curTime, r.ntransmitted⟩

/-- What sending may read and change: the pace, and the ledger of replies. -/
def books (r : Rts) : Pace × Ledger := (pace r, ledger r)

/-- The books after one more probe has been counted. -/
def count (b : Pace × Ledger) : Pace × Ledger :=
  ({ b.1 with sent := b.1.sent + 1 }, { b.2 with transmitted := b.2.transmitted + 1 })

theorem books_acknowledge (r : Rts) (seq : ℤ) : books (acknowledge r seq) = books r := by
  simp only [acknowledge]
  split_ifs <;> rfl

theorem books_advanceNtransmitted (r : Rts) : books (advanceNtransmitted r) = count (books r) := by
  simp only [advanceNtransmitted]
  split_ifs <;> rfl

/-- What a message of the error queue can do to the state. -/
theorem receiveErrorMsg_cases {r r' : Rts} {e e' : Errno} {m : ErrorMsg} {i : ℤ}
    (h : receiveErrorMsg r e m = .ok (r', i, e')) :
    r' = r ∨ r' = { r with nerrors := r.nerrors + 1 } ∨
      ∃ seq, r' = { acknowledge r seq with nerrors := (acknowledge r seq).nerrors + 1 } := by
  cases m with
  | malformed => cases h
  | unread again | foreign | otherOrigin =>
      simp only [receiveErrorMsg, Except.ok.injEq, Prod.mk.injEq] at h
      exact .inl h.1.symm
  | localError =>
      simp only [receiveErrorMsg, Except.ok.injEq, Prod.mk.injEq] at h
      rw [← h.1]
      split_ifs
      · exact .inl rfl
      · exact .inr (.inl rfl)
  | icmp seq =>
      simp only [receiveErrorMsg, Except.ok.injEq, Prod.mk.injEq] at h
      exact .inr (.inr ⟨seq, h.1.symm⟩)

theorem books_receiveErrorMsg {r r' : Rts} {e e' : Errno} {m : ErrorMsg} {i : ℤ}
    (h : receiveErrorMsg r e m = .ok (r', i, e')) : books r' = books r := by
  obtain rfl | rfl | ⟨seq, rfl⟩ := receiveErrorMsg_cases h
  · rfl
  · rfl
  · exact books_acknowledge r seq

theorem books_slowDown {r : Rts} (h : r.optAdaptive = false) : books (slowDown r) = books r := by
  simp only [slowDown]
  rw [if_neg (by simp [h])]
  rfl

/-- What one attempt may do to the books and the tokens, seen from the state in
which `send_probe` returns. -/
def Verdict.Follows (s : PingerState) : Verdict → Prop
  | .resend t => books t.rts = books s.rts ∧ t.tokens = s.tokens
  | .done t _ =>
      (books t.rts = count (books s.rts) ∧ (t.tokens = s.tokens ∨ t.tokens = 0)) ∨
      (books t.rts = books s.rts ∧ (t.tokens = 0 ∨ t.tokens = s.tokens + s.rts.interval))

theorem hardLocalError_follows {s t : PingerState} (h : books t.rts = books s.rts) :
    (hardLocalError t).Follows s := by
  refine Or.inl ⟨?_, Or.inr rfl⟩
  rw [← h]
  exact books_advanceNtransmitted t.rts

theorem outOfMemory_follows {s : PingerState} (h : s.rts.optAdaptive = false) :
    (outOfMemory s).Follows s := by
  have hb := books_slowDown h
  unfold outOfMemory
  extract_lets r nores nores' t
  split_ifs
  · exact Or.inr ⟨hb, Or.inl rfl⟩
  · exact hardLocalError_follows hb

theorem otherError_follows {s : PingerState} {e : Errno} {m : ErrorMsg} {v : Verdict}
    (h : otherError s e m = .ok v) : v.Follows s := by
  unfold otherError at h
  cases hm : receiveErrorMsg s.rts e m with
  | error f => simp [hm, bind, Except.bind] at h
  | ok res =>
      obtain ⟨r, i, e'⟩ := res
      have hb := books_receiveErrorMsg hm
      simp only [hm, bind, Except.bind, pure, Except.pure] at h
      split_ifs at h <;> obtain rfl := Except.ok.inj h
      · exact hardLocalError_follows hb
      · exact ⟨hb, rfl⟩
      · exact ⟨hb, rfl⟩
      · exact hardLocalError_follows hb

/-- The state in which `send_probe` returns. -/
def probed (s : PingerState) (a : Attempt) : PingerState :=
  { s with rts := probeState s.rts a.outpack }

theorem sendOnce_follows {s : PingerState} {a : Attempt} {v : Verdict}
    (hna : s.rts.optAdaptive = false) (h : sendOnce s a = .ok v) : v.Follows (probed s a) := by
  obtain ⟨outpack, result, message⟩ := a
  cases result with
  | excess => cases h
  | sent =>
      simp only [sendOnce] at h
      have hv := checkInt_bind_ok h
      obtain rfl := Except.ok.inj hv
      exact Or.inl ⟨books_advanceNtransmitted _, Or.inl rfl⟩
  | failed errno =>
      cases errno with
      | enobufs | enomem =>
          obtain rfl := Except.ok.inj h
          exact outOfMemory_follows hna
      | eagain =>
          simp only [sendOnce] at h
          have hv := checkInt_bind_ok h
          obtain rfl := Except.ok.inj hv
          exact Or.inr ⟨rfl, Or.inr rfl⟩
      | emsgsize =>
          obtain rfl := Except.ok.inj h
          exact hardLocalError_follows rfl
      | zero | einval | other => exact otherError_follows h

/-- What a finished call may have done to the count of probes and to the tokens. -/
def Spent (s t : PingerState) : Prop :=
  (pace t.rts = { pace s.rts with sent := s.rts.ntransmitted + 1 } ∧
    (t.tokens = s.tokens ∨ t.tokens = 0)) ∨
  (pace t.rts = pace s.rts ∧ (t.tokens = 0 ∨ t.tokens = s.tokens + s.rts.interval))

theorem Spent.congr {s t u : PingerState} (hp : pace t.rts = pace s.rts)
    (ht : t.tokens = s.tokens) (h : Spent t u) : Spent s u := by
  have hn : t.rts.ntransmitted = s.rts.ntransmitted := congrArg Pace.sent hp
  have hi : t.rts.interval = s.rts.interval := congrArg Pace.interval hp
  unfold Spent at h ⊢
  rwa [hp, hn, hi, ht] at h

theorem spent_of_follows {s t : PingerState} {a : Attempt} {next : ℤ}
    (h : (Verdict.done t next).Follows (probed s a)) : Spent s t := by
  rcases h with ⟨hb, ht⟩ | ⟨hb, ht⟩
  · exact Or.inl ⟨congrArg Prod.fst hb, ht⟩
  · exact Or.inr ⟨congrArg Prod.fst hb, ht⟩

/-- However often the probe is sent again, it is counted at most once. -/
theorem transmit_spent {s t : PingerState} {as : List Attempt} {next : ℤ}
    (hna : s.rts.optAdaptive = false) (h : transmit s as = .ok (t, next)) : Spent s t := by
  induction as generalizing s with
  | nil => cases h
  | cons a as ih =>
      simp only [transmit] at h
      cases hs : sendOnce s a with
      | error e => simp [hs] at h
      | ok v =>
          have hf := sendOnce_follows hna hs
          rw [hs] at h
          cases v with
          | done s' k =>
              obtain ⟨rfl, rfl⟩ : s' = t ∧ k = next := by simpa using h
              exact spent_of_follows hf
          | resend s' =>
              have hp : pace s'.rts = pace s.rts := congrArg Prod.fst hf.1
              exact (ih ((congrArg Pace.adaptive hp).trans hna) h).congr hp hf.2

theorem checkInt_bind_ne {α : Type} {x : ℤ} {f : ℤ → Except Fault α} (h₀ : -2147483648 ≤ x)
    (h₁ : x ≤ intMax) (hf : f x ≠ .error .overflow) : (checkInt x >>= f) ≠ .error .overflow := by
  rw [checkInt_of_mem h₀ h₁]
  exact hf

theorem otherError_ne_overflow (s : PingerState) (e : Errno) (m : ErrorMsg) :
    otherError s e m ≠ .error .overflow := by
  unfold otherError
  cases m with
  | malformed => simp [receiveErrorMsg, bind, Except.bind]
  | unread again | localError | foreign | icmp seq | otherOrigin =>
      simp only [receiveErrorMsg, bind, Except.bind, pure, Except.pure]
      split_ifs <;> simp

/-- The two int computations of an attempt fit when the bucket has room for a refund. -/
theorem sendOnce_ne_overflow {s : PingerState} (h₀ : 0 ≤ s.tokens) (h₁ : 0 ≤ s.rts.interval)
    (h₂ : s.tokens + s.rts.interval ≤ intMax) (a : Attempt) :
    sendOnce s a ≠ .error .overflow := by
  unfold intMax at h₂
  obtain ⟨outpack, result, message⟩ := a
  cases result with
  | excess => simp [sendOnce]
  | sent =>
      simp only [sendOnce]
      exact checkInt_bind_ne (by change _ ≤ s.rts.interval - s.tokens; omega)
        (by change s.rts.interval - s.tokens ≤ _; unfold intMax; omega) (by simp [pure, Except.pure])
  | failed errno =>
      cases errno with
      | enobufs | enomem | emsgsize => simp [sendOnce]
      | eagain =>
          simp only [sendOnce]
          exact checkInt_bind_ne (by change _ ≤ s.tokens + s.rts.interval; omega)
            (by change s.tokens + s.rts.interval ≤ _; unfold intMax; omega)
            (by simp [pure, Except.pure])
      | zero | einval | other => exact otherError_ne_overflow _ _ _

theorem transmit_ne_overflow {s : PingerState} (hna : s.rts.optAdaptive = false)
    (h₀ : 0 ≤ s.tokens) (h₁ : 0 ≤ s.rts.interval) (h₂ : s.tokens + s.rts.interval ≤ intMax)
    (as : List Attempt) : transmit s as ≠ .error .overflow := by
  induction as generalizing s with
  | nil => simp [transmit]
  | cons a as ih =>
      have hne := sendOnce_ne_overflow h₀ h₁ h₂ a
      simp only [transmit]
      cases hs : sendOnce s a with
      | error e => simpa [hs] using hne
      | ok v =>
          have hf := sendOnce_follows hna hs
          cases v with
          | done t next => simp
          | resend t =>
              have hp : pace t.rts = pace s.rts := congrArg Prod.fst hf.1
              have hi : t.rts.interval = s.rts.interval := congrArg Pace.interval hp
              have ht : t.tokens = s.tokens := hf.2
              exact ih ((congrArg Pace.adaptive hp).trans hna) (by omega) (by omega) (by omega)

/-- `ping4_send_probe` is an instance of the effect assumed of `send_probe`. -/
theorem ping4SendProbe_state {r : Rts} {tv : List UInt8} {sendto : List UInt8 → ℤ}
    {p : SendProbe.Probe} (h : SendProbe.ping4SendProbe r tv sendto = some p) :
    p.rts = probeState r p.rts.outpack := by
  simp only [SendProbe.ping4SendProbe, Option.bind_eq_bind, Option.pure_def,
    Option.bind_eq_some_iff, Option.some.injEq] at h
  obtain ⟨ck, -, icp, -, rfl⟩ := h
  rfl

end Iputils.Pinger
