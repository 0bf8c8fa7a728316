import Iputils.MainLoop

/-!
# Network errors in the two address families

The IPv4 function acknowledges the probe that an ICMP error is about, the IPv6
function does not. An IPv4 and an IPv6 process are put side by side and given the
same probes, replies and errors. They stay alike exactly as long as each error is
about a probe whose acknowledgement would not have moved `acked` or `pipesize`.
-/
set_option autoImplicit false

namespace Iputils.ErrorParity
open MachineInt PingState ReceivedTable ByteBuffer AckWindow GatherStatistics ParseReply ErrorQueue
  MainLoop
open Pinger (Errno ErrorMsg probeState)

def recverr : Family → List ErrCmsg → Option ExtendedErr
  | .inet => recverr4
  | .inet6 => recverr6

def networkOrigin : Family → Origin
  | .inet => .icmp
  | .inet6 => .icmp6

def echoRequest : Family → ℤ
  | .inet => icmpEcho
  | .inet6 => icmp6EchoRequest

def destination (c : Config) : Family → List UInt8
  | .inet => c.whereto
  | .inet6 => c.whereto6

/-- A message of network origin about our own echo request `n`. -/
structure Quotes (c : Config) (fam : Family) (r : Rts) (sock : SockType) (m : QueueMessage)
    (n : ℤ) : Prop where
  network : ∃ e, recverr fam m.cmsgs = some e ∧ e.origin = networkOrigin fam
  header : 8 ≤ m.res
  target : m.target = destination c fam
  request : byteAt m.icmph 0 = echoRequest fam
  ours : isOurs r sock (le16At m.icmph 4)
  number : be16At m.icmph 6 = u16 n

/-- What the two families are compared by. -/
structure Accounts where
  nerrors : ℤ
  acked : ℤ
  pipesize : ℤ
  rcvdTbl : RcvdTable

def accounts (r : Rts) : Accounts := ⟨r.nerrors, r.acked, r.pipesize, r.rcvdTbl⟩

/-- The accounts and what else decides how they go on. -/
structure Counts where
  accounts : Accounts
  ntransmitted : ℤ
  nreceived : ℤ

def counts (r : Rts) : Counts := ⟨accounts r, r.ntransmitted, r.nreceived⟩

/-- To acknowledge probe `n` would change nothing: it is too far back to be recognised,
or the pipe has been seen as wide as its age and `acked` is at `n` or not behind it. -/
def Settled (r : Rts) (n : ℤ) : Prop :=
  u16 (r.ntransmitted - n) > 0x7FFF ∨
    (u16 (r.ntransmitted - n) + 1 ≤ r.pipesize ∧
      (r.acked = u16 n ∨
        ¬ (i16 (u16 n - r.acked) > 0 ∨ u16 r.ntransmitted - r.acked > 0x7FFF)))

theorem classify_quotes {c : Config} {fam : Family} {r : Rts} {sock : SockType} {m : QueueMessage}
    {n : ℤ} (h : Quotes c fam r sock m n) :
    classify c fam r sock (.message m) = .icmp (u16 n) := by
  obtain ⟨⟨e, he, horigin⟩, hres, htarget, hrequest, hours, hnumber⟩ := h
  cases fam with
  | inet =>
      have ho : Ours4 c r sock m := by
        simp only [Ours4, not_or, not_lt, ne_eq, not_not]
        exact ⟨hres, htarget, hrequest, hours⟩
      have he' : recverr4 m.cmsgs = some e := he
      simp [classify, classify4, he', horigin, networkOrigin, ho, hnumber]
  | inet6 =>
      have ho : Ours6 c r sock m := by
        simp only [Ours6, not_or, not_lt, ne_eq, not_not]
        exact ⟨hres, htarget, hrequest, hours⟩
      have he' : recverr6 m.cmsgs = some e := he
      simp [classify, classify6, he', horigin, networkOrigin, ho, hnumber]

/-- The message is counted, and acknowledged by one of the families. -/
theorem receiveErrorMsg_quotes {env : Env} {c : Config} {fam : Family} {r : Rts} {sock : SockType}
    {m : QueueMessage} {n : ℤ} (h : Quotes c fam r sock m n) (errno : Errno) :
    ∃ x, receiveErrorMsg env c fam r sock errno (.message m) = .ok x ∧
      x.rts = countError fam r (u16 n) := by
  have ho := @outcome_receiveErrorMsg env c r sock errno (.message m) fam
  rw [classify_quotes h, account] at ho
  cases hx : receiveErrorMsg env c fam r sock errno (.message m) with
  | error f => simp [hx, Except.map] at ho
  | ok x =>
      rw [hx] at ho
      exact ⟨x, rfl, congrArg Prod.fst (Except.ok.inj ho)⟩

section Step
variable {r r' : Rts}

theorem accounts_countError_inet (r : Rts) (seq : ℤ) :
    accounts (countError .inet r seq) =
      ⟨r.nerrors + 1, (acknowledge r seq).acked, (acknowledge r seq).pipesize, r.rcvdTbl⟩ := by
  rw [countError, acknowledge_frame]
  rfl

theorem accounts_countError_inet6 (r : Rts) (seq : ℤ) :
    accounts (countError .inet6 r seq) = ⟨r.nerrors + 1, r.acked, r.pipesize, r.rcvdTbl⟩ := rfl

/-- The two functions leave the same accounts exactly when the acknowledgement of the
one of them changes nothing. -/
theorem accounts_countError_iff (r : Rts) (n : ℤ) :
    accounts (countError .inet r (u16 n)) = accounts (countError .inet6 r (u16 n)) ↔
      Settled r n := by
  rw [accounts_countError_inet, accounts_countError_inet6, Accounts.mk.injEq, acknowledge_acked,
    acknowledge_pipesize, u16_sub_u16, Settled]
  by_cases hage : u16 (r.ntransmitted - n) ≤ 0x7FFF
  · rw [if_pos hage]
    by_cases hnew : i16 (u16 n - r.acked) > 0 ∨ u16 r.ntransmitted - r.acked > 0x7FFF
    · rw [if_pos ⟨hage, hnew⟩]
      simp only [hnew, not_true_eq_false, or_false, true_and, and_true]
      omega
    · rw [if_neg (fun hc => hnew hc.2)]
      simp only [hnew, not_false_eq_true, or_true, true_and, and_true]
      omega
  · rw [if_neg hage, if_neg (fun hc => hage hc.1)]
    exact iff_of_true ⟨rfl, rfl, rfl, rfl⟩ (Or.inl (not_le.mp hage))

theorem inFlight_congr (h : counts r = counts r') : inFlight r = inFlight r' := by
  simp only [counts, accounts, Counts.mk.injEq, Accounts.mk.injEq] at h
  obtain ⟨⟨he, ha, -, -⟩, hn, hr⟩ := h
  simp only [inFlight, he, ha, hn, hr]

theorem counts_acknowledge (h : counts r = counts r') (seq : ℤ) :
    counts (acknowledge r seq) = counts (acknowledge r' seq) := by
  simp only [counts, accounts, Counts.mk.injEq, Accounts.mk.injEq] at h
  obtain ⟨⟨he, ha, hp, ht⟩, hn, hr⟩ := h
  rw [acknowledge_frame r, acknowledge_frame r']
  simp only [counts, accounts, acknowledge_acked, acknowledge_pipesize, he, ha, hp, ht, hn, hr]

theorem counts_advanceNtransmitted (h : counts r = counts r') :
    counts (advanceNtransmitted r) = counts (advanceNtransmitted r') := by
  simp only [counts, accounts, Counts.mk.injEq, Accounts.mk.injEq] at h
  obtain ⟨⟨he, ha, hp, ht⟩, hn, hr⟩ := h
  simp only [counts, accounts, advanceNtransmitted, he, ha, hp, ht, hn, hr]

theorem counts_sendState (k k' : Setup) (h : counts r = counts r') (out out' : List UInt8) :
    counts (sendState k r out) = counts (sendState k' r' out') := by
  have hsend : ∀ (k : Setup) (r : Rts) (out : List UInt8),
      counts (sendState k r out) = counts (probeState r []) := by
    intro k r out
    unfold sendState
    cases k.fam <;> rfl
  simp only [counts, accounts, Counts.mk.injEq, Accounts.mk.injEq] at h
  obtain ⟨⟨he, ha, hp, ht⟩, hn, hr⟩ := h
  rw [hsend, hsend]
  simp only [counts, accounts, probeState, he, ha, hp, ht, hn, hr]

theorem counts_recordTrip (r : Rts) (p : Reply) : counts (recordTrip r p) = counts r := by
  rw [recordTrip_frame]
  rfl

/-- Of a reply only its number and its checksum reach the accounts. -/
theorem counts_gatherStatistics (h : counts r = counts r') {p p' : Reply} (hs : p.seq = p'.seq)
    (hc : p.csfailed = p'.csfailed) :
    counts (gatherStatistics r p).1 = counts (gatherStatistics r' p').1 := by
  have hcount : counts (countReply r p) = counts (countReply r' p') := by
    have hrec : counts { r with nreceived := r.nreceived + 1 } =
        counts { r' with nreceived := r'.nreceived + 1 } := by
      simp only [counts, Counts.mk.injEq] at h
      obtain ⟨ha, hn, hr⟩ := h
      simp only [counts, Counts.mk.injEq]
      exact ⟨ha, hn, by rw [hr]⟩
    unfold countReply
    rw [hc, hs]
    dsimp only
    split_ifs
    · exact hrec
    · exact counts_acknowledge hrec _
  have htrip : counts (recordTrip (countReply r p) p) =
      counts (recordTrip (countReply r' p') p') := by
    rw [counts_recordTrip, counts_recordTrip, hcount]
  simp only [counts, accounts, Counts.mk.injEq, Accounts.mk.injEq] at htrip
  obtain ⟨⟨he, ha, hp, ht⟩, hn, hr⟩ := htrip
  simp only [gatherStatistics, settleReply, hc, hs, ht]
  split_ifs <;> simp only [counts, accounts, he, ha, hp, hn, hr]

/-- A settled error keeps the families alike. -/
theorem counts_countError (h : counts r = counts r') {n : ℤ} (hn : Settled r n) :
    counts (countError .inet r (u16 n)) = counts (countError .inet6 r' (u16 n)) := by
  have hacc := (accounts_countError_iff r n).mpr hn
  have hsame : counts (countError .inet6 r (u16 n)) = counts (countError .inet6 r' (u16 n)) := by
    simp only [counts, accounts, Counts.mk.injEq, Accounts.mk.injEq] at h
    obtain ⟨⟨he, ha, hp, ht⟩, hn, hr⟩ := h
    simp only [counts, accounts, countError, he, ha, hp, ht, hn, hr]
  rw [← hsame, counts, counts, Counts.mk.injEq]
  refine ⟨hacc, ?_, ?_⟩
  · rw [countError_frame .inet, countError_frame .inet6]
  · rw [countError_frame .inet, countError_frame .inet6]

end Step

section Runs
variable (env : Env) (c : Config) (sock : SockType)

/-- An IPv4 and an IPv6 process side by side. -/
structure Pair where
  inet : Rts
  inet6 : Rts

/-- A probe with the buffer that either family composes, a reply as either family
receives it, an error about probe `n` as either family finds it in its queue. -/
inductive Event
  | probe (outpack4 outpack6 : List UInt8)
  | reply (d4 d6 : Datagram)
  | error (errno : Errno) (n : ℤ) (m4 m6 : QueueMessage)

/-- Both processes take the datagrams for replies with the same number and the same
verdict on the checksum, and an error quotes a probe that was sent. -/
def Event.Legal (s : Pair) : Event → Prop
  | .probe _ _ => True
  | .reply d4 d6 =>
      ∃ p4 p6, effect env c .inet s.inet sock d4 = .reply p4 ∧
        effect env c .inet6 s.inet6 sock d6 = .reply p6 ∧
        p4.seq = p6.seq ∧ p4.csfailed = p6.csfailed
  | .error _ n m4 m6 =>
      1 ≤ n ∧ n ≤ s.inet.ntransmitted ∧ Quotes c .inet s.inet sock m4 n ∧
        Quotes c .inet6 s.inet6 sock m6 n

/-- The condition on an error, in the state in which it is read. -/
def Event.Settled (s : Pair) : Event → Prop
  | .error _ n _ _ => ErrorParity.Settled s.inet n
  | _ => True

def afterProbe (fam : Family) (r : Rts) (outpack : List UInt8) : Rts :=
  advanceNtransmitted (sendState { env := env, config := c, fam := fam, sock := sock } r outpack)

def afterReply (fam : Family) (r : Rts) (d : Datagram) : Rts :=
  (parseReply env c fam r sock d []).rts

def afterError (fam : Family) (r : Rts) (errno : Errno) (m : QueueMessage) : Rts :=
  match receiveErrorMsg env c fam r sock errno (.message m) with
  | .ok h => h.rts
  | .error _ => r

def Event.apply (s : Pair) : Event → Pair
  | .probe outpack4 outpack6 =>
      ⟨afterProbe env c sock .inet s.inet outpack4, afterProbe env c sock .inet6 s.inet6 outpack6⟩
  | .reply d4 d6 => ⟨afterReply env c sock .inet s.inet d4, afterReply env c sock .inet6 s.inet6 d6⟩
  | .error errno _ m4 m6 =>
      ⟨afterError env c sock .inet s.inet errno m4, afterError env c sock .inet6 s.inet6 errno m6⟩

def Step (s t : Pair) : Prop := ∃ e : Event, e.Legal env c sock s ∧ t = e.apply env c sock s

def SettledStep (s t : Pair) : Prop :=
  ∃ e : Event, e.Legal env c sock s ∧ e.Settled s ∧ t = e.apply env c sock s

variable {env c sock}

theorem counts_afterError {s : Pair} (h : counts s.inet = counts s.inet6) {errno : Errno} {n : ℤ}
    {m4 m6 : QueueMessage} (h4 : Quotes c .inet s.inet sock m4 n)
    (h6 : Quotes c .inet6 s.inet6 sock m6 n) (hn : Settled s.inet n) :
    counts (afterError env c sock .inet s.inet errno m4) =
      counts (afterError env c sock .inet6 s.inet6 errno m6) := by
  obtain ⟨x4, hx4, hr4⟩ := @receiveErrorMsg_quotes env c .inet s.inet sock m4 n h4 errno
  obtain ⟨x6, hx6, hr6⟩ := @receiveErrorMsg_quotes env c .inet6 s.inet6 sock m6 n h6 errno
  rw [afterError, afterError, hx4, hx6]
  dsimp only
  rw [hr4, hr6]
  exact counts_countError h hn

theorem counts_step {s t : Pair} (h : counts s.inet = counts s.inet6)
    (hs : SettledStep env c sock s t) : counts t.inet = counts t.inet6 := by
  obtain ⟨e, hl, hset, rfl⟩ := hs
  cases e with
  | probe outpack4 outpack6 =>
      exact counts_advanceNtransmitted (counts_sendState _ _ h outpack4 outpack6)
  | reply d4 d6 =>
      obtain ⟨p4, p6, h4, h6, hseq, hck⟩ := hl
      simp only [Event.apply, afterReply, parseReply_effect, h4, h6, Effect.apply]
      exact counts_gatherStatistics h hseq hck
  | error errno n m4 m6 =>
      obtain ⟨-, -, h4, h6⟩ := hl
      exact counts_afterError h h4 h6 hset

/-- A single error leaves the same accounts in both families if and only if it is about
a settled probe; and in every run of probes, replies and errors about settled probes the
two processes have the same accounts and the same number of probes in flight. -/
theorem errors_alike (env : Env) (c : Config) (sock : SockType) :
    (∀ (r : Rts) (errno : Errno) (n : ℤ) (m4 m6 : QueueMessage), 1 ≤ n → n ≤ r.ntransmitted →
      Quotes c .inet r sock m4 n → Quotes c .inet6 r sock m6 n →
      ∃ x4 x6, ping4ReceiveErrorMsg env c r sock errno (.message m4) = .ok x4 ∧
        ping6ReceiveErrorMsg env c r sock errno (.message m6) = .ok x6 ∧
        (accounts x4.rts = accounts x6.rts ↔ Settled r n) ∧
        (Settled r n → inFlight x4.rts = inFlight x6.rts)) ∧
    ∀ (s t : Pair), counts s.inet = counts s.inet6 →
      Relation.ReflTransGen (SettledStep env c sock) s t →
      accounts t.inet = accounts t.inet6 ∧ inFlight t.inet = inFlight t.inet6 := by
  constructor
  · intro r errno n m4 m6 _ _ h4 h6
    obtain ⟨x4, hx4, hr4⟩ := @receiveErrorMsg_quotes env c .inet r sock m4 n h4 errno
    obtain ⟨x6, hx6, hr6⟩ := @receiveErrorMsg_quotes env c .inet6 r sock m6 n h6 errno
    refine ⟨x4, x6, hx4, hx6, ?_, ?_⟩
    · rw [hr4, hr6]
      exact accounts_countError_iff r n
    · intro hn
      rw [hr4, hr6]
      exact inFlight_congr (counts_countError rfl hn)
  · intro s t h hrun
    have ht : counts t.inet = counts t.inet6 := by
      induction hrun with
      | refl => exact h
      | tail _ hs ih => exact counts_step ih hs
    exact ⟨congrArg Counts.accounts ht, inFlight_congr ht⟩

/-- Host unreachable, about probe 1. -/
def unreachable4 : QueueMessage where
  res := 8
  icmph := [8, 0, 0, 0, 0, 0, 0, 1]
  target := [127, 0, 0, 1]
  cmsgs := [.ip { errno := .other, origin := .icmp, type := 3, code := 1 }]

def unreachable6 : QueueMessage where
  res := 8
  icmph := [128, 0, 0, 0, 0, 0, 0, 1]
  target := List.replicate 15 0 ++ [1]
  cmsgs := [.ipv6 { errno := .other, origin := .icmp6, type := 1, code := 3 }]

theorem quotes_unreachable4 (r : Rts) : Quotes {} .inet r .dgram unreachable4 1 :=
  ⟨⟨_, rfl, rfl⟩, le_rfl, rfl, by decide, Or.inl rfl, by decide⟩

theorem quotes_unreachable6 (r : Rts) : Quotes {} .inet6 r .dgram unreachable6 1 :=
  ⟨⟨_, rfl, rfl⟩, le_rfl, rfl, by decide, Or.inl rfl, by decide⟩

def unreachable : Event := .error .other 1 unreachable4 unreachable6

/-- One probe, already answered. -/
def answeredRts : Rts := { ntransmitted := 1, nreceived := 1, acked := 1, pipesize := 1 }

theorem errors_alike_answered :
    (∃ x4 x6, ping4ReceiveErrorMsg plainEnv {} answeredRts .dgram .other (.message unreachable4) =
        .ok x4 ∧
      ping6ReceiveErrorMsg plainEnv {} answeredRts .dgram .other (.message unreachable6) = .ok x6 ∧
      accounts x4.rts = accounts x6.rts ∧ inFlight x4.rts = inFlight x6.rts) ∧
    ∃ t, Relation.ReflTransGen (SettledStep plainEnv {} .dgram) ⟨answeredRts, answeredRts⟩ t ∧
      t.inet.nerrors = 1 ∧ inFlight t.inet = inFlight t.inet6 := by
  have hset : Settled answeredRts 1 := Or.inr ⟨by decide, Or.inl (by decide)⟩
  have h4 := quotes_unreachable4 answeredRts
  have h6 := quotes_unreachable6 answeredRts
  have h := errors_alike plainEnv {} .dgram
  constructor
  · obtain ⟨x4, x6, hx4, hx6, hiff, hfl⟩ := h.1 answeredRts .other 1 unreachable4 unreachable6 le_rfl
      le_rfl h4 h6
    exact ⟨x4, x6, hx4, hx6, hiff.mpr hset, hfl hset⟩
  · have hrun : Relation.ReflTransGen (SettledStep plainEnv {} .dgram) ⟨answeredRts, answeredRts⟩
        (unreachable.apply plainEnv {} .dgram ⟨answeredRts, answeredRts⟩) :=
      .tail .refl ⟨unreachable, ⟨le_rfl, le_rfl, h4, h6⟩, hset, rfl⟩
    exact ⟨_, hrun, by decide +kernel, (h.2 _ _ rfl hrun).2⟩

/-- The first probe; the buffer holds the composed packet. -/
def firstProbe : Event :=
  .probe (store (List.replicate maxpacket 0) 0 [8, 0, 0, 0, 0, 0, 0, 1])
    (store (List.replicate maxpacket 0) 0 [128, 0, 0, 0, 0, 0, 0, 1])

def afterFirst : Pair := firstProbe.apply plainEnv {} .dgram ⟨{}, {}⟩

/-- The first probe meets an unreachable host: nothing is in flight any more with IPv4,
and the probe still is with IPv6. -/
theorem unanswered_error_differs :
    ∃ t, Relation.ReflTransGen (Step plainEnv {} .dgram) ⟨{}, {}⟩ t ∧ t.inet.ntransmitted = 1 ∧
      t.inet6.ntransmitted = 1 ∧ t.inet.nerrors = 1 ∧ t.inet6.nerrors = 1 ∧ t.inet.acked = 1 ∧
      t.inet6.acked = 0 ∧ inFlight t.inet = 0 ∧ inFlight t.inet6 = 1 := by
  have hfirst : Step plainEnv {} .dgram ⟨{}, {}⟩ afterFirst := ⟨firstProbe, trivial, rfl⟩
  have hsent : (1 : ℤ) ≤ afterFirst.inet.ntransmitted := by decide +kernel
  have herror : Step plainEnv {} .dgram afterFirst
      (unreachable.apply plainEnv {} .dgram afterFirst) :=
    ⟨unreachable, ⟨le_rfl, hsent, quotes_unreachable4 _, quotes_unreachable6 _⟩, rfl⟩
  refine ⟨_, .tail (.tail .refl hfirst) herror, ?_⟩
  decide +kernel

end Runs

end Iputils.ErrorParity
