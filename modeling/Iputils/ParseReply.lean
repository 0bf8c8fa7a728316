import Iputils.PrOptions
import Iputils.InCksum
import Iputils.GatherStatistics

/-!
# Reading a datagram

`ping4_parse_reply` and `ping6_parse_reply`, with the whole of
`gather_statistics`: the accounting is that of the module on statistics, the
output is the list of calls that write. `Config` holds the fields of the state
that no function of the main loop writes. A datagram is the receive buffer, of
which only the first `cc` bytes were written by this `recvmsg`; the rest is what
earlier ones left. Name resolution, the texts for other ICMP messages and the
replies to node information queries are parameters. Datagrams are at most 65535
bytes long, so that the accumulator of `in_cksum` stays in the range of `int`.
-/
set_option autoImplicit false

namespace Iputils.ParseReply
open MachineInt PingState ByteBuffer InCksum AckWindow GatherStatistics PrintfText JsonPacket
  PingOutput PrOptions

inductive SockType
  | raw | dgram
deriving Repr, DecidableEq

/-- Addresses are their bytes in memory. -/
structure Config where
  whereto : List UInt8 := [127, 0, 0, 1]
  whereto6 : List UInt8 := List.replicate 15 0 ++ [1]
  multicast : Bool := false
  broadcastPings : Bool := false
  subnetRouterAnycast : Bool := false
  niSubjectIpv4 : Bool := false
  optVerbose : Bool := false
  optAudible : Bool := false
  optPtimeofday : Bool := false
  optRttPrecision : Bool := false
  optFloodPoll : Bool := false
  niqueryEnabled : Bool := false

/-- A control message with its `cmsg_len`; the data of returned options are the
memory from `CMSG_DATA` on. -/
inductive Cmsg
  | ttl (len : ℕ) (value : ℤ)
  | retopts (len : ℕ) (data : List UInt8)
  | hoplimit (len : ℕ) (value : ℤ)
  | other
deriving Repr, DecidableEq

/-- What `recvmsg` delivers, the receive time, and the clock readings that the
functions take on the way: `now` if the clock went back, `stamp` for option `-D`. -/
structure Datagram where
  buf : List UInt8
  cc : ℕ
  src : List UInt8 := [127, 0, 0, 1]
  cmsgs : List Cmsg := []
  tv : Timeval := {}
  now : Timeval := {}
  stamp : Timeval := {}

structure Env where
  names : List UInt8 → Host
  prIcmph : ℤ → ℤ → ℤ → List UInt8 → List Char
  printIcmp : ℤ → ℤ → ℤ → List Char
  niqueryCheckNonce : List UInt8 → ℤ
  prNiqueryReply : List UInt8 → ℤ → List Print

/-- Surroundings without names and without texts. -/
def plainEnv : Env where
  names := fun _ => ⟨[], [], by decide, by decide⟩
  prIcmph := fun _ _ _ _ => []
  printIcmp := fun _ _ _ => []
  niqueryCheckNonce := fun _ => -1
  prNiqueryReply := fun _ _ => []

def isOurs (r : Rts) (sock : SockType) (id : ℤ) : Prop := sock = .dgram ∨ id = r.ident

instance (r : Rts) (sock : SockType) (id : ℤ) : Decidable (isOurs r sock id) :=
  inferInstanceAs (Decidable (_ ∨ _))

/-- `ntohs` on a little-endian machine. -/
def ntohs (x : ℤ) : ℤ := 256 * (x % 256) + x / 256 % 256

/-- A `struct timeval` in memory. -/
def timevalAt (buf : List UInt8) (off : ℕ) : Timeval :=
  ⟨i64 (le64At buf off), i64 (le64At buf (off + 8))⟩

/-- The arguments of `gather_statistics`. -/
structure Arrival where
  icmph : List UInt8
  cc : ℤ
  seq : ℤ
  hops : ℤ
  csfailed : Bool
  tv : Timeval
  now : Timeval
  stamp : Timeval
  host : Host
  prReply : List Print
  wrongSource : Bool

/-- What of it reaches the counters; the time of sending stands behind the header. -/
def Arrival.reply (a : Arrival) : Reply where
  cc := a.cc
  seq := a.seq
  csfailed := a.csfailed
  tv := a.tv
  sent := timevalAt a.icmph 8
  now := a.now

/-- The reply carries a time of sending. -/
def Stamped (r : Rts) (p : Reply) : Prop := r.timing = true ∧ p.cc ≥ 8 + timevalSize

instance (r : Rts) (p : Reply) : Decidable (Stamped r p) := inferInstanceAs (Decidable (_ ∧ _))

def clockWarning (d : Timeval) : List Print :=
  if d.tvSec < 0 then
    [.error ("Warning: time of day goes back (".toList ++ decText d.tvSec ++
      " s), taking countermeasures".toList)]
  else []

/-- The warnings of one or two passes through `restamp`. -/
def clockWarnings (r : Rts) (p : Reply) : List Print :=
  if Stamped r p then
    let d := elapsed p.tv p.sent
    clockWarning d ++
      if d.tvSec < 0 ∧ r.optLatency = false then clockWarning (elapsed p.now p.sent) else []
  else []

/-- The local variable `triptime`. -/
def measuredTrip (r : Rts) (p : Reply) : ℤ :=
  if Stamped r p then (triptime r.optLatency p).1 else 0

/-- The text in `outtime`, an array of 30 characters. -/
def outtime (precision : Bool) (t : ℤ) : List Char :=
  List.take 29 <|
    if precision then decText (t.tdiv 1000) ++ '.' :: padText 3 (t.tmod 1000)
    else if t ≥ 100000 - 50 then decText ((t + 500).tdiv 1000)
    else if t ≥ 10000 - 5 then
      decText ((t + 50).tdiv 1000) ++ '.' :: padText 1 (((t + 50).tmod 1000).tdiv 100)
    else if t ≥ 1000 then
      decText ((t + 5).tdiv 1000) ++ '.' :: padText 2 (((t + 5).tmod 1000).tdiv 10)
    else decText (t.tdiv 1000) ++ '.' :: padText 3 (t.tmod 1000)

/-- The indices of the payload behind the time of sending. -/
def dataIndices (r : Rts) : List ℕ :=
  List.range' timevalSize.toNat (r.datalen.toNat - timevalSize.toNat)

/-- The first byte that differs from what was sent last. -/
def wrongData (r : Rts) (icmph : List UInt8) : Option ℕ :=
  (dataIndices r).find? fun i => icmph.getD (8 + i) 0 ≠ r.outpack.getD (8 + i) 0

def dumpText (r : Rts) (icmph : List UInt8) : List Char :=
  ((dataIndices r).map fun i =>
    (if i % 32 = timevalSize.toNat then "\n#".toList ++ decText i ++ ['\t'] else []) ++
      hexText (byteAt icmph (8 + i)) ++ [' ']).flatten

def wrongDataText (r : Rts) (icmph : List UInt8) (i : ℕ) : List Char :=
  "\nwrong data byte #".toList ++ decText i ++ " should be 0x".toList ++
    hexText (byteAt r.outpack (8 + i)) ++ " but was 0x".toList ++
    hexText (byteAt icmph (8 + i)) ++ dumpText r icmph

def truncatedPrint (c : Config) : Print :=
  .member (" (truncated)".toList ++ if c.niSubjectIpv4 then ['\n'] else [])
    (.str "info" "truncated".toList)

/-- The members in front of the test for truncation. -/
def headPrints (c : Config) (r : Rts) (a : Arrival) : List Print :=
  printTimestamp c.optPtimeofday a.stamp ++
  [.member (decText a.cc ++ " bytes ".toList) (.int "bytes" (Int32.ofInt a.cc)),
   .member ("from ".toList ++ a.host.text ++ [':']) (.str "host" a.host.text)] ++
  a.prReply ++
  (if c.optVerbose = true ∧ r.ident ≠ -1 then
    [.member (" ident=".toList ++ decText (ntohs r.ident))
      (.int "ident" (Int32.ofInt (ntohs r.ident)))]
   else []) ++
  if a.hops ≥ 0 then
    [.member (" ttl=".toList ++ decText a.hops) (.int "ttl" (Int32.ofInt a.hops))]
  else []

def timePrints (c : Config) (r : Rts) (p : Reply) : List Print :=
  if r.timing then
    [.member (" time=".toList ++ outtime c.optRttPrecision (measuredTrip r p) ++ " ms".toList)
      (.str "time" (outtime c.optRttPrecision (measuredTrip r p)))]
  else []

/-- The marks and the comparison of the data, which know only plain text. -/
def anomalyPrints (c : Config) (r : Rts) (a : Arrival) (dupflag : Bool) : List Print :=
  (if dupflag = true ∧ (c.multicast = false ∨ c.optVerbose = true) then
    [.text " (DUP!)".toList] else []) ++
  (if a.csfailed then [.text " (BAD CHECKSUM!)".toList] else []) ++
  (if a.wrongSource then [.text " (DIFFERENT ADDRESS!)".toList] else []) ++
  match wrongData r a.icmph with
  | some i => [.text (wrongDataText r a.icmph i)]
  | none => []

/-- The reply is shorter than the request. -/
def Truncated (r : Rts) (cc : ℤ) : Prop := cc < r.datalen + 8

instance (r : Rts) (cc : ℤ) : Decidable (Truncated r cc) := inferInstanceAs (Decidable (_ < _))

/-- `finished` is the return value 1, after which the caller writes nothing more. -/
structure Gathered where
  rts : Rts
  finished : Bool
  prints : List Print

def gatherReply (c : Config) (r : Rts) (a : Arrival) : Gathered :=
  let (r', dupflag) := gatherStatistics r a.reply
  let warnings := clockWarnings r a.reply
  if r.optQuiet then ⟨r', true, warnings⟩
  else if r.optFlood then
    ⟨r', false, warnings ++ [.text (if a.csfailed then "\x08C".toList else "\x08 \x08".toList)]⟩
  else if Truncated r a.cc then
    ⟨r', true, warnings ++ headPrints c r a ++ [truncatedPrint c]⟩
  else
    ⟨r', false, warnings ++ headPrints c r a ++ timePrints c r a.reply ++
      anomalyPrints c r a dupflag⟩

/-- `notOurs` is the return value 1; `oldRr` is the static variable of `pr_options`. -/
structure Parsed where
  rts : Rts
  notOurs : Bool
  prints : List Print := []
  oldRr : List UInt8

def seqPrint (seq : ℤ) : Print :=
  .member (" icmp_seq=".toList ++ decText seq) (.uint "seq" (UInt32.ofNat seq.toNat))

section Inet

def icmpEchoreply : ℤ := 0
def icmpDestUnreach : ℤ := 3
def icmpSourceQuench : ℤ := 4
def icmpRedirect : ℤ := 5
def icmpEcho : ℤ := 8
def icmpTimeExceeded : ℤ := 11
def icmpParameterprob : ℤ := 12

/-- What precedes the ICMP message: the length of the IP header, the time to live
and the options with their length. -/
structure IpPart where
  hlen : ℕ
  ttl : ℤ
  opts : List UInt8
  olen : ℕ

def ihl (buf : List UInt8) (off : ℕ) : ℕ := (byteAt buf off % 16).toNat

/-- The loop over the control messages of a datagram socket. -/
def readCmsg (ip : IpPart) : Cmsg → IpPart
  | .ttl len value => if len < 4 then ip else { ip with ttl := value }
  | .retopts len data => { ip with opts := data, olen := len }
  | _ => ip

/-- A raw socket delivers the IP header, which may be too short or cut off. -/
def readIp (sock : SockType) (d : Datagram) : Option IpPart :=
  match sock with
  | .raw =>
      let hlen := ihl d.buf 0 * 4
      if d.cc < hlen + 8 ∨ ihl d.buf 0 < 5 then none
      else some ⟨hlen, byteAt d.buf 8, d.buf.drop 20, hlen - 20⟩
  | .dgram => some (d.cmsgs.foldl readCmsg ⟨0, 0, d.buf, 0⟩)

def wrongSource4 (c : Config) (d : Datagram) : Bool :=
  !c.broadcastPings && !c.multicast && d.src ≠ c.whereto

def arrival4 (env : Env) (c : Config) (d : Datagram) (ip : IpPart) : Arrival :=
  let icp := d.buf.drop ip.hlen
  let cc := d.cc - ip.hlen
  let seq := be16At icp 6
  { icmph := icp
    cc := cc
    seq := seq
    hops := ip.ttl
    csfailed := inCksum icp cc 0 ≠ some 0
    tv := d.tv
    now := d.now
    stamp := d.stamp
    host := env.names d.src
    prReply := [seqPrint seq]
    wrongSource := wrongSource4 c d }

/-- What follows a reply that was reported in full. -/
def closeReply4 (env : Env) (c : Config) (r : Rts) (ip : IpPart) (oldRr : List UInt8) :
    List Print × List UInt8 :=
  let bell := if c.optAudible then [.text ['\x07']] else []
  if r.optFlood then (bell, oldRr)
  else
    let (text, oldRr) := prOptions env.names r.optFlood ip.opts ip.olen oldRr
    (bell ++ [.text text, .finishLine], oldRr)

def echoReply4 (env : Env) (c : Config) (r : Rts) (sock : SockType) (d : Datagram) (ip : IpPart)
    (oldRr : List UInt8) : Parsed :=
  if ¬ isOurs r sock (le16At (d.buf.drop ip.hlen) 4) then ⟨r, true, [], oldRr⟩
  else
    let g := gatherReply c r (arrival4 env c d ip)
    if g.finished then ⟨g.rts, false, g.prints, oldRr⟩
    else
      let (prints, oldRr) := closeReply4 env c r ip oldRr
      ⟨g.rts, false, g.prints ++ prints, oldRr⟩

/-- Messages that quote one of our requests. -/
def quoted4 (env : Env) (c : Config) (r : Rts) (sock : SockType) (d : Datagram) (ip : IpPart)
    (oldRr : List UInt8) : Parsed :=
  let icp := d.buf.drop ip.hlen
  let cc := d.cc - ip.hlen
  let icp1 := icp.drop (8 + ihl icp 8 * 4)
  let kind := byteAt icp 0
  if cc < 8 + 20 + 8 ∨ cc < 8 + ihl icp 8 * 4 + 8 then ⟨r, true, [], oldRr⟩
  else if byteAt icp1 0 ≠ icmpEcho ∨ bytesAt icp 24 4 ≠ c.whereto ∨
      ¬ isOurs r sock (le16At icp1 4) then
    ⟨r, true, [], oldRr⟩
  else if kind ≠ icmpRedirect ∧ kind ≠ icmpSourceQuench then
    ⟨acknowledge r (be16At icp1 6), false, [], oldRr⟩
  else if r.optQuiet = true ∨ r.optFlood = true then ⟨r, true, [], oldRr⟩
  else
    ⟨r, true,
      printTimestamp c.optPtimeofday d.stamp ++
      [.text ("From ".toList ++ (env.names d.src).text ++ ": icmp_seq=".toList ++
        decText (be16At icp1 6) ++ [' '])] ++
      (if inCksum icp cc 0 ≠ some 0 then [.text "(BAD CHECKSUM)".toList] else []) ++
      [.text (env.prIcmph kind (byteAt icp 1) (be32At icp 4) icp)], oldRr⟩

/-- Any other message is at most reported. -/
def unexpected4 (env : Env) (c : Config) (r : Rts) (d : Datagram) (ip : IpPart)
    (oldRr : List UInt8) : Parsed :=
  let icp := d.buf.drop ip.hlen
  let csfailed := inCksum icp (d.cc - ip.hlen) 0 ≠ some 0
  if r.optFlood = true ∧ ¬ (c.optVerbose = true ∨ r.optQuiet = true) then
    ⟨r, false, [.text (if csfailed then "!EC".toList else "!E".toList)], oldRr⟩
  else if c.optVerbose = false ∨ r.uid ≠ 0 then ⟨r, false, [], oldRr⟩
  else
    ⟨r, false,
      (if c.optPtimeofday then
        [.text (decText (u64 d.stamp.tvSec) ++ '.' :: padText 6 (u64 d.stamp.tvUsec) ++ [' '])]
       else []) ++
      [.text ("From ".toList ++ (env.names d.src).text ++ ": ".toList),
       .text (if csfailed then "(BAD CHECKSUM)\n".toList
        else env.prIcmph (byteAt icp 0) (byteAt icp 1) (be32At icp 4) icp)], oldRr⟩

def ping4ParseReply (env : Env) (c : Config) (r : Rts) (sock : SockType) (d : Datagram)
    (oldRr : List UInt8) : Parsed :=
  match readIp sock d with
  | none =>
      ⟨r, true,
        if c.optVerbose then
          [.error ("packet too short (".toList ++ decText d.cc ++ " bytes) from ".toList ++
            (env.names d.src).text)]
        else [], oldRr⟩
  | some ip =>
      let kind := byteAt (d.buf.drop ip.hlen) 0
      if kind = icmpEchoreply then echoReply4 env c r sock d ip oldRr
      else if kind = icmpEcho then ⟨r, true, [], oldRr⟩
      else if kind ∈ [icmpSourceQuench, icmpRedirect, icmpDestUnreach, icmpTimeExceeded,
          icmpParameterprob] then
        quoted4 env c r sock d ip oldRr
      else unexpected4 env c r d ip oldRr

/-- The datagram is an echo reply to one of our requests. -/
structure Accepted4 (r : Rts) (sock : SockType) (d : Datagram) (ip : IpPart) : Prop where
  header : readIp sock d = some ip
  reply : byteAt (d.buf.drop ip.hlen) 0 = icmpEchoreply
  ours : isOurs r sock (le16At (d.buf.drop ip.hlen) 4)

theorem gatherReply_rts (c : Config) (r : Rts) (a : Arrival) :
    (gatherReply c r a).rts = (gatherStatistics r a.reply).1 := by
  unfold gatherReply
  dsimp only
  split_ifs <;> rfl

theorem ping4ParseReply_accepted {env : Env} {c : Config} {r : Rts} {sock : SockType}
    {d : Datagram} {ip : IpPart} (h : Accepted4 r sock d ip) (oldRr : List UInt8) :
    ping4ParseReply env c r sock d oldRr =
      if (gatherReply c r (arrival4 env c d ip)).finished then
        ⟨(gatherReply c r (arrival4 env c d ip)).rts, false,
          (gatherReply c r (arrival4 env c d ip)).prints, oldRr⟩
      else
        ⟨(gatherReply c r (arrival4 env c d ip)).rts, false,
          (gatherReply c r (arrival4 env c d ip)).prints ++ (closeReply4 env c r ip oldRr).1,
          (closeReply4 env c r ip oldRr).2⟩ := by
  rw [ping4ParseReply, h.header]
  dsimp only
  rw [if_pos h.reply, echoReply4, if_neg (not_not_intro h.ours)]

/-- An accepted reply reaches the counters through `gather_statistics`. -/
theorem ping4ParseReply_counted {env : Env} {c : Config} {r : Rts} {sock : SockType}
    {d : Datagram} {ip : IpPart} (h : Accepted4 r sock d ip) (oldRr : List UInt8) :
    (ping4ParseReply env c r sock d oldRr).rts =
        (gatherStatistics r (arrival4 env c d ip).reply).1 ∧
      (ping4ParseReply env c r sock d oldRr).notOurs = false := by
  rw [ping4ParseReply_accepted h]
  split_ifs <;> exact ⟨gatherReply_rts c r _, rfl⟩

theorem quoted4_rts (env : Env) (c : Config) (r : Rts) (sock : SockType) (d : Datagram)
    (ip : IpPart) (oldRr : List UInt8) :
    (quoted4 env c r sock d ip oldRr).rts = r ∨
      ∃ seq, (quoted4 env c r sock d ip oldRr).rts = acknowledge r seq := by
  unfold quoted4
  dsimp only
  split_ifs <;> first | exact Or.inl rfl | exact Or.inr ⟨_, rfl⟩

theorem unexpected4_rts (env : Env) (c : Config) (r : Rts) (d : Datagram) (ip : IpPart)
    (oldRr : List UInt8) : (unexpected4 env c r d ip oldRr).rts = r := by
  unfold unexpected4
  dsimp only
  split_ifs <;> rfl

/-- Anything else acknowledges a request at most. -/
theorem ping4ParseReply_other {env : Env} {c : Config} {r : Rts} {sock : SockType} {d : Datagram}
    (h : ∀ ip, ¬ Accepted4 r sock d ip) (oldRr : List UInt8) :
    (ping4ParseReply env c r sock d oldRr).rts = r ∨
      ∃ seq, (ping4ParseReply env c r sock d oldRr).rts = acknowledge r seq := by
  cases hip : readIp sock d with
  | none =>
      left
      rw [ping4ParseReply, hip]
  | some ip =>
      rw [ping4ParseReply, hip]
      dsimp only
      split_ifs with hreply hecho hquoted
      · left
        rw [echoReply4, if_pos fun hours => h ip ⟨hip, hreply, hours⟩]
      · exact Or.inl rfl
      · exact quoted4_rts env c r sock d ip oldRr
      · exact Or.inl (unexpected4_rts env c r d ip oldRr)

end Inet

section Inet6

def icmp6EchoRequest : ℤ := 128
def icmp6EchoReply : ℤ := 129
def niIcmp6Reply : ℤ := 140
def nexthdrFragment : ℤ := 44
def ipprotoIcmpv6 : ℤ := 58

def readHops (hops : ℤ) : Cmsg → ℤ
  | .hoplimit len value => if len < 20 then hops else value
  | _ => hops

def wrongSource6 (c : Config) (d : Datagram) : Bool :=
  !c.multicast && !c.subnetRouterAnycast && d.src ≠ c.whereto6

/-- The arguments that the two kinds of reply share. -/
def arrival6 (env : Env) (d : Datagram) (seq : ℤ) (prReply : List Print) (wrongSource : Bool) :
    Arrival :=
  { icmph := d.buf
    cc := d.cc
    seq := seq
    hops := d.cmsgs.foldl readHops (-1)
    csfailed := false
    tv := d.tv
    now := d.now
    stamp := d.stamp
    host := env.names d.src
    prReply := prReply
    wrongSource := wrongSource }

def closeReply6 (c : Config) (r : Rts) : List Print :=
  (if c.optAudible then [.text ['\x07']] else []) ++ if r.optFlood then [] else [.finishLine]

/-- An echo reply or the reply to a node information query. -/
def reply6 (c : Config) (r : Rts) (a : Arrival) : Rts × Bool × List Print :=
  let g := gatherReply c r a
  (g.rts, false, if g.finished then g.prints else g.prints ++ closeReply6 c r)

/-- Messages that quote an IPv6 packet. -/
def quoted6 (env : Env) (c : Config) (r : Rts) (sock : SockType) (d : Datagram) :
    Rts × Bool × List Print :=
  let fragment := byteAt d.buf (8 + 6) = nexthdrFragment
  let nexthdr := if fragment then byteAt d.buf (8 + 40) else byteAt d.buf (8 + 6)
  let icmph1 := d.buf.drop (if fragment then 8 + 40 + 8 else 8 + 40)
  if d.cc < 8 + 40 + 8 then (r, true, [])
  else if bytesAt d.buf (8 + 24) 16 ≠ c.whereto6 then (r, true, [])
  else if nexthdr = ipprotoIcmpv6 then
    if byteAt icmph1 0 ≠ icmp6EchoRequest ∨ ¬ isOurs r sock (le16At icmph1 4) then (r, true, [])
    else (acknowledge r (be16At icmph1 6), false, [])
  else if c.optVerbose = false ∨ r.uid ≠ 0 then (r, true, [])
  else
    (r, false,
      printTimestamp c.optPtimeofday d.stamp ++
      [.text ("From ".toList ++ (env.names d.src).text ++ ": ".toList),
       .text (env.printIcmp (byteAt d.buf 0) (byteAt d.buf 1) (be32At d.buf 4))] ++
      closeReply6 c r)

def ping6ParseReply (env : Env) (c : Config) (r : Rts) (sock : SockType) (d : Datagram) :
    Rts × Bool × List Print :=
  let kind := byteAt d.buf 0
  let seq := be16At d.buf 6
  let niSeq := env.niqueryCheckNonce (bytesAt d.buf 8 8)
  if d.cc < 8 then
    (r, true,
      if c.optVerbose then
        [.error ("packet too short: ".toList ++ decText d.cc ++ " bytes".toList)] else [])
  else if kind = icmp6EchoReply then
    if ¬ isOurs r sock (le16At d.buf 4) then (r, true, [])
    else reply6 c r (arrival6 env d seq [seqPrint seq] (wrongSource6 c d))
  else if kind = niIcmp6Reply then
    if niSeq < 0 then (r, true, [])
    else reply6 c r (arrival6 env d (u16 niSeq) (env.prNiqueryReply d.buf d.cc) false)
  else quoted6 env c r sock d

end Inet6

inductive Family
  | inet | inet6
deriving Repr, DecidableEq

/-- The member `parse_reply` of the two function sets. -/
def parseReply (env : Env) (c : Config) (fam : Family) (r : Rts) (sock : SockType) (d : Datagram)
    (oldRr : List UInt8) : Parsed :=
  match fam with
  | .inet => ping4ParseReply env c r sock d oldRr
  | .inet6 =>
      let (r, notOurs, prints) := ping6ParseReply env c r sock d
      ⟨r, notOurs, prints, oldRr⟩

section Effects

/-- What of a datagram reaches the state. -/
inductive Effect
  | nothing
  | acknowledged (seq : ℤ)
  | reply (p : Reply)
deriving Repr, DecidableEq

def Effect.apply (r : Rts) : Effect → Rts
  | .nothing => r
  | .acknowledged seq => acknowledge r seq
  | .reply p => (gatherStatistics r p).1

def quotedEffect4 (c : Config) (r : Rts) (sock : SockType) (d : Datagram) (ip : IpPart) : Effect :=
  let icp := d.buf.drop ip.hlen
  let cc := d.cc - ip.hlen
  let icp1 := icp.drop (8 + ihl icp 8 * 4)
  if cc < 8 + 20 + 8 ∨ cc < 8 + ihl icp 8 * 4 + 8 then .nothing
  else if byteAt icp1 0 ≠ icmpEcho ∨ bytesAt icp 24 4 ≠ c.whereto ∨
      ¬ isOurs r sock (le16At icp1 4) then .nothing
  else if byteAt icp 0 ≠ icmpRedirect ∧ byteAt icp 0 ≠ icmpSourceQuench then
    .acknowledged (be16At icp1 6)
  else .nothing

def effect4 (env : Env) (c : Config) (r : Rts) (sock : SockType) (d : Datagram) : Effect :=
  match readIp sock d with
  | none => .nothing
  | some ip =>
      let kind := byteAt (d.buf.drop ip.hlen) 0
      if kind = icmpEchoreply then
        if ¬ isOurs r sock (le16At (d.buf.drop ip.hlen) 4) then .nothing
        else .reply (arrival4 env c d ip).reply
      else if kind = icmpEcho then .nothing
      else if kind ∈ [icmpSourceQuench, icmpRedirect, icmpDestUnreach, icmpTimeExceeded,
          icmpParameterprob] then
        quotedEffect4 c r sock d ip
      else .nothing

def quotedEffect6 (c : Config) (r : Rts) (sock : SockType) (d : Datagram) : Effect :=
  let fragment := byteAt d.buf (8 + 6) = nexthdrFragment
  let nexthdr := if fragment then byteAt d.buf (8 + 40) else byteAt d.buf (8 + 6)
  let icmph1 := d.buf.drop (if fragment then 8 + 40 + 8 else 8 + 40)
  if d.cc < 8 + 40 + 8 then .nothing
  else if bytesAt d.buf (8 + 24) 16 ≠ c.whereto6 then .nothing
  else if nexthdr = ipprotoIcmpv6 then
    if byteAt icmph1 0 ≠ icmp6EchoRequest ∨ ¬ isOurs r sock (le16At icmph1 4) then .nothing
    else .acknowledged (be16At icmph1 6)
  else .nothing

def effect6 (env : Env) (c : Config) (r : Rts) (sock : SockType) (d : Datagram) : Effect :=
  let kind := byteAt d.buf 0
  let seq := be16At d.buf 6
  let niSeq := env.niqueryCheckNonce (bytesAt d.buf 8 8)
  if d.cc < 8 then .nothing
  else if kind = icmp6EchoReply then
    if ¬ isOurs r sock (le16At d.buf 4) then .nothing
    else .reply (arrival6 env d seq [seqPrint seq] (wrongSource6 c d)).reply
  else if kind = niIcmp6Reply then
    if niSeq < 0 then .nothing
    else .reply (arrival6 env d (u16 niSeq) (env.prNiqueryReply d.buf d.cc) false).reply
  else quotedEffect6 c r sock d

def effect (env : Env) (c : Config) (fam : Family) (r : Rts) (sock : SockType) (d : Datagram) :
    Effect :=
  match fam with
  | .inet => effect4 env c r sock d
  | .inet6 => effect6 env c r sock d

variable {env : Env} {c : Config} {r : Rts} {sock : SockType} {d : Datagram}

theorem echoReply4_rts (ip : IpPart) (oldRr : List UInt8)
    (h : isOurs r sock (le16At (d.buf.drop ip.hlen) 4)) :
    (echoReply4 env c r sock d ip oldRr).rts =
      (gatherStatistics r (arrival4 env c d ip).reply).1 := by
  rw [echoReply4, if_neg (not_not_intro h), ← gatherReply_rts]
  dsimp only
  split_ifs <;> rfl

theorem quoted4_effect (ip : IpPart) (oldRr : List UInt8) :
    (quoted4 env c r sock d ip oldRr).rts = (quotedEffect4 c r sock d ip).apply r := by
  unfold quoted4 quotedEffect4
  dsimp only
  split_ifs <;> rfl

theorem quoted6_effect :
    (quoted6 env c r sock d).1 = (quotedEffect6 c r sock d).apply r := by
  unfold quoted6 quotedEffect6
  dsimp only
  split_ifs <;> rfl

theorem ping4ParseReply_effect (oldRr : List UInt8) :
    (ping4ParseReply env c r sock d oldRr).rts = (effect4 env c r sock d).apply r := by
  unfold ping4ParseReply effect4
  cases readIp sock d with
  | none => rfl
  | some ip =>
      dsimp only
      by_cases hreply : byteAt (d.buf.drop ip.hlen) 0 = icmpEchoreply
      · rw [if_pos hreply, if_pos hreply]
        by_cases hours : isOurs r sock (le16At (d.buf.drop ip.hlen) 4)
        · rw [echoReply4_rts ip oldRr hours, if_neg (not_not_intro hours)]
          rfl
        · rw [echoReply4, if_pos hours, if_pos hours]
          rfl
      · rw [if_neg hreply, if_neg hreply]
        split_ifs
        · rfl
        · exact quoted4_effect ip oldRr
        · exact unexpected4_rts env c r d ip oldRr

theorem ping6ParseReply_effect :
    (ping6ParseReply env c r sock d).1 = (effect6 env c r sock d).apply r := by
  unfold ping6ParseReply effect6
  dsimp only
  split_ifs
  · rfl
  · rfl
  · exact gatherReply_rts c r _
  · rfl
  · rfl
  · exact gatherReply_rts c r _
  · exact quoted6_effect

/-- Everything that a datagram does to the state. -/
theorem parseReply_effect (fam : Family) (oldRr : List UInt8) :
    (parseReply env c fam r sock d oldRr).rts = (effect env c fam r sock d).apply r := by
  cases fam with
  | inet => exact ping4ParseReply_effect oldRr
  | inet6 => exact ping6ParseReply_effect

/-- The state matters for a datagram only by its identifier. -/
theorem effect_congr {r' : Rts} (h : r'.ident = r.ident) (fam : Family) :
    effect env c fam r' sock d = effect env c fam r sock d := by
  have hours : ∀ id, isOurs r' sock id ↔ isOurs r sock id := by
    intro id
    simp only [isOurs, h]
  cases fam with
  | inet => simp only [effect, effect4, quotedEffect4, hours]
  | inet6 => simp only [effect, effect6, quotedEffect6, hours]

end Effects

end Iputils.ParseReply
