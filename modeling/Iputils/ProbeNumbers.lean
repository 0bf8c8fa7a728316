import Iputils.SendProbe
import Iputils.ErrorQueue

/-!
# The number of a probe in the output

The number of a probe is written into its header with `htons`, comes back in the
header of a reply or of a quoted packet, and is printed in five kinds of lines. The
line for a message of the error queue passes it through a parameter of type `uint8_t`.
The main result says that all lines show the number modulo 65536, except that this one
does so only for numbers below 256.
-/
set_option autoImplicit false

namespace Iputils.ProbeNumbers
open MachineInt PingState ReceivedTable AckWindow ByteBuffer PrintfText PingOutput ParseReply
open GatherStatistics ErrorQueue SendProbe
open Pinger (Errno Fault)

/-! ## Sending -/

/-- `build_echo` of IPv6: the buffer with the header and, with timing, the clock reading,
and the length of the packet. -/
def buildEcho (r : Rts) (packet tv : List UInt8) : List UInt8 × ℤ :=
  let icmph := store packet 0 [128, 0]
  let icmph := store icmph 2 (le16 0)
  let icmph := store icmph 6 (be16 (r.ntransmitted + 1))
  let icmph := store icmph 4 (le16 r.ident)
  (if r.timing then store icmph 8 tv else icmph, r.datalen + 8)

/-- The packet that is composed for probe `k`, with the state in which it is sent. -/
inductive Request : Family → ℤ → List UInt8 → Prop
  | inet {r : Rts} {tv : List UInt8} {sendto : List UInt8 → ℤ} {p : Probe} (hr : Ready r)
      (htv : tv.length = 16) (hp : ping4SendProbe r tv sendto = some p) :
      Request .inet (r.ntransmitted + 1) p.packet
  | inet6 {r : Rts} {tv : List UInt8} (hr : Ready r) (htv : tv.length = 16) :
      Request .inet6 (r.ntransmitted + 1)
        ((buildEcho r r.outpack tv).1.take (buildEcho r r.outpack tv).2.toNat)

/-- The line of option `-O` in `pinger`, before the next probe is composed. -/
def noAnswerYet (c : Config) (r : Rts) (stamp : Timeval) : List Print :=
  if r.optOutstanding = true ∧ r.ntransmitted > 0 ∧ rcvdTest r.rcvdTbl r.ntransmitted = 0 then
    printTimestamp c.optPtimeofday stamp ++
      [.text ("no answer yet for icmp_seq=".toList ++ decText (r.ntransmitted.tmod maxDupChk) ++
        ['\n'])]
  else []

/-- The header holds the number of the packet. -/
def SameNumber (packet icmph : List UInt8) : Prop := bytesAt icmph 6 2 = bytesAt packet 6 2

instance (packet icmph : List UInt8) : Decidable (SameNumber packet icmph) :=
  inferInstanceAs (Decidable (_ = _))

theorem be16At_of_sameNumber {packet icmph : List UInt8} (h : SameNumber packet icmph) :
    be16At icmph 6 = be16At packet 6 := by
  have h₀ := congrArg (fun l => byteVal (l.getD 0 0)) h
  have h₁ := congrArg (fun l => byteVal (l.getD 1 0)) h
  simp only [getD_bytesAt _ _ (by decide : 0 < 2), getD_bytesAt _ _ (by decide : 1 < 2)] at h₀ h₁
  rw [be16At, be16At, byteAt, byteAt, byteAt, byteAt]
  rw [show (6 : ℕ) = 6 + 0 from rfl, h₀, h₁]

/-- The header that `build_echo` puts in front of the old contents. -/
theorem buildEcho_eq {r : Rts} {packet : List UInt8} (h : 8 ≤ packet.length) (tv : List UInt8) :
    ∃ rest, (buildEcho r packet tv).1 =
      ([128, 0] ++ le16 0 ++ le16 r.ident) ++ (be16 (r.ntransmitted + 1) ++ rest) := by
  obtain ⟨a, b, c, d, e, f, g, i, post, rfl⟩ := exists_eight h
  unfold buildEcho
  dsimp only
  split_ifs
  · exact ⟨tv ++ post.drop tv.length, by simp [store, le16, be16, Nat.add_comm 8 tv.length]⟩
  · exact ⟨post, rfl⟩

/-- A probe carries the low sixteen bits of its number. -/
theorem be16At_request {fam : Family} {k : ℤ} {packet : List UInt8} (h : Request fam k packet) :
    be16At packet 6 = k % 65536 := by
  cases h with
  | @inet r tv sendto p hr htv hp =>
      obtain ⟨p', hp', hpacket⟩ := ping4SendProbe_packet hr htv sendto
      obtain rfl := Option.some.inj (hp.symm.trans hp')
      rw [hpacket, header]
      exact be16At_append ([8, 0] ++ le16 (sealOf r.ident (r.ntransmitted + 1)
        (finalPayload r tv)) ++ le16 r.ident) _ (finalPayload r tv) (by simp) rfl
  | @inet6 r tv hr htv =>
      have hlen : 8 ≤ r.outpack.length := by
        rw [hr.buffer]
        decide
      have hcc : ∃ n, (buildEcho r r.outpack tv).2.toNat = n + 8 := by
        have h₀ := hr.datalen_nonneg
        exact ⟨r.datalen.toNat, by unfold buildEcho; dsimp only; omega⟩
      obtain ⟨n, hn⟩ := hcc
      obtain ⟨rest, hrest⟩ := buildEcho_eq (r := r) hlen tv
      rw [hn, hrest]
      exact be16At_append ([128, 0] ++ le16 0 ++ le16 r.ident) _ (rest.take n) (by rfl) rfl

/-! ## Printing -/

/-- The kinds of lines that name a probe. -/
inductive LineKind
  | reply | redirect | noAnswer | errorQueue
deriving Repr, DecidableEq

/-- A reply line up to the number, which `pr_echo_reply` prints. -/
def replyLine (c : Config) (r : Rts) (a : Arrival) (n : ℤ) : List Print :=
  clockWarnings r a.reply ++ printTimestamp c.optPtimeofday a.stamp ++
    [.member (decText a.cc ++ " bytes ".toList) (.int "bytes" (Int32.ofInt a.cc)),
     .member ("from ".toList ++ a.host.text ++ [':']) (.str "host" a.host.text), seqPrint n]

/-- The other lines up to the number; only the text in front of it differs. -/
def textLine (c : Config) (stamp : Timeval) (before after : List Char) (n : ℤ) : List Print :=
  printTimestamp c.optPtimeofday stamp ++ [.text (before ++ decText n ++ after)]

/-- What the code writes about probe `k`, and the beginning of the line as a function of
the number in it. The packets that come back carry the number of the request. -/
inductive Reported (env : Env) (c : Config) (k : ℤ) (packet : List UInt8) :
    Family → LineKind → List Print → (ℤ → List Print) → Prop
  | reply4 {r : Rts} {sock : SockType} {d : Datagram} {ip : IpPart} (oldRr : List UInt8)
      (ha : Accepted4 r sock d ip) (hn : SameNumber packet (d.buf.drop ip.hlen))
      (hq : r.optQuiet = false) (hf : r.optFlood = false) :
      Reported env c k packet .inet .reply (ping4ParseReply env c r sock d oldRr).prints
        (replyLine c r (arrival4 env c d ip))
  | reply6 {r : Rts} {sock : SockType} {d : Datagram} (hcc : 8 ≤ d.cc)
      (hr : byteAt d.buf 0 = icmp6EchoReply) (ho : isOurs r sock (le16At d.buf 4))
      (hn : SameNumber packet d.buf) (hq : r.optQuiet = false) (hf : r.optFlood = false) :
      Reported env c k packet .inet6 .reply (ping6ParseReply env c r sock d).2.2
        (replyLine c r (arrival6 env d (be16At d.buf 6) [seqPrint (be16At d.buf 6)]
          (wrongSource6 c d)))
  | redirect {r : Rts} {sock : SockType} {d : Datagram} {ip : IpPart} {icp icp1 : List UInt8}
      (oldRr : List UInt8) (hip : readIp sock d = some ip) (hicp : d.buf.drop ip.hlen = icp)
      (hicp1 : icp.drop (8 + ihl icp 8 * 4) = icp1)
      (hk : byteAt icp 0 = icmpRedirect ∨ byteAt icp 0 = icmpSourceQuench)
      (hlen : 8 + 20 + 8 ≤ d.cc - ip.hlen ∧ 8 + ihl icp 8 * 4 + 8 ≤ d.cc - ip.hlen)
      (ho : byteAt icp1 0 = icmpEcho ∧ bytesAt icp 24 4 = c.whereto ∧
        isOurs r sock (le16At icp1 4))
      (hn : SameNumber packet icp1) (hq : r.optQuiet = false) (hf : r.optFlood = false) :
      Reported env c k packet .inet .redirect (ping4ParseReply env c r sock d oldRr).prints
        (textLine c d.stamp ("From ".toList ++ (env.names d.src).text ++ ": icmp_seq=".toList)
          [' '])
  | noAnswer {r : Rts} {fam : Family} (stamp : Timeval) (ho : r.optOutstanding = true)
      (hk : r.ntransmitted = k) (hr : rcvdTest r.rcvdTbl k = 0) :
      Reported env c k packet fam .noAnswer (noAnswerYet c r stamp)
        (textLine c stamp "no answer yet for icmp_seq=".toList ['\n'])
  | error4 {r : Rts} {sock : SockType} {errno : Errno} {m : QueueMessage} {e : ExtendedErr}
      {h : Handled} (he : recverr4 m.cmsgs = some e) (hi : e.origin = .icmp)
      (ho : Ours4 c r sock m) (hn : SameNumber packet m.icmph) (hq : r.optQuiet = false)
      (hf : r.optFlood = false) (hj : r.optJson = false)
      (hm : ping4ReceiveErrorMsg env c r sock errno (.message m) = .ok h) :
      Reported env c k packet .inet .errorQueue h.prints
        (textLine c m.stamp
          ("From ".toList ++ (env.names e.offender).text ++ " icmp_seq=".toList) [' '])
  | error6 {r : Rts} {sock : SockType} {errno : Errno} {m : QueueMessage} {e : ExtendedErr}
      {h : Handled} (he : recverr6 m.cmsgs = some e) (hi : e.origin = .icmp6)
      (ho : Ours6 c r sock m) (hn : SameNumber packet m.icmph) (hq : r.optQuiet = false)
      (hf : r.optFlood = false) (hj : r.optJson = false)
      (hm : ping6ReceiveErrorMsg env c r sock errno (.message m) = .ok h) :
      Reported env c k packet .inet6 .errorQueue h.prints
        (textLine c m.stamp
          ("From ".toList ++ (env.names e.offender).text ++ " icmp_seq=".toList) [' '])

/-- The line shows the number `n`. -/
def Shows (prints : List Print) (line : ℤ → List Print) (n : ℤ) : Prop :=
  ∃ post, prints = line n ++ post

section Lines
variable {env : Env} {c : Config} {r : Rts} {n : ℤ}

theorem gatherReply_shows {a : Arrival} (hq : r.optQuiet = false) (hf : r.optFlood = false)
    (ha : a.prReply = [seqPrint n]) : Shows (gatherReply c r a).prints (replyLine c r a) n := by
  unfold Shows gatherReply headPrints replyLine
  dsimp only
  rw [if_neg (by simp [hq]), if_neg (by simp [hf]), ha]
  split_ifs <;> exact ⟨_, by simp only [List.append_assoc, List.cons_append, List.nil_append]; rfl⟩

theorem Shows.append {prints : List Print} {line : ℤ → List Print} (h : Shows prints line n)
    (more : List Print) : Shows (prints ++ more) line n := by
  obtain ⟨post, rfl⟩ := h
  exact ⟨post ++ more, List.append_assoc _ _ _⟩

/-- The line that is written with the number `m` shows no other one. -/
theorem shows_textLine_iff {stamp : Timeval} {before after : List Char} {post : List Print} {m : ℤ}
    (hm : 0 ≤ m) (hn : 0 ≤ n) :
    Shows (textLine c stamp before after m ++ post) (textLine c stamp before after) n ↔ m = n := by
  constructor
  · rintro ⟨post', h⟩
    simp only [textLine, List.append_assoc, List.append_cancel_left_eq, List.cons_append,
      List.nil_append, List.cons.injEq, Print.text.injEq, List.append_cancel_right_eq] at h
    exact decText_inj hm hn h.1
  · rintro rfl
    exact ⟨post, rfl⟩

/-- The functions for the error queue print the number modulo 256. -/
theorem shows_error_iff {stamp : Timeval} {address : List Char} {post : List Print} {seq : ℤ}
    (hj : r.optJson = false) (h₀ : 0 ≤ seq) :
    Shows (printTimestamp c.optPtimeofday stamp ++ printErrorPacket r address seq ++ post)
      (textLine c stamp ("From ".toList ++ address ++ " icmp_seq=".toList) [' ']) seq ↔
        seq < 256 := by
  have hmod := Int.emod_nonneg seq (by decide : (256 : ℤ) ≠ 0)
  rw [printErrorPacket, if_neg (by simp [hj])]
  refine (shows_textLine_iff hmod h₀).trans ?_
  omega

theorem ping4ParseReply_shows {sock : SockType} {d : Datagram} {ip : IpPart}
    (ha : Accepted4 r sock d ip) (hq : r.optQuiet = false) (hf : r.optFlood = false)
    (oldRr : List UInt8) :
    Shows (ping4ParseReply env c r sock d oldRr).prints (replyLine c r (arrival4 env c d ip))
      (be16At (d.buf.drop ip.hlen) 6) := by
  have h : Shows (gatherReply c r (arrival4 env c d ip)).prints
      (replyLine c r (arrival4 env c d ip)) (be16At (d.buf.drop ip.hlen) 6) :=
    gatherReply_shows hq hf rfl
  rw [ping4ParseReply_accepted ha]
  split_ifs
  · exact h
  · exact h.append _

theorem ping6ParseReply_shows {sock : SockType} {d : Datagram} (hcc : 8 ≤ d.cc)
    (hr : byteAt d.buf 0 = icmp6EchoReply) (ho : isOurs r sock (le16At d.buf 4))
    (hq : r.optQuiet = false) (hf : r.optFlood = false) :
    Shows (ping6ParseReply env c r sock d).2.2
      (replyLine c r (arrival6 env d (be16At d.buf 6) [seqPrint (be16At d.buf 6)]
        (wrongSource6 c d))) (be16At d.buf 6) := by
  have h : Shows (gatherReply c r (arrival6 env d (be16At d.buf 6) [seqPrint (be16At d.buf 6)]
      (wrongSource6 c d))).prints (replyLine c r (arrival6 env d (be16At d.buf 6)
        [seqPrint (be16At d.buf 6)] (wrongSource6 c d))) (be16At d.buf 6) :=
    gatherReply_shows hq hf rfl
  unfold ping6ParseReply
  dsimp only
  rw [if_neg (by omega), if_pos hr, if_neg (not_not_intro ho), reply6]
  dsimp only
  split_ifs
  · exact h
  · exact h.append _

theorem redirect_shows {sock : SockType} {d : Datagram} {ip : IpPart} {icp icp1 : List UInt8}
    (hip : readIp sock d = some ip) (hicp : d.buf.drop ip.hlen = icp)
    (hicp1 : icp.drop (8 + ihl icp 8 * 4) = icp1)
    (hk : byteAt icp 0 = icmpRedirect ∨ byteAt icp 0 = icmpSourceQuench)
    (hlen : 8 + 20 + 8 ≤ d.cc - ip.hlen ∧ 8 + ihl icp 8 * 4 + 8 ≤ d.cc - ip.hlen)
    (ho : byteAt icp1 0 = icmpEcho ∧ bytesAt icp 24 4 = c.whereto ∧ isOurs r sock (le16At icp1 4))
    (hq : r.optQuiet = false) (hf : r.optFlood = false) (oldRr : List UInt8) :
    Shows (ping4ParseReply env c r sock d oldRr).prints
      (textLine c d.stamp ("From ".toList ++ (env.names d.src).text ++ ": icmp_seq=".toList)
        [' ']) (be16At icp1 6) := by
  have hquoted : (ping4ParseReply env c r sock d oldRr) = quoted4 env c r sock d ip oldRr := by
    rw [ping4ParseReply, hip]
    dsimp only
    rw [hicp]
    rcases hk with h | h <;>
      simp [h, icmpRedirect, icmpSourceQuench, icmpEchoreply, icmpEcho]
  have hnone : ¬ (byteAt icp1 0 ≠ icmpEcho ∨ bytesAt icp 24 4 ≠ c.whereto ∨
      ¬ isOurs r sock (le16At icp1 4)) := by
    simp [ho.1, ho.2.1, ho.2.2]
  have hkind : ¬ (byteAt icp 0 ≠ icmpRedirect ∧ byteAt icp 0 ≠ icmpSourceQuench) := by
    tauto
  rw [hquoted, quoted4, hicp, hicp1, if_neg (by omega), if_neg hnone, if_neg hkind,
    if_neg (by simp [hq, hf])]
  exact ⟨_, by rw [textLine, List.append_assoc, List.append_assoc, List.append_assoc]⟩

section Queue
variable {sock : SockType} {errno : Errno} {m : QueueMessage} {e : ExtendedErr} {h : Handled}
  (hq : r.optQuiet = false) (hf : r.optFlood = false) (hj : r.optJson = false)
include hq hf hj

theorem error4_shows_iff (he : recverr4 m.cmsgs = some e) (hi : e.origin = .icmp)
    (ho : Ours4 c r sock m)
    (hm : ping4ReceiveErrorMsg env c r sock errno (.message m) = .ok h) :
    Shows h.prints (textLine c m.stamp
        ("From ".toList ++ (env.names e.offender).text ++ " icmp_seq=".toList) [' '])
        (be16At m.icmph 6) ↔ be16At m.icmph 6 < 256 := by
  simp only [ping4ReceiveErrorMsg, he] at hm
  rw [if_neg (by simp [hi]), if_pos hi, if_neg (not_not_intro ho), acknowledge_frame] at hm
  obtain rfl := Except.ok.inj hm
  dsimp only
  rw [if_neg (by simp [hq]), networkPrints4, if_neg (by simp [hf])]
  exact shows_error_iff hj (be16At_range _ _).1

theorem error6_shows_iff (he : recverr6 m.cmsgs = some e) (hi : e.origin = .icmp6)
    (ho : Ours6 c r sock m)
    (hm : ping6ReceiveErrorMsg env c r sock errno (.message m) = .ok h) :
    Shows h.prints (textLine c m.stamp
        ("From ".toList ++ (env.names e.offender).text ++ " icmp_seq=".toList) [' '])
        (be16At m.icmph 6) ↔ be16At m.icmph 6 < 256 := by
  simp only [ping6ReceiveErrorMsg, he] at hm
  rw [if_neg (by simp [hi]), if_pos hi, if_neg (not_not_intro ho)] at hm
  obtain rfl := Except.ok.inj hm
  dsimp only
  rw [if_neg (by simp [hq]), networkPrints6, if_neg (by simp [hf])]
  exact shows_error_iff hj (be16At_range _ _).1

end Queue

end Lines

/-- All lines about a probe show its number modulo 65536, but those for the error queue
do so only if this is below 256. -/
theorem lines_numbered_iff {env : Env} {c : Config} {fam : Family} {k : ℤ} {packet : List UInt8}
    {kind : LineKind} {prints : List Print} {line : ℤ → List Print} (hk : 1 ≤ k)
    (hp : Request fam k packet) (hl : Reported env c k packet fam kind prints line) :
    Shows prints line (k % 65536) ↔ (kind = .errorQueue → k % 65536 < 256) := by
  have hseq : ∀ {icmph : List UInt8}, SameNumber packet icmph → be16At icmph 6 = k % 65536 :=
    fun h => (be16At_of_sameNumber h).trans (be16At_request hp)
  have h₀ : 0 ≤ k % 65536 := Int.emod_nonneg k (by decide)
  cases hl with
  | reply4 oldRr ha hn hq hf =>
      refine iff_of_true ?_ (fun h => by cases h)
      rw [← hseq hn]
      exact ping4ParseReply_shows ha hq hf oldRr
  | reply6 hcc hr ho hn hq hf =>
      refine iff_of_true ?_ (fun h => by cases h)
      rw [← hseq hn]
      exact ping6ParseReply_shows hcc hr ho hq hf
  | redirect oldRr hip hicp hicp1 hr hlen ho hn hq hf =>
      refine iff_of_true ?_ (fun h => by cases h)
      rw [← hseq hn]
      exact redirect_shows hip hicp hicp1 hr hlen ho hq hf oldRr
  | noAnswer stamp ho hr ht =>
      refine iff_of_true ?_ (fun h => by cases h)
      have hmod : k.tmod maxDupChk = k % 65536 := Int.tmod_eq_emod_of_nonneg (by omega)
      rw [noAnswerYet, hr, if_pos ⟨ho, by omega, ht⟩, hmod]
      exact ⟨[], (List.append_nil _).symm⟩
  | error4 he hi ho hn hq hf hj hm =>
      rw [← hseq hn]
      exact (error4_shows_iff hq hf hj he hi ho hm).trans ⟨fun h _ => h, fun h => h rfl⟩
  | error6 he hi ho hn hq hf hj hm =>
      rw [← hseq hn]
      exact (error6_shows_iff hq hf hj he hi ho hm).trans ⟨fun h _ => h, fun h => h rfl⟩

section Unreachable

/-- A run in which `n` probes have been sent. -/
def afterProbes (n : ℤ) : Rts := { ntransmitted := n, timing := true }

/-- The packet that is composed next. -/
def nextPacket (n : ℤ) : List UInt8 :=
  (buildEcho (afterProbes n) (afterProbes n).outpack (List.replicate 16 0)).1.take
    (buildEcho (afterProbes n) (afterProbes n).outpack (List.replicate 16 0)).2.toNat

theorem request_nextPacket (n : ℤ) : Request .inet6 (n + 1) (nextPacket n) := by
  have hready : Ready (afterProbes n) :=
    ⟨List.length_replicate, (by decide : (0 : ℤ) ≤ 56), (by decide : (56 : ℤ) ≤ 65527),
      fun _ => (by decide : (16 : ℤ) ≤ 56)⟩
  exact Request.inet6 (r := afterProbes n) hready List.length_replicate

def unreachableErr : ExtendedErr := { errno := .other, origin := .icmp6, type := 1 }

/-- The message of the error queue for probe `k`. -/
def unreachable (k : ℤ) : QueueMessage where
  res := 64
  icmph := [128, 0, 0, 0, 0, 0] ++ be16 (k % 65536)
  target := List.replicate 15 0 ++ [1]
  cmsgs := [.ipv6 unreachableErr]

theorem ours_unreachable (r : Rts) (k : ℤ) : Ours6 {} r .dgram (unreachable k) := by
  rintro (h | h | h | h)
  · exact absurd h (by decide : ¬ 64 < 8)
  · exact h rfl
  · exact h rfl
  · exact h (Or.inl rfl)

theorem reported_unreachable {k : ℤ} {packet : List UInt8} (hp : Request .inet6 k packet) :
    Reported plainEnv {} k packet .inet6 .errorQueue
      (networkPrints6 plainEnv {} (afterProbes k) (unreachable k) unreachableErr)
      (textLine {} {} "From  icmp_seq=".toList [' ']) := by
  have hn : SameNumber packet (unreachable k).icmph := by
    rw [SameNumber, ← be16_be16At packet, be16At_request hp]
    rfl
  have hm : ping6ReceiveErrorMsg plainEnv {} (afterProbes k) .dgram .zero
      (.message (unreachable k)) = .ok ⟨{ afterProbes k with nerrors := 1 }, 1, .zero,
        networkPrints6 plainEnv {} (afterProbes k) (unreachable k) unreachableErr⟩ := by
    have he : recverr6 (unreachable k).cmsgs = some unreachableErr := rfl
    simp only [ping6ReceiveErrorMsg, he]
    rw [if_neg (by decide), if_pos (by decide), if_neg (not_not_intro (ours_unreachable _ k))]
    rfl
  exact .error6 (e := unreachableErr) rfl rfl (ours_unreachable _ k) hn rfl rfl rfl hm

/-- The first probe is named by its number. -/
theorem lines_numbered_first : Request .inet6 1 (nextPacket 0) ∧
    Shows (networkPrints6 plainEnv {} (afterProbes 1) (unreachable 1) unreachableErr)
      (textLine {} {} "From  icmp_seq=".toList [' ']) 1 :=
  ⟨request_nextPacket 0, (lines_numbered_iff (by decide) (request_nextPacket 0)
    (reported_unreachable (request_nextPacket 0))).mpr fun _ => by decide⟩

/-- The error about probe 256 is reported as one about probe 0. -/
theorem error_line_wraps : Request .inet6 256 (nextPacket 255) ∧
    Reported plainEnv {} 256 (nextPacket 255) .inet6 .errorQueue
      (networkPrints6 plainEnv {} (afterProbes 256) (unreachable 256) unreachableErr)
      (textLine {} {} "From  icmp_seq=".toList [' ']) ∧
    ¬ Shows (networkPrints6 plainEnv {} (afterProbes 256) (unreachable 256) unreachableErr)
      (textLine {} {} "From  icmp_seq=".toList [' ']) (256 % 65536) := by
  refine ⟨request_nextPacket 255, reported_unreachable (request_nextPacket 255), ?_⟩
  intro hshow
  have heq : (0 : ℤ) = 256 := (shows_textLine_iff (by decide) (by decide)).mp hshow
  exact absurd heq (by decide)

end Unreachable

end Iputils.ProbeNumbers
