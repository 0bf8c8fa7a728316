import Iputils.NodeInfo
import Iputils.ReceivedBytes

/-!
# Where leftover bytes are used

`ping6_parse_reply` asks for eight bytes and then reads the header of an echo reply, of a
node information reply or of a quoted packet. The nonce of a node information reply ends
at byte 16, and the ICMP header behind a quoted fragment header at byte 64; neither
length is tested. The result depends on the received bytes alone unless one of the two
is received in part and its received part is that of a header that is accepted.
-/
set_option autoImplicit false

namespace Iputils.LeftoverBytes
open MachineInt PingState ByteBuffer AckWindow PrintfText JsonPacket PingOutput PrOptions
  ParseReply ReceivedBytes Md5 NodeInfo

section Acknowledgement
variable {r : Rts} {seq seq' : ℤ}

/-- The acknowledgement of this number moves the window. -/
def MovesWindow (r : Rts) (seq : ℤ) : Prop :=
  let diff := u16 (u16 r.ntransmitted - seq)
  diff ≤ 0x7FFF ∧
    (diff + 1 > r.pipesize ∨
      seq ≠ r.acked ∧ (i16 (seq - r.acked) > 0 ∨ u16 r.ntransmitted - r.acked > 0x7FFF))

theorem acknowledge_eq_self (h : ¬ MovesWindow r seq) : acknowledge r seq = r := by
  unfold MovesWindow at h
  unfold acknowledge
  dsimp only at h ⊢
  by_cases hdiff : u16 (u16 r.ntransmitted - seq) ≤ 0x7FFF
  · obtain ⟨hpipe, hacked⟩ := not_or.mp (not_and.mp h hdiff)
    rw [if_pos hdiff, if_neg hpipe]
    by_cases hseq : seq = r.acked
    · rw [hseq, ite_self]
    · rw [if_neg (fun hx => hacked ⟨hseq, hx⟩)]
  · rw [if_neg hdiff]

/-- Two numbers do not move it alike. -/
theorem acknowledge_ne (hseq : 0 ≤ seq ∧ seq ≤ 65535) (hseq' : 0 ≤ seq' ∧ seq' ≤ 65535)
    (hne : seq ≠ seq') (hmoves : MovesWindow r seq) : acknowledge r seq ≠ acknowledge r seq' := by
  intro heq
  have hp := congrArg Rts.pipesize heq
  have ha := congrArg Rts.acked heq
  rw [acknowledge_pipesize, acknowledge_pipesize] at hp
  rw [acknowledge_acked, acknowledge_acked] at ha
  unfold MovesWindow at hmoves
  obtain ⟨hdiff, hpipe | ⟨hold, hacked⟩⟩ := hmoves
  · rw [if_pos hdiff] at hp
    unfold u16 at *
    split_ifs at hp <;> omega
  · rw [if_pos ⟨hdiff, hacked⟩] at ha
    split_ifs at ha <;> omega

end Acknowledgement

/-- A node information reply ends inside the nonce, and what was received of the digest is
right. -/
structure LeftoverNonce (secret : List UInt8) (d : Datagram) : Prop where
  kind : byteAt d.buf 0 = niIcmp6Reply
  header : 8 ≤ d.cc
  short : d.cc < 16
  digest : bytesAt d.buf 10 (d.cc - 10) =
    (nonceDigest secret (bytesAt d.buf 8 2)).take (d.cc - 10)

/-- The header of an echo request; `rest` is its code and its checksum. -/
def echoHeader (rest : List UInt8) (id seq : ℤ) : List UInt8 :=
  byteOf icmp6EchoRequest :: (rest ++ le16 id ++ be16 seq)

/-- The received part of a quoted header is that of one of our requests. Bytes that are
missing decide whether it is accepted, or which acknowledgement it is. -/
structure QuotedPart (r : Rts) (sock : SockType) (d : Datagram) (rest : List UInt8) (id seq : ℤ) :
    Prop where
  length : rest.length = 3
  ours : isOurs r sock id
  id_range : 0 ≤ id ∧ id ≤ 65535
  seq_range : 0 ≤ seq ∧ seq ≤ 65535
  part : bytesAt d.buf 56 (d.cc - 56) = (echoHeader rest id seq).take (d.cc - 56)
  open_part : d.cc = 56 ∨ sock = .raw ∧ d.cc ≤ 61 ∨ MovesWindow r seq

/-- The quoted packet is to our destination and has a fragment header in front of ICMPv6. -/
structure FragmentQuoted (c : Config) (buf : List UInt8) : Prop where
  destination : bytesAt buf 32 16 = c.whereto6
  fragment : byteAt buf 14 = nexthdrFragment
  nexthdr : byteAt buf 48 = ipprotoIcmpv6

/-- A message that quotes such a packet ends inside the ICMP header behind
its fragment header. -/
structure LeftoverHeader (c : Config) (r : Rts) (sock : SockType) (d : Datagram) : Prop where
  kind : byteAt d.buf 0 ≠ icmp6EchoReply ∧ byteAt d.buf 0 ≠ niIcmp6Reply
  packet : 56 ≤ d.cc
  short : d.cc < 64
  quoted : FragmentQuoted c d.buf
  request : ∃ rest id seq, QuotedPart r sock d rest id seq

theorem SameReceived.refl (d : Datagram) : SameReceived d d := ⟨rfl, rfl, rfl, rfl, rfl, rfl, rfl⟩

section Result
variable {secret : List UInt8} {env : Env} {c : Config} {cache : NonceCache secret}
  {lib : Resolver} {r : Rts} {sock : SockType} {d d' : Datagram}

/-- The digest in the buffer is that of the number in front of it. -/
def NonceRight (secret buf : List UInt8) : Prop :=
  bytesAt buf 10 6 = (nonceDigest secret (bytesAt buf 8 2)).take 6

instance (secret buf : List UInt8) : Decidable (NonceRight secret buf) :=
  inferInstanceAs (Decidable (_ = _))

/-- The sixteen bytes are read whatever was received. -/
theorem checkNonce_neg_iff (cache : NonceCache secret) (buf : List UInt8) :
    niqueryCheckNonce cache (bytesAt buf 8 8) < 0 ↔ ¬ NonceRight secret buf := by
  have h₀ := byteAt_nonneg (bytesAt buf 8 8) 0
  have h₁ := byteAt_nonneg (bytesAt buf 8 8) (0 + 1)
  rw [niqueryCheckNonce_eq, bytesAt_bytesAt buf 8 (by decide : 2 + 6 ≤ 8),
    bytesAt_bytesAt buf 8 (by decide : 0 + 2 ≤ 8)]
  change (if NonceRight secret buf then _ else (-1 : ℤ)) < 0 ↔ _
  by_cases h : NonceRight secret buf
  · rw [if_pos h, be16At]
    exact ⟨fun hneg => absurd hneg (by omega), fun hnot => absurd h hnot⟩
  · rw [if_neg h]
    exact ⟨fun _ => h, fun _ => by decide⟩

/-- A right nonce behind the received bytes makes what was received of it right. -/
theorem leftoverNonce_of_right (h : SameReceived d d') (hkind : byteAt d.buf 0 = niIcmp6Reply)
    (hheader : 8 ≤ d.cc) (hshort : d.cc < 16) (hright : NonceRight secret d'.buf) :
    LeftoverNonce secret d := by
  refine ⟨hkind, hheader, hshort, ?_⟩
  by_cases hcc : d.cc ≤ 10
  · rw [Nat.sub_eq_zero_of_le hcc]
    rfl
  · have htake := congrArg (List.take (d.cc - 10)) hright
    rw [take_bytesAt _ _ (by omega), List.take_take, Nat.min_eq_left (by omega)] at htake
    rw [h.bytes.bytesAt (by omega), h.bytes.bytesAt (by omega : 8 + 2 ≤ d.cc)]
    exact htake

theorem arrival6_sameReceived (h : SameReceived d d') (hc : d'.cmsgs = d.cmsgs) (seq : ℤ)
    (prReply : List Print) (wrongSource : Bool) :
    SameArrival (arrival6 env d seq prReply wrongSource)
      (arrival6 env d' seq prReply wrongSource) := by
  refine ⟨?_, ?_⟩
  · unfold arrival6
    rw [h.cc, h.src, h.tv, h.now, h.stamp, hc]
  · exact h.bytes

def parsed (oldRr : List UInt8) (x : Rts × Bool × List Print) : Parsed := ⟨x.1, x.2.1, x.2.2, oldRr⟩

theorem reply6_alike {a a' : Arrival} (h : SameArrival a a') (oldRr : List UInt8) :
    Alike r (parsed oldRr (reply6 c r a)) (parsed oldRr (reply6 c r a')) := by
  obtain ⟨hrts, hfin, hprints⟩ := gatherReply_sameArrival (c := c) (r := r) h
  refine ⟨rfl, hrts, packetAfter_congr ?_ r, rfl⟩
  unfold parsed reply6
  dsimp only
  rw [hfin]
  by_cases hf : (gatherReply c r a).finished = true
  · rw [if_pos hf, if_pos hf]
    exact hprints
  · rw [if_neg hf, if_neg hf, formal_append, formal_append, hprints]

/-- The header behind a fragment header is that of one of our requests. -/
def RequestQuoted (r : Rts) (sock : SockType) (buf : List UInt8) : Prop :=
  byteAt buf 56 = icmp6EchoRequest ∧ isOurs r sock (le16At buf 60)

variable (env c r sock) in
theorem quoted6_fragment (hcc : 56 ≤ d.cc) (hq : FragmentQuoted c d.buf) :
    (RequestQuoted r sock d.buf →
      quoted6 env c r sock d = (acknowledge r (be16At d.buf 62), false, [])) ∧
    (¬ RequestQuoted r sock d.buf → quoted6 env c r sock d = (r, true, [])) := by
  have heq : quoted6 env c r sock d =
      if byteAt d.buf 56 ≠ icmp6EchoRequest ∨ ¬ isOurs r sock (le16At d.buf 60) then (r, true, [])
      else (acknowledge r (be16At d.buf 62), false, []) := by
    unfold quoted6
    dsimp only
    rw [if_pos hq.fragment, if_pos hq.fragment, if_neg (by omega),
      if_neg (not_not_intro hq.destination), if_pos hq.nexthdr, byteAt_drop, le16At_drop, be16At_drop]
  refine ⟨fun h => ?_, fun h => ?_⟩
  · rw [heq, if_neg (not_or.mpr ⟨not_not_intro h.1, not_not_intro h.2⟩)]
  · rw [heq, if_pos (not_and_or.mp h)]

theorem bytesAt_echoHeader {buf : List UInt8} (h : byteAt buf 56 = icmp6EchoRequest) :
    bytesAt buf 56 8 = echoHeader (bytesAt buf 57 3) (le16At buf 60) (be16At buf 62) := by
  have hkind : byteOf icmp6EchoRequest = buf.getD 56 0 := by
    rw [← h]
    exact byteOf_byteVal _
  rw [echoHeader, hkind, le16_le16At, be16_be16At]
  rfl

/-- A request behind the received bytes makes the received part that of a request. -/
theorem quotedPart_of_request (h : SameReceived d d') (hshort : d.cc < 64)
    (hreq : RequestQuoted r sock d'.buf)
    (hopen : d.cc = 56 ∨ sock = .raw ∧ d.cc ≤ 61 ∨ MovesWindow r (be16At d'.buf 62)) :
    QuotedPart r sock d (bytesAt d'.buf 57 3) (le16At d'.buf 60) (be16At d'.buf 62) := by
  refine ⟨rfl, hreq.2, le16At_range _ _, be16At_range _ _, ?_, hopen⟩
  by_cases hcc : d.cc ≤ 56
  · rw [Nat.sub_eq_zero_of_le hcc]
    rfl
  · rw [← bytesAt_echoHeader hreq.1, take_bytesAt _ _ (by omega)]
    exact h.bytes.bytesAt (by omega)

theorem FragmentQuoted.sameReceived (hq : FragmentQuoted c d.buf) (h : SameReceived d d')
    (hcc : 56 ≤ d.cc) : FragmentQuoted c d'.buf := by
  refine ⟨?_, ?_, ?_⟩
  · rw [← h.bytes.bytesAt (by omega), hq.destination]
  · rw [← h.bytes.byteAt (by omega), hq.fragment]
  · rw [← h.bytes.byteAt (by omega), hq.nexthdr]

/-- Any other quoted packet ends at byte 56 at the latest, as far as it is read. -/
theorem quoted6_eq (h : SameReceived d d') (hcc : 56 ≤ d.cc) (hq : ¬ FragmentQuoted c d.buf) :
    quoted6 env c r sock d' = quoted6 env c r sock d := by
  unfold quoted6
  dsimp only
  rw [h.cc, h.stamp, h.src, ← h.bytes.byteAt (by omega : 8 + 6 < d.cc),
    ← h.bytes.byteAt (by omega : 8 + 40 < d.cc), ← h.bytes.bytesAt (by omega : 8 + 24 + 16 ≤ d.cc),
    ← h.bytes.byteAt (by omega : 0 < d.cc), ← h.bytes.byteAt (by omega : 1 < d.cc),
    ← h.bytes.be32At (by omega : 4 + 4 ≤ d.cc)]
  by_cases hdst : bytesAt d.buf (8 + 24) 16 = c.whereto6
  · by_cases hfrag : byteAt d.buf (8 + 6) = nexthdrFragment
    · have hnext : byteAt d.buf (8 + 40) ≠ ipprotoIcmpv6 := fun hx => hq ⟨hdst, hfrag, hx⟩
      rw [if_pos hfrag, if_neg hnext, if_neg hnext]
    · have hb := h.bytes.drop (8 + 40)
      rw [if_neg hfrag, if_neg hfrag, ← hb.byteAt (by omega), ← hb.le16At (by omega),
        ← hb.be16At (by omega)]
  · rw [if_pos hdst, if_pos hdst]

/-- Whether a request is accepted and what it acknowledges: the received bytes decide, or
the window does not move. -/
theorem request_alike (h : SameReceived d d') (hcc : 56 ≤ d.cc)
    (hleft : d.cc < 64 → ∀ rest id seq, ¬ QuotedPart r sock d rest id seq) :
    (RequestQuoted r sock d'.buf ↔ RequestQuoted r sock d.buf) ∧
      (RequestQuoted r sock d.buf →
        acknowledge r (be16At d'.buf 62) = acknowledge r (be16At d.buf 62)) := by
  unfold RequestQuoted
  by_cases hshort : d.cc < 64
  · by_cases hopen : d.cc = 56 ∨ sock = .raw ∧ d.cc ≤ 61
    · have hno : ∀ x, SameReceived d x → ¬ RequestQuoted r sock x.buf := fun x hx hreq =>
        hleft hshort _ _ _ (quotedPart_of_request hx hshort hreq (or_assoc.mp (Or.inl hopen)))
      exact ⟨⟨fun hx => absurd hx (hno d' h), fun hx => absurd hx (hno d (SameReceived.refl d))⟩,
        fun hx => absurd hx (hno d (SameReceived.refl d))⟩
    · obtain ⟨hlong, hid⟩ := not_or.mp hopen
      have hours : isOurs r sock (le16At d'.buf 60) ↔ isOurs r sock (le16At d.buf 60) := by
        cases sock with
        | dgram => exact ⟨fun _ => Or.inl rfl, fun _ => Or.inl rfl⟩
        | raw => rw [h.bytes.le16At (by simp at hid; omega)]
      have hiff : RequestQuoted r sock d'.buf ↔ RequestQuoted r sock d.buf := by
        rw [RequestQuoted, RequestQuoted, hours, h.bytes.byteAt (by omega : 56 < d.cc)]
      have hself : ∀ x, SameReceived d x → RequestQuoted r sock x.buf →
          acknowledge r (be16At x.buf 62) = r := fun x hx hreq => acknowledge_eq_self fun hm =>
        hleft hshort _ _ _ (quotedPart_of_request hx hshort hreq (Or.inr (Or.inr hm)))
      refine ⟨hiff, fun hreq => ?_⟩
      rw [hself d' h (hiff.mpr hreq), hself d (SameReceived.refl d) hreq]
  · rw [h.bytes.byteAt (by omega : 56 < d.cc), h.bytes.le16At (by omega : 60 + 2 ≤ d.cc),
      h.bytes.be16At (by omega : 62 + 2 ≤ d.cc)]
    exact ⟨Iff.rfl, fun _ => rfl⟩

/-- Without a header that ends behind the received bytes the message is read alike. -/
theorem quoted6_alike (h : SameReceived d d')
    (hkind : byteAt d.buf 0 ≠ icmp6EchoReply ∧ byteAt d.buf 0 ≠ niIcmp6Reply)
    (hleft : ¬ LeftoverHeader c r sock d) (oldRr : List UInt8) :
    Alike r (parsed oldRr (quoted6 env c r sock d)) (parsed oldRr (quoted6 env c r sock d')) := by
  by_cases hcc : d.cc < 56
  · have hcc' : d'.cc < 56 := h.cc ▸ hcc
    rw [quoted6, quoted6, if_pos hcc, if_pos hcc']
    exact Alike.refl r _
  · by_cases hq : FragmentQuoted c d.buf
    · obtain ⟨hiff, hack⟩ := request_alike h (by omega) fun hshort rest id seq hpart =>
        hleft ⟨hkind, by omega, hshort, hq, rest, id, seq, hpart⟩
      have hcc₅₆ : 56 ≤ d.cc := by omega
      obtain ⟨haccept, hreject⟩ := quoted6_fragment env c r sock hcc₅₆ hq
      obtain ⟨haccept', hreject'⟩ := quoted6_fragment env c r sock (by rw [h.cc]; exact hcc₅₆)
        (hq.sameReceived h hcc₅₆)
      by_cases hreq : RequestQuoted r sock d.buf
      · rw [haccept hreq, haccept' (hiff.mpr hreq), hack hreq]
        exact Alike.refl r _
      · rw [hreject hreq, hreject' (fun hx => hreq (hiff.mp hx))]
        exact Alike.refl r _
    · rw [quoted6_eq h (by omega) hq]
      exact Alike.refl r _

section Kinds
variable (hcc : 8 ≤ d.cc)
include hcc

theorem ping6ParseReply_echo (hkind : byteAt d.buf 0 = icmp6EchoReply) :
    ping6ParseReply env c r sock d =
      if ¬ isOurs r sock (le16At d.buf 4) then (r, true, [])
      else reply6 c r (arrival6 env d (be16At d.buf 6) [seqPrint (be16At d.buf 6)]
        (wrongSource6 c d)) := by
  rw [ping6ParseReply, if_neg (by omega), if_pos hkind]

theorem ping6ParseReply_ni (hkind : byteAt d.buf 0 = niIcmp6Reply) :
    ping6ParseReply (withNodeInfo env c cache lib) c r sock d =
      if niqueryCheckNonce cache (bytesAt d.buf 8 8) < 0 then (r, true, [])
      else reply6 c r (arrival6 env d (u16 (niqueryCheckNonce cache (bytesAt d.buf 8 8)))
        (prNiqueryReply lib c d.buf d.cc) false) := by
  have hne : niIcmp6Reply ≠ icmp6EchoReply := by decide
  rw [ping6ParseReply, if_neg (by omega), hkind, if_neg hne, if_pos rfl]
  rfl

variable (sock) in
theorem niReply_notOurs_iff (hkind : byteAt d.buf 0 = niIcmp6Reply) :
    (ping6ParseReply (withNodeInfo env c cache lib) c r sock d).2.1 = true ↔
      ¬ NonceRight secret d.buf := by
  rw [ping6ParseReply_ni hcc hkind, ← checkNonce_neg_iff cache]
  by_cases hneg : niqueryCheckNonce cache (bytesAt d.buf 8 8) < 0
  · rw [if_pos hneg]
    exact ⟨fun _ => hneg, fun _ => rfl⟩
  · rw [if_neg hneg]
    exact ⟨fun hx => absurd hx (by simp [reply6]), fun hx => absurd hx hneg⟩

theorem ping6ParseReply_quoted
    (hkind : byteAt d.buf 0 ≠ icmp6EchoReply ∧ byteAt d.buf 0 ≠ niIcmp6Reply) :
    ping6ParseReply env c r sock d = quoted6 env c r sock d := by
  rw [ping6ParseReply, if_neg (by omega), if_neg hkind.1, if_neg hkind.2]

variable (h : SameReceived d d') (hc : d'.cmsgs = d.cmsgs)
include h hc

theorem echoReply6_alike (hkind : byteAt d.buf 0 = icmp6EchoReply) (oldRr : List UInt8) :
    Alike r (parsed oldRr (ping6ParseReply env c r sock d))
      (parsed oldRr (ping6ParseReply env c r sock d')) := by
  have hkind' : byteAt d'.buf 0 = icmp6EchoReply := by rw [← h.bytes.byteAt (by omega), hkind]
  have hws : wrongSource6 c d' = wrongSource6 c d := by rw [wrongSource6, wrongSource6, h.src]
  rw [ping6ParseReply_echo hcc hkind, ping6ParseReply_echo (by rw [h.cc]; exact hcc) hkind',
    ← h.bytes.le16At (by omega : 4 + 2 ≤ d.cc), ← h.bytes.be16At (by omega : 6 + 2 ≤ d.cc), hws]
  by_cases hours : isOurs r sock (le16At d.buf 4)
  · rw [if_neg (not_not_intro hours), if_neg (not_not_intro hours)]
    exact reply6_alike (arrival6_sameReceived h hc _ _ _) oldRr
  · rw [if_pos hours, if_pos hours]
    exact Alike.refl r _

theorem niReply_alike (hkind : byteAt d.buf 0 = niIcmp6Reply) (hleft : ¬ LeftoverNonce secret d)
    (oldRr : List UInt8) :
    Alike r (parsed oldRr (ping6ParseReply (withNodeInfo env c cache lib) c r sock d))
      (parsed oldRr (ping6ParseReply (withNodeInfo env c cache lib) c r sock d')) := by
  have hkind' : byteAt d'.buf 0 = niIcmp6Reply := by rw [← h.bytes.byteAt (by omega), hkind]
  rw [ping6ParseReply_ni hcc hkind, ping6ParseReply_ni (by rw [h.cc]; exact hcc) hkind', h.cc]
  by_cases hlong : 16 ≤ d.cc
  · rw [← h.bytes.bytesAt (by omega : 8 + 8 ≤ d.cc), ← prNiqueryReply_agree lib c h.bytes hlong]
    by_cases hneg : niqueryCheckNonce cache (bytesAt d.buf 8 8) < 0
    · rw [if_pos hneg, if_pos hneg]
      exact Alike.refl r _
    · rw [if_neg hneg, if_neg hneg]
      exact reply6_alike (arrival6_sameReceived h hc _ _ _) oldRr
  · -- whatever was left, the nonce is wrong
    have hno : ∀ x, SameReceived d x → niqueryCheckNonce cache (bytesAt x.buf 8 8) < 0 :=
      fun x hx => (checkNonce_neg_iff cache x.buf).mpr fun hright =>
        hleft (leftoverNonce_of_right hx hkind hcc (by omega) hright)
    rw [if_pos (hno d (SameReceived.refl d)), if_pos (hno d' h)]
    exact Alike.refl r _

end Kinds

/-- The result of a call in which no header ends behind the received bytes. -/
theorem parseReply_alike (h : SameReceived d d') (hc : d'.cmsgs = d.cmsgs)
    (hnonce : ¬ LeftoverNonce secret d) (hheader : ¬ LeftoverHeader c r sock d)
    (oldRr : List UInt8) :
    Alike r (parseReply (withNodeInfo env c cache lib) c .inet6 r sock d oldRr)
      (parseReply (withNodeInfo env c cache lib) c .inet6 r sock d' oldRr) := by
  change Alike r (parsed oldRr (ping6ParseReply _ c r sock d))
    (parsed oldRr (ping6ParseReply _ c r sock d'))
  by_cases hcc : d.cc < 8
  · have hcc' : d'.cc < 8 := h.cc ▸ hcc
    rw [ping6ParseReply, ping6ParseReply, if_pos hcc, if_pos hcc', h.cc]
    exact Alike.refl r _
  · have hcc₈ : 8 ≤ d.cc := by omega
    have hcc₈' : 8 ≤ d'.cc := by rw [h.cc]; exact hcc₈
    by_cases hecho : byteAt d.buf 0 = icmp6EchoReply
    · exact echoReply6_alike hcc₈ h hc hecho oldRr
    · by_cases hni : byteAt d.buf 0 = niIcmp6Reply
      · exact niReply_alike hcc₈ h hc hni hnonce oldRr
      · have hkind' : byteAt d'.buf 0 ≠ icmp6EchoReply ∧ byteAt d'.buf 0 ≠ niIcmp6Reply := by
          rw [← h.bytes.byteAt (by omega)]
          exact ⟨hecho, hni⟩
        rw [ping6ParseReply_quoted hcc₈ ⟨hecho, hni⟩, ping6ParseReply_quoted hcc₈' hkind']
        exact quoted6_alike h ⟨hecho, hni⟩ hheader oldRr

section Completions

/-- The same datagram with other bytes behind an offset. -/
def leaving (d : Datagram) (off : ℕ) (bytes : List UInt8) : Datagram :=
  { d with buf := store d.buf off bytes }

theorem leaving_sameReceived {off : ℕ} {bytes : List UInt8}
    (hfit : off + bytes.length ≤ d.buf.length) (hcc : d.cc ≤ off + bytes.length)
    (h : bytesAt d.buf off (d.cc - off) = bytes.take (d.cc - off)) :
    SameReceived d (leaving d off bytes) :=
  ⟨rfl, length_store hfit, agree_store hfit hcc h, rfl, rfl, rfl, rfl⟩

/-- The nonce with its last byte replaced. -/
def nonceEnding (secret : List UInt8) (d : Datagram) (last : UInt8) : List UInt8 :=
  (nonceDigest secret (bytesAt d.buf 8 2)).take 5 ++ [last]

theorem length_nonceEnding (secret : List UInt8) (d : Datagram) (last : UInt8) : (nonceEnding secret d last).length = 6 := by
  rw [nonceEnding, List.length_append, List.length_take, nonceDigest, length_iputilsMd5Final]
  rfl

theorem LeftoverNonce.sameReceived (h : LeftoverNonce secret d) (hlen : 64 ≤ d.buf.length)
    (last : UInt8) : SameReceived d (leaving d 10 (nonceEnding secret d last)) := by
  have hshort := h.short
  have hsize := length_nonceEnding secret d last
  refine leaving_sameReceived (by omega) (by omega) ?_
  have htake : ((nonceDigest secret (bytesAt d.buf 8 2)).take 5).length = 5 := by
    rw [List.length_take, nonceDigest, length_iputilsMd5Final]
    rfl
  rw [h.digest, nonceEnding, List.take_append_of_le_length (by omega), List.take_take,
    Nat.min_eq_left (by omega)]

/-- The last byte makes the nonce right or wrong. -/
theorem nonceRight_leaving_iff (hlen : 64 ≤ d.buf.length) (last : UInt8) :
    NonceRight secret (leaving d 10 (nonceEnding secret d last)).buf ↔
      last = (nonceDigest secret (bytesAt d.buf 8 2)).getD 5 0 := by
  have hsize := length_nonceEnding secret d last
  have hnumber : bytesAt (leaving d 10 (nonceEnding secret d last)).buf 8 2 = bytesAt d.buf 8 2 := by
    apply List.map_congr_left
    intro i hi
    have hlt := List.mem_range.mp hi
    exact getD_store_of_lt (by omega) (by omega)
  have hdigest : bytesAt (leaving d 10 (nonceEnding secret d last)).buf 10 6 =
      nonceEnding secret d last := by
    have hoff : 10 ≤ d.buf.length := by omega
    have hread := bytesAt_store hoff (Nat.le_of_eq (Nat.zero_add (nonceEnding secret d last).length))
    rw [bytesAt_self, hsize] at hread
    exact hread
  have hlength : 5 < (nonceDigest secret (bytesAt d.buf 8 2)).length := by
    rw [nonceDigest, length_iputilsMd5Final]
    decide
  rw [NonceRight, hnumber, hdigest, nonceEnding, List.take_succ_eq_append_getElem hlength,
    List.append_cancel_left_eq, List.cons.injEq, List.getD_eq_getElem _ _ hlength]
  exact and_iff_left rfl

theorem length_echoHeader {rest : List UInt8} (h : rest.length = 3) (id seq : ℤ) :
    (echoHeader rest id seq).length = 8 := by
  simp [echoHeader, h, le16, be16]

/-- What is read of a header that was left there. -/
theorem read_echoHeader (hlen : 64 ≤ d.buf.length) {rest : List UInt8} (hrest : rest.length = 3)
    {id seq : ℤ} (hid : 0 ≤ id ∧ id ≤ 65535) (hseq : 0 ≤ seq ∧ seq ≤ 65535) :
    byteAt (leaving d 56 (echoHeader rest id seq)).buf 56 = icmp6EchoRequest ∧
      le16At (leaving d 56 (echoHeader rest id seq)).buf 60 = id ∧
      be16At (leaving d 56 (echoHeader rest id seq)).buf 62 = seq := by
  have hsize := length_echoHeader hrest id seq
  have hat : ∀ i, i < 8 → byteAt (leaving d 56 (echoHeader rest id seq)).buf (56 + i) =
      byteAt (echoHeader rest id seq) i := fun i hi => byteAt_store (by omega) (by omega)
  obtain ⟨x, y, z, rfl⟩ := List.length_eq_three.mp hrest
  have hid₀ : byteAt (echoHeader [x, y, z] id seq) 4 = id % 256 := byteVal_byteOf _
  have hid₁ : byteAt (echoHeader [x, y, z] id seq) 5 = id / 256 % 256 := byteVal_byteOf _
  have hseq₀ : byteAt (echoHeader [x, y, z] id seq) 6 = seq / 256 % 256 := byteVal_byteOf _
  have hseq₁ : byteAt (echoHeader [x, y, z] id seq) 7 = seq % 256 := byteVal_byteOf _
  refine ⟨(hat 0 (by decide)).trans rfl, ?_, ?_⟩
  · rw [le16At, hat 4 (by decide), hat 5 (by decide), hid₀, hid₁]
    omega
  · rw [be16At, hat 6 (by decide), hat 7 (by decide), hseq₀, hseq₁]
    omega

/-- The first bytes of two headers that differ in the end of the identifier. -/
theorem take_echoHeader_id {rest : List UInt8} (hrest : rest.length = 3) {id id' : ℤ}
    (h : id' % 256 = id % 256) (seq : ℤ) :
    (echoHeader rest id' seq).take 5 = (echoHeader rest id seq).take 5 := by
  obtain ⟨x, y, z, rfl⟩ := List.length_eq_three.mp hrest
  have hbyte : byteOf id' = byteOf id := by rw [byteOf, byteOf, h]
  change [_, x, y, z, byteOf id'] = [_, x, y, z, byteOf id]
  rw [hbyte]

theorem take_echoHeader_seq {rest : List UInt8} (hrest : rest.length = 3) (id : ℤ) {seq seq' : ℤ}
    (h : seq' / 256 = seq / 256) :
    (echoHeader rest id seq').take 7 = (echoHeader rest id seq).take 7 := by
  obtain ⟨x, y, z, rfl⟩ := List.length_eq_three.mp hrest
  change [_, x, y, z, byteOf id, byteOf (id / 256), byteOf (seq' / 256)] =
    [_, x, y, z, byteOf id, byteOf (id / 256), byteOf (seq / 256)]
  rw [h]

section Header
variable {rest : List UInt8} {id seq : ℤ} (hp : QuotedPart r sock d rest id seq)
  (hlen : 64 ≤ d.buf.length) (hshort : d.cc < 64)
include hp hlen hshort

/-- Any header that begins alike may have been left. -/
theorem QuotedPart.sameReceived {k : ℕ} (hk : d.cc - 56 ≤ k) {id' seq' : ℤ}
    (h : (echoHeader rest id' seq').take k = (echoHeader rest id seq).take k) :
    SameReceived d (leaving d 56 (echoHeader rest id' seq')) := by
  have hsize := length_echoHeader hp.length id' seq'
  refine leaving_sameReceived (by omega) (by omega) ?_
  have htake := congrArg (List.take (d.cc - 56)) h
  rw [List.take_take, List.take_take, Nat.min_eq_left hk] at htake
  rw [hp.part, htake]

omit hshort in
theorem QuotedPart.requestQuoted :
    RequestQuoted r sock (leaving d 56 (echoHeader rest id seq)).buf := by
  obtain ⟨hkind, hid, -⟩ := read_echoHeader hlen hp.length hp.id_range hp.seq_range
  exact ⟨hkind, by rw [hid]; exact hp.ours⟩

/-- Two completions of the received part with different results. -/
theorem QuotedPart.differs : ∃ x y, (SameReceived d x ∧ x.cmsgs = d.cmsgs) ∧
    (SameReceived d y ∧ y.cmsgs = d.cmsgs) ∧ RequestQuoted r sock x.buf ∧
    (RequestQuoted r sock y.buf →
      acknowledge r (be16At x.buf 62) ≠ acknowledge r (be16At y.buf 62)) := by
  have hx := hp.sameReceived hlen hshort (Nat.le_refl _) (rfl : (echoHeader rest id seq).take _ = _)
  refine ⟨leaving d 56 (echoHeader rest id seq), ?_⟩
  have hid := hp.id_range
  have hseq := hp.seq_range
  rcases hp.open_part with hbare | ⟨hraw, hcc⟩ | hmoves
  · refine ⟨leaving d 56 [0], ⟨hx, rfl⟩, ⟨?_, rfl⟩, hp.requestQuoted hlen, ?_⟩
    · refine leaving_sameReceived (by simp; omega) (by omega) ?_
      rw [hbare]
      rfl
    · intro hreq
      have hzero : byteAt (leaving d 56 [0]).buf 56 = 0 := byteAt_store (i := 0) (by omega) (by decide)
      exact absurd (hzero.symm.trans hreq.1) (by decide)
  · have hid' : 0 ≤ (id + 256) % 65536 ∧ (id + 256) % 65536 ≤ 65535 := by omega
    refine ⟨leaving d 56 (echoHeader rest ((id + 256) % 65536) seq), ⟨hx, rfl⟩, ⟨?_, rfl⟩,
      hp.requestQuoted hlen, ?_⟩
    · exact hp.sameReceived hlen hshort (by omega) (take_echoHeader_id hp.length (by omega) seq)
    · rintro ⟨-, hours⟩
      have hold := hp.ours
      rw [(read_echoHeader hlen hp.length hid' hseq).2.1] at hours
      subst hraw
      rcases hours with hsock | hours
      · cases hsock
      · rcases hold with hsock | hold
        · cases hsock
        · omega
  · have hseq' : 0 ≤ seq / 256 * 256 + (seq + 1) % 256 ∧
        seq / 256 * 256 + (seq + 1) % 256 ≤ 65535 := by omega
    refine ⟨leaving d 56 (echoHeader rest id (seq / 256 * 256 + (seq + 1) % 256)), ⟨hx, rfl⟩,
      ⟨?_, rfl⟩, hp.requestQuoted hlen, ?_⟩
    · exact hp.sameReceived hlen hshort (by omega) (take_echoHeader_seq hp.length id (by omega))
    · intro _
      rw [(read_echoHeader hlen hp.length hid hseq).2.2, (read_echoHeader hlen hp.length hid hseq').2.2]
      exact acknowledge_ne hseq hseq' (by omega) hmoves

end Header

end Completions

/-- The result is the same whatever bytes are left behind the received ones. -/
def ReceivedDecide (env : Env) (c : Config) (r : Rts) (sock : SockType) (d : Datagram)
    (oldRr : List UInt8) : Prop :=
  ∀ d', SameReceived d d' → d'.cmsgs = d.cmsgs →
    Alike r (parseReply env c .inet6 r sock d oldRr) (parseReply env c .inet6 r sock d' oldRr)

/-- Then any two completions have the same result. -/
theorem ReceivedDecide.eq {oldRr : List UInt8} (h : ReceivedDecide env c r sock d oldRr)
    {x y : Datagram} (hx : SameReceived d x ∧ x.cmsgs = d.cmsgs)
    (hy : SameReceived d y ∧ y.cmsgs = d.cmsgs) :
    (ping6ParseReply env c r sock x).1 = (ping6ParseReply env c r sock y).1 ∧
      (ping6ParseReply env c r sock x).2.1 = (ping6ParseReply env c r sock y).2.1 := by
  have hax := h x hx.1 hx.2
  have hay := h y hy.1 hy.2
  exact ⟨hax.rts.trans hay.rts.symm, hax.notOurs.trans hay.notOurs.symm⟩

theorem not_leftoverNonce {oldRr : List UInt8} (hlen : 64 ≤ d.buf.length)
    (h : ReceivedDecide (withNodeInfo env c cache lib) c r sock d oldRr) :
    ¬ LeftoverNonce secret d := by
  intro hl
  have hhead := hl.header
  have hours : ∀ last, (ping6ParseReply (withNodeInfo env c cache lib) c r sock
      (leaving d 10 (nonceEnding secret d last))).2.1 = true ↔
        ¬ last = (nonceDigest secret (bytesAt d.buf 8 2)).getD 5 0 := by
    intro last
    have hsame := hl.sameReceived hlen last
    rw [niReply_notOurs_iff sock (by rw [hsame.cc]; exact hhead)
      (by rw [← hsame.bytes.byteAt (by omega), hl.kind]), nonceRight_leaving_iff hlen]
  have hright := hours ((nonceDigest secret (bytesAt d.buf 8 2)).getD 5 0)
  have hwrong := hours ((nonceDigest secret (bytesAt d.buf 8 2)).getD 5 0 + 1)
  rw [(h.eq ⟨hl.sameReceived hlen _, rfl⟩ ⟨hl.sameReceived hlen _, rfl⟩).2, hwrong] at hright
  exact hright.mp (by simp) rfl

theorem not_leftoverHeader {oldRr : List UInt8} (hlen : 64 ≤ d.buf.length)
    (h : ReceivedDecide env c r sock d oldRr) : ¬ LeftoverHeader c r sock d := by
  rintro ⟨hkind, hpacket, hshort, hq, rest, id, seq, hp⟩
  have hresult : ∀ x, SameReceived d x →
      (RequestQuoted r sock x.buf →
        ping6ParseReply env c r sock x = (acknowledge r (be16At x.buf 62), false, [])) ∧
      (¬ RequestQuoted r sock x.buf → ping6ParseReply env c r sock x = (r, true, [])) := by
    intro x hx
    have hcc : 56 ≤ x.cc := by rw [hx.cc]; exact hpacket
    rw [ping6ParseReply_quoted (by omega) (by rw [← hx.bytes.byteAt (by omega)]; exact hkind)]
    exact quoted6_fragment env c r sock hcc (hq.sameReceived hx hpacket)
  obtain ⟨x, y, hx, hy, hreq, hdiff⟩ := hp.differs hlen hshort
  obtain ⟨hrts, hours⟩ := h.eq hx hy
  rw [(hresult x hx.1).1 hreq] at hrts hours
  by_cases hreq' : RequestQuoted r sock y.buf
  · rw [(hresult y hy.1).1 hreq'] at hrts
    exact hdiff hreq' hrts
  · rw [(hresult y hy.1).2 hreq'] at hours
    cases hours

end Result

/-- The received bytes decide unless a nonce or a quoted header ends behind them. -/
theorem received_decide_iff {secret : List UInt8} (env : Env) (c : Config)
    (cache : NonceCache secret) (lib : Resolver) (r : Rts) (sock : SockType) (oldRr : List UInt8)
    {d : Datagram} (hlen : 64 ≤ d.buf.length) :
    (∀ d', SameReceived d d' → d'.cmsgs = d.cmsgs →
      Alike r (parseReply (withNodeInfo env c cache lib) c .inet6 r sock d oldRr)
        (parseReply (withNodeInfo env c cache lib) c .inet6 r sock d' oldRr)) ↔
      ¬ LeftoverNonce secret d ∧ ¬ LeftoverHeader c r sock d := by
  constructor
  · exact fun h => ⟨not_leftoverNonce hlen h, not_leftoverHeader hlen h⟩
  · exact fun h d' hd hc => parseReply_alike hd hc h.1 h.2 oldRr

/-- The memory of `nonce_secret` in a process started at the epoch. -/
def zeroSecret : List UInt8 := List.replicate 24 0

def noResolver : Resolver where
  dnExpand := fun _ _ => none
  inetNtop := fun _ _ => none
  strerror := []
  dnExpand_pos := by simp

/-- The first bytes of a reply to a query for names; what follows it is left there. -/
def niReply (cc : ℕ) (nonce : List UInt8) : Datagram where
  buf := [140, 0, 0, 0, 0, 2, 0, 0] ++ (nonce ++ List.replicate 48 0)
  cc := cc

/-- The nonce of the first query. -/
def firstNonce : List UInt8 :=
  (niqueryFillNonce (NonceCache.initial zeroSecret) 1 (List.replicate 8 0)).2

theorem received_decide_whole :
    64 ≤ (niReply 16 firstNonce).buf.length ∧
      ∀ d', SameReceived (niReply 16 firstNonce) d' → d'.cmsgs = [] →
        Alike {} (parseReply (withNodeInfo plainEnv {} (.initial zeroSecret) noResolver) {} .inet6
            {} .raw (niReply 16 firstNonce) [])
          (parseReply (withNodeInfo plainEnv {} (.initial zeroSecret) noResolver) {} .inet6
            {} .raw d' []) := by
  have hlen : 64 ≤ (niReply 16 firstNonce).buf.length := by decide +kernel
  refine ⟨hlen, ?_⟩
  refine (received_decide_iff plainEnv {} (.initial zeroSecret) noResolver {} .raw [] hlen).mpr ?_
  exact ⟨fun h => absurd h.short (by decide), fun h => absurd rfl h.kind.2⟩

/-- A reply that ends in front of its nonce is accepted for the nonce that an earlier
reply has left, and rejected in a cleared buffer. -/
theorem truncated_reply_accepted :
    SameReceived (niReply 8 firstNonce) (niReply 8 (List.replicate 8 0)) ∧
      (niReply 8 (List.replicate 8 0)).cmsgs = (niReply 8 firstNonce).cmsgs ∧
      (parseReply (withNodeInfo plainEnv {} (.initial zeroSecret) noResolver) {} .inet6
        {} .raw (niReply 8 firstNonce) []).notOurs = false ∧
      ¬ Alike {} (parseReply (withNodeInfo plainEnv {} (.initial zeroSecret) noResolver) {} .inet6
          {} .raw (niReply 8 firstNonce) [])
        (parseReply (withNodeInfo plainEnv {} (.initial zeroSecret) noResolver) {} .inet6
          {} .raw (niReply 8 (List.replicate 8 0)) []) := by
  have hright : NonceRight zeroSecret (niReply 8 firstNonce).buf := by decide +kernel
  have hwrong : ¬ NonceRight zeroSecret (niReply 8 (List.replicate 8 0)).buf := by decide +kernel
  have hours : ∀ nonce, (parseReply (withNodeInfo plainEnv {} (.initial zeroSecret) noResolver) {}
      .inet6 {} .raw (niReply 8 nonce) []).notOurs = true ↔
        ¬ NonceRight zeroSecret (niReply 8 nonce).buf :=
    fun nonce => niReply_notOurs_iff .raw (d := niReply 8 nonce) (Nat.le_refl 8) rfl
  have haccepted : (parseReply (withNodeInfo plainEnv {} (.initial zeroSecret) noResolver) {} .inet6
      {} .raw (niReply 8 firstNonce) []).notOurs = false :=
    Bool.eq_false_iff.mpr fun h => (hours firstNonce).mp h hright
  have hrejected : (parseReply (withNodeInfo plainEnv {} (.initial zeroSecret) noResolver) {} .inet6
      {} .raw (niReply 8 (List.replicate 8 0)) []).notOurs = true :=
    (hours (List.replicate 8 0)).mpr hwrong
  refine ⟨⟨rfl, by decide +kernel, by decide +kernel, rfl, rfl, rfl, rfl⟩, rfl, haccepted, ?_⟩
  intro h
  rw [h.notOurs.symm.trans hrejected] at haccepted
  cases haccepted

end Iputils.LeftoverBytes
