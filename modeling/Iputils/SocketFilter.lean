import Iputils.ClassicBpf
import Iputils.ParseReply

/-!
# The socket filters

When a raw socket has delivered a datagram of another process, ping installs a
filter that compares the identifier in the kernel. The two programs and the two
parse functions state the same rule twice: what a program rejects is either cut
off in front of its identifier or an echo reply with a foreign identifier, and
the parse function would have turned it away without a change to the state.
-/
set_option autoImplicit false

namespace Iputils.SocketFilter
open MachineInt PingState ByteBuffer ClassicBpf PingJson JsonPacket PingOutput PrOptions ParseReply

/-- `htons` of the low half of an integer, on a little-endian machine. -/
def htons (x : ℤ) : ℤ := ntohs (u16 x)

/-- `insns` of `ping4_install_filter`, patched for the identifier. -/
def ping4Filter (ident : ℤ) : List Insn :=
  [.ldxMsh 0,
   .ld .h .ind 4,
   .jeq (htons ident) 0 1,
   .ret 0xFFFFFFFF,
   .ld .b .ind 0,
   .jeq icmpEchoreply 1 0,
   .ret 0xFFFFFFF,
   .ret 0]

/-- `insns` of `ping6_install_filter`, patched for the identifier. -/
def ping6Filter (ident : ℤ) : List Insn :=
  [.ld .h .abs 4,
   .jeq (htons ident) 0 1,
   .ret 0xFFFFFFFF,
   .ld .b .abs 0,
   .jeq icmp6EchoReply 1 0,
   .ret 0xFFFFFFFF,
   .ret 0]

/-- The size of the receive buffer of `ping4_run`. -/
def packlen4 (r : Rts) : ℕ := (r.datalen + 60 + 76).toNat

/-- The size of the receive buffer of `ping6_run`. -/
def packlen6 (r : Rts) : ℕ := (r.datalen + 8 + 4096 + 40 + 8).toNat

/-- `recvmsg` puts the packet in front of the buffer, as far as it fits. -/
structure Delivered (packlen : ℕ) (packet : List UInt8) (d : Datagram) : Prop where
  size : d.buf.length = packlen
  cc : d.cc = min packet.length packlen
  bytes : d.buf.take d.cc = packet.take d.cc

/-- The length of the IP header, as both sides compute it. -/
def headerLength (packet : List UInt8) : ℕ := 4 * ihl packet 0

/-- The message at `off` ends in front of its identifier, or it is an echo reply
with another identifier than ours. -/
def Alien (kind ident : ℤ) (packet : List UInt8) (off : ℕ) : Prop :=
  packet.length < off + 6 ∨ byteAt packet off = kind ∧ le16At packet (off + 4) ≠ ident

/-- The call returns 1 and leaves the state as it was, the packet buffer included. -/
def TurnsAway (r : Rts) (rts : Rts) (notOurs : Bool) (prints : List Print) : Prop :=
  notOurs = true ∧ rts = r ∧
    ∀ out, ∃ out', writeAll r ⟨{}, out⟩ prints = .ok ⟨{}, out'⟩

/-- A halfword in network order equals `htons` exactly when its bytes in memory are
the identifier. -/
theorem be16At_eq_htons {ident : ℤ} (h₀ : 0 ≤ ident) (h₁ : ident ≤ 65535) (buf : List UInt8)
    (i : ℕ) : be16At buf i = htons ident ↔ le16At buf i = ident := by
  have h₂ := byteAt_nonneg buf i
  have h₃ := byteAt_nonneg buf (i + 1)
  have h₄ := byteAt_le buf i
  have h₅ := byteAt_le buf (i + 1)
  have h₆ : htons ident = 256 * (ident % 256) + ident / 256 := by
    unfold htons ntohs u16
    omega
  rw [h₆, be16At, le16At]
  constructor
  · intro h
    omega
  · intro h
    omega

section Program
variable {packet : List UInt8} {regs : Regs}

theorem load_half {off : ℕ} (h : off + 2 ≤ packet.length) :
    load packet off .h = some (be16At packet off) := by
  rw [load, if_pos (by omega)]

theorem load_byte {off : ℕ} (h : off + 1 ≤ packet.length) :
    load packet off .b = some (byteAt packet off) := by
  rw [load, if_pos (by omega)]

/-- The part that the two programs share, from the load of the identifier on. -/
theorem run_identifier (mode : Mode) {ident kind : ℤ} (h₀ : 0 ≤ ident) (h₁ : ident ≤ 65535)
    {p q : ℕ} (hp : p ≠ 0) (hq : q ≠ 0) :
    run packet [.ld .h mode 4, .jeq (htons ident) 0 1, .ret p, .ld .b mode 0, .jeq kind 1 0,
        .ret q, .ret 0] 0 regs = 0 ↔
      Alien kind ident packet (mode.offset regs 0) := by
  have hoff : mode.offset regs 4 = mode.offset regs 0 + 4 := by cases mode <;> rfl
  unfold Alien
  by_cases hlen : packet.length < mode.offset regs 0 + 6
  · rw [run_ld_none (by rw [hoff, load, if_neg (by omega)])]
    simp [hlen]
  · have hhalf := @load_half packet (mode.offset regs 4) (by omega)
    have hbyte := @load_byte packet (mode.offset regs 0) (by omega)
    have hident := be16At_eq_htons h₀ h₁ packet (mode.offset regs 0 + 4)
    rw [run_ld_some hhalf, run_accept, hoff]
    by_cases hid : le16At packet (mode.offset regs 0 + 4) = ident
    · rw [if_pos (hident.mpr hid)]
      simp [hid, hp, hlen]
    · rw [if_neg (fun h => hid (hident.mp h)),
        run_ld_some ((congrArg (load packet · .b) (mode.offset_a regs _ 0)).trans hbyte),
        run_refuse]
      by_cases hk : byteAt packet (mode.offset regs 0) = kind
      · simp [hk, hid]
      · simp [hk, hq, hlen]

end Program

theorem rejects_ping6Filter {ident : ℤ} (h₀ : 0 ≤ ident) (h₁ : ident ≤ 65535)
    (packet : List UInt8) :
    Rejects (ping6Filter ident) packet ↔ Alien icmp6EchoReply ident packet 0 :=
  run_identifier .abs h₀ h₁ (by decide) (by decide)

theorem rejects_ping4Filter {ident : ℤ} (h₀ : 0 ≤ ident) (h₁ : ident ≤ 65535)
    (packet : List UInt8) :
    Rejects (ping4Filter ident) packet ↔
      Alien icmpEchoreply ident packet (headerLength packet) := by
  unfold Rejects ping4Filter
  cases packet with
  | nil => simp [run, load, Alien]
  | cons b bs =>
      have hb := @load_byte (b :: bs) 0 (by simp)
      rw [run, hb]
      exact run_identifier .ind h₀ h₁ (by decide) (by decide)

section Delivered
variable {packlen : ℕ} {packet : List UInt8} {d : Datagram}

/-- The first `cc` bytes of the buffer are those of the packet. -/
theorem Delivered.byteAt_eq (h : Delivered packlen packet d) {i : ℕ} (hi : i < d.cc) :
    byteAt d.buf i = byteAt packet i := by
  have hget := congrArg (fun l => l.getD i 0) h.bytes
  simp only [List.getD_eq_getElem?_getD, List.getElem?_take_of_lt hi] at hget
  rw [byteAt, byteAt, List.getD_eq_getElem?_getD, List.getD_eq_getElem?_getD, hget]

theorem Delivered.le16At_eq (h : Delivered packlen packet d) {i : ℕ} (hi : i + 1 < d.cc) :
    le16At d.buf i = le16At packet i := by
  rw [le16At, le16At, h.byteAt_eq (by omega), h.byteAt_eq hi]

end Delivered

theorem ihl_lt (buf : List UInt8) (i : ℕ) : ihl buf i < 16 := by
  have h := byteAt_nonneg buf i
  unfold ihl
  omega

/-- Writing an error message leaves an empty packet buffer empty. -/
theorem writeAll_error (r : Rts) (msg out : List Char) :
    ∃ out', writeAll r ⟨{}, out⟩ [.error msg] = .ok ⟨{}, out'⟩ := by
  rw [writeAll_cons]
  cases hj : r.optJson with
  | false =>
      rw [write_error_plain hj, ok_bind]
      exact ⟨out, rfl⟩
  | true =>
      rw [write_error hj, ok_bind]
      exact ⟨_, rfl⟩

theorem turnsAway_nil (r : Rts) : TurnsAway r r true [] := ⟨rfl, rfl, fun out => ⟨out, rfl⟩⟩

/-- A message about a short packet, or nothing. -/
theorem turnsAway_error (r : Rts) (verbose : Bool) (msg : List Char) :
    TurnsAway r r true (if verbose then [.error msg] else []) := by
  cases verbose with
  | false => exact turnsAway_nil r
  | true => exact ⟨rfl, rfl, writeAll_error r msg⟩

/-- What the IPv4 program rejects the parse function turns away. -/
theorem ping4ParseReply_alien {env : Env} {c : Config} {r : Rts} {d : Datagram}
    {packet oldRr : List UInt8} (hlen : 0 ≤ r.datalen) (hd : Delivered (packlen4 r) packet d)
    (h : Alien icmpEchoreply r.ident packet (headerLength packet)) :
    TurnsAway r (ping4ParseReply env c r .raw d oldRr).rts
        (ping4ParseReply env c r .raw d oldRr).notOurs
        (ping4ParseReply env c r .raw d oldRr).prints ∧
      (ping4ParseReply env c r .raw d oldRr).oldRr = oldRr := by
  have hcc := hd.cc
  have hsize : 136 ≤ packlen4 r := by
    unfold packlen4
    omega
  by_cases hshort : d.cc < ihl d.buf 0 * 4 + 8 ∨ ihl d.buf 0 < 5
  · have hip : readIp .raw d = none := by
      rw [readIp, if_pos hshort]
    rw [ping4ParseReply, hip]
    exact ⟨turnsAway_error r c.optVerbose _, rfl⟩
  · obtain ⟨hs₁, hs₂⟩ := not_or.mp hshort
    have hihl := ihl_lt d.buf 0
    have heq : headerLength packet = ihl d.buf 0 * 4 := by
      rw [headerLength, ihl, ihl, ← hd.byteAt_eq (by omega : 0 < d.cc), Nat.mul_comm]
    have hip : readIp .raw d = some ⟨ihl d.buf 0 * 4, byteAt d.buf 8, d.buf.drop 20,
        ihl d.buf 0 * 4 - 20⟩ := by
      rw [readIp, if_neg hshort]
    rw [heq] at h
    rcases h with hcut | ⟨hkind, hid⟩
    · omega
    · rw [← hd.byteAt_eq (by omega)] at hkind
      rw [← hd.le16At_eq (by omega)] at hid
      have hours : ¬ isOurs r .raw (le16At (d.buf.drop (ihl d.buf 0 * 4)) 4) := by
        simpa [isOurs, le16At_drop] using hid
      have hreply : byteAt (d.buf.drop (ihl d.buf 0 * 4)) 0 = icmpEchoreply := by
        rw [byteAt_drop, Nat.add_zero, hkind]
      rw [ping4ParseReply, hip]
      dsimp only
      rw [if_pos hreply, echoReply4, if_pos hours]
      exact ⟨turnsAway_nil r, rfl⟩

/-- What the IPv6 program rejects the parse function turns away. -/
theorem ping6ParseReply_alien {env : Env} {c : Config} {r : Rts} {d : Datagram}
    {packet : List UInt8} (hlen : 0 ≤ r.datalen) (hd : Delivered (packlen6 r) packet d)
    (h : Alien icmp6EchoReply r.ident packet 0) :
    TurnsAway r (ping6ParseReply env c r .raw d).1 (ping6ParseReply env c r .raw d).2.1
      (ping6ParseReply env c r .raw d).2.2 := by
  have hcc := hd.cc
  have hsize : 8 ≤ packlen6 r := by
    unfold packlen6
    omega
  unfold ping6ParseReply
  dsimp only
  by_cases hshort : d.cc < 8
  · rw [if_pos hshort]
    exact turnsAway_error r c.optVerbose _
  · rcases h with hcut | ⟨hkind, hid⟩
    · omega
    · rw [← hd.byteAt_eq (by omega)] at hkind
      rw [← hd.le16At_eq (by omega)] at hid
      have hours : ¬ isOurs r .raw (le16At d.buf 4) := by
        simpa [isOurs] using hid
      rw [if_neg hshort, if_pos hkind, if_pos hours]
      exact turnsAway_nil r

/-- The programs reject exactly the packets cut in front of their identifier and the
echo replies with a foreign one, and the parse functions do nothing with these. -/
theorem filters_drop_nothing (r : Rts) (packet : List UInt8) (h₀ : 0 ≤ r.ident)
    (h₁ : r.ident ≤ 65535) (hlen : 0 ≤ r.datalen) :
    ((Rejects (ping4Filter r.ident) packet ↔
        Alien icmpEchoreply r.ident packet (headerLength packet)) ∧
      ∀ (env : Env) (c : Config) (d : Datagram) (oldRr : List UInt8),
        Delivered (packlen4 r) packet d → Rejects (ping4Filter r.ident) packet →
        let p := ping4ParseReply env c r .raw d oldRr
        TurnsAway r p.rts p.notOurs p.prints ∧ p.oldRr = oldRr) ∧
    ((Rejects (ping6Filter r.ident) packet ↔ Alien icmp6EchoReply r.ident packet 0) ∧
      ∀ (env : Env) (c : Config) (d : Datagram),
        Delivered (packlen6 r) packet d → Rejects (ping6Filter r.ident) packet →
        let p := ping6ParseReply env c r .raw d
        TurnsAway r p.1 p.2.1 p.2.2) := by
  have h4 := rejects_ping4Filter h₀ h₁ packet
  have h6 := rejects_ping6Filter h₀ h₁ packet
  refine ⟨⟨h4, ?_⟩, h6, ?_⟩
  · intro env c d oldRr hd hrej
    exact ping4ParseReply_alien hlen hd (h4.mp hrej)
  · intro env c d hd hrej
    exact ping6ParseReply_alien hlen hd (h6.mp hrej)

/-- An echo reply with identifier 8 while ours is 7. -/
def foreignReply : List UInt8 := [0x45] ++ List.replicate 19 0 ++ [0, 0, 0, 0, 8, 0, 0, 1]

theorem filters_drop_nothing_foreign :
    Rejects (ping4Filter 7) foreignReply ∧
    TurnsAway { ident := 7 }
      (ping4ParseReply plainEnv {} { ident := 7 } .raw
        ⟨foreignReply ++ List.replicate 164 0, 28, [127, 0, 0, 1], [], {}, {}, {}⟩ []).rts
      (ping4ParseReply plainEnv {} { ident := 7 } .raw
        ⟨foreignReply ++ List.replicate 164 0, 28, [127, 0, 0, 1], [], {}, {}, {}⟩ []).notOurs
      (ping4ParseReply plainEnv {} { ident := 7 } .raw
        ⟨foreignReply ++ List.replicate 164 0, 28, [127, 0, 0, 1], [], {}, {}, {}⟩ []).prints := by
  have hrej : Rejects (ping4Filter 7) foreignReply := by decide +kernel
  have hall := filters_drop_nothing { ident := 7 } foreignReply (by decide) (by decide) (by decide)
  refine ⟨hrej, (hall.1.2 plainEnv {} _ [] ?_ hrej).1⟩
  exact ⟨rfl, rfl, rfl⟩

end Iputils.SocketFilter
