import Iputils.ParseReply

/-!
# Only received bytes are used

The receive buffer is not cleared between datagrams: behind the `cc` bytes of this
one stands what earlier ones have left. Two datagrams are compared that differ only
there. `ping4_parse_reply` on a raw socket follows a header length, the lengths of
the IP options and the length of a quoted header, all chosen by the sender; each
byte that reaches its result lies in front of `cc`. What it writes with `printf` may
differ, so the output is compared without it.
-/
set_option autoImplicit false

namespace Iputils.ReceivedBytes
open MachineInt PingState ByteBuffer InCksum AckWindow GatherStatistics PrintfText JsonPacket
  PingJson PingOutput PrOptions ParseReply

/-- The same datagram in a buffer with other leftovers. -/
structure SameReceived (d d' : Datagram) : Prop where
  cc : d'.cc = d.cc
  length : d'.buf.length = d.buf.length
  bytes : Agree d.cc d.buf d'.buf
  src : d'.src = d.src
  tv : d'.tv = d.tv
  now : d'.now = d.now
  stamp : d'.stamp = d.stamp

/-- A call that does not go to standard output as it is. -/
def Print.formal : Print → Bool
  | .text _ => false
  | _ => true

/-- The output without what `printf` writes. -/
def formal (prints : List Print) : List Print := prints.filter Print.formal

@[simp] theorem formal_append (ps qs : List Print) : formal (ps ++ qs) = formal ps ++ formal qs :=
  List.filter_append ps qs

@[simp] theorem formal_text (s : List Char) (ps : List Print) :
    formal (.text s :: ps) = formal ps := rfl

/-- The packet buffer after the calls. -/
def packetAfter (r : Rts) (packet : JsonBuffer) (prints : List Print) : Except JsonFault JsonBuffer :=
  (writeAll r ⟨packet, []⟩ prints).map Terminal.packet

/-- What `printf` writes does not reach the packet buffer. -/
theorem writeAll_formal (r : Rts) (b : JsonBuffer) (out out' : List Char) (ps : List Print) :
    (writeAll r ⟨b, out⟩ ps).map Terminal.packet =
      (writeAll r ⟨b, out'⟩ (formal ps)).map Terminal.packet := by
  induction ps generalizing b out out' with
  | nil => rfl
  | cons p ps ih =>
      cases p with
      | text s =>
          rw [writeAll_cons, write, ok_bind, formal_text]
          exact ih b (out ++ s) out'
      | member plain call =>
          rw [formal, List.filter_cons_of_pos rfl, writeAll_cons, writeAll_cons, write, write]
          by_cases hj : r.optJson = true
          · rw [if_pos hj, if_pos hj]
            cases constructJson r b call with
            | error e => rfl
            | ok b' => exact ih b' out out'
          · rw [if_neg hj, if_neg hj]
            exact ih b (out ++ plain) (out' ++ plain)
      | error msg =>
          rw [formal, List.filter_cons_of_pos rfl, writeAll_cons, writeAll_cons, write, write]
          by_cases hj : r.optJson = true
          · rw [if_pos hj, if_pos hj]
            cases constructJson r b (.str "error" (msg.take (pingErrorMax - 1))) with
            | error e => rfl
            | ok b' => exact ih (printJsonPacket r b').2 _ _
          · rw [if_neg hj, if_neg hj]
            exact ih b out out'
      | finishLine =>
          rw [formal, List.filter_cons_of_pos rfl, writeAll_cons, writeAll_cons, write, write]
          by_cases hj : r.optJson = true
          · rw [if_pos hj, if_pos hj]
            exact ih b out out'
          · rw [if_neg hj, if_neg hj]
            exact ih b (out ++ ['\n']) (out' ++ ['\n'])

/-- The same return value, the same state with its packet buffer and the same route. -/
structure Alike (r : Rts) (p p' : Parsed) : Prop where
  notOurs : p'.notOurs = p.notOurs
  rts : p'.rts = p.rts
  packet : ∀ b, packetAfter r b p'.prints = packetAfter r b p.prints
  oldRr : p'.oldRr = p.oldRr

theorem packetAfter_congr {ps qs : List Print} (h : formal ps = formal qs) (r : Rts)
    (b : JsonBuffer) : packetAfter r b ps = packetAfter r b qs := by
  rw [packetAfter, packetAfter, writeAll_formal r b [] [] ps, h, ← writeAll_formal r b [] [] qs]

theorem Alike.refl (r : Rts) (p : Parsed) : Alike r p p := ⟨rfl, rfl, fun _ => rfl, rfl⟩

theorem sumWords_take (w : List UInt8) (n : ℕ) (sum : ℤ) :
    sumWords (w.take n) n sum = sumWords w n sum := by
  fun_induction sumWords w n sum with
  | case1 w sum => simp [sumWords]
  | case2 n sum => simp [sumWords]
  | case3 c w sum => simp [sumWords]
  | case4 c n sum => simp [sumWords]
  | case5 lo hi w n sum sum' hadd ih => simp [sumWords, hadd, ih]
  | case6 lo hi w n sum hadd => simp [sumWords, hadd]

/-- The checksum reads as many bytes as it is told. -/
theorem inCksum_agree {n : ℕ} {w w' : List UInt8} (h : Agree n w w') (csum : ℤ) :
    inCksum w n csum = inCksum w' n csum := by
  rw [inCksum, inCksum, ← sumWords_take w, ← sumWords_take w', show w.take n = w'.take n from h]

section Statistics
variable {c : Config} {r : Rts}

/-- The replies differ at most in a time of sending that neither of them carries. -/
structure SameReply (r : Rts) (p p' : Reply) : Prop where
  eq : p' = { p with sent := p'.sent }
  sent : Stamped r p → p'.sent = p.sent

theorem SameReply.stamped_iff {p p' : Reply} (h : SameReply r p p') :
    Stamped r p' ↔ Stamped r p := by
  rw [h.eq]
  rfl

theorem SameReply.eq_of_stamped {p p' : Reply} (h : SameReply r p p') (hs : Stamped r p) :
    p' = p := by
  rw [h.eq, h.sent hs]

theorem recordTrip_unstamped {p : Reply} (h : ¬ Stamped r p) : recordTrip r p = r := by
  simp only [recordTrip]
  exact if_neg h

/-- A time of sending that is not carried is not used. -/
theorem gatherStatistics_sameReply {p p' : Reply} (h : SameReply r p p') :
    gatherStatistics r p' = gatherStatistics r p := by
  by_cases hs : Stamped r p
  · rw [h.eq_of_stamped hs]
  · have htiming : ∀ q : Reply, Stamped (countReply r q) q ↔ Stamped r q := by
      intro q
      unfold Stamped
      rw [countReply_frame]
    have hs' : ¬ Stamped r p' := fun hx => hs (h.stamped_iff.mp hx)
    rw [gatherStatistics, gatherStatistics, recordTrip_unstamped (fun hx => hs ((htiming p).mp hx)),
      recordTrip_unstamped (fun hx => hs' ((htiming p').mp hx)), h.eq]
    rfl

theorem clockWarnings_sameReply {p p' : Reply} (h : SameReply r p p') :
    clockWarnings r p' = clockWarnings r p := by
  by_cases hs : Stamped r p
  · rw [h.eq_of_stamped hs]
  · rw [clockWarnings, clockWarnings, if_neg hs, if_neg (fun hx => hs (h.stamped_iff.mp hx))]

theorem timePrints_sameReply {p p' : Reply} (h : SameReply r p p') :
    timePrints c r p' = timePrints c r p := by
  have hm : measuredTrip r p' = measuredTrip r p := by
    by_cases hs : Stamped r p
    · rw [h.eq_of_stamped hs]
    · rw [measuredTrip, measuredTrip, if_neg hs, if_neg (fun hx => hs (h.stamped_iff.mp hx))]
  rw [timePrints, timePrints, hm]

/-- The arguments of `gather_statistics` for the two buffers. -/
structure SameArrival (a a' : Arrival) : Prop where
  eq : a' = { a with icmph := a'.icmph }
  bytes : Agree a.cc.toNat a.icmph a'.icmph

theorem SameArrival.reply {a a' : Arrival} (h : SameArrival a a') :
    SameReply r a.reply a'.reply := by
  constructor
  · rw [Arrival.reply, Arrival.reply, h.eq]
  · intro hs
    have hcc : (8 : ℤ) + timevalSize ≤ a.cc := hs.2
    have hlong : 24 ≤ a.cc.toNat := by
      unfold timevalSize at hcc
      omega
    change timevalAt a'.icmph 8 = timevalAt a.icmph 8
    rw [timevalAt, timevalAt, h.bytes.le64At (by omega), h.bytes.le64At (by omega)]

theorem formal_anomalyPrints (a : Arrival) (dupflag : Bool) :
    formal (anomalyPrints c r a dupflag) = [] := by
  unfold anomalyPrints
  simp only [formal_append]
  cases wrongData r a.icmph with
  | none => split_ifs <;> rfl
  | some i => split_ifs <;> rfl

theorem headPrints_sameArrival {a a' : Arrival} (h : SameArrival a a') :
    headPrints c r a' = headPrints c r a := by
  rw [h.eq]
  rfl

/-- `gather_statistics` with its return value and its output. -/
theorem gatherReply_sameArrival {a a' : Arrival} (h : SameArrival a a') :
    (gatherReply c r a').rts = (gatherReply c r a).rts ∧
      (gatherReply c r a').finished = (gatherReply c r a).finished ∧
      formal (gatherReply c r a').prints = formal (gatherReply c r a).prints := by
  have hcc : a'.cc = a.cc := by rw [h.eq]
  have hcs : a'.csfailed = a.csfailed := by rw [h.eq]
  unfold gatherReply
  rw [gatherStatistics_sameReply h.reply, clockWarnings_sameReply h.reply, hcc, hcs,
    timePrints_sameReply h.reply, headPrints_sameArrival h]
  dsimp only
  split_ifs
  · exact ⟨rfl, rfl, rfl⟩
  · exact ⟨rfl, rfl, rfl⟩
  · exact ⟨rfl, rfl, rfl⟩
  · exact ⟨rfl, rfl, rfl⟩
  · refine ⟨rfl, rfl, ?_⟩
    simp only [formal_append, formal_anomalyPrints]

end Statistics

section Options
variable {n : ℕ} {opts opts' : List UInt8} (names : Names) (flood : Bool)

/-- An option reads at most one byte behind its end: the pointer of a record-route
option of length two. -/
theorem recordText_agree (h : Agree n opts opts') {off totlen : ℕ}
    (hlen : (byteAt opts (off + 1)).toNat ≤ totlen) (hn : off + totlen + 2 ≤ n) (hpos : 0 < totlen)
    (oldRr : List UInt8) :
    (recordText names flood opts off oldRr).2 = (recordText names flood opts' off oldRr).2 := by
  have hfilled : filled opts off ipoptMinoff = filled opts' off ipoptMinoff := by
    rw [filled, filled, h.byteAt (by omega), h.byteAt (by omega)]
  have hrr : bytesAt opts (off + 2) (filled opts off ipoptMinoff).toNat =
      bytesAt opts' (off + 2) (filled opts off ipoptMinoff).toNat := by
    apply h.bytesAt
    have hj := byteAt_nonneg opts (off + 1)
    unfold filled ipoptMinoff
    omega
  unfold recordText
  dsimp only
  rw [← hfilled, ← hrr]
  split_ifs <;> rfl

theorem optionText_agree (h : Agree n opts opts') {off totlen : ℕ}
    (hlen : (byteAt opts (off + 1)).toNat ≤ totlen) (hn : off + totlen + 2 ≤ n) (hpos : 0 < totlen)
    (oldRr : List UInt8) :
    (optionText names flood opts off oldRr).2 = (optionText names flood opts' off oldRr).2 := by
  unfold optionText
  rw [h.byteAt (by omega : off < n)]
  dsimp only
  split_ifs
  · rfl
  · exact recordText_agree names flood h hlen hn hpos oldRr
  · rfl
  · rfl

/-- The walk follows lengths that it reads; none of them leads out of the options. -/
theorem walkOptions_agree (h : Agree n opts opts') (fuel : ℕ) :
    ∀ (off totlen : ℕ) (oldRr : List UInt8), off + totlen + 2 ≤ n →
      (walkOptions names flood opts fuel off totlen oldRr).2 =
        (walkOptions names flood opts' fuel off totlen oldRr).2 := by
  induction fuel with
  | zero => exact fun _ _ _ _ => rfl
  | succ fuel ih =>
      intro off totlen oldRr hn
      have hkind : byteAt opts off = byteAt opts' off := h.byteAt (by omega)
      have holen : byteAt opts (off + 1) = byteAt opts' (off + 1) := h.byteAt (by omega)
      unfold walkOptions
      dsimp only
      rw [← hkind, ← holen]
      split_ifs with hend hnop hlen
      · rfl
      · exact ih (off + 1) (totlen - 1) oldRr (by omega)
      · rfl
      · have hfit : (byteAt opts (off + 1)).toNat ≤ totlen := by omega
        rw [optionText_agree names flood h hfit hn (by omega)]
        exact ih _ _ _ (by omega)

end Options

section Inet
variable {env : Env} {c : Config} {r : Rts} {d d' : Datagram}

/-- The IP part is read alike, and the ICMP header behind it was received. -/
theorem readIp_sameReceived (h : SameReceived d d') {ip : IpPart} (hip : readIp .raw d = some ip) :
    readIp .raw d' = some { ip with opts := d'.buf.drop 20 } ∧
      ip.opts = d.buf.drop 20 ∧ 20 + ip.olen = ip.hlen ∧ ip.hlen + 8 ≤ d.cc := by
  simp only [readIp] at hip
  split_ifs at hip with hshort
  obtain rfl := Option.some.inj hip
  have hihl : ihl d'.buf 0 = ihl d.buf 0 := by rw [ihl, ihl, h.bytes.byteAt (by omega)]
  refine ⟨?_, rfl, ?_, ?_⟩
  · simp only [readIp, hihl, h.cc, if_neg hshort, h.bytes.byteAt (by omega : 8 < d.cc)]
  · simp only
    omega
  · simp only
    omega

/-- Without a header the length alone decides. -/
theorem readIp_none (h : SameReceived d d') (hip : readIp .raw d = none) : readIp .raw d' = none := by
  cases hip' : readIp .raw d' with
  | none => rfl
  | some ip =>
      have hback : SameReceived d' d :=
        ⟨h.cc.symm, h.length.symm, h.cc ▸ h.bytes.symm, h.src.symm, h.tv.symm, h.now.symm,
          h.stamp.symm⟩
      rw [(readIp_sameReceived hback hip').1] at hip
      cases hip

section Message
variable (h : SameReceived d d') {ip : IpPart} (hcc : ip.hlen + 8 ≤ d.cc)
include h hcc

variable (env c r) in
theorem arrival4_sameReceived (opts' : List UInt8) :
    SameArrival (arrival4 env c d ip) (arrival4 env c d' { ip with opts := opts' }) := by
  have hb := h.bytes.drop ip.hlen
  have hws : wrongSource4 c d' = wrongSource4 c d := by rw [wrongSource4, wrongSource4, h.src]
  refine ⟨?_, ?_⟩
  · unfold arrival4
    dsimp only
    rw [h.cc, h.src, h.tv, h.now, h.stamp, hws, ← hb.be16At (by omega), ← inCksum_agree hb]
  · change Agree (((d.cc - ip.hlen : ℕ) : ℤ)).toNat _ _
    rw [Int.toNat_natCast]
    exact hb

variable (env c r) in
omit h hcc in
theorem closeReply4_agree {opts' : List UInt8} (hopts : Agree (ip.olen + 2) ip.opts opts')
    (oldRr : List UInt8) :
    (closeReply4 env c r { ip with opts := opts' } oldRr).2 = (closeReply4 env c r ip oldRr).2 ∧
      formal (closeReply4 env c r { ip with opts := opts' } oldRr).1 =
        formal (closeReply4 env c r ip oldRr).1 := by
  have hwalk := walkOptions_agree env.names r.optFlood hopts ip.olen 0 ip.olen oldRr (by omega)
  unfold closeReply4
  dsimp only
  by_cases hflood : r.optFlood = true
  · rw [if_pos hflood, if_pos hflood]
    exact ⟨rfl, rfl⟩
  · rw [if_neg hflood, if_neg hflood]
    refine ⟨?_, by simp only [formal_append, formal_text]⟩
    rw [prOptions, prOptions]
    exact hwalk.symm

theorem echoReply4_sameReceived {opts' : List UInt8} (hopts : Agree (ip.olen + 2) ip.opts opts')
    (oldRr : List UInt8) :
    Alike r (echoReply4 env c r .raw d ip oldRr)
      (echoReply4 env c r .raw d' { ip with opts := opts' } oldRr) := by
  have hid := (h.bytes.drop ip.hlen).le16At (by omega : 4 + 2 ≤ d.cc - ip.hlen)
  obtain ⟨hrts, hfin, hprints⟩ := gatherReply_sameArrival (c := c) (r := r)
    (arrival4_sameReceived env c h hcc opts')
  obtain ⟨hrr, hclose⟩ := closeReply4_agree env c r hopts oldRr
  unfold echoReply4
  dsimp only
  rw [← hid, hfin]
  by_cases hours : isOurs r .raw (le16At (d.buf.drop ip.hlen) 4)
  · rw [if_neg (not_not_intro hours), if_neg (not_not_intro hours)]
    split_ifs
    · exact ⟨rfl, hrts, packetAfter_congr hprints r, rfl⟩
    · refine ⟨rfl, hrts, packetAfter_congr ?_ r, hrr⟩
      simp only [formal_append, hprints, hclose]
  · rw [if_pos hours, if_pos hours]
    exact Alike.refl r _

theorem quoted4_sameReceived (oldRr : List UInt8) :
    Alike r (quoted4 env c r .raw d ip oldRr) (quoted4 env c r .raw d' ip oldRr) := by
  have hb := h.bytes.drop ip.hlen
  unfold quoted4
  dsimp only
  rw [h.cc, h.stamp, h.src]
  -- the second length is read only when the first test has been passed
  by_cases hshort : d.cc - ip.hlen < 8 + 20 + 8
  · rw [if_pos (Or.inl hshort), if_pos (Or.inl hshort)]
    exact Alike.refl r _
  · have hihl : ihl (d'.buf.drop ip.hlen) 8 = ihl (d.buf.drop ip.hlen) 8 := by
      rw [ihl, ihl, hb.byteAt (by omega)]
    rw [hihl]
    by_cases hquote : d.cc - ip.hlen < 8 + ihl (d.buf.drop ip.hlen) 8 * 4 + 8
    · rw [if_pos (Or.inr hquote), if_pos (Or.inr hquote)]
      exact Alike.refl r _
    · have hb1 := hb.drop (8 + ihl (d.buf.drop ip.hlen) 8 * 4)
      rw [← hb.byteAt (by omega : 0 < _), ← hb.bytesAt (by omega : 24 + 4 ≤ _),
        ← hb1.byteAt (by omega : 0 < _), ← hb1.le16At (by omega : 4 + 2 ≤ _),
        ← hb1.be16At (by omega : 6 + 2 ≤ _), ← inCksum_agree hb]
      split_ifs
      · exact Alike.refl r _
      · exact Alike.refl r _
      · exact Alike.refl r _
      · exact Alike.refl r _
      · exact ⟨rfl, rfl, packetAfter_congr (by simp only [formal_append, formal_text]) r, rfl⟩
      · exact ⟨rfl, rfl, packetAfter_congr (by simp only [formal_append, formal_text]) r, rfl⟩

omit hcc in
theorem unexpected4_sameReceived (oldRr : List UInt8) :
    Alike r (unexpected4 env c r d ip oldRr) (unexpected4 env c r d' ip oldRr) := by
  have hb := h.bytes.drop ip.hlen
  unfold unexpected4
  dsimp only
  rw [h.cc, h.stamp, h.src, ← inCksum_agree hb]
  split_ifs
  · exact Alike.refl r _
  · exact Alike.refl r _
  · exact Alike.refl r _
  all_goals exact ⟨rfl, rfl, packetAfter_congr (by simp only [formal_append, formal_text]) r, rfl⟩

end Message

/-- On a raw socket the result depends on the received bytes alone. -/
theorem ping4_uses_received (env : Env) (c : Config) (r : Rts) (oldRr : List UInt8)
    {d d' : Datagram} (h : SameReceived d d') :
    Alike r (ping4ParseReply env c r .raw d oldRr) (ping4ParseReply env c r .raw d' oldRr) := by
  cases hip : readIp .raw d with
  | none =>
      rw [ping4ParseReply, ping4ParseReply, hip, readIp_none h hip, h.cc, h.src]
      exact Alike.refl r _
  | some ip =>
      obtain ⟨hip', hopts, holen, hcc⟩ := readIp_sameReceived h hip
      have hb : Agree (ip.olen + 2) ip.opts (d'.buf.drop 20) := by
        rw [hopts]
        exact (h.bytes.drop 20).mono (by omega)
      have hkind := (h.bytes.drop ip.hlen).byteAt (by omega : 0 < d.cc - ip.hlen)
      rw [ping4ParseReply, ping4ParseReply, hip, hip']
      dsimp only
      rw [← hkind]
      split_ifs
      · exact echoReply4_sameReceived h hcc hb oldRr
      · exact Alike.refl r _
      · exact quoted4_sameReceived h hcc oldRr
      · exact unexpected4_sameReceived h oldRr

/-- An echo reply of 28 bytes, in front of what an earlier datagram has left. -/
def bareReply (rest : List UInt8) : Datagram where
  buf := [0x45, 0, 0, 28, 0, 0, 0, 0, 64, 1, 0, 0, 127, 0, 0, 1, 127, 0, 0, 1,
    0, 0, 0xfe, 0xff, 1, 0, 0, 0] ++ rest
  cc := 28

theorem ping4_uses_received_bare :
    (bareReply [1, 2]).buf ≠ (bareReply [3, 4]).buf ∧
      Alike { ident := 1 } (ping4ParseReply plainEnv {} { ident := 1 } .raw (bareReply [1, 2]) [])
        (ping4ParseReply plainEnv {} { ident := 1 } .raw (bareReply [3, 4]) []) := by
  refine ⟨by decide, ping4_uses_received plainEnv {} { ident := 1 } [] ?_⟩
  exact ⟨rfl, rfl, by decide, rfl, rfl, rfl, rfl⟩

end Inet

end Iputils.ReceivedBytes
