import Iputils.DuplicateDetection
import Iputils.Pinger
import Iputils.ParseReply

/-!
# From a probe to its reply

The sender and the receiver share a byte buffer and nothing else. A probe is
followed through any run of later probes, datagrams and error messages to its
echo. Two things carry the result. What the receiver compares with, the buffer
behind the time of sending, is the same in every state of the run. And the bit of
the probe's sequence number is set exactly when a good reply with that number has
been processed, as long as the number has not come round again.
-/
set_option autoImplicit false

namespace Iputils.EchoLaw
open MachineInt PingState ReceivedTable ByteBuffer OnesComplement InCksum AckWindow
  GatherStatistics DuplicateDetection SendProbe Pinger ParseReply

/-- A normalized reading of the time of day. -/
structure WallClock where
  sec : ℤ
  usec : ℤ
  sec_ge : -9223372036854775808 ≤ sec
  sec_lt : sec < 9223372036854775808
  usec_nonneg : 0 ≤ usec
  usec_lt : usec < 1000000

def WallClock.timeval (t : WallClock) : Timeval := ⟨t.sec, t.usec⟩

/-- The `struct timeval` in memory. -/
def WallClock.bytes (t : WallClock) : List UInt8 := le64 t.sec ++ le64 t.usec

def WallClock.micros (t : WallClock) : ℤ := t.sec * 1000000 + t.usec

theorem i64_of_mem {x : ℤ} (h₀ : -9223372036854775808 ≤ x) (h₁ : x < 9223372036854775808) :
    i64 (x % 18446744073709551616) = x := by
  unfold i64
  omega

theorem WallClock.length_bytes (t : WallClock) : t.bytes.length = 16 := rfl

/-- The time of sending is read back from behind the header. -/
theorem WallClock.timevalAt_bytes (t : WallClock) (pre post : List UInt8) :
    timevalAt (pre ++ (t.bytes ++ post)) pre.length = t.timeval := by
  have hsec : le64At (pre ++ (t.bytes ++ post)) pre.length = t.sec % 18446744073709551616 := by
    rw [bytes, List.append_assoc]
    exact le64At_le64 pre _ t.sec
  have husec : le64At (pre ++ (t.bytes ++ post)) (pre.length + 8) =
      t.usec % 18446744073709551616 := by
    have h := le64At_le64 (pre ++ le64 t.sec) post t.usec
    rw [List.append_assoc, List.length_append] at h
    rw [bytes, List.append_assoc]
    exact h
  have h₀ := t.usec_nonneg
  have h₁ := t.usec_lt
  rw [timevalAt, hsec, husec, i64_of_mem t.sec_ge t.sec_lt, i64_of_mem (by omega) (by omega)]
  rfl

/-- Differences that need no correction are taken as they are. -/
theorem tripOf_of_tvsub {tv sent d : Timeval} (hsub : tvsub tv sent = d) (hsec₀ : 0 ≤ d.tvSec)
    (hsec₁ : d.tvSec < 2147) (husec₀ : 0 ≤ d.tvUsec) (husec₁ : d.tvUsec < 1000000) :
    (elapsed tv sent).tvSec ≥ 0 ∧ tripOf (elapsed tv sent) = d.tvSec * 1000000 + d.tvUsec := by
  have hd : elapsed tv sent = d := by
    rw [elapsed, hsub, if_neg (by omega), if_neg (by omega)]
  rw [hd, tripOf, tvSecMaxVal, if_neg (by omega), if_neg (by omega)]
  exact ⟨hsec₀, rfl⟩

/-- A reply within 2147 seconds is measured to the microsecond. -/
theorem tripOf_elapsed (s t : WallClock) (h₀ : s.micros ≤ t.micros)
    (h₁ : t.micros - s.micros < 2147000000) :
    (elapsed t.timeval s.timeval).tvSec ≥ 0 ∧
      tripOf (elapsed t.timeval s.timeval) = t.micros - s.micros := by
  have hs₀ := s.usec_nonneg
  have hs₁ := s.usec_lt
  have ht₀ := t.usec_nonneg
  have ht₁ := t.usec_lt
  unfold WallClock.micros at *
  by_cases hb : t.usec - s.usec < 0
  · have hsub : tvsub t.timeval s.timeval = ⟨t.sec - 1 - s.sec, t.usec - s.usec + 1000000⟩ :=
      if_pos hb
    obtain ⟨hsec, htrip⟩ := tripOf_of_tvsub hsub (by dsimp only; omega) (by dsimp only; omega)
      (by dsimp only; omega) (by dsimp only; omega)
    exact ⟨hsec, htrip.trans (by ring)⟩
  · have hsub : tvsub t.timeval s.timeval = ⟨t.sec - s.sec, t.usec - s.usec⟩ := if_neg hb
    obtain ⟨hsec, htrip⟩ := tripOf_of_tvsub hsub (by dsimp only; omega) (by dsimp only; omega)
      (by dsimp only; omega) (by dsimp only; omega)
    exact ⟨hsec, htrip.trans (by ring)⟩

/-- What a run leaves alone: the buffer behind the time of sending and the fields that
the receiver relies on. -/
structure Fixed where
  tail : List UInt8
  size : ℕ
  datalen : ℤ
  ident : ℤ
  timing : Bool

def fixed (r : Rts) : Fixed :=
  ⟨r.outpack.drop 24, r.outpack.length, r.datalen, r.ident, r.timing⟩

theorem fixed_acknowledge (r : Rts) (seq : ℤ) : fixed (acknowledge r seq) = fixed r := by
  rw [acknowledge_frame]
  rfl

theorem fixed_gatherStatistics (r : Rts) (p : Reply) :
    fixed (gatherStatistics r p).1 = fixed r := by
  rw [gatherStatistics_frame]
  rfl

theorem fixed_advanceNtransmitted (r : Rts) : fixed (advanceNtransmitted r) = fixed r := by
  simp only [advanceNtransmitted]
  split_ifs <;> rfl

theorem fixed_receiveErrorMsg {r r' : Rts} {e e' : Errno} {m : ErrorMsg} {i : ℤ}
    (h : receiveErrorMsg r e m = .ok (r', i, e')) : fixed r' = fixed r := by
  obtain rfl | rfl | ⟨seq, rfl⟩ := receiveErrorMsg_cases h
  · rfl
  · rfl
  · exact fixed_acknowledge r seq

theorem fixed_parseReply (env : Env) (c : Config) (r : Rts) (sock : SockType) (d : Datagram)
    (oldRr : List UInt8) : fixed (ping4ParseReply env c r sock d oldRr).rts = fixed r := by
  by_cases h : ∃ ip, Accepted4 r sock d ip
  · obtain ⟨ip, hip⟩ := h
    rw [(ping4ParseReply_counted hip oldRr).1, fixed_gatherStatistics]
  · rcases @ping4ParseReply_other env c r sock d (not_exists.mp h) oldRr with hr | ⟨seq, hr⟩
    · rw [hr]
    · rw [hr, fixed_acknowledge]

/-- The second buffer differs from the first at most in its first 24 bytes. -/
structure Keeps (buf buf' : List UInt8) : Prop where
  tail : buf'.drop 24 = buf.drop 24
  size : buf'.length = buf.length

/-- One more write to the front of the buffer. -/
theorem Keeps.store {buf buf' bytes : List UInt8} {off : ℕ} (h : Keeps buf buf')
    (hb : 24 ≤ buf.length) (hoff : off + bytes.length ≤ 24) :
    Keeps buf (ByteBuffer.store buf' off bytes) := by
  have hfit : off + bytes.length ≤ buf'.length := by
    rw [h.size]
    omega
  exact ⟨(drop_store hoff hfit).trans h.tail, (length_store hfit).trans h.size⟩

theorem keeps_writeHeader {buf : List UInt8} (hb : 24 ≤ buf.length) (ident seq : ℤ) :
    Keeps buf (writeHeader buf ident seq) := by
  have h₀ : Keeps buf buf := ⟨rfl, rfl⟩
  exact (((h₀.store hb (by decide)).store hb (by simp [le16])).store hb (by simp [be16])).store hb
    (by simp [le16])

theorem keeps_writeTimestamp {buf buf' tv : List UInt8} (h : Keeps buf buf') (hb : 24 ≤ buf.length)
    (htv : tv.length = 16) (r : Rts) : Keeps buf (writeTimestamp r buf' tv) := by
  unfold writeTimestamp
  split_ifs
  · exact h.store hb (by omega)
  · exact h.store hb (by decide)
  · exact h

theorem keeps_foldTimestamp {buf buf' icp tv : List UInt8} (h : Keeps buf buf')
    (hb : 24 ≤ buf.length) (htv : tv.length = 16) {r : Rts} {ck : ℤ}
    (hf : foldTimestamp r buf' tv ck = some icp) : Keeps buf icp := by
  unfold foldTimestamp at hf
  split_ifs at hf
  · obtain ⟨ck', -, rfl⟩ := Option.map_eq_some_iff.mp hf
    exact (h.store hb (by omega)).store hb (by simp [le16])
  · obtain rfl := Option.some.inj hf
    exact h

/-- Composing a probe writes the first 24 bytes of the buffer only. -/
theorem fixed_sendProbe {r : Rts} (hb : 24 ≤ r.outpack.length) {tv : List UInt8}
    (htv : tv.length = 16) {sendto : List UInt8 → ℤ} {p : Probe}
    (h : ping4SendProbe r tv sendto = some p) : fixed p.rts = fixed r := by
  simp only [ping4SendProbe, Option.bind_eq_bind, Option.pure_def, Option.bind_eq_some_iff,
    Option.some.injEq] at h
  obtain ⟨ck, -, icp, hicp, rfl⟩ := h
  have hhead := keeps_writeHeader hb r.ident (r.ntransmitted + 1)
  have hstamp := keeps_writeTimestamp hhead hb htv
    { r with rcvdTbl := rcvdClear r.rcvdTbl (r.ntransmitted + 1) }
  have hlast := keeps_foldTimestamp (hstamp.store hb (by simp [le16])) hb htv hicp
  simp only [fixed, Fixed.mk.injEq, and_true]
  exact ⟨hlast.tail, hlast.size⟩

/-- An undamaged echo reply to this process that carries the sequence number. -/
def GoodReply (r : Rts) (d : Datagram) (seq : ℤ) : Prop :=
  ∃ ip, Accepted4 r .raw d ip ∧ inCksum (d.buf.drop ip.hlen) (d.cc - ip.hlen) 0 = some 0 ∧
    be16At (d.buf.drop ip.hlen) 6 = seq

/-- What the main loop may do on a raw socket after probe `k`: compose later probes,
count them, parse the datagrams listed, read error messages, and change the fields
that only serve pacing and the end of the loop. -/
inductive Run (env : Env) (c : Config) (k : ℤ) (r : Rts) : List Datagram → Rts → Prop
  | start : Run env c k r [] r
  | probe {ds : List Datagram} {r' : Rts} (h : Run env c k r ds r') (later : k ≤ r'.ntransmitted)
      {tv : List UInt8} (htv : tv.length = 16) {sendto : List UInt8 → ℤ} {p : Probe}
      (hp : ping4SendProbe r' tv sendto = some p) : Run env c k r ds p.rts
  | count {ds : List Datagram} {r' : Rts} (h : Run env c k r ds r') :
      Run env c k r ds (advanceNtransmitted r')
  | reply {ds : List Datagram} {r' : Rts} (h : Run env c k r ds r') (d : Datagram)
      (oldRr : List UInt8) :
      Run env c k r (ds ++ [d]) (ping4ParseReply env c r' .raw d oldRr).rts
  | error {ds : List Datagram} {r' r'' : Rts} (h : Run env c k r ds r') {e e' : Errno}
      {m : ErrorMsg} {i : ℤ} (hm : receiveErrorMsg r' e m = .ok (r'', i, e')) :
      Run env c k r ds r''
  | pace {ds : List Datagram} {r' : Rts} (h : Run env c k r ds r') (curTime : Timespec)
      (interval rttAddend confirmFlag nerrors : ℤ) (exiting : Bool) :
      Run env c k r ds { r' with
        curTime := curTime, interval := interval, rttAddend := rttAddend
        confirmFlag := confirmFlag, nerrors := nerrors, exiting := exiting }

section Run
variable {env : Env} {c : Config} {k : ℤ} {r : Rts}

theorem fixed_run (hb : 24 ≤ r.outpack.length) {ds : List Datagram} {r' : Rts}
    (h : Run env c k r ds r') : fixed r' = fixed r := by
  induction h with
  | start => rfl
  | probe h _ htv hp ih =>
      have hsize := congrArg Fixed.size ih
      simp only [fixed] at hsize
      rw [fixed_sendProbe (by omega) htv hp, ih]
  | count h ih => rw [fixed_advanceNtransmitted, ih]
  | reply h d oldRr ih => rw [fixed_parseReply, ih]
  | error h hm ih => rw [fixed_receiveErrorMsg hm, ih]
  | pace h curTime interval rttAddend confirmFlag nerrors exiting ih => exact ih

theorem u16_be16At (buf : List UInt8) (i : ℕ) : u16 (be16At buf i) = be16At buf i := by
  have h₀ := byteAt_nonneg buf i
  have h₁ := byteAt_nonneg buf (i + 1)
  have h₂ : byteAt buf i ≤ 255 := byteVal_le _
  have h₃ : byteAt buf (i + 1) ≤ 255 := byteVal_le _
  unfold be16At
  exact u16_of_mem (by omega) (by omega)

/-- A reply adds its own number to the table, if it is undamaged. -/
theorem rcvdTest_gatherStatistics (r : Rts) (p : Reply) (k : ℤ) :
    rcvdTest (gatherStatistics r p).1.rcvdTbl k ≠ 0 ↔
      rcvdTest r.rcvdTbl k ≠ 0 ∨ (p.csfailed = false ∧ u16 p.seq = u16 k) := by
  have htable := congrArg Ledger.table (ledger_gatherStatistics r p)
  change (gatherStatistics r p).1.rcvdTbl = _ at htable
  rw [htable]
  cases hcs : p.csfailed with
  | true => simp [ledger]
  | false =>
      by_cases hold : rcvdTest r.rcvdTbl p.seq ≠ 0
      · have hsame : u16 p.seq = u16 k → rcvdTest r.rcvdTbl k ≠ 0 := by
          intro he
          rwa [← rcvdTest_u16, ← he, rcvdTest_u16]
        simp only [Bool.false_eq_true, if_false, if_pos hold, ledger, true_and]
        exact ⟨Or.inl, fun h => h.elim id hsame⟩
      · simp only [Bool.false_eq_true, if_false, if_neg hold, true_and]
        rw [rcvdTest_rcvdSet, or_comm, eq_comm]

/-- What parsing a datagram does to the table. -/
theorem rcvdTest_parseReply (d : Datagram) (oldRr : List UInt8) (k : ℤ) :
    rcvdTest (ping4ParseReply env c r .raw d oldRr).rts.rcvdTbl k ≠ 0 ↔
      rcvdTest r.rcvdTbl k ≠ 0 ∨ GoodReply r d (u16 k) := by
  by_cases h : ∃ ip, Accepted4 r .raw d ip
  · obtain ⟨ip, hip⟩ := h
    rw [(ping4ParseReply_counted hip oldRr).1, rcvdTest_gatherStatistics]
    refine or_congr_right ⟨fun hg => ⟨ip, hip, ?_, ?_⟩, fun hg => ?_⟩
    · simpa [arrival4, Arrival.reply] using hg.1
    · rw [← u16_be16At]
      exact hg.2
    · obtain ⟨ip', hip', hck, hseq⟩ := hg
      obtain rfl : ip = ip' := Option.some.inj (hip.header.symm.trans hip'.header)
      refine ⟨by simpa [arrival4, Arrival.reply] using hck, ?_⟩
      rw [← hseq]
      exact u16_be16At _ _
  · have hbad : ¬ GoodReply r d (u16 k) := fun hg => h ⟨hg.choose, hg.choose_spec.1⟩
    rcases @ping4ParseReply_other env c r .raw d (not_exists.mp h) oldRr with hr | ⟨seq, hr⟩
    · simp only [hr, hbad, or_false]
    · rw [hr, acknowledge_frame]
      simp only [hbad, or_false]

theorem ntransmitted_parseReply (d : Datagram) (oldRr : List UInt8) :
    (ping4ParseReply env c r .raw d oldRr).rts.ntransmitted = r.ntransmitted := by
  by_cases h : ∃ ip, Accepted4 r .raw d ip
  · obtain ⟨ip, hip⟩ := h
    rw [(ping4ParseReply_counted hip oldRr).1, gatherStatistics_frame]
  · rcases @ping4ParseReply_other env c r .raw d (not_exists.mp h) oldRr with hr | ⟨seq, hr⟩
    · rw [hr]
    · rw [hr, acknowledge_frame]

/-- Whose request a datagram answers is decided by the identifier alone. -/
theorem goodReply_congr {r' : Rts} (h : fixed r' = fixed r) (d : Datagram) (seq : ℤ) :
    GoodReply r' d seq ↔ GoodReply r d seq := by
  have hid : r'.ident = r.ident := congrArg Fixed.ident h
  constructor
  · intro hg
    obtain ⟨ip, ⟨h₁, h₂, h₃⟩, hck, hseq⟩ := hg
    exact ⟨ip, ⟨h₁, h₂, by simpa [isOurs, hid] using h₃⟩, hck, hseq⟩
  · intro hg
    obtain ⟨ip, ⟨h₁, h₂, h₃⟩, hck, hseq⟩ := hg
    exact ⟨ip, ⟨h₁, h₂, by simpa [isOurs, hid] using h₃⟩, hck, hseq⟩

/-- As long as the number of probe `k` has not come round, its bit tells whether a
good reply has been processed. -/
theorem answered_run (hb : 24 ≤ r.outpack.length) (hk : rcvdTest r.rcvdTbl k = 0)
    {ds : List Datagram} {r' : Rts} (h : Run env c k r ds r')
    (hlate : r'.ntransmitted < k + 65535) :
    rcvdTest r'.rcvdTbl k ≠ 0 ↔ ∃ d ∈ ds, GoodReply r d (u16 k) := by
  induction h with
  | start => simp [hk]
  | probe h later htv hp ih =>
      have hstate := ping4SendProbe_state hp
      rw [hstate] at hlate ⊢
      simp only [probeState] at hlate ⊢
      rw [rcvdTest_attempt _ (by omega) later]
      exact ih hlate
  | count h ih =>
      rw [advanceNtransmitted_ntransmitted] at hlate
      have hsame : ∀ s : Rts, (advanceNtransmitted s).rcvdTbl = s.rcvdTbl := by
        intro s
        simp only [advanceNtransmitted]
      rw [hsame]
      exact ih (by omega)
  | reply h d oldRr ih =>
      rw [ntransmitted_parseReply] at hlate
      rw [rcvdTest_parseReply, ih hlate, goodReply_congr (fixed_run hb h)]
      simp only [List.mem_append, List.mem_singleton, or_and_right, exists_or, exists_eq_left]
  | error h hm ih =>
      have hbooks := congrArg Prod.snd (books_receiveErrorMsg hm)
      have htable := congrArg Ledger.table hbooks
      have hsent := congrArg Ledger.transmitted hbooks
      simp only [books, ledger] at htable hsent
      rw [htable]
      exact ih (by omega)
  | pace h curTime interval rttAddend confirmFlag nerrors exiting ih => exact ih hlate

end Run

/-- The packet with the type byte of an echo reply and another checksum. -/
def asReply (packet : List UInt8) (checksum : ℤ) : List UInt8 :=
  store (store packet 0 [0]) 2 (le16 checksum)

/-- The one's-complement sum over the message verifies. -/
def Verifies (message : List UInt8) : Prop := fold (wordSum message) = 65535

/-- The datagram is an IP header of any length, the message, and what older datagrams
have left behind it in the buffer. -/
structure Carries (d : Datagram) (message : List UInt8) (t : WallClock) : Prop where
  header : 5 ≤ ihl d.buf 0
  body : ∃ stale, d.buf.drop (ihl d.buf 0 * 4) = message ++ stale
  length : d.cc = ihl d.buf 0 * 4 + message.length
  received : d.tv = t.timeval

/-- The header of the echo of probe `seq`. -/
def replyHeader (ident seq checksum : ℤ) : List UInt8 :=
  [0, 0] ++ le16 checksum ++ le16 ident ++ be16 seq

theorem replyHeader_fields {ident : ℤ} (h₀ : 0 ≤ ident) (h₁ : ident ≤ 65535) (seq checksum : ℤ)
    (rest : List UInt8) :
    byteAt (replyHeader ident seq checksum ++ rest) 0 = icmpEchoreply ∧
      le16At (replyHeader ident seq checksum ++ rest) 4 = ident ∧
      be16At (replyHeader ident seq checksum ++ rest) 6 = u16 seq := by
  have h₄ : byteAt (replyHeader ident seq checksum ++ rest) 4 = ident % 256 := byteVal_byteOf _
  have h₅ : byteAt (replyHeader ident seq checksum ++ rest) 5 = ident / 256 % 256 :=
    byteVal_byteOf _
  have h₆ : byteAt (replyHeader ident seq checksum ++ rest) 6 = seq / 256 % 256 := byteVal_byteOf _
  have h₇ : byteAt (replyHeader ident seq checksum ++ rest) 7 = seq % 256 := byteVal_byteOf _
  refine ⟨rfl, ?_, ?_⟩
  · rw [le16At, h₄, h₅]
    omega
  · rw [be16At, h₆, h₇]
    unfold u16
    omega

section Echo
variable {r : Rts}

/-- The echo of a probe: header, time of sending and the payload behind it. -/
theorem asReply_packet (hr : Ready r) (ht : r.timing = true) (s : WallClock) (ck ck' : ℤ) :
    asReply (header r.ident (r.ntransmitted + 1) ck ++ finalPayload r s.bytes) ck' =
      replyHeader r.ident (r.ntransmitted + 1) ck' ++
        (s.bytes ++ (r.outpack.drop 24).take (r.datalen.toNat - 16)) := by
  have hsize := hr.timing ht
  unfold timevalSize at hsize
  have hp : finalPayload r s.bytes =
      s.bytes ++ (r.outpack.drop 24).take (r.datalen.toNat - 16) := by
    rw [finalPayload, ht]
    exact take_stamp s.length_bytes _ (by omega)
  rw [hp]
  rfl

theorem length_asReply (hr : Ready r) (s : WallClock) (ck ck' : ℤ) :
    ((asReply (header r.ident (r.ntransmitted + 1) ck ++ finalPayload r s.bytes) ck').length : ℤ) =
      r.datalen + 8 := by
  have hlen := length_finalPayload hr s.length_bytes
  have h₀ := hr.datalen_nonneg
  have h₁ : (store (header r.ident (r.ntransmitted + 1) ck ++ finalPayload r s.bytes) 0
      [0]).length =
      (header r.ident (r.ntransmitted + 1) ck ++ finalPayload r s.bytes).length :=
    length_store (by rw [List.length_append, header_length]; simp; omega)
  have h₂ : (le16 ck').length = 2 := rfl
  rw [asReply, length_store (by rw [h₁, h₂, List.length_append, header_length]; omega), h₁,
    List.length_append, header_length]
  omega

/-- The state in which the echo arrives has the probe's payload behind the time of
sending, so the comparison finds no difference. -/
theorem wrongData_none {r' : Rts} (hfix : fixed r' = fixed r) (hr : Ready r)
    {head stale : List UInt8} {s : WallClock} (hhead : head.length = 8) :
    wrongData r' (head ++ (s.bytes ++ (r.outpack.drop 24).take (r.datalen.toNat - 16)) ++ stale) =
      none := by
  have htail : r'.outpack.drop 24 = r.outpack.drop 24 := congrArg Fixed.tail hfix
  have hdatalen : r'.datalen = r.datalen := congrArg Fixed.datalen hfix
  have hb := hr.buffer
  have h₁ := hr.datalen_le
  unfold maxpacket at hb
  rw [wrongData, List.find?_eq_none]
  intro i hi
  rw [dataIndices, List.mem_range', hdatalen] at hi
  obtain ⟨j, hj, rfl⟩ := hi
  have hsize : timevalSize.toNat = 16 := rfl
  rw [hsize] at hj ⊢
  have hleft : (head ++ (s.bytes ++ (r.outpack.drop 24).take (r.datalen.toNat - 16)) ++
      stale)[8 + (16 + 1 * j)]? = (r.outpack.drop 24)[j]? := by
    have hpre : (head ++ s.bytes).length = 24 := by
      rw [List.length_append, hhead, s.length_bytes]
    have hidx : 8 + (16 + 1 * j) = (head ++ s.bytes).length + j := by omega
    rw [← List.append_assoc, List.append_assoc, hidx, List.getElem?_append_right (by omega),
      Nat.add_sub_cancel_left, List.getElem?_append_left, List.getElem?_take_of_lt hj]
    rw [List.length_take, List.length_drop]
    omega
  have hright : r'.outpack[8 + (16 + 1 * j)]? = (r.outpack.drop 24)[j]? := by
    rw [← htail, List.getElem?_drop]
    congr 1
    omega
  simp only [List.getD_eq_getElem?_getD, hleft, hright, ne_eq, not_true_eq_false, decide_false,
    Bool.false_eq_true, not_false_eq_true]

/-- How the receiver reads a datagram that carries the echo. -/
theorem arrival_echo {d : Datagram} {head rest : List UInt8} {s t : WallClock} {n : ℕ}
    (hhead : head.length = 8) (hd : Carries d (head ++ (s.bytes ++ rest)) t)
    (hn : (head ++ (s.bytes ++ rest)).length = n) (hmax : n ≤ 65535)
    (hv : Verifies (head ++ (s.bytes ++ rest))) :
    ∃ ip stale, readIp .raw d = some ip ∧
      d.buf.drop ip.hlen = head ++ (s.bytes ++ rest) ++ stale ∧ d.cc - ip.hlen = n ∧
      inCksum (d.buf.drop ip.hlen) (d.cc - ip.hlen) 0 = some 0 ∧
      timevalAt (d.buf.drop ip.hlen) 8 = s.timeval := by
  obtain ⟨stale, hbuf⟩ := hd.body
  have hlen := hd.length
  have hip : readIp .raw d = some ⟨ihl d.buf 0 * 4, byteAt d.buf 8, d.buf.drop 20,
      ihl d.buf 0 * 4 - 20⟩ := by
    have h5 := hd.header
    have h8 : 8 ≤ (head ++ (s.bytes ++ rest)).length := by
      rw [List.length_append]
      omega
    rw [readIp, if_neg (by omega)]
  refine ⟨_, stale, hip, hbuf, by dsimp only; omega, ?_, ?_⟩
  · have hcc : d.cc - ihl d.buf 0 * 4 = (head ++ (s.bytes ++ rest)).length := by omega
    dsimp only
    have hle : (head ++ (s.bytes ++ rest)).length ≤ (head ++ (s.bytes ++ rest) ++ stale).length :=
      (List.prefix_append _ stale).length_le
    rw [hbuf, hcc, inCksum_eq hle (by omega) (by decide) (by decide), List.take_left, zero_add, hv]
    rfl
  · dsimp only
    rw [hbuf, List.append_assoc, List.append_assoc, ← hhead]
    exact s.timevalAt_bytes head (rest ++ stale)

/-- The echo of a probe is measured to the microsecond. -/
theorem measuredTrip_echo {r' : Rts} {q : Reply} {s t : WallClock} (ht : r'.timing = true)
    (hcc : q.cc ≥ 8 + timevalSize) (htv : q.tv = t.timeval) (hsent : q.sent = s.timeval)
    (hst : s.micros ≤ t.micros) (htrip : t.micros - s.micros < 2147000000) :
    measuredTrip r' q = t.micros - s.micros := by
  obtain ⟨hfwd, htripOf⟩ := tripOf_elapsed s t hst htrip
  have hstamped : Stamped r' q := ⟨ht, hcc⟩
  rw [measuredTrip, if_pos hstamped, triptime, htv, hsent,
    if_neg (fun h => absurd h.1 (by omega))]
  exact htripOf

/-- A good reply is flagged as a duplicate when one of the datagrams since the probe was
one. -/
theorem dupflag_echo (env : Env) (c : Config) {r r' : Rts} (hb : 24 ≤ r.outpack.length)
    {tv : List UInt8} {sendto : List UInt8 → ℤ} {p : Probe}
    (hp : ping4SendProbe r tv sendto = some p) (htv : tv.length = 16) {ds : List Datagram}
    (hrun : Run env c (r.ntransmitted + 1) p.rts ds r')
    (hlate : r'.ntransmitted - (r.ntransmitted + 1) < 65535) {q : Reply}
    (hck : q.csfailed = false) (hseq : q.seq = u16 (r.ntransmitted + 1)) :
    (gatherStatistics r' q).2 = true ↔
      ∃ d' ∈ ds, GoodReply r' d' (u16 (r.ntransmitted + 1)) := by
  have hfix₀ : fixed p.rts = fixed r := fixed_sendProbe hb htv hp
  have hsize : p.rts.outpack.length = r.outpack.length := congrArg Fixed.size hfix₀
  have hfix : fixed r' = fixed p.rts := fixed_run (by omega) hrun
  have hclear : rcvdTest p.rts.rcvdTbl (r.ntransmitted + 1) = 0 := by
    rw [ping4SendProbe_state hp]
    by_contra h
    exact ((rcvdTest_rcvdClear r.rcvdTbl _ _).mp h).1 rfl
  rw [dupflag_iff _ _ hck, hseq, rcvdTest_u16, answered_run (by omega) hclear hrun (by omega)]
  refine exists_congr fun d' => and_congr_right fun _ => ?_
  rw [goodReply_congr hfix]

/-- A probe that comes back, behind an IP header of any length and after fewer than
65535 later probes, passes every test of the receiver and is measured exactly. -/
theorem echo_law (env : Env) (c : Config) {r : Rts} (hr : Ready r) (ht : r.timing = true)
    (hi₀ : 0 ≤ r.ident) (hi₁ : r.ident ≤ 65535) (s t : WallClock) (hst : s.micros ≤ t.micros)
    (htrip : t.micros - s.micros < 2147000000) {sendto : List UInt8 → ℤ} {p : Probe}
    (hp : ping4SendProbe r s.bytes sendto = some p) {ds : List Datagram} {r' : Rts}
    (hrun : Run env c (r.ntransmitted + 1) p.rts ds r')
    (hlate : r'.ntransmitted - (r.ntransmitted + 1) < 65535) {d : Datagram} {checksum : ℤ}
    (hv : Verifies (asReply p.packet checksum)) (hd : Carries d (asReply p.packet checksum) t)
    (oldRr : List UInt8) :
    ∃ ip, Accepted4 r' .raw d ip ∧
      let a := arrival4 env c d ip
      a.csfailed = false ∧
      a.reply = ⟨r.datalen + 8, u16 (r.ntransmitted + 1), false, t.timeval, s.timeval, d.now⟩ ∧
      (ping4ParseReply env c r' .raw d oldRr).rts = (gatherStatistics r' a.reply).1 ∧
      (ping4ParseReply env c r' .raw d oldRr).notOurs = false ∧
      measuredTrip r' a.reply = t.micros - s.micros ∧
      ((gatherStatistics r' a.reply).2 = true ↔
        ∃ d' ∈ ds, GoodReply r' d' (u16 (r.ntransmitted + 1))) ∧
      ¬ Truncated r' a.cc ∧ wrongData r' a.icmph = none := by
  obtain ⟨p', hp', hpkt⟩ := ping4SendProbe_packet hr s.length_bytes sendto
  obtain rfl : p = p' := Option.some.inj (hp.symm.trans hp')
  have hbuf := hr.buffer
  have hmax := hr.datalen_le
  have hnonneg := hr.datalen_nonneg
  unfold maxpacket at hbuf
  have hfix₀ : fixed p.rts = fixed r := fixed_sendProbe (by omega) s.length_bytes hp
  have hsize : p.rts.outpack.length = r.outpack.length := congrArg Fixed.size hfix₀
  have hfix : fixed r' = fixed r := (fixed_run (by omega) hrun).trans hfix₀
  have hlen := length_asReply hr s (sealOf r.ident (r.ntransmitted + 1) (finalPayload r s.bytes))
    checksum
  rw [hpkt] at hv hd
  rw [asReply_packet hr ht] at hv hd hlen
  obtain ⟨ip, stale, hip, hicp, hcc, hck, hsent⟩ := arrival_echo rfl hd rfl (by omega) hv
  obtain ⟨hkind, hident, hseq⟩ := replyHeader_fields hi₀ hi₁ (r.ntransmitted + 1) checksum
    (s.bytes ++ (r.outpack.drop 24).take (r.datalen.toNat - 16) ++ stale)
  rw [← List.append_assoc, ← hicp] at hkind hident hseq
  have hours : isOurs r' .raw (le16At (d.buf.drop ip.hlen) 4) :=
    Or.inr (hident.trans (congrArg Fixed.ident hfix).symm)
  have hacc : Accepted4 r' .raw d ip := ⟨hip, hkind, hours⟩
  have hcc' : ((d.cc - ip.hlen : ℕ) : ℤ) = r.datalen + 8 := by omega
  have hreply : (arrival4 env c d ip).reply =
      ⟨r.datalen + 8, u16 (r.ntransmitted + 1), false, t.timeval, s.timeval, d.now⟩ := by
    simp [Arrival.reply, arrival4, hcc', hseq, hck, hsent, hd.received]
  have hdatalen : r'.datalen = r.datalen := congrArg Fixed.datalen hfix
  have htiming : r'.timing = true := (congrArg Fixed.timing hfix).trans ht
  refine ⟨ip, hacc, by simp [arrival4, hck], hreply, (ping4ParseReply_counted hacc oldRr).1,
    (ping4ParseReply_counted hacc oldRr).2, ?_, ?_, ?_, ?_⟩
  · have h16 := hr.timing ht
    rw [hreply]
    exact measuredTrip_echo htiming (by dsimp only; omega) rfl rfl hst htrip
  · rw [hreply]
    exact dupflag_echo env c (by omega) hp s.length_bytes hrun hlate rfl rfl
  · intro htrunc
    have hlt : ((d.cc - ip.hlen : ℕ) : ℤ) < r'.datalen + 8 := htrunc
    omega
  · change wrongData r' (d.buf.drop ip.hlen) = none
    rw [hicp]
    exact wrongData_none hfix hr rfl

end Echo

/-- Sixteen bytes of data, sent at 100.000005 s and received at 100.000030 s. -/
def shortRts : Rts := startTiming { ident := 7, datalen := 16 }

theorem ready_shortRts : Ready shortRts :=
  ready_startTiming (r := { ident := 7, datalen := 16 }) List.length_replicate (by decide)
    (by decide) rfl

def sentAt : WallClock := ⟨100, 5, by decide, by decide, by decide, by decide⟩

def receivedAt : WallClock := ⟨100, 30, by decide, by decide, by decide, by decide⟩

def shortPacket : List UInt8 :=
  header 7 1 (sealOf 7 1 (finalPayload shortRts sentAt.bytes)) ++ finalPayload shortRts sentAt.bytes

/-- The echo behind an IP header of 20 bytes. -/
def shortEcho : Datagram where
  buf := [0x45] ++ List.replicate 19 0 ++ asReply shortPacket 65167
  cc := 44
  tv := receivedAt.timeval

/-- The process has counted its first probe, read the answer to it, and sent a second probe. -/
theorem exists_late {p : Probe} (hp : ping4SendProbe shortRts sentAt.bytes (fun _ => 24) = some p) :
    ∃ r', Run plainEnv {} 1 p.rts [shortEcho] r' ∧ r'.ntransmitted = 2 := by
  have hr := ready_shortRts
  have hn : p.rts.ntransmitted = 0 := by
    rw [ping4SendProbe_state hp]
    rfl
  have hfix₀ : fixed p.rts = fixed shortRts :=
    fixed_sendProbe (by rw [hr.buffer]; decide) sentAt.length_bytes hp
  have hrun : Run plainEnv {} 1 p.rts [shortEcho]
      (ping4ParseReply plainEnv {} (advanceNtransmitted p.rts) .raw shortEcho []).rts :=
    .reply (.count .start) shortEcho []
  have hn' : (ping4ParseReply plainEnv {} (advanceNtransmitted p.rts) .raw shortEcho
      []).rts.ntransmitted = 1 := by
    rw [ntransmitted_parseReply, advanceNtransmitted_ntransmitted, hn]
    rfl
  have hsize : p.rts.outpack.length = maxpacket := (congrArg Fixed.size hfix₀).trans hr.buffer
  have hfix := (fixed_run (by rw [hsize]; decide) hrun).trans hfix₀
  generalize (ping4ParseReply plainEnv {} (advanceNtransmitted p.rts) .raw shortEcho []).rts = r₂
    at hrun hn' hfix
  have hdatalen : r₂.datalen = 16 := congrArg Fixed.datalen hfix
  have hr₂ : Ready r₂ :=
    ⟨(congrArg Fixed.size hfix).trans hr.buffer, by omega, by omega, fun _ => by
      rw [hdatalen]; decide⟩
  obtain ⟨p₂, hp₂, -⟩ := ping4SendProbe_packet hr₂ sentAt.length_bytes fun _ => 24
  refine ⟨advanceNtransmitted p₂.rts, .count (.probe hrun (by omega) sentAt.length_bytes hp₂), ?_⟩
  rw [advanceNtransmitted_ntransmitted, ping4SendProbe_state hp₂]
  change r₂.ntransmitted + 1 = 2
  omega

/-- The answer to the first probe comes again after the second one. -/
theorem echo_law_late :
    ∃ p r' ip, ping4SendProbe shortRts sentAt.bytes (fun _ => 24) = some p ∧
      Run plainEnv {} 1 p.rts [shortEcho] r' ∧ r'.ntransmitted = 2 ∧
      Accepted4 r' .raw shortEcho ip ∧
      measuredTrip r' (arrival4 plainEnv {} shortEcho ip).reply = 25 ∧
      (gatherStatistics r' (arrival4 plainEnv {} shortEcho ip).reply).2 = true := by
  have hr := ready_shortRts
  obtain ⟨p, hp, hpkt⟩ := ping4SendProbe_packet hr sentAt.length_bytes fun _ => 24
  have hpacket : p.packet = shortPacket := hpkt
  have hv : Verifies (asReply shortPacket 65167) := by
    unfold Verifies
    decide +kernel
  have hd : Carries shortEcho (asReply shortPacket 65167) receivedAt :=
    ⟨by decide +kernel, ⟨[], by decide +kernel⟩, by decide +kernel, rfl⟩
  rw [← hpacket] at hv hd
  obtain ⟨r', hrun, hn⟩ := exists_late hp
  obtain ⟨ip, hacc, hck, hreply, -, -, htrip, hdup, -⟩ := echo_law plainEnv {} hr rfl (by decide)
    (by decide) sentAt receivedAt (by decide) (by decide) hp hrun (by rw [hn]; decide) hv hd []
  have hgood : GoodReply r' shortEcho 1 := by
    refine ⟨ip, hacc, by simpa [arrival4] using hck, ?_⟩
    exact congrArg Reply.seq hreply
  exact ⟨p, r', ip, hp, hrun, hn, hacc, htrip, hdup.mpr ⟨shortEcho, List.mem_singleton.mpr rfl, hgood⟩⟩

end Iputils.EchoLaw
