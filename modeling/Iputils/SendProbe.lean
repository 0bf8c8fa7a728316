import Iputils.PingState
import Iputils.InCksum
import Mathlib.Tactic.Ring

/-!
# Composing an echo request

`ping4_send_probe` writes the ICMP header into `outpack`, stores the time of day
in front of the payload and fills in the checksum. Without `opt_latency` the
checksum is first taken over a zeroed timestamp, and the sixteen bytes of the
clock reading are folded in afterwards. `sendto` and the clock are parameters.
-/
set_option autoImplicit false

namespace Iputils.SendProbe
open MachineInt PingState ReceivedTable ByteBuffer OnesComplement InCksum

/-- What one call leaves behind: the state, the bytes handed to `sendto` and the
return value. -/
structure Probe where
  rts : Rts
  packet : List UInt8
  status : ℤ

/-- The header fields in the order of the source; `htons` stores the sequence
number in network order, the identifier keeps the order of the machine. -/
def writeHeader (packet : List UInt8) (ident seq : ℤ) : List UInt8 :=
  let icp := store packet 0 [8, 0]
  let icp := store icp 2 (le16 0)
  let icp := store icp 6 (be16 seq)
  store icp 4 (le16 ident)

def writeTimestamp (r : Rts) (icp tv : List UInt8) : List UInt8 :=
  if r.timing then
    if r.optLatency then store icp 8 tv
    else store icp 8 (List.replicate timevalSize.toNat 0)
  else icp

/-- The second pass: the clock reading and the checksum with it folded in. -/
def foldTimestamp (r : Rts) (icp tv : List UInt8) (checksum : ℤ) : Option (List UInt8) :=
  if r.timing && !r.optLatency then
    (inCksum tv timevalSize.toNat (u16 (-checksum - 1))).map fun ck =>
      store (store icp 8 tv) 2 (le16 ck)
  else some icp

/-- `tv` is the clock reading of the call, as bytes. -/
def ping4SendProbe (r : Rts) (tv : List UInt8) (sendto : List UInt8 → ℤ) : Option Probe := do
  let icp := writeHeader r.outpack r.ident (r.ntransmitted + 1)
  let r := { r with rcvdTbl := rcvdClear r.rcvdTbl (r.ntransmitted + 1) }
  let icp := writeTimestamp r icp tv
  let cc := r.datalen + 8
  let checksum ← inCksum icp cc.toNat 0
  let icp ← foldTimestamp r (store icp 2 (le16 checksum)) tv checksum
  let packet := icp.take cc.toNat
  let i := sendto packet
  pure ⟨{ r with outpack := icp }, packet, if cc = i then 0 else i⟩

/-- The flag is raised by `ping4_run` before the socket is set up. -/
def startTiming (r : Rts) : Rts :=
  if r.datalen ≥ timevalSize then { r with timing := true } else r

/-- What `main` and `ping4_run` guarantee when the first probe is sent. -/
structure Ready (r : Rts) : Prop where
  buffer : r.outpack.length = maxpacket
  datalen_nonneg : 0 ≤ r.datalen
  datalen_le : r.datalen ≤ 65527
  timing : r.timing = true → timevalSize ≤ r.datalen

theorem ready_startTiming {r : Rts} (hb : r.outpack.length = maxpacket) (h₀ : 0 ≤ r.datalen)
    (h₁ : r.datalen ≤ 65527) (ht : r.timing = false) : Ready (startTiming r) := by
  unfold startTiming
  split_ifs with h
  · exact ⟨hb, h₀, h₁, fun _ => h⟩
  · exact ⟨hb, h₀, h₁, fun h' => by simp [ht] at h'⟩

/-- The header with a given checksum field. -/
def header (ident seq checksum : ℤ) : List UInt8 :=
  [8, 0] ++ le16 checksum ++ le16 ident ++ be16 seq

/-- The checksum field of a packet. -/
def checksumField : List UInt8 → ℤ
  | _ :: _ :: lo :: hi :: _ => loadWord lo hi
  | _ => 0

@[simp] theorem header_length (ident seq ck : ℤ) : (header ident seq ck).length = 8 := rfl

theorem store_checksum (ident seq a b : ℤ) (p : List UInt8) :
    store (header ident seq a ++ p) 2 (le16 b) = header ident seq b ++ p := rfl

theorem checksumField_header (ident seq : ℤ) {ck : ℤ} (h₀ : 0 ≤ ck) (h₁ : ck ≤ 65535)
    (p : List UInt8) : checksumField (header ident seq ck ++ p) = ck := by
  change loadWord (byteOf ck) (byteOf (ck / 256)) = ck
  simp only [loadWord, byteVal_byteOf]
  omega

/-- The checksum field adds its own value, and the type field keeps the sum positive. -/
theorem wordSum_header (ident seq : ℤ) {ck : ℤ} (h₀ : 0 ≤ ck) (h₁ : ck ≤ 65535) :
    wordSum (header ident seq ck) = ck + wordSum (header ident seq 0) := by
  have h : loadWord (byteOf ck) (byteOf (ck / 256)) = ck :=
    checksumField_header ident seq h₀ h₁ []
  have h' : loadWord (byteOf 0) (byteOf (0 / 256)) = 0 :=
    checksumField_header ident seq le_rfl (by norm_num) []
  simp only [header, le16, be16, List.cons_append, List.nil_append, wordSum, h, h']
  ring

theorem wordSum_header_pos (ident seq : ℤ) : 0 < wordSum (header ident seq 0) := by
  have h₁ := wordSum_nonneg (le16 0 ++ le16 ident ++ be16 seq)
  have h₂ : wordSum (header ident seq 0) = 8 + wordSum (le16 0 ++ le16 ident ++ be16 seq) := rfl
  omega

theorem wordSum_packet (ident seq ck : ℤ) (p : List UInt8) :
    wordSum (header ident seq ck ++ p) = wordSum (header ident seq ck) + wordSum p :=
  wordSum_append (by rw [header_length])

theorem writeHeader_eq {buf : List UInt8} (h : 8 ≤ buf.length) (ident seq : ℤ) :
    writeHeader buf ident seq = header ident seq 0 ++ buf.drop 8 := by
  obtain ⟨a, b, c, d, e, f, g, i, post, rfl⟩ := exists_eight h
  rfl

/-- The checksum that makes a packet with this payload verify. -/
def sealOf (ident seq : ℤ) (payload : List UInt8) : ℤ :=
  complement (fold (wordSum (header ident seq 0 ++ payload)))

theorem sealOf_nonneg (ident seq : ℤ) (p : List UInt8) : 0 ≤ sealOf ident seq p :=
  sub_nonneg.mpr (fold_le _)

theorem sealOf_le (ident seq : ℤ) (p : List UInt8) : sealOf ident seq p ≤ 65535 := by
  have h := fold_nonneg (wordSum (header ident seq 0 ++ p))
  unfold sealOf complement
  omega

theorem take_header (ident seq ck : ℤ) (p : List UInt8) (n : ℕ) :
    (header ident seq ck ++ p).take (n + 8) = header ident seq ck ++ p.take n := by
  rw [List.take_append, List.take_of_length_le (by simp)]
  simp

theorem take_stamp {w : List UInt8} (hw : w.length = 16) (rest : List UInt8) {n : ℕ}
    (hn : 16 ≤ n) : (w ++ rest).take n = w ++ rest.take (n - 16) := by
  rw [List.take_append, List.take_of_length_le (by omega), hw]

/-- The timestamp is the first 16 bytes behind the header. -/
theorem store_stamp (ident seq ck : ℤ) {old new : List UInt8} (ho : old.length = 16)
    (hw : new.length = 16) (rest : List UInt8) :
    store (header ident seq ck ++ (old ++ rest)) 8 new =
      header ident seq ck ++ (new ++ rest) :=
  @store_append (header ident seq ck) old rest new (by rw [ho, hw])

/-- One pass over a packet whose checksum field is zero. -/
theorem inCksum_blank (ident seq : ℤ) {p : List UInt8} {n : ℕ} (hn : n ≤ p.length)
    (hmax : n ≤ 65527) :
    inCksum (header ident seq 0 ++ p) (n + 8) 0 = some (sealOf ident seq (p.take n)) := by
  rw [inCksum_eq (by simp; omega) (by omega) le_rfl (by norm_num), take_header, zero_add, sealOf]

/-- A sealed packet verifies. -/
theorem inCksum_sealed (ident seq : ℤ) {p : List UInt8} (hmax : p.length ≤ 65527) :
    inCksum (header ident seq (sealOf ident seq p) ++ p) (p.length + 8) 0 = some 0 := by
  have hlen : (header ident seq (sealOf ident seq p) ++ p).length = p.length + 8 := by
    simp [add_comm]
  have hpos : 0 < wordSum (header ident seq 0 ++ p) := by
    rw [wordSum_packet]
    have h₁ := wordSum_header_pos ident seq
    have h₂ := wordSum_nonneg p
    omega
  have hsum : 0 + wordSum (header ident seq (sealOf ident seq p) ++ p) =
      wordSum (header ident seq 0 ++ p) + complement (fold (wordSum (header ident seq 0 ++ p))) := by
    rw [wordSum_packet, wordSum_header ident seq (sealOf_nonneg _ _ _) (sealOf_le _ _ _),
      ← sealOf, wordSum_packet]
    ring
  rw [inCksum_eq (by omega) (by omega) le_rfl (by norm_num),
    List.take_of_length_le (by omega), hsum, fold_add_complement hpos]
  rfl

/-- Folding the timestamp in afterwards gives the seal of the final payload. -/
theorem inCksum_fold (ident seq : ℤ) {tv q : List UInt8} (htv : tv.length = 16) :
    inCksum tv 16 (u16 (-sealOf ident seq (List.replicate 16 0 ++ q) - 1)) =
      some (sealOf ident seq (tv ++ q)) := by
  have hzero : wordSum (header ident seq 0 ++ (List.replicate 16 0 ++ q)) =
      wordSum (header ident seq 0) + wordSum q := by
    rw [wordSum_packet, wordSum_append (by simp), wordSum_zero, zero_add]
  have hfinal : wordSum (header ident seq 0 ++ (tv ++ q)) =
      wordSum (header ident seq 0) + wordSum q + wordSum tv := by
    rw [wordSum_packet, wordSum_append (by rw [htv])]
    ring
  have hpos : 0 < wordSum (header ident seq 0) + wordSum q := by
    have h₁ := wordSum_header_pos ident seq
    have h₂ := wordSum_nonneg q
    omega
  have hinv : u16 (-sealOf ident seq (List.replicate 16 0 ++ q) - 1) =
      fold (wordSum (header ident seq 0) + wordSum q) := by
    have h₀ := fold_nonneg (wordSum (header ident seq 0) + wordSum q)
    have h₁ := fold_le (wordSum (header ident seq 0) + wordSum q)
    rw [sealOf, hzero]
    unfold complement u16
    omega
  rw [hinv, inCksum_eq (by omega) (by norm_num) (fold_nonneg _) (fold_le _),
    List.take_of_length_le (by omega), fold_fold_add hpos (wordSum_nonneg tv), sealOf, hfinal]

/-- The bytes behind the header once the call is over. -/
def finalPayload (r : Rts) (tv : List UInt8) : List UInt8 :=
  (if r.timing then tv ++ r.outpack.drop 24 else r.outpack.drop 8).take r.datalen.toNat

theorem length_finalPayload {r : Rts} (hr : Ready r) {tv : List UInt8} (htv : tv.length = 16) :
    (finalPayload r tv).length = r.datalen.toNat := by
  have hb := hr.buffer
  have h₁ := hr.datalen_le
  unfold maxpacket at hb
  unfold finalPayload
  split_ifs <;> simp [htv, hb] <;> omega

/-- The buffer of a ready state, cut where the timestamp starts and ends. -/
theorem drop_eight {r : Rts} (hr : Ready r) :
    r.outpack.drop 8 = (r.outpack.drop 8).take 16 ++ r.outpack.drop 24 ∧
      ((r.outpack.drop 8).take 16).length = 16 := by
  have hb := hr.buffer
  unfold maxpacket at hb
  constructor
  · have h := (List.take_append_drop 16 (r.outpack.drop 8)).symm
    rwa [List.drop_drop] at h
  · simp
    omega

theorem writeHeader_ready {r : Rts} (hr : Ready r) (ident seq : ℤ) :
    writeHeader r.outpack ident seq = header ident seq 0 ++ r.outpack.drop 8 := by
  have hb := hr.buffer
  unfold maxpacket at hb
  exact writeHeader_eq (by omega) ident seq

/-- One pass over a packet with a timestamp. -/
theorem inCksum_stamped {r : Rts} (hr : Ready r) {n : ℕ} (hn : 16 ≤ n) (hmax : n ≤ 65527)
    (ident seq : ℤ) {w : List UInt8} (hw : w.length = 16) :
    inCksum (header ident seq 0 ++ (w ++ r.outpack.drop 24)) (n + 8) 0 =
      some (sealOf ident seq (w ++ (r.outpack.drop 24).take (n - 16))) := by
  have hb := hr.buffer
  unfold maxpacket at hb
  rw [inCksum_blank ident seq (by simp [hw]; omega) hmax, take_stamp hw _ hn]

/-- In both modes the packet handed to `sendto` carries the seal of its payload. -/
theorem ping4SendProbe_packet {r : Rts} (hr : Ready r) {tv : List UInt8} (htv : tv.length = 16)
    (sendto : List UInt8 → ℤ) :
    ∃ p, ping4SendProbe r tv sendto = some p ∧
      p.packet = header r.ident (r.ntransmitted + 1)
        (sealOf r.ident (r.ntransmitted + 1) (finalPayload r tv)) ++ finalPayload r tv := by
  have hb := hr.buffer
  have h₁ := hr.datalen_le
  unfold maxpacket at hb
  obtain ⟨n, hn⟩ := Int.eq_ofNat_of_zero_le hr.datalen_nonneg
  have hcc : (r.datalen + 8).toNat = n + 8 := by omega
  generalize hid : r.ident = id
  generalize hseq : r.ntransmitted + 1 = seq
  have hhead := writeHeader_ready hr id seq
  cases ht : r.timing with
  | false =>
      have hp : finalPayload r tv = (r.outpack.drop 8).take n := by simp [finalPayload, ht, hn]
      have hck := inCksum_blank id seq (p := r.outpack.drop 8) (n := n) (by simp; omega) (by omega)
      simp only [ping4SendProbe, hid, hseq, hhead, hcc, writeTimestamp, foldTimestamp, ht,
        Bool.false_eq_true, if_false, Bool.false_and, hck, store_checksum, Option.bind_eq_bind,
        Option.bind_some, Option.pure_def, take_header]
      exact ⟨_, rfl, by rw [hp]⟩
  | true =>
      have h₂ : 16 ≤ n := by
        have := hr.timing ht
        unfold timevalSize at this
        omega
      obtain ⟨hsplit, hold⟩ := drop_eight hr
      have hp : finalPayload r tv = tv ++ (r.outpack.drop 24).take (n - 16) := by
        rw [finalPayload, ht, hn]
        exact take_stamp htv _ h₂
      have hblank := fun w hw => @inCksum_stamped r hr n h₂ (by omega) id seq w hw
      rw [hsplit] at hhead
      cases hl : r.optLatency with
      | true =>
          simp only [ping4SendProbe, hid, hseq, hhead, hcc, writeTimestamp, foldTimestamp, ht, hl,
            if_true, Bool.not_true, Bool.and_false, Bool.false_eq_true, if_false,
            store_stamp id seq 0 hold htv, hblank tv htv, store_checksum, Option.bind_eq_bind,
            Option.bind_some, Option.pure_def, take_header, take_stamp htv _ h₂]
          exact ⟨_, rfl, by rw [hp]⟩
      | false =>
          have hz : (List.replicate 16 (0 : UInt8)).length = 16 := by simp
          have hsize : timevalSize.toNat = 16 := rfl
          simp only [ping4SendProbe, hid, hseq, hhead, hcc, writeTimestamp, foldTimestamp, ht, hl,
            hsize, if_true, Bool.not_false, Bool.and_true, Bool.false_eq_true, if_false,
            store_stamp id seq 0 hold hz, hblank _ hz, store_checksum, Option.bind_eq_bind,
            Option.bind_some, Option.pure_def, inCksum_fold id seq htv, Option.map_some,
            store_stamp id seq _ hz htv, take_header, take_stamp htv _ h₂]
          exact ⟨_, rfl, by rw [hp]⟩

/-- The checksum field is the checksum of the packet with that field zero, the
packet verifies, and no accumulation of up to 65535 bytes overflows. -/
theorem probe_checksum_verifies {r : Rts} (hr : Ready r) {tv : List UInt8}
    (htv : tv.length = 16) (sendto : List UInt8 → ℤ) :
    (∃ p, ping4SendProbe r tv sendto = some p ∧
      (p.packet.length : ℤ) = r.datalen + 8 ∧
      inCksum (store p.packet 2 (le16 0)) p.packet.length 0 = some (checksumField p.packet) ∧
      inCksum p.packet p.packet.length 0 = some 0) ∧
    ∀ (addr : List UInt8) (len : ℕ) (csum : ℤ), len ≤ addr.length → len ≤ 65535 →
      0 ≤ csum → csum ≤ 65535 → (inCksum addr len csum).isSome := by
  constructor
  · obtain ⟨p, hp, hpkt⟩ := ping4SendProbe_packet hr htv sendto
    have hlen := length_finalPayload hr htv
    have h₀ := hr.datalen_nonneg
    have h₁ := hr.datalen_le
    have hplen : p.packet.length = (finalPayload r tv).length + 8 := by
      rw [hpkt, List.length_append, header_length, add_comm]
    refine ⟨p, hp, by omega, ?_, ?_⟩
    · rw [hplen, hpkt, store_checksum, inCksum_blank _ _ le_rfl (by omega), List.take_length,
        checksumField_header _ _ (sealOf_nonneg _ _ _) (sealOf_le _ _ _)]
    · rw [hplen, hpkt, inCksum_sealed _ _ (by omega)]
  · intro addr len csum hlen hmax h₀ h₁
    rw [inCksum_eq hlen hmax h₀ h₁]
    rfl

/-- The default payload, with the timestamp folded in afterwards. -/
theorem probe_checksum_verifies_default :
    Ready (startTiming {}) ∧
    ∃ p, ping4SendProbe (startTiming {}) (List.replicate 16 255) (fun _ => 64) = some p ∧
      inCksum p.packet p.packet.length 0 = some 0 := by
  have hr : Ready (startTiming {}) := by
    refine ready_startTiming ?_ (by decide) (by decide) rfl
    exact List.length_replicate
  have htv : (List.replicate 16 (255 : UInt8)).length = 16 := List.length_replicate
  obtain ⟨p, hp, -, -, hv⟩ := (probe_checksum_verifies hr htv fun _ => 64).1
  exact ⟨hr, p, hp, hv⟩

end Iputils.SendProbe
