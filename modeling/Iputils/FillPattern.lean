import Iputils.CheckedMemory
import Iputils.LineTimes
import Iputils.NodeInfo

/-!
# The fill pattern

`fill` writes the bytes of the option `-p` over the packet, from the ninth byte on. Its outer
loop writes whole patterns only. It never leaves the packet and leaves the header alone. What
is left over of the packet behind the last whole pattern keeps its old bytes.
-/
set_option autoImplicit false

namespace Iputils.FillPattern
open ByteBuffer CheckedMemory LineTimes MachineInt NodeInfo PingState ScanText

section Code

inductive Failure
  | patterns (cp : List Char)
  | memory (fault : Fault)
deriving Repr, DecidableEq

/-- The text of `ping_error`. -/
def Failure.text : Failure → List Char
  | .patterns cp => "patterns must be specified as hex digits: ".toList ++ cp
  | .memory _ => []

/-- The loop over `patp`. -/
def checkDigits : List Char → Except Failure Unit
  | [] => .ok ()
  | c :: cp => if isHexDigit c then checkDigits cp else .error (.patterns (c :: cp))

/-- The conversions `%2x` in a row, on a string of digits. -/
def scanPairs : List Char → List ℕ
  | [] => []
  | [c] => [digitsValue 16 [c]]
  | c :: d :: s => digitsValue 16 [c, d] :: scanPairs s

/-- The array `pat` as far as `sscanf` fills it; `ii` is its length. For the empty string `ii`
is negative, which has the same effect. -/
def scanPattern (patp : List Char) : List ℕ := (scanPairs patp).take 16

/-- An assignment to `packet[i]`. -/
def assign (packet : List UInt8) (i : ℕ) (b : UInt8) : Except Fault (List UInt8) :=
  if i < packet.length then .ok (packet.set i b) else .error (.write i)

/-- The inner loop, from `jj` on; `pat` holds the bytes that are still to be written. -/
def writePattern (kk : ℤ) : ℤ → List ℕ → List UInt8 → Except Fault (List UInt8)
  | _, [], packet => .ok packet
  | jj, v :: pat, packet => do
      let packet ← assign packet (8 + u32 (jj + kk)).toNat (UInt8.ofNat v)
      writePattern kk (jj + 1) pat packet

/-- The outer loop, from `kk` on. -/
def writeRounds (pat : List ℕ) (bound : ℤ) : ℕ → ℤ → List UInt8 → Except Fault (List UInt8)
  | 0, _, _ => .error .endless
  | fuel + 1, kk, packet =>
      if kk ≤ bound then do
        let packet ← writePattern kk 0 pat packet
        writeRounds pat bound fuel (u32 (kk + pat.length)) packet
      else .ok packet

/-- The bytes are read back from the packet for the line that is printed. -/
def patternLine (ii : ℕ) (packet : List UInt8) : Except Fault (List Char) := do
  let shown ← loadBlock (fun i => packet.getD i 0) packet.length 8 ii
  .ok ("PATTERN: 0x".toList ++ shown.flatMap (hex02Text ∘ byteVal) ++ ['\n'])

/-- `fill`: the packet and what is printed. -/
def fill (optQuiet : Bool) (patp : List Char) (packet : List UInt8) (packetSize : ℤ) :
    Except Failure (List UInt8 × List Char) := do
  checkDigits patp
  let pat := scanPattern patp
  let bound := u32 (packetSize - (8 + pat.length))
  let packet ← (if 0 < pat.length then writeRounds pat bound (packet.length + 1) 0 packet
    else .ok packet).mapError .memory
  let text ← (if optQuiet then .ok [] else patternLine pat.length packet).mapError .memory
  .ok (packet, text)

end Code

/-! ## The conversions -/

section Conversions

theorem checkDigits_ok {patp : List Char} (h : ∀ c ∈ patp, isHexDigit c = true) :
    checkDigits patp = .ok () := by
  induction patp with
  | nil => rfl
  | cons c cp ih =>
      rw [checkDigits, if_pos (h c List.mem_cons_self)]
      exact ih fun d hd => h d (List.mem_cons_of_mem _ hd)

theorem length_scanPairs (s : List Char) : (scanPairs s).length = (s.length + 1) / 2 := by
  fun_induction scanPairs s with
  | case1 => rfl
  | case2 c => exact (Nat.div_self Nat.two_pos).symm
  | case3 c d s ih =>
      simp only [List.length_cons, ih]
      omega

/-- Two digits make one byte, and there are at most 16 bytes. -/
theorem length_scanPattern (patp : List Char) :
    (scanPattern patp).length = min 16 ((patp.length + 1) / 2) := by
  rw [scanPattern, List.length_take, length_scanPairs]

theorem toNat_lt_of_isHexDigit {c : Char} (h : isHexDigit c = true) : c.toNat < 103 := by
  simp only [isHexDigit, Char.isDigit, Bool.or_eq_true, Bool.and_eq_true, decide_eq_true_eq,
    Char.le_def, UInt32.le_iff_toNat_le] at h
  rcases h with (h | h) | h
  · exact h.2.trans_lt (by decide)
  · exact h.2.trans_lt (by decide)
  · exact h.2.trans_lt (by decide)

theorem digitValue_lt {c : Char} (h : isHexDigit c = true) : digitValue c < 16 := by
  have hchars : ∀ n < 103, isHexDigit (Char.ofNat n) = true → digitValue (Char.ofNat n) < 16 := by
    decide
  have hvalue := hchars c.toNat (toNat_lt_of_isHexDigit h)
  rw [Char.ofNat_toNat] at hvalue
  exact hvalue h

theorem scanPairs_lt {s : List Char} (h : ∀ c ∈ s, isHexDigit c = true) :
    ∀ v ∈ scanPairs s, v < 256 := by
  fun_induction scanPairs s with
  | case1 => simp
  | case2 c =>
      intro v hv
      have hc := digitValue_lt (h c (by simp))
      rw [List.mem_singleton.mp hv, digitsValue]
      simp only [List.foldl_cons, List.foldl_nil]
      omega
  | case3 c d s ih =>
      intro v hv
      rcases List.mem_cons.mp hv with rfl | hv
      · have hc := digitValue_lt (h c (by simp))
        have hd := digitValue_lt (h d (by simp))
        rw [digitsValue]
        simp only [List.foldl_cons, List.foldl_nil]
        omega
      · exact ih (fun e he => h e (by simp [he])) v hv

theorem scanPattern_lt {s : List Char} (h : ∀ c ∈ s, isHexDigit c = true) :
    ∀ v ∈ scanPattern s, v < 256 :=
  fun v hv => scanPairs_lt h v (List.mem_of_mem_take hv)

end Conversions

/-! ## The loops -/

section Loops
variable {pat : List ℕ} {old packet : List UInt8}

/-- The inner loop writes its bytes one behind the other. -/
theorem writePattern_ok {kk jj : ℕ} (hfit : 8 + kk + jj + pat.length ≤ packet.length)
    (hsize : packet.length < 4294967296) :
    writePattern kk jj pat packet = .ok (store packet (8 + kk + jj) (pat.map UInt8.ofNat)) := by
  induction pat generalizing jj packet with
  | nil => rw [writePattern, List.map_nil, store_nil]
  | cons v pat ih =>
      rw [List.length_cons] at hfit
      have hindex : (8 + u32 ((jj : ℤ) + kk)).toNat = 8 + kk + jj := by
        unfold u32
        omega
      have hassign : assign packet (8 + kk + jj) (UInt8.ofNat v) =
          .ok (packet.set (8 + kk + jj) (UInt8.ofNat v)) := if_pos (by omega)
      have hrest : writePattern kk (jj + 1 : ℕ) pat (packet.set (8 + kk + jj) (UInt8.ofNat v)) =
          .ok (store _ (8 + kk + (jj + 1)) (pat.map UInt8.ofNat)) :=
        ih (by rw [List.length_set]; omega) (by rwa [List.length_set])
      rw [Nat.cast_add, Nat.cast_one] at hrest
      rw [writePattern, hindex, hassign, List.map_cons, ← store_set (by omega)]
      exact hrest

/-- The first `m` bytes behind the header hold the pattern, and all others are the old ones. -/
structure Filled (old : List UInt8) (pat : List ℕ) (m : ℕ) (packet : List UInt8) : Prop where
  length_eq : packet.length = old.length
  inside : ∀ k < m, packet.getD (8 + k) 0 = UInt8.ofNat (pat.getD (k % pat.length) 0)
  outside : ∀ i, i < 8 ∨ 8 + m ≤ i → packet.getD i 0 = old.getD i 0

theorem Filled.start (old : List UInt8) (pat : List ℕ) : Filled old pat 0 old :=
  ⟨rfl, fun _ hk => absurd hk (Nat.not_lt_zero _), fun _ _ => rfl⟩

/-- One more pattern behind the whole patterns written so far. -/
theorem Filled.round {q : ℕ} (h : Filled old pat (pat.length * q) packet)
    (hfit : 8 + pat.length * (q + 1) ≤ packet.length) :
    Filled old pat (pat.length * (q + 1))
      (store packet (8 + pat.length * q) (pat.map UInt8.ofNat)) := by
  have hlen : (pat.map UInt8.ofNat).length = pat.length := List.length_map _
  rw [Nat.mul_succ] at hfit ⊢
  constructor
  · rw [length_store (by omega), h.length_eq]
  · intro k hk
    by_cases hold : k < pat.length * q
    · rw [getD_store_of_lt (by omega) (by omega), h.inside k hold]
    · obtain ⟨j, rfl⟩ := Nat.exists_eq_add_of_le (Nat.le_of_not_lt hold)
      have hj : j < pat.length := by omega
      rw [← Nat.add_assoc, getD_store_add (by omega) (by omega), Nat.mul_add_mod,
        Nat.mod_eq_of_lt hj]
      simp [List.getD_eq_getElem?_getD, hj]
  · intro i hi
    rw [← h.outside i (by omega)]
    by_cases hheader : i < 8
    · exact getD_store_of_lt (by omega) (by omega)
    · exact getD_store_of_le (by omega) (by omega)

/-- A round of the outer loop. -/
theorem writeRounds_round {q fuel : ℕ} {bound : ℤ} (hsize : packet.length < 4294967296)
    (hfit : 8 + pat.length * (q + 1) ≤ packet.length) (hbound : (pat.length * q : ℕ) ≤ bound) :
    writeRounds pat bound (fuel + 1) (pat.length * q : ℕ) packet =
      writeRounds pat bound fuel (pat.length * (q + 1) : ℕ)
        (store packet (8 + pat.length * q) (pat.map UInt8.ofNat)) := by
  rw [Nat.mul_succ] at hfit ⊢
  have hwrite : writePattern (pat.length * q : ℕ) (0 : ℕ) pat packet =
      .ok (store packet (8 + pat.length * q + 0) (pat.map UInt8.ofNat)) :=
    writePattern_ok (by omega) hsize
  have hnext : u32 ((pat.length * q : ℕ) + pat.length) = (pat.length * q + pat.length : ℕ) := by
    unfold u32
    omega
  rw [Nat.cast_zero, Nat.add_zero] at hwrite
  rw [writeRounds, if_pos hbound, hwrite, hnext]
  rfl

/-- The outer loop stops at the last multiple of the length of the pattern that fits. -/
theorem writeRounds_ok {q fuel : ℕ} (hpat : 0 < pat.length) (hsize : old.length < 4294967296)
    (hq : q ≤ (old.length - 8) / pat.length) (hroom : 8 + pat.length ≤ old.length)
    (hfuel : (old.length - 8) / pat.length < q + fuel)
    (h : Filled old pat (pat.length * q) packet) :
    ∃ filled, writeRounds pat (u32 (old.length - (8 + pat.length))) fuel
        (pat.length * q : ℕ) packet = .ok filled ∧
      Filled old pat (pat.length * ((old.length - 8) / pat.length)) filled := by
  have hbound : u32 (old.length - (8 + pat.length)) = old.length - (8 + pat.length) := by
    unfold u32
    omega
  induction fuel generalizing q packet with
  | zero => omega
  | succ fuel ih =>
      have hlen := h.length_eq
      have hnext : q + 1 ≤ (old.length - 8) / pat.length ↔
          pat.length * (q + 1) ≤ old.length - 8 := by
        rw [Nat.le_div_iff_mul_le hpat, Nat.mul_comm]
      rcases hq.lt_or_eq with hq | rfl
      · -- another pattern fits
        have hle := hnext.mp hq
        have hfit : 8 + pat.length * (q + 1) ≤ packet.length := by omega
        rw [writeRounds_round (by omega) hfit (by rw [hbound]; rw [Nat.mul_succ] at hle; omega)]
        exact ih hq (by omega) (h.round hfit)
      · have hlt := mt hnext.mpr (Nat.not_succ_le_self _)
        rw [Nat.mul_succ] at hlt
        exact ⟨packet, if_neg (by rw [hbound]; omega), h⟩

end Loops

/-! ## The payload -/

section Payload
variable {optQuiet : Bool} {patp : List Char} {packet filled : List UInt8}

/-- Byte `k` of the first `datalen` bytes of the payload is byte `k` of the repeated pattern. -/
def Periodic (pat : List ℕ) (packet : List UInt8) (datalen : ℕ) : Prop :=
  ∀ k < datalen, (packet.getD (8 + k) 0).toNat = pat.getD (k % pat.length) 0

/-- The length of the payload that whole patterns cover. -/
def covered (pat : List ℕ) : ℕ := pat.length * ((maxpacket - 8) / pat.length)

theorem pattern_pos (hne : patp ≠ []) : 0 < (scanPattern patp).length := by
  have hlen := List.length_pos_iff.mpr hne
  rw [length_scanPattern]
  omega

/-- What is printed. -/
def patternText (optQuiet : Bool) (pat : List ℕ) : List Char :=
  if optQuiet then []
  else "PATTERN: 0x".toList ++ (pat.map UInt8.ofNat).flatMap (hex02Text ∘ byteVal) ++ ['\n']

/-- The bytes that are read back are the pattern. -/
theorem patternLine_ok {old : List UInt8} {pat : List ℕ} {m : ℕ} (h : Filled old pat m packet)
    (hpat : pat.length ≤ m) (hfit : 8 + pat.length ≤ packet.length) :
    patternLine pat.length packet = .ok (patternText false pat) := by
  have hshown : ((List.range pat.length).map fun i => packet.getD (8 + i) 0) =
      pat.map UInt8.ofNat := by
    apply List.ext_getElem
    · rw [List.length_map, List.length_range, List.length_map]
    · intro k hk hk'
      rw [List.length_map] at hk'
      rw [List.getElem_map, List.getElem_map, List.getElem_range, h.inside k (by omega),
        Nat.mod_eq_of_lt hk', List.getD_eq_getElem _ _ hk']
  have hload := (loadBlock_decides (fun i => packet.getD i 0) packet.length 8 pat.length).ok hfit
  rw [patternLine, hload, hshown]
  rfl

/-- On a string of digits the function succeeds: every write stays inside the packet. -/
theorem fill_ok (optQuiet : Bool) (hne : patp ≠ []) (hhex : ∀ c ∈ patp, isHexDigit c = true)
    (hbuf : packet.length = maxpacket) :
    ∃ filled, fill optQuiet patp packet maxpacket =
        .ok (filled, patternText optQuiet (scanPattern patp)) ∧
      Filled packet (scanPattern patp) (covered (scanPattern patp)) filled := by
  have hpos := pattern_pos hne
  have hle : (scanPattern patp).length ≤ 16 := by
    rw [length_scanPattern]
    exact Nat.min_le_left _ _
  have hmax : packet.length = 65535 := hbuf
  have hdiv := Nat.div_le_self (packet.length - 8) (scanPattern patp).length
  have hfuel : (packet.length - 8) / (scanPattern patp).length < 0 + (packet.length + 1) := by omega
  obtain ⟨filled, hrounds, hfilled⟩ := writeRounds_ok hpos (by omega) (Nat.zero_le _) (by omega)
    hfuel (Filled.start packet (scanPattern patp))
  rw [Nat.mul_zero, Nat.cast_zero] at hrounds
  have hlen := hfilled.length_eq
  have hone : 1 ≤ (packet.length - 8) / (scanPattern patp).length :=
    (Nat.one_le_div_iff hpos).mpr (by omega)
  have hline := patternLine_ok hfilled (Nat.le_mul_of_pos_right _ hone) (by omega)
  rw [hbuf] at hrounds hfilled
  have htext : (if optQuiet then .ok [] else patternLine (scanPattern patp).length filled) =
      .ok (patternText optQuiet (scanPattern patp)) := by
    cases optQuiet
    · exact hline
    · rfl
  refine ⟨filled, ?_, hfilled⟩
  simp only [fill, checkDigits_ok hhex, hbuf, if_pos hpos, hrounds, Except.mapError, bind,
    Except.bind, htext]

/-- The bytes that a payload shows are the pattern exactly if those behind the last whole pattern
were so before. -/
theorem periodic_iff {pat : List ℕ} (hfilled : Filled packet pat (covered pat) filled)
    (hlt : ∀ v ∈ pat, v < 256) (hpos : 0 < pat.length) (datalen : ℕ) :
    Periodic pat filled datalen ↔ ∀ k, covered pat ≤ k → k < datalen →
      (packet.getD (8 + k) 0).toNat = pat.getD (k % pat.length) 0 := by
  constructor
  · intro h k hcovered hk
    rw [← hfilled.outside (8 + k) (Or.inr (by omega))]
    exact h k hk
  · intro h k hk
    by_cases hcovered : k < covered pat
    · have hmod : k % pat.length < pat.length := Nat.mod_lt _ hpos
      rw [hfilled.inside k hcovered, List.getD_eq_getElem _ _ hmod, UInt8.toNat_ofNat',
        Nat.mod_eq_of_lt (hlt _ (List.getElem_mem hmod))]
    · rw [hfilled.outside (8 + k) (Or.inr (by omega))]
      exact h k (Nat.le_of_not_lt hcovered) hk

/-- `fill` stays inside the packet and leaves the header alone. The payload shows the repeated
pattern exactly as far as whole patterns reach, or as its old bytes happen to continue it. -/
theorem fill_periodic_iff (hne : patp ≠ []) (hhex : ∀ c ∈ patp, isHexDigit c = true)
    (hbuf : packet.length = maxpacket) :
    ∃ filled text, fill optQuiet patp packet maxpacket = .ok (filled, text) ∧
      filled.length = maxpacket ∧ filled.take 8 = packet.take 8 ∧
      (scanPattern patp).length = min 16 ((patp.length + 1) / 2) ∧
      ∀ datalen ≤ 65527, Periodic (scanPattern patp) filled datalen ↔
        ∀ k, covered (scanPattern patp) ≤ k → k < datalen →
          (packet.getD (8 + k) 0).toNat =
            (scanPattern patp).getD (k % (scanPattern patp).length) 0 := by
  obtain ⟨filled, hok, hfilled⟩ := fill_ok optQuiet hne hhex hbuf
  refine ⟨filled, _, hok, hfilled.length_eq.trans hbuf, ?_, length_scanPattern patp, ?_⟩
  · have hagree : ∀ i < 8, packet.getD i 0 = filled.getD i 0 := fun i hi =>
      (hfilled.outside i (Or.inl hi)).symm
    exact (agree_of_getD hfilled.length_eq hagree).symm
  · intro datalen _
    exact periodic_iff hfilled (scanPattern_lt hhex) (pattern_pos hne) datalen

theorem fill_periodic_single :
    ∃ filled text, fill true ['f', 'f'] (List.replicate maxpacket 0) maxpacket =
        .ok (filled, text) ∧ Periodic (scanPattern ['f', 'f']) filled 65527 := by
  have hhex : ∀ c ∈ ['f', 'f'], isHexDigit c = true := List.all_eq_true.mp rfl
  obtain ⟨filled, text, hok, -, -, -, hperiodic⟩ :=
    @fill_periodic_iff true _ (List.replicate maxpacket 0) (List.cons_ne_nil _ _) hhex
      List.length_replicate
  have hcovered : covered (scanPattern ['f', 'f']) = 65527 := by decide
  refine ⟨filled, text, hok, (hperiodic 65527 le_rfl).mpr fun k hk hlt => ?_⟩
  rw [hcovered] at hk
  exact absurd hlt (Nat.not_lt_of_le hk)

/-- Behind the last whole pattern of two bytes one byte is left over. -/
theorem last_byte_not_filled :
    ∃ filled text, fill true ['f', 'f', 'f', 'f'] (List.replicate maxpacket 0) maxpacket =
        .ok (filled, text) ∧ ¬ Periodic (scanPattern ['f', 'f', 'f', 'f']) filled 65527 := by
  have hhex : ∀ c ∈ ['f', 'f', 'f', 'f'], isHexDigit c = true := List.all_eq_true.mp rfl
  obtain ⟨filled, hok, hfilled⟩ :=
    @fill_ok _ (List.replicate maxpacket 0) true (List.cons_ne_nil _ _) hhex List.length_replicate
  refine ⟨filled, _, hok, fun hperiodic => ?_⟩
  have hlast := hperiodic 65526 (by omega)
  have hcovered : covered (scanPattern ['f', 'f', 'f', 'f']) = 65526 := by decide
  rw [hfilled.outside (8 + 65526) (by omega), List.getD_replicate _ (by decide)] at hlast
  revert hlast
  decide

end Payload

end Iputils.FillPattern
