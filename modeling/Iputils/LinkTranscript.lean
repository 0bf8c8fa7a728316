import Mathlib.Data.Vector.Basic
import Iputils.Binary64
import Iputils.NumeralText
import Iputils.PrintedTimes

/-!
# The transcript of a registration

Both parties put what they have agreed on into 238 bytes; the bridge signs them and the
client checks the signature over its own copy. The day of the client goes over the wire
with six decimals, so each of the two finds the second in it on its own.
-/
set_option autoImplicit false

namespace Iputils.LinkTranscript
open MachineInt ScanText NumeralText LineTimes PrintfText PrintedTimes

section Code

/-- The lowest bytes of a number, the most significant first. -/
def bigEndian : ℕ → ℕ → List UInt8
  | 0, _ => []
  | w + 1, v => UInt8.ofNat (v / 256 ^ w) :: bigEndian w v

def blcLe32 (v : ℕ) : List UInt8 := (bigEndian 4 v).reverse

def blcBe64 (v : ℕ) : List UInt8 := bigEndian 8 v

/-- `BL_TRANSCRIPT_HEADER` with its null byte. -/
def transcriptHeader : List UInt8 :=
  [66, 114, 105, 103, 104, 116, 76, 105, 110, 107, 32, 118, 49, 32, 116, 114, 97, 110, 115, 99,
    114, 105, 112, 116, 0]

/-- What the parties contribute, each in its array. -/
structure Shares where
  clientNonce : List.Vector UInt8 16
  clientPub65 : List.Vector UInt8 65
  clientShare : List.Vector UInt8 32
  sessionId : List.Vector UInt8 16
  bridgeShare : List.Vector UInt8 32
deriving DecidableEq

/-- `(int64_t)(issued_at_bd * 86400.0 + 0.5)` -/
def issuedAtUnix (issuedAtBd : ℚ) : ℤ :=
  Binary64.truncate (Binary64.ofRat (Binary64.ofRat (issuedAtBd * 86400) + 1 / 2))

/-- A value with its length in front. -/
def item (bytes : List UInt8) : List UInt8 := blcLe32 bytes.length ++ bytes

/-- `build_transcript` -/
def buildTranscript (shares : Shares) (issuedAtBd : ℚ) (bridgeIssuedAtUnix ttlSeconds : ℤ) :
    List UInt8 :=
  transcriptHeader ++ item shares.clientNonce.toList ++ item shares.clientPub65.toList ++
    item shares.clientShare.toList ++ item shares.sessionId.toList ++
    item shares.bridgeShare.toList ++ item (blcBe64 (u64 (issuedAtUnix issuedAtBd)).toNat) ++
    item (blcBe64 (u64 bridgeIssuedAtUnix).toNat) ++ item (bigEndian 4 (u32 ttlSeconds).toNat)

/-- `(double)time(NULL) / 86400.0` -/
def issuedAtBd (now : ℤ) : ℚ := Binary64.ofRat (Binary64.ofRat now / 86400)

/-- `%.6f` of a number that is not negative. -/
def fixedText (x : ℚ) : List Char :=
  let n := Binary64.nearestEven (x * 10 ^ 6)
  decText (n / 10 ^ 6) ++ '.' :: padText 6 (n % 10 ^ 6)

/-- `strtod`. An infinity, which has no conversion to an integer, is left out. -/
def strtod (s : List Char) : ℚ :=
  match strtodItem (s.dropWhile isSpace) with
  | some i => ((floatValue i.1).map Binary64.ofRat).getD 0
  | none => 0

end Code

section Layout
variable {w v v' : ℕ}

theorem length_bigEndian (w v : ℕ) : (bigEndian w v).length = w := by
  induction w with
  | zero => rfl
  | succ w ih => rw [bigEndian, List.length_cons, ih]

/-- The bytes determine what fits into them. -/
theorem bigEndian_inj : bigEndian w v = bigEndian w v' ↔ v % 256 ^ w = v' % 256 ^ w := by
  induction w with
  | zero => simp [bigEndian, Nat.mod_one]
  | succ w ih =>
      have hbyte : UInt8.ofNat (v / 256 ^ w) = UInt8.ofNat (v' / 256 ^ w) ↔
          v / 256 ^ w % 256 = v' / 256 ^ w % 256 := by
        rw [← UInt8.toNat_inj, UInt8.toNat_ofNat', UInt8.toNat_ofNat']
      have hpos : 0 < 256 ^ w := by positivity
      rw [bigEndian, bigEndian, List.cons.injEq, hbyte, ih, pow_succ, Nat.mod_mul, Nat.mod_mul]
      constructor
      · rintro ⟨hhigh, hlow⟩
        rw [hhigh, hlow]
      · intro h
        have hlow : v % 256 ^ w = v' % 256 ^ w := by
          have hmod := congrArg (· % 256 ^ w) h
          simpa [Nat.add_mul_mod_self_left] using hmod
        rw [hlow] at h
        exact ⟨Nat.eq_of_mul_eq_mul_left hpos (Nat.add_left_cancel h), hlow⟩

theorem length_item (bytes : List UInt8) : (item bytes).length = bytes.length + 4 := by
  rw [item, List.length_append, blcLe32, List.length_reverse, length_bigEndian, Nat.add_comm]

/-- Values of one length are told apart, whatever stands in front of them. -/
theorem append_item_inj {front front' bytes bytes' : List UInt8}
    (hlen : bytes.length = bytes'.length) :
    front ++ item bytes = front' ++ item bytes' ↔ front = front' ∧ bytes = bytes' := by
  constructor
  · intro h
    obtain ⟨hfront, hitem⟩ := List.append_inj' h (by rw [length_item, length_item, hlen])
    rw [item, item, hlen] at hitem
    exact ⟨hfront, List.append_cancel_left hitem⟩
  · rintro ⟨rfl, rfl⟩
    rfl

theorem bigEndian_u64 {x y : ℤ} : bigEndian 8 (u64 x).toNat = bigEndian 8 (u64 y).toNat ↔
    u64 x = u64 y := by
  rw [bigEndian_inj]
  unfold u64
  omega

theorem bigEndian_u32 {x y : ℤ} : bigEndian 4 (u32 x).toNat = bigEndian 4 (u32 y).toNat ↔
    u32 x = u32 y := by
  rw [bigEndian_inj]
  unfold u32
  omega

/-- A transcript determines everything that goes into it, up to the width of its integers. -/
theorem buildTranscript_inj {shares shares' : Shares} {bd bd' : ℚ} {issued issued' ttl ttl' : ℤ} :
    buildTranscript shares bd issued ttl = buildTranscript shares' bd' issued' ttl' ↔
      shares = shares' ∧ u64 (issuedAtUnix bd) = u64 (issuedAtUnix bd') ∧
        u64 issued = u64 issued' ∧ u32 ttl = u32 ttl' := by
  obtain ⟨nonce, pub, share, session, bridge⟩ := shares
  obtain ⟨nonce', pub', share', session', bridge'⟩ := shares'
  unfold buildTranscript
  rw [append_item_inj (by simp only [length_bigEndian]),
    append_item_inj (by simp only [blcBe64, length_bigEndian]),
    append_item_inj (by simp only [blcBe64, length_bigEndian]),
    append_item_inj (by simp only [List.Vector.toList_length]),
    append_item_inj (by simp only [List.Vector.toList_length]),
    append_item_inj (by simp only [List.Vector.toList_length]),
    append_item_inj (by simp only [List.Vector.toList_length]),
    append_item_inj (by simp only [List.Vector.toList_length])]
  simp only [blcBe64, bigEndian_u64, bigEndian_u32, List.Vector.toList_injective.eq_iff, true_and,
    Shares.mk.injEq, and_assoc]

end Layout

section Clock
variable {t : ℤ}

/-- How near a product with the length of a day comes to the second it was made from. -/
theorem product_near {bd : ℚ} (h0 : 0 ≤ t) (ht : t < 2 ^ 40)
    (h : |bd - t / 86400| ≤ 1 / 1000000) : issuedAtUnix bd = t := by
  have h0' : (0 : ℚ) ≤ t := by exact_mod_cast h0
  have ht' : (t : ℚ) < 2 ^ 40 := by exact_mod_cast ht
  have hday : |bd * 86400 - t| ≤ 1 / 10 := by
    have hfactor : bd * 86400 - t = (bd - t / 86400) * 86400 := by ring
    rw [hfactor, abs_mul, abs_of_pos (show (0 : ℚ) < 86400 by norm_num)]
    linarith
  obtain ⟨hlow, hhigh⟩ := abs_le.mp hday
  have hproduct : |Binary64.ofRat (bd * 86400) - t| ≤ 1 / 10 + 2 ^ 41 / 2 ^ 53 :=
    Binary64.ofRat_near (abs_le.mpr ⟨by linarith, by linarith⟩) hday
  obtain ⟨hlow', hhigh'⟩ := abs_le.mp hproduct
  have hsum : |Binary64.ofRat (bd * 86400) + 1 / 2 - (t + 1 / 2)| ≤ 1 / 10 + 2 ^ 41 / 2 ^ 53 := by
    rw [add_sub_add_right_eq_sub]
    exact hproduct
  have hbound : |Binary64.ofRat (bd * 86400) + 1 / 2| ≤ 2 ^ 41 :=
    abs_le.mpr ⟨by linarith, by linarith⟩
  have hround := Binary64.ofRat_near hbound hsum
  obtain ⟨hlow'', hhigh''⟩ := abs_le.mp hround
  exact Binary64.truncate_eq h0 (by linarith) (by linarith)

theorem issuedAtBd_near (h0 : 0 ≤ t) (ht : t < 2 ^ 40) :
    |issuedAtBd t - t / 86400| ≤ 1 / 10 ^ 8 := by
  have h0' : (0 : ℚ) ≤ t := by exact_mod_cast h0
  have ht' : (t : ℚ) < 2 ^ 40 := by exact_mod_cast ht
  have hnow : |Binary64.ofRat (t : ℚ) - t| ≤ 0 + 2 ^ 40 / 2 ^ 53 :=
    Binary64.ofRat_near (abs_le.mpr ⟨by linarith, ht'.le⟩) (by simp)
  obtain ⟨hlow, hhigh⟩ := abs_le.mp hnow
  have hday : |Binary64.ofRat (t : ℚ) / 86400 - t / 86400| ≤ 1 / 2 ^ 13 / 86400 := by
    rw [← sub_div, abs_div, abs_of_pos (show (0 : ℚ) < 86400 by norm_num)]
    exact div_le_div_of_nonneg_right (by linarith) (by norm_num)
  have hbound : |Binary64.ofRat (t : ℚ) / 86400| ≤ 2 ^ 41 / 86400 := by
    rw [abs_div, abs_of_pos (show (0 : ℚ) < 86400 by norm_num)]
    exact div_le_div_of_nonneg_right (abs_le.mpr ⟨by linarith, by linarith⟩) (by norm_num)
  exact (Binary64.ofRat_near hbound hday).trans (by norm_num)

theorem issuedAtBd_nonneg (h0 : 0 ≤ t) : 0 ≤ issuedAtBd t := by
  have h0' : (0 : ℚ) ≤ t := by exact_mod_cast h0
  exact Binary64.ofRat_nonneg (div_nonneg (Binary64.ofRat_nonneg h0') (by norm_num))

theorem issued_client (h0 : 0 ≤ t) (ht : t < 2 ^ 40) : issuedAtUnix (issuedAtBd t) = t :=
  product_near h0 ht ((issuedAtBd_near h0 ht).trans (by norm_num))

theorem number_pointed {m n : ℤ} (hm : 0 ≤ m) (hn : 0 ≤ n) :
    JsonNumber (decText m ++ '.' :: padText 6 n) := by
  have hwhole : Digits (decText m) := by
    rw [decText, if_neg (by omega)]
    exact ⟨Nat.toDigits_ne_nil, fun c hc => isDigit_toDigits hc⟩
  have hplaces : Digits (padText 6 n) := by
    rw [padText, if_neg (by omega)]
    exact ⟨List.append_ne_nil_of_right_ne_nil _ Nat.toDigits_ne_nil,
      forall_padDigits 6 n.natAbs⟩
  have hshape := JsonNumber.mk (Or.inl rfl) hwhole (Or.inr ⟨_, rfl, hplaces⟩) (Or.inl rfl)
  simpa using hshape

/-- Six decimals are read back as the nearest multiple of their unit. -/
theorem strtod_fixedText {x : ℚ} (hx : 0 ≤ x) {rest : List Char} (hrest : Ends rest) :
    strtod (fixedText x ++ rest) =
      Binary64.ofRat (Binary64.nearestEven (x * 10 ^ 6) / 10 ^ 6 : ℚ) := by
  have hn : 0 ≤ Binary64.nearestEven (x * 10 ^ 6) :=
    Binary64.nearestEven_nonneg (by positivity)
  unfold fixedText
  generalize Binary64.nearestEven (x * 10 ^ 6) = n at hn
  have hwhole : 0 ≤ n / 10 ^ 6 := by positivity
  have hplaces : 0 ≤ n % 10 ^ 6 ∧ n % 10 ^ 6 < 10 ^ 6 := by omega
  have hnumber := number_pointed hwhole hplaces.1
  have hitem : strtodItem ((decText (n / 10 ^ 6) ++ '.' :: padText 6 (n % 10 ^ 6) ++
      rest).dropWhile isSpace) =
        some (decText (n / 10 ^ 6) ++ '.' :: padText 6 (n % 10 ^ 6), rest) := by
    rw [hnumber.not_space]
    exact strtodItem_number hnumber hrest
  have hvalue : ((n / 10 ^ 6 : ℤ) : ℚ) + ((n % 10 ^ 6 : ℤ) : ℚ) / 10 ^ 6 = n / 10 ^ 6 := by
    have hsplit : ((n / 10 ^ 6 * 10 ^ 6 + n % 10 ^ 6 : ℤ) : ℚ) = n := by
      rw [Int.ediv_mul_add_emod]
    push_cast at hsplit ⊢
    linarith
  rw [strtod, hitem]
  simp only [floatValue_pointed (w := 6) (by decide) hwhole hplaces.1 (by omega), hvalue,
    Option.map_some, Option.getD_some]

/-- The bridge finds the second from six decimals of the day. -/
theorem issued_bridge (h0 : 0 ≤ t) (ht : t < 2 ^ 40) {rest : List Char} (hrest : Ends rest) :
    issuedAtUnix (strtod (fixedText (issuedAtBd t) ++ rest)) = t := by
  refine product_near h0 ht ?_
  have h0' : (0 : ℚ) ≤ t := by exact_mod_cast h0
  have ht' : (t : ℚ) < 2 ^ 40 := by exact_mod_cast ht
  have hday := issuedAtBd_near h0 ht
  rw [strtod_fixedText (issuedAtBd_nonneg h0) hrest]
  generalize issuedAtBd t = bd at hday
  have hprinted : |(Binary64.nearestEven (bd * 10 ^ 6) / 10 ^ 6 : ℚ) - bd| ≤ 1 / 2 / 10 ^ 6 := by
    have hfactor : (Binary64.nearestEven (bd * 10 ^ 6) / 10 ^ 6 : ℚ) - bd =
        (Binary64.nearestEven (bd * 10 ^ 6) - bd * 10 ^ 6) / 10 ^ 6 := by
      rw [sub_div, mul_div_cancel_right₀ _ (by norm_num)]
    rw [hfactor, abs_div, abs_of_pos (show (0 : ℚ) < 10 ^ 6 by norm_num)]
    exact div_le_div_of_nonneg_right (Binary64.nearestEven_sub _) (by norm_num)
  generalize (Binary64.nearestEven (bd * 10 ^ 6) / 10 ^ 6 : ℚ) = p at hprinted
  obtain ⟨hlow, hhigh⟩ := abs_le.mp hday
  obtain ⟨hlow', hhigh'⟩ := abs_le.mp hprinted
  have hp : |p| ≤ 2 ^ 25 := abs_le.mpr ⟨by linarith, by linarith⟩
  have hnear : |p - t / 86400| ≤ 6 / 10 ^ 7 := abs_le.mpr ⟨by linarith, by linarith⟩
  exact (Binary64.ofRat_near hp hnear).trans (by norm_num)

/-- The two parties find the same second, and it is the one the client started from. -/
theorem issued_agree (h0 : 0 ≤ t) (ht : t < 2 ^ 40) {rest : List Char} (hrest : Ends rest) :
    issuedAtUnix (issuedAtBd t) = t ∧
      issuedAtUnix (strtod (fixedText (issuedAtBd t) ++ rest)) = t :=
  ⟨issued_client h0 ht, issued_bridge h0 ht hrest⟩

theorem issued_agree_sample : issuedAtUnix (issuedAtBd 1700000000) = 1700000000 ∧
    issuedAtUnix (strtod (fixedText (issuedAtBd 1700000000) ++ [','])) = 1700000000 :=
  issued_agree (by decide) (by decide) (by simp [Ends, enders])

end Clock

end Iputils.LinkTranscript
