import Mathlib.Data.Vector.Basic

/-!
# Envelopes

What the bridge and its client keep from others goes into an envelope: three bytes of
header, a key for this envelope alone, the initial vector, the tag and the encrypted bytes.
Header and key are authenticated along with the rest. Curves, key derivation and cipher
come from libraries.
-/
set_option autoImplicit false

namespace Iputils.EciesEnvelope

section Code

/-- The libraries behind `brightlink_crypto.c`; a failure is `none`. -/
structure Crypto (Point : Type) where
  /-- `secp256k1_ec_pubkey_create` -/
  pubkeyCreate : List.Vector UInt8 32 → Option Point
  /-- `secp256k1_ec_pubkey_serialize`, uncompressed -/
  serialize65 : Point → List.Vector UInt8 65
  /-- `secp256k1_ec_pubkey_serialize`, compressed -/
  serialize33 : Point → List.Vector UInt8 33
  /-- `secp256k1_ec_pubkey_parse` -/
  pubkeyParse : List UInt8 → Option Point
  /-- `secp256k1_ecdh` with `blc_ecdh_xonly_cb` -/
  ecdh : Point → List.Vector UInt8 32 → Option (List UInt8)
  /-- `EVP_PKEY_derive` for HKDF with SHA-256, 32 bytes long, from key, salt and info -/
  hkdf : List UInt8 → List UInt8 → List UInt8 → Option (List UInt8)
  /-- AES-256-GCM from key, initial vector, additional data and plaintext -/
  gcmEncrypt : List UInt8 → List UInt8 → List UInt8 → List UInt8 →
    Option (List UInt8 × List.Vector UInt8 16)
  /-- AES-256-GCM from key, initial vector, additional data, encrypted bytes and tag -/
  gcmDecrypt : List UInt8 → List UInt8 → List UInt8 → List UInt8 → List UInt8 →
    Option (List UInt8)
  /-- the public key of a P-256 key, uncompressed -/
  p256Pub : List.Vector UInt8 32 → Option (List.Vector UInt8 65)
  /-- `EVP_DigestSignFinal` with SHA-256 -/
  p256Sign : List.Vector UInt8 32 → List UInt8 → Option (List UInt8)
  /-- `EVP_DigestVerifyFinal` for a key that can be decoded -/
  p256Verify : List.Vector UInt8 65 → List UInt8 → List UInt8 → Bool

variable {Point : Type} (c : Crypto Point)

/-- `DD_ECIES_VERSION_BYTE`, `DD_ECIES_CIPHER_SUITE`, `DD_ECIES_TYPE_BASIC` -/
def envelopeHeader : List UInt8 := [0x01, 0x01, 0x21]

/-- `DD_ECIES_HKDF_INFO` -/
def eciesInfo : List UInt8 :=
  [101, 99, 105, 101, 115, 45, 118, 50, 45, 107, 101, 121, 45, 100, 101, 114, 105, 118, 97, 116,
    105, 111, 110]

/-- `blc_secp_pub_uncompressed` -/
def blcSecpPubUncompressed (priv : List.Vector UInt8 32) : Option (List.Vector UInt8 65) :=
  (c.pubkeyCreate priv).map c.serialize65

/-- `blc_secp_pub_compressed` -/
def blcSecpPubCompressed (priv : List.Vector UInt8 32) : Option (List.Vector UInt8 33) :=
  (c.pubkeyCreate priv).map c.serialize33

def blcAesGcmEncrypt (key iv aad pt : List UInt8) : Option (List UInt8 × List.Vector UInt8 16) :=
  (c.gcmEncrypt key iv aad pt).filter fun r => r.1.length = pt.length

def blcAesGcmDecrypt (key iv aad ct tag : List UInt8) : Option (List UInt8) :=
  (c.gcmDecrypt key iv aad ct tag).filter fun pt => pt.length = ct.length

/-- `blc_verify_p256` -/
def blcVerifyP256 (pub65 : List.Vector UInt8 65) (msg sig : List UInt8) : Bool :=
  pub65.head = 0x04 && c.p256Verify pub65 msg sig

/-- The key of an envelope, from the secret that the two keys share. -/
def envelopeKey (peer : List UInt8) (priv : List.Vector UInt8 32) : Option (List UInt8) := do
  let peerPk ← c.pubkeyParse peer
  let sharedX ← c.ecdh peerPk priv
  c.hkdf sharedX [] eciesInfo

/-- `blc_ecies_encrypt`; the key of the envelope and the initial vector are drawn at random,
which can fail. -/
def blcEciesEncrypt (recipientPub65 plaintext : List UInt8)
    (ephPriv : Option (List.Vector UInt8 32)) (iv : Option (List.Vector UInt8 12)) :
    Option (List UInt8) := do
  let ephPriv ← ephPriv
  let ephPub ← blcSecpPubCompressed c ephPriv
  let key ← envelopeKey c recipientPub65 ephPriv
  let iv ← iv
  let (ct, tag) ← blcAesGcmEncrypt c key iv.toList (envelopeHeader ++ ephPub.toList) plaintext
  some (envelopeHeader ++ (ephPub.toList ++ (iv.toList ++ (tag.toList ++ ct))))

/-- `blc_ecies_decrypt` -/
def blcEciesDecrypt (recipientPriv : List.Vector UInt8 32) (envelope : List UInt8) :
    Option (List UInt8) :=
  let ephPub := (envelope.drop 3).take 33
  if envelope.length < 64 ∨ envelope.take 3 ≠ envelopeHeader ∨
      ephPub.head? ≠ some 0x02 ∧ ephPub.head? ≠ some 0x03 then none
  else do
    let key ← envelopeKey c ephPub recipientPriv
    blcAesGcmDecrypt c key ((envelope.drop 36).take 12) (envelopeHeader ++ ephPub)
      (envelope.drop 64) ((envelope.drop 48).take 16)

end Code

section Layout
variable {Point : Type} {c : Crypto Point}

/-- The parts of an envelope. -/
structure Parts where
  ephPub : List.Vector UInt8 33
  iv : List.Vector UInt8 12
  tag : List.Vector UInt8 16
  ct : List UInt8

def Parts.bytes (p : Parts) : List UInt8 :=
  envelopeHeader ++ (p.ephPub.toList ++ (p.iv.toList ++ (p.tag.toList ++ p.ct)))

theorem Parts.length_bytes (p : Parts) : p.bytes.length = 64 + p.ct.length := by
  simp only [bytes, List.length_append, List.Vector.toList_length]
  simp only [envelopeHeader, List.length_cons, List.length_nil]
  omega

theorem drop_take_front {α : Type} {front part rest : List α} {m n : ℕ} (hm : front.length = m)
    (hn : part.length = n) : ((front ++ (part ++ rest)).drop m).take n = part := by
  rw [List.drop_left' hm, List.take_left' hn]

theorem Parts.split (p : Parts) :
    p.bytes.take 3 = envelopeHeader ∧ (p.bytes.drop 3).take 33 = p.ephPub.toList ∧
      (p.bytes.drop 36).take 12 = p.iv.toList ∧ (p.bytes.drop 48).take 16 = p.tag.toList ∧
        p.bytes.drop 64 = p.ct := by
  have hpub := p.ephPub.toList_length
  have hiv := p.iv.toList_length
  have htag := p.tag.toList_length
  refine ⟨rfl, drop_take_front rfl hpub, ?_, ?_, ?_⟩
  · have hfront : (envelopeHeader ++ p.ephPub.toList).length = 36 := by
      rw [List.length_append, hpub]
      rfl
    rw [bytes, ← List.append_assoc]
    exact drop_take_front hfront hiv
  · have hfront : (envelopeHeader ++ (p.ephPub.toList ++ p.iv.toList)).length = 48 := by
      rw [List.length_append, List.length_append, hpub, hiv]
      rfl
    have hsplit : p.bytes =
        envelopeHeader ++ (p.ephPub.toList ++ p.iv.toList) ++ (p.tag.toList ++ p.ct) := by
      simp only [bytes, List.append_assoc]
    rw [hsplit]
    exact drop_take_front hfront htag
  · have hfront :
        (envelopeHeader ++ (p.ephPub.toList ++ (p.iv.toList ++ p.tag.toList))).length = 64 := by
      rw [List.length_append, List.length_append, List.length_append, hpub, hiv, htag]
      rfl
    have hsplit : p.bytes =
        envelopeHeader ++ (p.ephPub.toList ++ (p.iv.toList ++ p.tag.toList)) ++ p.ct := by
      simp only [bytes, List.append_assoc]
    rw [hsplit]
    exact List.drop_left' hfront

theorem Parts.bytes_inj {p q : Parts} (h : p.bytes = q.bytes) : p = q := by
  obtain ⟨-, hpub, hiv, htag, hct⟩ := p.split
  obtain ⟨-, hpub', hiv', htag', hct'⟩ := q.split
  rw [h] at hpub hiv htag hct
  obtain ⟨pub, iv, tag, ct⟩ := p
  obtain ⟨pub', iv', tag', ct'⟩ := q
  obtain rfl : pub = pub' := List.Vector.toList_injective (hpub.symm.trans hpub')
  obtain rfl : iv = iv' := List.Vector.toList_injective (hiv.symm.trans hiv')
  obtain rfl : tag = tag' := List.Vector.toList_injective (htag.symm.trans htag')
  obtain rfl : ct = ct' := hct.symm.trans hct'
  rfl

theorem take_drop_append {α : Type} (l : List α) (m n : ℕ) :
    (l.drop m).take n ++ l.drop (m + n) = l.drop m := by
  rw [← List.drop_drop, List.take_append_drop]

/-- Bytes of the right length and header are an envelope. -/
theorem exists_parts {envelope : List UInt8} (hlen : ¬ envelope.length < 64)
    (hheader : envelope.take 3 = envelopeHeader) : ∃ p : Parts, envelope = p.bytes := by
  refine ⟨⟨⟨(envelope.drop 3).take 33, by simp; omega⟩,
    ⟨(envelope.drop 36).take 12, by simp; omega⟩, ⟨(envelope.drop 48).take 16, by simp; omega⟩,
    envelope.drop 64⟩, ?_⟩
  have hpub := take_drop_append envelope 3 33
  have hiv := take_drop_append envelope 36 12
  have htag := take_drop_append envelope 48 16
  have hall := List.take_append_drop 3 envelope
  rw [hheader, ← hpub, ← hiv, ← htag] at hall
  exact hall.symm

theorem head?_toList (p : Parts) : p.ephPub.toList.head? = some p.ephPub.head := by
  obtain ⟨⟨l, hl⟩, iv, tag, ct⟩ := p
  cases l with
  | nil => cases hl
  | cons b l => rfl

variable {priv : List.Vector UInt8 32} {envelope pt : List UInt8}

theorem blcEciesDecrypt_bytes (p : Parts) : blcEciesDecrypt c priv p.bytes =
    if p.ephPub.head = 0x02 ∨ p.ephPub.head = 0x03 then
      (envelopeKey c p.ephPub.toList priv).bind fun key =>
        blcAesGcmDecrypt c key p.iv.toList (envelopeHeader ++ p.ephPub.toList) p.ct p.tag.toList
    else none := by
  obtain ⟨hheader, hpub, hiv, htag, hct⟩ := p.split
  have hlen : ¬ p.bytes.length < 64 := by
    rw [p.length_bytes]
    omega
  unfold blcEciesDecrypt
  simp only [hheader, hpub, hiv, htag, hct, hlen, head?_toList, Option.some.injEq, false_or, ne_eq,
    not_true_eq_false, ← not_or, ite_not]
  rfl

theorem blcEciesDecrypt_eq_some (p : Parts) : blcEciesDecrypt c priv p.bytes = some pt ↔
    (p.ephPub.head = 0x02 ∨ p.ephPub.head = 0x03) ∧
      ∃ key, envelopeKey c p.ephPub.toList priv = some key ∧ pt.length = p.ct.length ∧
        c.gcmDecrypt key p.iv.toList (envelopeHeader ++ p.ephPub.toList) p.ct p.tag.toList =
          some pt := by
  rw [blcEciesDecrypt_bytes]
  split_ifs with hhead
  · simp [hhead, Option.bind_eq_some_iff, blcAesGcmDecrypt, Option.filter_eq_some_iff, and_comm]
  · simp [hhead]

/-- What is accepted is an envelope in exactly one way, and header and key of it have been
authenticated together with the encrypted bytes. -/
theorem accepted_iff : blcEciesDecrypt c priv envelope = some pt ↔
    ∃! p : Parts, envelope = p.bytes ∧ (p.ephPub.head = 0x02 ∨ p.ephPub.head = 0x03) ∧
      ∃ key, envelopeKey c p.ephPub.toList priv = some key ∧ pt.length = p.ct.length ∧
        c.gcmDecrypt key p.iv.toList (envelopeHeader ++ p.ephPub.toList) p.ct p.tag.toList =
          some pt := by
  constructor
  · intro h
    have hshape : ¬ envelope.length < 64 ∧ envelope.take 3 = envelopeHeader := by
      by_contra hbad
      unfold blcEciesDecrypt at h
      rw [if_pos (by tauto)] at h
      cases h
    obtain ⟨p, rfl⟩ := exists_parts hshape.1 hshape.2
    exact ⟨p, ⟨rfl, (blcEciesDecrypt_eq_some p).mp h⟩, fun q hq => Parts.bytes_inj hq.1.symm⟩
  · rintro ⟨p, ⟨rfl, hp⟩, -⟩
    exact (blcEciesDecrypt_eq_some p).mpr hp

end Layout

section RoundTrip
variable {Point : Type} {c : Crypto Point} {P : Point}

/-- What the documentation of the libraries says. -/
structure Crypto.Lawful (c : Crypto Point) : Prop where
  parse65 : ∀ P, c.pubkeyParse (c.serialize65 P).toList = some P
  parse33 : ∀ P, c.pubkeyParse (c.serialize33 P).toList = some P
  head65 : ∀ P, (c.serialize65 P).head = 0x04
  head33 : ∀ P, (c.serialize33 P).head = 0x02 ∨ (c.serialize33 P).head = 0x03
  agree : ∀ a b A B, c.pubkeyCreate a = some A → c.pubkeyCreate b = some B →
    c.ecdh A b = c.ecdh B a
  decrypt : ∀ key iv aad pt ct tag, c.gcmEncrypt key iv aad pt = some (ct, tag) →
    c.gcmDecrypt key iv aad ct tag.toList = some pt
  head256 : ∀ priv pub, c.p256Pub priv = some pub → pub.head = 0x04
  verify : ∀ priv pub msg sig, c.p256Pub priv = some pub → c.p256Sign priv msg = some sig →
    c.p256Verify pub msg sig = true

/-- Both keys lead to the key of the envelope. -/
theorem envelopeKey_agree (hc : c.Lawful) {priv ephPriv : List.Vector UInt8 32} {E : Point}
    (hP : c.pubkeyCreate priv = some P) (hE : c.pubkeyCreate ephPriv = some E) :
    envelopeKey c (c.serialize33 E).toList priv =
      envelopeKey c (c.serialize65 P).toList ephPriv := by
  unfold envelopeKey
  rw [hc.parse33, hc.parse65]
  simp only [Option.bind_eq_bind, Option.bind_some, hc.agree _ _ _ _ hP hE]

/-- The owner of the key opens what has been sealed for it. -/
theorem decrypt_sealed (hc : c.Lawful) {priv ephPriv : List.Vector UInt8 32} {E : Point}
    (hP : c.pubkeyCreate priv = some P) (hE : c.pubkeyCreate ephPriv = some E)
    {key pt ct : List UInt8} {iv : List.Vector UInt8 12} {tag : List.Vector UInt8 16}
    (hkey : envelopeKey c (c.serialize65 P).toList ephPriv = some key)
    (hgcm : c.gcmEncrypt key iv.toList (envelopeHeader ++ (c.serialize33 E).toList) pt =
      some (ct, tag)) (hlen : ct.length = pt.length) :
    blcEciesDecrypt c priv (Parts.bytes ⟨c.serialize33 E, iv, tag, ct⟩) = some pt ∧
      (Parts.bytes ⟨c.serialize33 E, iv, tag, ct⟩).length = 64 + pt.length := by
  refine ⟨(blcEciesDecrypt_eq_some _).mpr ⟨hc.head33 E, key, ?_, hlen.symm, ?_⟩, ?_⟩
  · rw [envelopeKey_agree hc hP hE, hkey]
  · exact hc.decrypt _ _ _ _ _ _ hgcm
  · rw [Parts.length_bytes, hlen]

/-- The owner of the key reads what was put into the envelope. -/
theorem decrypt_encrypt {priv : List.Vector UInt8 32} {pt envelope : List UInt8}
    {ephPriv : Option (List.Vector UInt8 32)} {iv : Option (List.Vector UInt8 12)}
    (hc : c.Lawful) (hP : c.pubkeyCreate priv = some P)
    (henc : blcEciesEncrypt c (c.serialize65 P).toList pt ephPriv iv = some envelope) :
    blcEciesDecrypt c priv envelope = some pt ∧ envelope.length = 64 + pt.length := by
  unfold blcEciesEncrypt at henc
  simp only [Option.bind_eq_bind, Option.bind_eq_some_iff] at henc
  obtain ⟨ephPriv, rfl, ephPub, hpub, key, hkey, iv, rfl, ⟨ct, tag⟩, hgcm, henv⟩ := henc
  obtain ⟨E, hE, rfl⟩ := Option.map_eq_some_iff.mp hpub
  obtain ⟨hgcm, hlen⟩ := Option.filter_eq_some_iff.mp hgcm
  obtain rfl := Option.some.inj henv
  exact decrypt_sealed hc hP hE hkey hgcm (by simpa using hlen)

/-! Keys that are their own public keys, and a cipher that hides nothing. -/

theorem length_fixed {n : ℕ} {l : List UInt8} :
    ((l ++ List.replicate n 0).take n).length = n := by
  simp

/-- The first bytes of a list, with zeros where it is too short. -/
def fixed (n : ℕ) (l : List UInt8) : List.Vector UInt8 n :=
  ⟨(l ++ List.replicate n 0).take n, length_fixed⟩

def openCrypto : Crypto (List.Vector UInt8 32) where
  pubkeyCreate priv := some priv
  serialize65 P := fixed 65 (0x04 :: P.toList)
  serialize33 P := fixed 33 (0x02 :: P.toList)
  pubkeyParse bytes := some (fixed 32 (bytes.drop 1))
  ecdh P priv := some (List.zipWith (· ^^^ ·) P.toList priv.toList)
  hkdf ikm salt info := some (fixed 32 (ikm ++ salt ++ info)).toList
  gcmEncrypt _ _ _ pt := some (pt, fixed 16 [])
  gcmDecrypt _ _ _ ct tag := if tag = (fixed 16 []).toList then some ct else none
  p256Pub priv := some (fixed 65 (0x04 :: priv.toList))
  p256Sign priv _ := some (fixed 65 (0x04 :: priv.toList)).toList
  p256Verify pub _ sig := sig = pub.toList

theorem fixed_of_front {n : ℕ} {v : List.Vector UInt8 n} {l : List UInt8}
    (h : v.toList <+: l) : fixed n l = v := by
  obtain ⟨rest, rfl⟩ := h
  apply List.Vector.toList_injective
  change ((v.toList ++ rest ++ List.replicate n 0).take n) = v.toList
  rw [List.append_assoc]
  exact List.take_left' v.toList_length

theorem fixed_toList {n : ℕ} {l : List UInt8} (h : l.length ≤ n) : l <+: (fixed n l).toList := by
  change l <+: (l ++ List.replicate n 0).take n
  rw [List.take_append, List.take_of_length_le h]
  exact List.prefix_append _ _

theorem parse_open {n : ℕ} (b : UInt8) (P : List.Vector UInt8 32) (h : 33 ≤ n) :
    openCrypto.pubkeyParse (fixed n (b :: P.toList)).toList = some P := by
  have hlen : (b :: P.toList).length ≤ n := by
    rw [List.length_cons, P.toList_length]
    omega
  obtain ⟨rest, hrest⟩ := fixed_toList hlen
  change some (fixed 32 ((fixed n (b :: P.toList)).toList.drop 1)) = some P
  rw [← hrest]
  exact congrArg some (fixed_of_front (List.prefix_append _ _))

theorem lawful_openCrypto : openCrypto.Lawful where
  parse65 P := parse_open _ P (by decide)
  parse33 P := parse_open _ P (by decide)
  head65 _ := rfl
  head33 _ := Or.inl rfl
  agree a b A B hA hB := by
    obtain rfl := Option.some.inj hA
    obtain rfl := Option.some.inj hB
    exact congrArg some (List.zipWith_comm_of_comm UInt8.xor_comm)
  decrypt key iv aad pt ct tag h := by
    obtain ⟨rfl, rfl⟩ := Prod.mk.inj (Option.some.inj h)
    change (if (fixed 16 []).toList = (fixed 16 []).toList then some pt else none) = some pt
    exact if_pos rfl
  head256 priv pub h := by
    obtain rfl := Option.some.inj h
    rfl
  verify priv pub msg sig hpub hsig := by
    obtain rfl := Option.some.inj hpub
    obtain rfl := Option.some.inj hsig
    exact decide_eq_true rfl

theorem decrypt_encrypt_open : blcEciesDecrypt openCrypto (fixed 32 [1])
    (envelopeHeader ++ ((fixed 33 [0x02, 2]).toList ++ ((fixed 12 [3]).toList ++
      ((fixed 16 []).toList ++ [7])))) = some [7] ∧
    (envelopeHeader ++ ((fixed 33 [0x02, 2]).toList ++ ((fixed 12 [3]).toList ++
      ((fixed 16 []).toList ++ [7])))).length = 64 + [(7 : UInt8)].length :=
  decrypt_encrypt lawful_openCrypto rfl
    (show blcEciesEncrypt openCrypto (openCrypto.serialize65 (fixed 32 [1])).toList [7]
      (some (fixed 32 [2])) (some (fixed 12 [3])) = some _ from rfl)

end RoundTrip

end Iputils.EciesEnvelope
